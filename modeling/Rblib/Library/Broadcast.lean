import Mathlib.Data.List.Induction
import Mathlib.Logic.Function.Basic

/-! Broadcast channels, taken by their operations. -/

namespace Rblib.Library

variable {V R : Type}

inductive Received (V : Type)
  | value (v : V)
  | lagged (missed : ℕ)
  | empty

structure BroadcastChannels (V R : Type) where
  Channel : Type
  new : Channel
  send : V → Channel → Channel
  subscribe : R → Channel → Channel
  recv : R → Channel → Received V × Channel
  drop : R → Channel → Channel

/-- `Models log next channel`: the messages of `log` were sent over the channel, and of these a
receiver at the place `p` has those from `p` on before it. -/
structure BroadcastChannels.Laws [DecidableEq R] (C : BroadcastChannels V R) (capacity : ℕ) where
  Models : List V → (R → Option ℕ) → C.Channel → Prop
  new : Models [] (fun _ => none) C.new
  send : ∀ {log next channel} v, Models log next channel → Models (log ++ [v]) next (C.send v channel)
  subscribe : ∀ {log next channel r}, Models log next channel → next r = none →
    Models log (Function.update next r (some log.length)) (C.subscribe r channel)
  drop : ∀ {log next channel} r, Models log next channel →
    Models log (Function.update next r none) (C.drop r channel)
  lagged : ∀ {log next channel r p}, Models log next channel → next r = some p → p + capacity < log.length →
    ∃ channel', C.recv r channel = (.lagged (log.length - capacity - p), channel') ∧
      Models log (Function.update next r (some (log.length - capacity))) channel'
  value : ∀ {log next channel r p} (hlt : p < log.length), Models log next channel → next r = some p →
    log.length ≤ p + capacity → ∃ channel', C.recv r channel = (.value log[p], channel') ∧
      Models log (Function.update next r (some (p + 1))) channel'
  empty : ∀ {log next channel r}, Models log next channel → next r = some log.length →
    ∃ channel', C.recv r channel = (.empty, channel') ∧ Models log next channel'

/-- The queue of one receiver. It is cut to the capacity when the receiver comes to it. -/
structure Inbox (V : Type) where
  pending : List V := []
  received : List V := []
  lost : List V := []

inductive InboxOp (V : Type)
  | send (v : V)
  | recv

namespace Inbox

def recv (capacity : ℕ) (box : Inbox V) : Inbox V :=
  if capacity < box.pending.length then
    { box with
      pending := box.pending.drop (box.pending.length - capacity)
      lost := box.lost ++ box.pending.take (box.pending.length - capacity) }
  else match box.pending with
    | [] => box
    | v :: rest => { box with pending := rest, received := box.received ++ [v] }

def step (capacity : ℕ) (box : Inbox V) : InboxOp V → Inbox V
  | .send v => { box with pending := box.pending ++ [v] }
  | .recv => box.recv capacity

def run (capacity : ℕ) (ops : List (InboxOp V)) : Inbox V := ops.foldl (step capacity) {}

def sends (ops : List (InboxOp V)) : List V :=
  ops.filterMap fun op => match op with
    | .send v => some v
    | .recv => none

variable {capacity : ℕ} {box : Inbox V} {ops : List (InboxOp V)}

lemma run_snoc (ops : List (InboxOp V)) (op : InboxOp V) :
    run capacity (ops ++ [op]) = (run capacity ops).step capacity op := by
  rw [run, List.foldl_append]
  rfl

lemma sends_snoc_send (ops : List (InboxOp V)) (v : V) : sends (ops ++ [.send v]) = sends ops ++ [v] := by
  simp [sends]

lemma sends_snoc_recv (ops : List (InboxOp V)) : sends (ops ++ [.recv]) = sends ops := by simp [sends]

lemma recv_cases (capacity : ℕ) (box : Inbox V) :
    (capacity < box.pending.length ∧ ∃ old kept, box.pending = old ++ kept ∧ old ≠ [] ∧
      box.recv capacity = { box with pending := kept, lost := box.lost ++ old }) ∨
    (box.pending.length ≤ capacity ∧ (box.pending = [] ∧ box.recv capacity = box ∨
      ∃ v rest, box.pending = v :: rest ∧
      box.recv capacity = { box with pending := rest, received := box.received ++ [v] })) := by
  rw [recv]
  split
  · next h =>
    refine .inl ⟨h, _, _, (List.take_append_drop _ _).symm, ?_, rfl⟩
    intro hnil
    have hlength := congrArg List.length hnil
    rw [List.length_take, List.length_nil] at hlength
    omega
  · next h =>
    refine .inr ⟨Nat.le_of_not_lt h, ?_⟩
    cases hp : box.pending with
    | nil => exact .inl ⟨rfl, rfl⟩
    | cons v rest => exact .inr ⟨v, rest, rfl, rfl⟩

lemma run_sublist (capacity : ℕ) (ops : List (InboxOp V)) :
    ((run capacity ops).received ++ (run capacity ops).pending).Sublist (sends ops) := by
  induction ops using List.reverseRecOn with
  | nil => exact List.Sublist.refl _
  | append_singleton ops op ih =>
    rw [run_snoc]
    cases op with
    | send v =>
      rw [sends_snoc_send, step, ← List.append_assoc]
      exact ih.append (List.Sublist.refl _)
    | recv =>
      rw [sends_snoc_recv, step]
      obtain ⟨-, old, kept, hpending, -, heq⟩ | ⟨-, ⟨-, heq⟩ | ⟨v, rest, hpending, heq⟩⟩ :=
        recv_cases capacity (run capacity ops)
      · rw [heq]
        rw [hpending] at ih
        exact ((List.Sublist.refl _).append (List.sublist_append_right old kept)).trans ih
      · rw [heq]
        exact ih
      · rw [heq]
        rw [hpending] at ih
        simpa using ih

lemma run_perm (capacity : ℕ) (ops : List (InboxOp V)) :
    ((run capacity ops).received ++ (run capacity ops).lost ++ (run capacity ops).pending).Perm (sends ops) := by
  induction ops using List.reverseRecOn with
  | nil => exact List.Perm.refl _
  | append_singleton ops op ih =>
    rw [run_snoc]
    cases op with
    | send v =>
      rw [sends_snoc_send, step, ← List.append_assoc]
      exact ih.append_right _
    | recv =>
      rw [sends_snoc_recv, step]
      obtain ⟨-, old, kept, hpending, -, heq⟩ | ⟨-, ⟨-, heq⟩ | ⟨v, rest, hpending, heq⟩⟩ :=
        recv_cases capacity (run capacity ops)
      · rw [heq]
        rw [hpending] at ih
        simpa using ih
      · rw [heq]
        exact ih
      · rw [heq]
        rw [hpending] at ih
        refine List.Perm.trans ?_ ih
        simp only [List.append_assoc, List.singleton_append]
        exact (List.perm_middle.symm).append_left _

lemma lost_iff (capacity : ℕ) (ops : List (InboxOp V)) : (run capacity ops).lost ≠ [] ↔
    ∃ before after, ops = before ++ .recv :: after ∧ capacity < (run capacity before).pending.length := by
  induction ops using List.reverseRecOn with
  | nil => simp [run]
  | append_singleton ops op ih =>
    have hsplit : (∃ before after, ops ++ [op] = before ++ .recv :: after ∧
        capacity < (run capacity before).pending.length) ↔
        (op = .recv ∧ capacity < (run capacity ops).pending.length) ∨ (run capacity ops).lost ≠ [] := by
      rw [ih]
      constructor
      · rintro ⟨before, after, heq, hlag⟩
        obtain rfl | ⟨after', last, rfl⟩ := List.eq_nil_or_concat after
        · obtain ⟨rfl, hop⟩ := List.append_inj' heq rfl
          exact .inl ⟨(List.singleton_inj.mp hop), hlag⟩
        · rw [List.concat_eq_append, ← List.cons_append, ← List.append_assoc] at heq
          obtain ⟨rfl, -⟩ := List.append_inj' heq rfl
          exact .inr ⟨before, after', rfl, hlag⟩
      · rintro (⟨rfl, hlag⟩ | ⟨before, after, rfl, hlag⟩)
        · exact ⟨ops, [], rfl, hlag⟩
        · exact ⟨before, after ++ [op], by simp, hlag⟩
    rw [hsplit, run_snoc]
    cases op with
    | send v => simp [step]
    | recv =>
      rw [step]
      obtain ⟨hlag, old, kept, -, hold, heq⟩ | ⟨hlag, ⟨-, heq⟩ | ⟨v, rest, -, heq⟩⟩ :=
        recv_cases capacity (run capacity ops)
      · simp [heq, hlag, hold]
      · simp [heq, Nat.not_lt.mpr hlag]
      · simp [heq, Nat.not_lt.mpr hlag]

lemma run_lossless (h : (run capacity ops).lost = []) :
    (run capacity ops).received ++ (run capacity ops).pending = sends ops := by
  have hperm := run_perm capacity ops
  rw [h, List.append_nil] at hperm
  exact (run_sublist capacity ops).eq_of_length hperm.length_eq

end Inbox

section Receiver

variable [DecidableEq R] {C : BroadcastChannels V R} {capacity : ℕ} {channel : C.Channel} {log : List V}
  {next : R → Option ℕ} {r : R} {p : ℕ} {box : Inbox V}

lemma BroadcastChannels.Laws.recv_inbox (laws : C.Laws capacity) (h : laws.Models log next channel)
    (hp : next r = some p) (hle : p ≤ log.length) (hpending : box.pending = log.drop p) :
    ∃ p', laws.Models log (Function.update next r (some p')) (C.recv r channel).2 ∧ p' ≤ log.length ∧
      (box.recv capacity).pending = log.drop p' ∧
      ((∃ v, (C.recv r channel).1 = .value v ∧ v ∈ log ∧ (box.recv capacity).received = box.received ++ [v]) ∨
        (∀ v, (C.recv r channel).1 ≠ .value v) ∧ (box.recv capacity).received = box.received) := by
  have hlength : box.pending.length = log.length - p := by rw [hpending, List.length_drop]
  rw [Inbox.recv]
  by_cases hlag : p + capacity < log.length
  · obtain ⟨channel', hrecv, hmodels⟩ := laws.lagged h hp hlag
    rw [if_pos (by omega), hrecv]
    refine ⟨_, hmodels, Nat.sub_le _ _, ?_, .inr ⟨fun v hv => (by cases hv), rfl⟩⟩
    dsimp only
    rw [hpending, List.drop_drop, List.length_drop]
    congr 1
    omega
  · rw [if_neg (by omega)]
    by_cases hend : p < log.length
    · obtain ⟨channel', hrecv, hmodels⟩ := laws.value hend h hp (Nat.le_of_not_lt hlag)
      rw [List.drop_eq_getElem_cons hend] at hpending
      rw [hrecv, hpending]
      exact ⟨p + 1, hmodels, hend, rfl, .inl ⟨log[p], rfl, List.getElem_mem hend, rfl⟩⟩
    · obtain rfl : p = log.length := Nat.le_antisymm hle (Nat.le_of_not_lt hend)
      obtain ⟨channel', hrecv, hmodels⟩ := laws.empty h hp
      have hsame : Function.update next r (some log.length) = next := by rw [← hp, Function.update_eq_self]
      rw [List.drop_length] at hpending
      rw [hrecv, hpending]
      refine ⟨log.length, ?_, Nat.le_refl _, ?_, .inr ⟨fun v hv => (by cases hv), rfl⟩⟩
      · rwa [hsame]
      · rw [List.drop_length]
        exact hpending

end Receiver

structure KeepLast (V R : Type) where
  buffer : List V := []
  tail : ℕ := 0
  next : R → Option ℕ := fun _ => none

namespace KeepLast

def send (capacity : ℕ) (v : V) (channel : KeepLast V R) : KeepLast V R :=
  { channel with
    buffer := (channel.buffer ++ [v]).drop (channel.buffer.length + 1 - capacity)
    tail := channel.tail + 1 }

variable [DecidableEq R]

def recv (r : R) (channel : KeepLast V R) : Received V × KeepLast V R :=
  match channel.next r with
  | none => (.empty, channel)
  | some p =>
    let oldest := channel.tail - channel.buffer.length
    if p < oldest then (.lagged (oldest - p),
      { channel with next := Function.update channel.next r (some oldest) })
    else match channel.buffer[p - oldest]? with
      | some v => (.value v, { channel with next := Function.update channel.next r (some (p + 1)) })
      | none => (.empty, channel)

def channels (capacity : ℕ) (V R : Type) [DecidableEq R] : BroadcastChannels V R where
  Channel := KeepLast V R
  new := {}
  send := send capacity
  subscribe r channel := { channel with next := Function.update channel.next r (some channel.tail) }
  recv := recv
  drop r channel := { channel with next := Function.update channel.next r none }

structure Models (capacity : ℕ) (log : List V) (next : R → Option ℕ) (channel : KeepLast V R) : Prop where
  buffer : channel.buffer = log.drop (log.length - capacity)
  tail : channel.tail = log.length
  next : channel.next = next

variable {capacity : ℕ} {channel : KeepLast V R} {log : List V} {next : R → Option ℕ} {r : R} {p : ℕ}

omit [DecidableEq R] in
lemma Models.send (h : Models capacity log next channel) (v : V) :
    Models capacity (log ++ [v]) next (channel.send capacity v) := by
  refine ⟨?_, ?_, h.next⟩
  · rw [KeepLast.send, h.buffer, List.length_drop, List.length_append, List.length_singleton]
    dsimp only
    rw [← List.drop_append_of_le_length (Nat.sub_le _ _), List.drop_drop]
    congr 1
    omega
  · rw [KeepLast.send, h.tail, List.length_append, List.length_singleton]

omit [DecidableEq R] in
lemma Models.oldest (h : Models capacity log next channel) :
    channel.tail - channel.buffer.length = log.length - capacity := by
  rw [h.buffer, h.tail, List.length_drop]
  omega

omit [DecidableEq R] in
lemma Models.getElem? (h : Models capacity log next channel) (hkept : log.length - capacity ≤ p) :
    channel.buffer[p - (log.length - capacity)]? = log[p]? := by
  rw [h.buffer, List.getElem?_drop]
  congr 1
  omega

lemma Models.recv_lagged (h : Models capacity log next channel) (hp : next r = some p)
    (hlag : p + capacity < log.length) : channel.recv r = (.lagged (log.length - capacity - p),
      { channel with next := Function.update channel.next r (some (log.length - capacity)) }) := by
  rw [recv, h.next, hp]
  dsimp only
  rw [h.oldest, if_pos (by omega)]

lemma Models.recv_kept (h : Models capacity log next channel) (hp : next r = some p)
    (hlag : log.length ≤ p + capacity) :
    channel.recv r = match log[p]? with
      | some v => (.value v, { channel with next := Function.update channel.next r (some (p + 1)) })
      | none => (.empty, channel) := by
  rw [recv, h.next, hp]
  dsimp only
  rw [h.oldest, if_neg (by omega), h.getElem? (by omega)]

def channels_laws (capacity : ℕ) (V R : Type) [DecidableEq R] : (channels capacity V R).Laws capacity where
  Models := Models capacity
  new := ⟨by simp [channels], rfl, rfl⟩
  send v h := h.send v
  subscribe {log next channel r} h _ := ⟨h.buffer, h.tail, by rw [← h.next, ← h.tail]; rfl⟩
  drop r h := ⟨h.buffer, h.tail, by rw [← h.next]; rfl⟩
  lagged h hp hlag := ⟨_, h.recv_lagged hp hlag, h.buffer, h.tail, by rw [← h.next]⟩
  value {log next channel r p} hlt h hp hlag := by
    have hrecv := h.recv_kept hp hlag
    rw [List.getElem?_eq_getElem hlt] at hrecv
    exact ⟨_, hrecv, h.buffer, h.tail, by rw [← h.next]⟩
  empty {log next channel r} h hp := by
    have hrecv := h.recv_kept hp (Nat.le_add_right _ _)
    rw [List.getElem?_eq_none (Nat.le_refl _)] at hrecv
    exact ⟨_, hrecv, h⟩

end KeepLast

end Rblib.Library
