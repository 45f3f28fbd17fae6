import Rblib.Payload.SpanBetween

/-! The sealed and the staged part of a history, `payload/ext/checkpoint.rs`. -/

namespace Rblib.Payload

open Library Platform

variable {P : Type} [PlatformTypes P]

section Rposition

variable {α : Type} {q : α → Bool}

def rposition (q : α → Bool) (l : List α) : Option ℕ := (l.reverse.findIdx? q).map (l.length - 1 - ·)

lemma exists_last {l : List α} (h : ∃ x ∈ l, q x = true) :
    ∃ before x after, l = before ++ x :: after ∧ q x = true ∧ ∀ y ∈ after, q y = false := by
  induction l with
  | nil =>
    obtain ⟨x, hx, -⟩ := h
    cases hx
  | cons y l ih =>
    by_cases hl : ∃ x ∈ l, q x = true
    · obtain ⟨before, x, after, rfl, hlast⟩ := ih hl
      exact ⟨y :: before, x, after, rfl, hlast⟩
    · obtain ⟨x, hx, hqx⟩ := h
      obtain rfl | hx := List.mem_cons.mp hx
      · refine ⟨[], x, l, rfl, hqx, fun y hy => ?_⟩
        rw [← Bool.not_eq_true]
        exact fun hqy => hl ⟨y, hy, hqy⟩
      · exact absurd ⟨x, hx, hqx⟩ hl

variable {before after : List α} {x : α} (hx : q x = true) (hafter : ∀ y ∈ after, q y = false)
include hx hafter

lemma rposition_last : rposition q (before ++ x :: after) = some before.length := by
  have hfind : (before ++ x :: after).reverse.findIdx? q = some after.length := by
    have hnone : after.reverse.findIdx? q = none :=
      List.findIdx?_eq_none_iff.mpr fun y hy => hafter y (List.mem_reverse.mp hy)
    rw [List.reverse_append, List.reverse_cons, List.append_assoc, List.findIdx?_append, hnone, Option.none_or,
      List.singleton_append, List.findIdx?_cons, if_pos hx, Option.map_some, List.length_reverse, Nat.zero_add]
  rw [rposition, hfind, Option.map_some, List.length_append, List.length_cons]
  congr 1
  omega

lemma findRev_last : (before ++ x :: after).findRev? q = some x := by
  have hnone : after.reverse.find? q = none :=
    List.find?_eq_none.mpr fun y hy => by simp [hafter y (List.mem_reverse.mp hy)]
  rw [List.findRev?_eq_find?_reverse, List.reverse_append, List.reverse_cons, List.append_assoc, List.find?_append,
    hnone, Option.none_or, List.singleton_append, List.find?_cons_of_pos hx]

end Rposition

namespace Checkpoint

variable {cs : List (Checkpoint P)} {c : Checkpoint P}

def root : Checkpoint P → Checkpoint P
  | base block data => base block data
  | next prev _ => prev.root

def latestBarrier (c : Checkpoint P) : Option (Checkpoint P) := c.history.findRev? isBarrier

lemma history_head (c : Checkpoint P) : c.history.head? = some c.root := by
  induction c with
  | base block data => rfl
  | next prev data ih =>
    have hne : prev.history ≠ [] := by
      rw [history_eq]
      exact List.concat_ne_nil _ _
    rw [history_next, List.head?_append_of_ne_nil _ hne, ih]
    rfl

lemma ancestorOrSelf_root (c : Checkpoint P) : AncestorOrSelf prev c.root c := by
  induction c with
  | base block data => exact .refl
  | next prev data ih => exact .tail ih rfl

namespace AllBuilt

lemma root_mem (h : AllBuilt cs) (hc : c ∈ cs) : c.root ∈ cs := by
  induction c with
  | base block data => exact hc
  | next prev data ih => exact ih (h.layered.closed _ hc prev rfl)

lemma root_isBarrier (h : AllBuilt cs) (hc : c ∈ cs) : c.root.isBarrier = true := by
  induction h generalizing c with
  | nil => cases hc
  | start block id now hcs fresh ih =>
    obtain rfl | hc := List.mem_cons.mp hc
    · rfl
    · exact ih hc
  | apply executable id now hcs fresh hprev happly ih =>
    obtain rfl | hc := List.mem_cons.mp hc
    · obtain ⟨result, -, rfl⟩ := apply_eq happly
      rw [applyWith, root]
      exact ih hprev
    · exact ih hc
  | barrier id now hcs fresh hprev ih =>
    obtain rfl | hc := List.mem_cons.mp hc
    · rw [Checkpoint.barrier, applyWith, root]
      exact ih hprev
    · exact ih hc

end AllBuilt

lemma history_nodup (c : Checkpoint P) : c.history.Nodup := by
  rw [List.nodup_iff_injective_getElem]
  intro i j hij
  have hi := congrArg List.length (history_at (List.getElem?_eq_getElem i.isLt))
  have hj := congrArg List.length (history_at (List.getElem?_eq_getElem j.isLt))
  dsimp only at hij
  rw [hij, hj, List.length_take_of_le (by omega), List.length_take_of_le (by omega)] at hi
  omega

end Checkpoint

namespace Span

open Checkpoint

variable {cs : List (Checkpoint P)} {c : Checkpoint P}

def historyStaging (c : Checkpoint P) : Span P := (history c).skip ((rposition isBarrier c.history).getD 0)

def historySealed (c : Checkpoint P) : Span P := (history c).take ((rposition isBarrier c.history).elim 0 (· + 1))

lemma historyStaging_checkpoints (c : Checkpoint P) : (historyStaging c).checkpoints = c.historyStaging := by
  change c.history.drop ((rposition isBarrier c.history).getD 0) = c.historyStaging
  rw [Checkpoint.historyStaging, rposition]
  cases c.history.reverse.findIdx? isBarrier <;> rfl

lemma historySealed_checkpoints (c : Checkpoint P) : (historySealed c).checkpoints = c.historySealed := by
  change c.history.take ((rposition isBarrier c.history).elim 0 (· + 1)) = c.historySealed
  rw [Checkpoint.historySealed, rposition]
  cases c.history.reverse.findIdx? isBarrier <;> rfl

lemma suffix_history {l : List (Checkpoint P)} (hl : Contiguous l) (hlast : l.getLast? = some c) :
    l <:+ c.history := by
  induction c generalizing l with
  | base block data =>
    obtain ⟨l, rfl⟩ := List.getLast?_eq_some_iff.mp hlast
    cases hprev : l.getLast? with
    | none =>
      rw [List.getLast?_eq_none_iff.mp hprev]
      exact List.suffix_rfl
    | some p => cases (List.isChain_append.mp hl).2.2 p hprev _ rfl
  | next prev data ih =>
    obtain ⟨l, rfl⟩ := List.getLast?_eq_some_iff.mp hlast
    rw [history_next]
    cases hprev : l.getLast? with
    | none =>
      rw [List.getLast?_eq_none_iff.mp hprev]
      exact List.suffix_append _ _
    | some p =>
      obtain ⟨hchain, -, hlink⟩ := List.isChain_append.mp hl
      obtain rfl : prev = p := Option.some.inj (hlink p hprev _ rfl)
      obtain ⟨before, hbefore⟩ := ih hchain hprev
      exact ⟨before, by rw [← List.append_assoc, hbefore]⟩

lemma between_root (h : AllBuilt cs) (hc : c ∈ cs) : between c c.root = .ok (history c) := by
  obtain ⟨hok, hcomm, hspan⟩ := between_exact h (h.root_mem hc) hc
  rw [← hcomm]
  obtain ⟨span, hs⟩ := hok.mpr (.inl c.ancestorOrSelf_root)
  obtain ⟨-, hends⟩ := between_of_depth_le h (h.root_mem hc) hc (h.layered.depth_le hc c.ancestorOrSelf_root)
  obtain ⟨hhead, hlast⟩ := hends span hs
  have hlen := h.layered.length_of_isChain span.contiguous hhead hlast hc
  have hhistory := h.layered.length_of_isChain (contiguous_history c) c.history_head
    (by rw [history_eq, List.getLast?_concat]) hc
  have heq : span.checkpoints = c.history := (suffix_history span.contiguous hlast).eq_of_length (by omega)
  obtain ⟨checkpoints, linear⟩ := span
  subst heq
  exact hs

lemma exists_cut (h : AllBuilt cs) (hc : c ∈ cs) :
    ∃ before barrier after, c.history = before ++ barrier :: after ∧ barrier.isBarrier = true ∧
      ∀ x ∈ after, x.isBarrier = false :=
  exists_last ⟨c.root, List.mem_of_head? c.history_head, h.root_isBarrier hc⟩

section Cut

variable {before after : List (Checkpoint P)} {barrier : Checkpoint P}
    (hcut : c.history = before ++ barrier :: after)
  (hbarrier : barrier.isBarrier = true) (hafter : ∀ x ∈ after, x.isBarrier = false)
include hcut hbarrier hafter

lemma historySealed_cut : (historySealed c).checkpoints = before ++ [barrier] := by
  change c.history.take ((rposition isBarrier c.history).elim 0 (· + 1)) = _
  rw [hcut, rposition_last hbarrier hafter, Option.elim_some, List.take_length_add_append, List.take_one]
  rfl

lemma historyStaging_cut : (historyStaging c).checkpoints = barrier :: after := by
  change c.history.drop ((rposition isBarrier c.history).getD 0) = _
  rw [hcut, rposition_last hbarrier hafter, Option.getD_some, List.drop_left]

end Cut

/-- The sealed history ends with the last barrier and the staged history starts with it. -/
theorem sealed_staging (h : AllBuilt cs) (hc : c ∈ cs) :
    between c c.root = .ok (history c) ∧
    ∃ before barrier after,
      (history c).checkpoints = before ++ barrier :: after ∧
      barrier.isBarrier = true ∧
      (∀ x ∈ after, x.isBarrier = false ∧ ∃ result, x.result = some result) ∧
      (historySealed c).checkpoints = before ++ [barrier] ∧
      (historyStaging c).checkpoints = barrier :: after ∧
      (historySealed c).checkpoints ++ (historyStaging c).checkpoints.tail = (history c).checkpoints ∧
      (∀ x, x ∈ (historySealed c).checkpoints ∧ x ∈ (historyStaging c).checkpoints ↔ x = barrier) ∧
      c.latestBarrier = some barrier := by
  refine ⟨between_root h hc, ?_⟩
  obtain ⟨before, barrier, after, hcut, hbarrier, hafter⟩ := exists_cut h hc
  have hsealed := historySealed_cut hcut hbarrier hafter
  have hstaging := historyStaging_cut hcut hbarrier hafter
  refine ⟨before, barrier, after, hcut, hbarrier, fun x hx => ⟨hafter x hx, ?_⟩, hsealed, hstaging, ?_,
    fun x => ?_, ?_⟩
  · have hnot := hafter x hx
    rw [isBarrier, Option.isNone_eq_false_iff] at hnot
    exact Option.isSome_iff_exists.mp hnot
  · rw [hsealed, hstaging, List.tail_cons, List.append_assoc, List.singleton_append]
    exact hcut.symm
  · rw [hsealed, hstaging]
    have hnodup := c.history_nodup
    rw [hcut, List.nodup_append] at hnodup
    obtain ⟨-, -, hdisjoint⟩ := hnodup
    constructor
    · rintro ⟨hleft, hright⟩
      obtain hleft | hleft := List.mem_append.mp hleft
      · exact absurd rfl (hdisjoint x hleft x hright)
      · exact List.mem_singleton.mp hleft
    · rintro rfl
      exact ⟨List.mem_append_right _ (List.mem_singleton_self x), List.mem_cons_self⟩
  · rw [latestBarrier, hcut, findRev_last hbarrier hafter]

end Span

namespace Blobnet

theorem split_at_first : ∃ c, first.apply (.bundle mixed) 2 2 = .ok c ∧
    Span.between c c.root = .ok (Span.history c) ∧
    (∃ barrier, barrier.isBarrier = true ∧ c.latestBarrier = some barrier ∧
      ∀ x, x ∈ (Span.historySealed c).checkpoints ∧ x ∈ (Span.historyStaging c).checkpoints ↔ x = barrier) ∧
    (Span.historySealed c).checkpoints = [start, first] ∧ (Span.historyStaging c).checkpoints = [first, c] := by
  have hbuilt : Checkpoint.AllBuilt [first, start] :=
    .barrier _ _ (.start _ _ _ .nil (by simp)) (by decide) (.head _)
  refine ⟨_, rfl, ?_⟩
  obtain ⟨hbetween, _, barrier, _, -, hbarrier, -, -, -, -, hcommon, hlatest⟩ :=
    Span.sealed_staging (.apply (.bundle mixed) 2 2 hbuilt (by decide) (.head _) rfl) (.head _)
  exact ⟨hbetween, ⟨barrier, hbarrier, hlatest, hcommon⟩, rfl, rfl⟩

end Blobnet

end Rblib.Payload
