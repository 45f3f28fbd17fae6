import Rblib.Library.Broadcast
import Rblib.Library.HeldSince

/-! The events bus of `pipelines/events.rs`. -/

namespace Rblib.Pipelines

open Library

variable {K R : Type} {E : K → Type} [DecidableEq K]

structure EventsBus (C : BroadcastChannels (Σ k, E k) R) where
  publishers : K → Option C.Channel := fun _ => none

namespace EventsBus

variable {C : BroadcastChannels (Σ k, E k) R}

def sender (k : K) (bus : EventsBus C) : C.Channel := (bus.publishers k).getD C.new

def withSender (k : K) (channel : C.Channel) (bus : EventsBus C) : EventsBus C :=
  ⟨Function.update bus.publishers k (some channel)⟩

lemma sender_self (k : K) (channel : C.Channel) (bus : EventsBus C) :
    (bus.withSender k channel).sender k = channel := by
  simp [sender, withSender]

lemma sender_of_ne {j k : K} (h : j ≠ k) (channel : C.Channel) (bus : EventsBus C) :
    (bus.withSender k channel).sender j = bus.sender j := by
  simp [sender, withSender, h]

def publish (event : Σ k, E k) (bus : EventsBus C) : EventsBus C :=
  bus.withSender event.1 (C.send event (bus.sender event.1))

def subscribe (k : K) (r : R) (bus : EventsBus C) : EventsBus C := bus.withSender k (C.subscribe r (bus.sender k))

def downcast (k : K) (event : Σ k, E k) : Option (E k) := if h : event.1 = k then some (h ▸ event.2) else none

lemma downcast_self (event : Σ k, E k) : downcast event.1 event = some event.2 := dif_pos rfl

end EventsBus

variable [DecidableEq R]

inductive BusEvent (E : K → Type) (R : Type)
  | publish (event : Σ k, E k)
  | subscribe (r : R) (k : K)
  | next (r : R)
  | dropStream (r : R)

structure Subscriptions (C : BroadcastChannels (Σ k, E k) R) where
  bus : EventsBus C := {}
  streams : R → Option K := fun _ => none
  yielded : R → List (Σ k, E k) := fun _ => []

namespace Subscriptions

variable {C : BroadcastChannels (Σ k, E k) R}

/-- The stream skips the notice that it has missed messages, and a value that is not of its type. -/
def yielding (k : K) : Received (Σ k, E k) → List (Σ k, E k)
  | .value event => ((EventsBus.downcast k event).map (Sigma.mk k)).toList
  | .lagged _ => []
  | .empty => []

def step (s : Subscriptions C) : BusEvent E R → Option (Subscriptions C)
  | .publish event => some { s with bus := s.bus.publish event }
  | .subscribe r k => match s.streams r with
    | some _ => none
    | none => some {
        bus := s.bus.subscribe k r
        streams := Function.update s.streams r (some k)
        yielded := Function.update s.yielded r [] }
  | .next r => match s.streams r with
    | none => none
    | some k =>
      let (received, channel) := C.recv r (s.bus.sender k)
      some { s with
        bus := s.bus.withSender k channel
        yielded := Function.update s.yielded r (s.yielded r ++ yielding k received) }
  | .dropStream r => match s.streams r with
    | none => none
    | some k => some { s with
        bus := s.bus.withSender k (C.drop r (s.bus.sender k))
        streams := Function.update s.streams r none }

def Steps (s : Subscriptions C) (event : BusEvent E R) (s' : Subscriptions C) : Prop := s.step event = some s'

def inboxOp (r : R) (k : K) : BusEvent E R → Option (InboxOp (Σ k, E k))
  | .publish event => if event.1 = k then some (.send event) else none
  | .next r' => if r' = r then some .recv else none
  | _ => none

def inbox (capacity : ℕ) (r : R) (k : K) (events : List (BusEvent E R)) : Inbox (Σ k, E k) :=
  .run capacity (events.filterMap (inboxOp r k))

def published (k : K) (events : List (BusEvent E R)) : List (Σ k, E k) :=
  events.filterMap fun event => match event with
    | .publish e => if e.1 = k then some e else none
    | _ => none

section Isolated

variable {capacity : ℕ} {laws : C.Laws capacity} {logs : K → List (Σ k, E k)} {places : K → R → Option ℕ}
  {bus : EventsBus C} {s s' : Subscriptions C} {event : BusEvent E R} {events : List (BusEvent E R)} {r r' : R}
  {k k' : K} {box : Inbox (Σ k, E k)}

def Since (capacity : ℕ) (r : R) (k : K) (events : List (BusEvent E R)) (box : Inbox (Σ k, E k)) : Prop :=
  ∃ before after, events = before ++ .subscribe r k :: after ∧ .dropStream r ∉ after ∧
    box = inbox capacity r k after

lemma Since.snoc (h : Since capacity r k events box) (event : BusEvent E R) (hkept : event ≠ .dropStream r) :
    Since capacity r k (events ++ [event]) ((inboxOp r k event).elim box (box.step capacity)) := by
  obtain ⟨before, after, rfl, hlive, rfl⟩ := h
  refine ⟨before, after ++ [event], by simp, ?_, ?_⟩
  · rw [List.mem_append, List.mem_singleton, not_or]
    exact ⟨hlive, hkept.symm⟩
  · rw [inbox, inbox, List.filterMap_append]
    cases hop : inboxOp r k event with
    | none => simp [hop]
    | some op =>
      rw [List.filterMap_cons_some hop, List.filterMap_nil, Inbox.run_snoc]
      rfl

structure LoggedBus (laws : C.Laws capacity) (logs : K → List (Σ k, E k)) (places : K → R → Option ℕ)
    (bus : EventsBus C) : Prop where
  typed : ∀ k, ∀ e ∈ logs k, e.1 = k
  models : ∀ k, laws.Models (logs k) (places k) (bus.sender k)

structure Attached (logs : K → List (Σ k, E k)) (places : K → R → Option ℕ) (s : Subscriptions C) (r : R) (k : K)
    (box : Inbox (Σ k, E k)) : Prop where
  place : ∃ p, places k r = some p ∧ p ≤ (logs k).length ∧ box.pending = (logs k).drop p
  yielded : s.yielded r = box.received

def moved (places : K → R → Option ℕ) (k : K) (r : R) (place : Option ℕ) : K → R → Option ℕ :=
  Function.update places k (Function.update (places k) r place)

lemma moved_self (places : K → R → Option ℕ) (k : K) (r : R) (place : Option ℕ) :
    moved places k r place k r = place := by
  rw [moved, Function.update_self, Function.update_self]

lemma moved_of_ne (h : r' ≠ r) (places : K → R → Option ℕ) (k k' : K) (place : Option ℕ) :
    moved places k r place k' r' = places k' r' := by
  by_cases hk : k' = k
  · subst hk
    rw [moved, Function.update_self, Function.update_of_ne h]
  · rw [moved, Function.update_of_ne hk]

lemma LoggedBus.moved (h : LoggedBus laws logs places bus) {channel : C.Channel} {place : Option ℕ}
    (hmodels : laws.Models (logs k) (Function.update (places k) r place) channel) :
    LoggedBus laws logs (moved places k r place) (bus.withSender k channel) := by
  refine ⟨h.typed, fun j => ?_⟩
  by_cases hj : j = k
  · subst hj
    rw [EventsBus.sender_self, Subscriptions.moved, Function.update_self]
    exact hmodels
  · rw [EventsBus.sender_of_ne hj, Subscriptions.moved, Function.update_of_ne hj]
    exact h.models j

lemma LoggedBus.publish (h : LoggedBus laws logs places bus) (e : Σ k, E k) :
    LoggedBus laws (Function.update logs e.1 (logs e.1 ++ [e])) places (bus.publish e) := by
  refine ⟨fun j => ?_, fun j => ?_⟩
  · by_cases hj : j = e.1
    · subst hj
      rw [Function.update_self]
      intro x hx
      obtain hx | hx := List.mem_append.mp hx
      · exact h.typed _ x hx
      · rw [List.mem_singleton.mp hx]
    · rw [Function.update_of_ne hj]
      exact h.typed j
  · by_cases hj : j = e.1
    · subst hj
      rw [EventsBus.publish, EventsBus.sender_self, Function.update_self]
      exact laws.send e (h.models _)
    · rw [EventsBus.publish, EventsBus.sender_of_ne hj, Function.update_of_ne hj]
      exact h.models j

omit [DecidableEq K] [DecidableEq R] in
lemma Attached.of_same {places' : K → R → Option ℕ} (h : Attached logs places s r k box)
    (hplace : places' k r = places k r) (hyielded : s'.yielded r = s.yielded r) :
    Attached logs places' s' r k box := by
  refine ⟨?_, hyielded.trans h.yielded⟩
  rw [hplace]
  exact h.place

omit [DecidableEq R] in
lemma Attached.publish (h : Attached logs places s r k box) (e : Σ k, E k) :
    Attached (Function.update logs e.1 (logs e.1 ++ [e])) places { s with bus := s.bus.publish e } r k
      ((if e.1 = k then some (InboxOp.send e) else none).elim box (box.step capacity)) := by
  obtain ⟨⟨p, hp, hle, hpending⟩, hyielded⟩ := h
  by_cases hk : e.1 = k
  · subst hk
    rw [if_pos rfl]
    refine ⟨⟨p, hp, ?_, ?_⟩, hyielded⟩
    · rw [Function.update_self, List.length_append]
      omega
    · rw [Function.update_self, List.drop_append_of_le_length hle, ← hpending]
      rfl
  · rw [if_neg hk]
    refine ⟨⟨p, hp, ?_, ?_⟩, hyielded⟩
    · rwa [Function.update_of_ne (Ne.symm hk)]
    · rwa [Function.update_of_ne (Ne.symm hk)]

lemma Attached.next (hlogged : LoggedBus laws logs places s.bus) (h : Attached logs places s r k box) :
    ∃ p, LoggedBus laws logs (moved places k r (some p)) (s.bus.withSender k (C.recv r (s.bus.sender k)).2) ∧
      Attached logs (moved places k r (some p)) { s with
        bus := s.bus.withSender k (C.recv r (s.bus.sender k)).2
        yielded := Function.update s.yielded r (s.yielded r ++ yielding k (C.recv r (s.bus.sender k)).1) } r k
          (box.recv capacity) := by
  obtain ⟨⟨p, hp, hle, hpending⟩, hyielded⟩ := h
  obtain ⟨p', hmodels, hle', hpending', hgot⟩ := laws.recv_inbox (hlogged.models k) hp hle hpending
  refine ⟨p', hlogged.moved hmodels, ⟨p', moved_self .., hle', hpending'⟩, ?_⟩
  dsimp only
  rw [Function.update_self]
  obtain ⟨v, hv, hmem, hreceived⟩ | ⟨hnone, hreceived⟩ := hgot
  · obtain rfl := hlogged.typed k v hmem
    rw [hv, hreceived, hyielded, yielding, EventsBus.downcast_self]
    rfl
  · rw [hreceived, hyielded]
    cases hr : (C.recv r (s.bus.sender k)).1 with
    | value v => exact absurd hr (hnone v)
    | lagged n => exact List.append_nil _
    | empty => exact List.append_nil _

structure Isolated (laws : C.Laws capacity) (events : List (BusEvent E R)) (s : Subscriptions C)
    (logs : K → List (Σ k, E k)) (places : K → R → Option ℕ) : Prop where
  logged : LoggedBus laws logs places s.bus
  unplaced : ∀ r, s.streams r = none → ∀ k, places k r = none
  attached : ∀ r k, s.streams r = some k → (∀ k' ≠ k, places k' r = none) ∧
    ∃ box, Since capacity r k events box ∧ Attached logs places s r k box

lemma Isolated.publish (h : Isolated laws events s logs places) (e : Σ k, E k) :
    Isolated laws (events ++ [.publish e]) { s with bus := s.bus.publish e }
      (Function.update logs e.1 (logs e.1 ++ [e])) places := by
  refine ⟨h.logged.publish e, h.unplaced, fun r k hr => ?_⟩
  obtain ⟨halone, box, hsince, hbox⟩ := h.attached r k hr
  exact ⟨halone, _, hsince.snoc _ (by simp), hbox.publish e⟩

lemma Isolated.subscribe (h : Isolated laws events s logs places) (hfree : s.streams r = none) (k : K) :
    Isolated laws (events ++ [.subscribe r k]) {
      bus := s.bus.subscribe k r
      streams := Function.update s.streams r (some k)
      yielded := Function.update s.yielded r [] } logs (moved places k r (some (logs k).length)) := by
  refine ⟨h.logged.moved (laws.subscribe (h.logged.models k) (h.unplaced r hfree k)), fun r' hr j => ?_,
    fun r' k' hr => ?_⟩
  · dsimp only at hr
    by_cases hself : r' = r
    · subst hself
      rw [Function.update_self] at hr
      cases hr
    · rw [Function.update_of_ne hself] at hr
      rw [moved_of_ne hself]
      exact h.unplaced r' hr j
  · dsimp only at hr
    by_cases hself : r' = r
    · subst hself
      rw [Function.update_self] at hr
      cases hr
      refine ⟨fun j hj => ?_, {}, ⟨events, [], rfl, by simp, rfl⟩, ?_, Function.update_self ..⟩
      · rw [Subscriptions.moved, Function.update_of_ne hj]
        exact h.unplaced r' hfree j
      · exact ⟨_, moved_self .., Nat.le_refl _, List.drop_length.symm⟩
    · rw [Function.update_of_ne hself] at hr
      obtain ⟨halone, box, hsince, hbox⟩ := h.attached r' k' hr
      refine ⟨fun j hj => ?_, box, hsince.snoc _ (by simp),
        hbox.of_same (moved_of_ne hself ..) (Function.update_of_ne hself _ _)⟩
      rw [moved_of_ne hself]
      exact halone j hj

lemma Isolated.next (h : Isolated laws events s logs places) (hr : s.streams r = some k) :
    ∃ places', Isolated laws (events ++ [.next r]) { s with
      bus := s.bus.withSender k (C.recv r (s.bus.sender k)).2
      yielded := Function.update s.yielded r (s.yielded r ++ yielding k (C.recv r (s.bus.sender k)).1) }
        logs places' := by
  obtain ⟨halone, box, hsince, hbox⟩ := h.attached r k hr
  obtain ⟨p, hlogged, hbox'⟩ := hbox.next h.logged
  refine ⟨_, hlogged, fun r' hr' j => ?_, fun r' k' hr' => ?_⟩
  · have hne : r' ≠ r := by
      rintro rfl
      cases hr.symm.trans hr'
    rw [moved_of_ne hne]
    exact h.unplaced r' hr' j
  · by_cases hself : r' = r
    · subst hself
      cases hr.symm.trans hr'
      have hop : inboxOp r' k (.next r' : BusEvent E R) = some .recv := if_pos rfl
      have hnext := hsince.snoc (.next r') (by simp)
      rw [hop] at hnext
      refine ⟨fun j hj => ?_, _, hnext, hbox'⟩
      rw [Subscriptions.moved, Function.update_of_ne hj]
      exact halone j hj
    · obtain ⟨halone', box', hsince', hother⟩ := h.attached r' k' hr'
      have hop : inboxOp r' k' (.next r : BusEvent E R) = none := if_neg (Ne.symm hself)
      have hnext := hsince'.snoc (.next r) (by simp)
      rw [hop] at hnext
      refine ⟨fun j hj => ?_, box', hnext, hother.of_same (moved_of_ne hself ..) (Function.update_of_ne hself _ _)⟩
      rw [moved_of_ne hself]
      exact halone' j hj

lemma Isolated.dropStream (h : Isolated laws events s logs places) (hr : s.streams r = some k) :
    Isolated laws (events ++ [.dropStream r]) { s with
      bus := s.bus.withSender k (C.drop r (s.bus.sender k))
      streams := Function.update s.streams r none } logs (moved places k r none) := by
  refine ⟨h.logged.moved (laws.drop r (h.logged.models k)), fun r' hr' j => ?_, fun r' k' hr' => ?_⟩
  · by_cases hself : r' = r
    · subst hself
      by_cases hj : j = k
      · subst hj
        exact moved_self ..
      · rw [Subscriptions.moved, Function.update_of_ne hj]
        exact (h.attached r' k hr).1 j hj
    · dsimp only at hr'
      rw [Function.update_of_ne hself] at hr'
      rw [moved_of_ne hself]
      exact h.unplaced r' hr' j
  · dsimp only at hr'
    have hother : r' ≠ r := by
      rintro rfl
      rw [Function.update_self] at hr'
      cases hr'
    rw [Function.update_of_ne hother] at hr'
    obtain ⟨halone, box, hsince, hbox⟩ := h.attached r' k' hr'
    refine ⟨fun j hj => ?_, box, hsince.snoc _ ?_, hbox.of_same (moved_of_ne hother ..) rfl⟩
    · rw [moved_of_ne hother]
      exact halone j hj
    · rw [ne_eq, BusEvent.dropStream.injEq]
      exact hother.symm

lemma isolated_step (h : Isolated laws events s logs places) (hstep : Steps s event s') :
    ∃ logs' places', Isolated laws (events ++ [event]) s' logs' places' := by
  rw [Steps] at hstep
  cases event with
  | publish e =>
    cases hstep
    exact ⟨_, _, h.publish e⟩
  | subscribe r k =>
    simp only [step] at hstep
    split at hstep
    · cases hstep
    · next hfree =>
      cases hstep
      exact ⟨_, _, h.subscribe hfree k⟩
  | next r =>
    simp only [step] at hstep
    split at hstep
    · cases hstep
    · next k hr =>
      cases hstep
      exact ⟨_, h.next hr⟩
  | dropStream r =>
    simp only [step] at hstep
    split at hstep
    · cases hstep
    · next k hr =>
      cases hstep
      exact ⟨_, _, h.dropStream hr⟩

lemma inboxOp_recv (h : inboxOp r k event = some .recv) : event = .next r := by
  cases event with
  | publish e =>
    rw [inboxOp, Option.ite_none_right_eq_some] at h
    cases h.2
  | next r' =>
    rw [inboxOp, Option.ite_none_right_eq_some] at h
    rw [h.1]
  | subscribe r' k' => cases h
  | dropStream r' => cases h

lemma sends_inboxOps (r : R) (k : K) (events : List (BusEvent E R)) :
    Inbox.sends (events.filterMap (inboxOp r k)) = published k events := by
  rw [Inbox.sends, List.filterMap_filterMap, published]
  congr 1
  funext event
  cases event with
  | publish e =>
    by_cases hk : e.1 = k
    · simp [inboxOp, hk]
    · simp [inboxOp, hk]
  | subscribe r' k' => rfl
  | next r' =>
    by_cases hr : r' = r
    · simp [inboxOp, hr]
    · simp [inboxOp, hr]
  | dropStream r' => rfl

lemma lost_iff (capacity : ℕ) (r : R) (k : K) (events : List (BusEvent E R)) :
    (inbox capacity r k events).lost ≠ [] ↔ ∃ earlier later, events = earlier ++ .next r :: later ∧
      capacity < (inbox capacity r k earlier).pending.length := by
  rw [inbox, Inbox.lost_iff]
  constructor
  · rintro ⟨ops, rest, hops, hlag⟩
    obtain ⟨first, second, rfl, rfl, hsecond⟩ := List.filterMap_eq_append_iff.mp hops
    obtain ⟨skipped, event, later, rfl, hskipped, hevent, -⟩ := List.filterMap_eq_cons_iff.mp hsecond
    obtain rfl := inboxOp_recv hevent
    refine ⟨first ++ skipped, later, (List.append_assoc ..).symm, ?_⟩
    rwa [inbox, List.filterMap_append, List.filterMap_eq_nil_iff.mpr hskipped, List.append_nil]
  · rintro ⟨earlier, later, rfl, hlag⟩
    have hop : inboxOp r k (.next r : BusEvent E R) = some .recv := if_pos rfl
    refine ⟨earlier.filterMap (inboxOp r k), later.filterMap (inboxOp r k), ?_, hlag⟩
    rw [List.filterMap_append, List.filterMap_cons_some hop]

/-- A stream yields what a queue of its own would give it, whatever else is published, subscribed,
read or dropped: the events of its type since it subscribed, in their order and each at most once,
and all of them exactly when it never comes back to more of them than the channel keeps. -/
theorem streams_isolated (laws : C.Laws capacity) (h : Path Steps ({} : Subscriptions C) events s)
    (hr : s.streams r = some k) :
    ∃ before after, events = before ++ .subscribe r k :: after ∧ .dropStream r ∉ after ∧
      s.yielded r = (inbox capacity r k after).received ∧
      (s.yielded r ++ (inbox capacity r k after).pending).Sublist (published k after) ∧
      (s.yielded r ++ (inbox capacity r k after).pending = published k after ↔ ∀ earlier later,
        after = earlier ++ .next r :: later → (inbox capacity r k earlier).pending.length ≤ capacity) := by
  have hstart : Isolated laws [] ({} : Subscriptions C) (fun _ => []) fun _ _ => none := by
    refine ⟨⟨by simp, fun k => laws.new⟩, fun r hr k => rfl, fun r k hr => ?_⟩
    cases hr
  obtain ⟨logs, places, hisolated⟩ := h.accumulate (I := fun events s => ∃ logs places,
    Isolated laws events s logs places)
    ⟨_, _, hstart⟩ fun ⟨logs, places, hs⟩ hstep => isolated_step hs hstep
  obtain ⟨-, box, ⟨before, after, hevents, hlive, rfl⟩, hbox⟩ := hisolated.attached r k hr
  have hlost := lost_iff capacity r k after
  refine ⟨before, after, by simpa using hevents, hlive, hbox.yielded, ?_, ?_⟩
  · rw [hbox.yielded, ← sends_inboxOps r]
    exact Inbox.run_sublist capacity _
  · have hnever : (∀ earlier later, after = earlier ++ .next r :: later →
        (inbox capacity r k earlier).pending.length ≤ capacity) ↔ (inbox capacity r k after).lost = [] := by
      rw [← not_iff_not, ← ne_eq (inbox capacity r k after).lost, hlost]
      simp only [not_forall, Nat.not_le, exists_prop]
    rw [hnever, hbox.yielded, ← sends_inboxOps r]
    constructor
    · intro hall
      have hlength := (Inbox.run_perm capacity (after.filterMap (inboxOp r k))).length_eq
      rw [← hall, inbox] at hlength
      simp only [List.length_append] at hlength
      exact List.eq_nil_of_length_eq_zero (by rw [inbox]; omega)
    · exact Inbox.run_lossless

end Isolated

section Example

abbrev lastTwo : BroadcastChannels (Σ _ : Bool, ℕ) ℕ := KeepLast.channels 2 _ _

def laggingEvents : List (BusEvent (fun _ : Bool => ℕ) ℕ) :=
  [.publish ⟨true, 1⟩, .subscribe 0 true, .publish ⟨true, 2⟩, .publish ⟨false, 9⟩, .subscribe 1 false,
    .publish ⟨true, 3⟩, .publish ⟨true, 4⟩, .next 0, .next 0, .publish ⟨false, 8⟩, .next 1]

theorem laggingEvents_yield : ∃ s, Path Steps ({} : Subscriptions lastTwo) laggingEvents s ∧
    s.yielded 0 = [⟨true, 3⟩] ∧ ∃ before after, laggingEvents = before ++ .subscribe 0 true :: after ∧
      .dropStream 0 ∉ after ∧ s.yielded 0 = (inbox 2 0 true after).received := by
  obtain ⟨s, hrun, hstream, hyielded⟩ : ∃ s : Subscriptions lastTwo,
      laggingEvents.foldlM step {} = some s ∧ s.streams 0 = some true ∧ s.yielded 0 = [⟨true, 3⟩] :=
    ⟨_, rfl, rfl, rfl⟩
  have hpath : Path Steps {} laggingEvents s := path_of_foldlM hrun
  obtain ⟨before, after, hevents, hlive, hqueue, -⟩ :=
    streams_isolated (KeepLast.channels_laws 2 _ _) hpath hstream
  exact ⟨s, hpath, hyielded, before, after, hevents, hlive, hqueue⟩

end Example

end Subscriptions

end Rblib.Pipelines
