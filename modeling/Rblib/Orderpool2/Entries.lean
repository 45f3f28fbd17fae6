import Rblib.Library.ReadThrough
import Rblib.Orderpool2.PoolInvariant

/-! What the prioritized orderpool holds under one id: the order, whether it is queued, and the
nonces the id waits for. -/

namespace Rblib.Orderpool2

open Payload OrderpoolOrder PrioritizedOrderpool Library

@[ext] structure Entry (Order : Type) where
  order : Option Order
  queued : Prop
  waiting : Set AccountNonce

section Effects

variable {ID Order : Type} [OrderpoolOrder Order ID]

def awaited (onchain : Address → Option ℕ) (ns : List BundleNonce) : Set AccountNonce :=
  {a | ∃ n ∈ ns, n.optional = false ∧ n.accountNonce = a ∧ onchain n.address ≠ some n.nonce}

def Retained (onchain : Address → Option ℕ) (ns : List BundleNonce) : Prop :=
  ¬ Overtaken onchain ns ∧ Current onchain ns

namespace Entry

def takenOut (e : Entry Order) : Entry Order := { e with order := none, queued := False }

def Touched (newNonces : List AccountNonce) (e : Entry Order) : Prop :=
  e.queued ∧ ∃ order, e.order = some order ∧ ∃ n ∈ nonces order, n.address ∈ newNonces.map AccountNonce.account

open Classical in
noncomputable def offered (onchain : Address → Option ℕ) (order : Order) (e : Entry Order) : Entry Order :=
  if Overtaken onchain (nonces order) then e
  else
    { order := some order
      queued := e.queued ∨ awaited onchain (nonces order) = ∅
      waiting := e.waiting ∪ awaited onchain (nonces order) }

open Classical in
noncomputable def revisited (onchain : Address → Option ℕ) (e : Entry Order) : Entry Order :=
  match e.order with
  | none => e
  | some order => if Retained onchain (nonces order) then e.takenOut.offered onchain order else e.takenOut

open Classical in
noncomputable def woken (onchain : Address → Option ℕ) (e : Entry Order) (n : AccountNonce) : Entry Order :=
  if n ∈ e.waiting then
    match e.order with
    | none => { e with waiting := e.waiting \ {n} }
    | some order => offered onchain order { e with order := none, waiting := e.waiting \ {n} }
  else e

open Classical in
noncomputable def checked (onchain : Address → Option ℕ) (newNonces : List AccountNonce) (e : Entry Order) :
    Entry Order :=
  if e.Touched newNonces then e.revisited onchain else e

noncomputable def updated (onchain : Address → Option ℕ) (newNonces : List AccountNonce) (e : Entry Order) :
    Entry Order :=
  newNonces.foldl (woken onchain) (e.checked onchain newNonces)

variable {onchain : Address → Option ℕ} {e : Entry Order} {order : Order} {n : AccountNonce}

lemma revisited_of_retained (ho : e.order = some order) (hr : Retained onchain (nonces order)) :
    e.revisited onchain = e.takenOut.offered onchain order := by
  simp only [revisited, ho, if_pos hr]

lemma revisited_of_not_retained (ho : e.order = some order) (hr : ¬ Retained onchain (nonces order)) :
    e.revisited onchain = e.takenOut := by
  simp only [revisited, ho, if_neg hr]

lemma woken_of_absent (ho : e.order = none) : e.woken onchain n = { e with waiting := e.waiting \ {n} } := by
  rw [woken]
  split
  · simp only [ho]
  · next hn => rw [Set.sdiff_singleton_eq_self hn]

lemma woken_of_waiting (ho : e.order = some order) (hn : n ∈ e.waiting) :
    e.woken onchain n = offered onchain order { e with order := none, waiting := e.waiting \ {n} } := by
  simp only [woken, if_pos hn, ho]

end Entry

end Effects

namespace PrioritizedOrderpool

variable {ID Priority Order : Type} {s s' : PrioritizedOrderpool ID Priority Order} {i j : ID}

def entry (s : PrioritizedOrderpool ID Priority Order) (i : ID) : Entry Order :=
  ⟨s.orders i, s.Queued i, {n | s.Waiting n i}⟩

structure Evolves (s s' : PrioritizedOrderpool ID Priority Order) (f : ID → Entry Order → Entry Order) : Prop where
  onchain : s'.onchainNonces = s.onchainNonces
  entry : ∀ i, s'.entry i = f i (s.entry i)

lemma Evolves.trans {s'' : PrioritizedOrderpool ID Priority Order} {f g : ID → Entry Order → Entry Order}
    (h : s.Evolves s' f) (h' : s'.Evolves s'' g) : s.Evolves s'' fun i e => g i (f i e) :=
  ⟨h'.onchain.trans h.onchain, fun i => by rw [h'.entry, h.entry]⟩

lemma Extends.entry_eq (h : Extends s s') : s'.entry i = s.entry i := by
  rw [h.frame]
  rfl

lemma Scanned.not_overtaken {ns : List BundleNonce} {before pending : List AccountNonce}
    (h : Scanned s ns before pending) : ¬ Overtaken s.onchainNonces ns := by
  rintro ⟨n, hn, hopt, v, hv, hlt⟩
  obtain ⟨w, hw, hle⟩ := h.fresh n hn
  have hvw : v = w := Option.some.inj (hv.symm.trans hw)
  have hwn := hle hopt
  omega

lemma Scanned.mem_awaited {ns : List BundleNonce} {pending : List AccountNonce} (h : Scanned s ns [] pending)
    (a : AccountNonce) : a ∈ pending ↔ a ∈ awaited s.onchainNonces ns := by
  rw [h.mem_pending a, or_iff_right List.not_mem_nil]
  rfl

lemma entry_wake (n : AccountNonce) (orders : ID → Option Order) (s : PrioritizedOrderpool ID Priority Order)
    (i : ID) :
    entry { s with pendingOrders := Function.update s.pendingOrders n none, orders := orders } i =
      ⟨orders i, s.Queued i, (s.entry i).waiting \ {n}⟩ := by
  apply Entry.ext
  · rfl
  · rfl
  · ext m
    by_cases hm : m = n
    · simp [entry, Waiting, hm]
    · simp [entry, Waiting, hm]

section Effects

variable [DecidableEq ID]

lemma entry_trackNonces (ns : List AccountNonce) (dirty : Finset ID) (s : PrioritizedOrderpool ID Priority Order) :
    (s.trackNonces ns dirty).2.entry i = s.entry i := by
  induction ns generalizing dirty s with
  | nil => rfl
  | cons n ns ih =>
    rw [trackNonces, ih]
    rfl

lemma onchainNonces_trackNonces (ns : List AccountNonce) (invalidated : Finset ID)
    (s : PrioritizedOrderpool ID Priority Order) :
    (s.trackNonces ns invalidated).2.onchainNonces =
      insertAll s.onchainNonces (ns.map fun n => (n.account, n.nonce)) := by
  induction ns generalizing invalidated s with
  | nil => rfl
  | cons n ns ih =>
    rw [trackNonces, ih]
    rfl

lemma mem_trackNonces (ns : List AccountNonce) (dirty : Finset ID) (s : PrioritizedOrderpool ID Priority Order) :
    i ∈ (s.trackNonces ns dirty).1 ↔ i ∈ dirty ∨ ∃ n ∈ ns, s.Indexed n.account i := by
  induction ns generalizing dirty s with
  | nil => simp [trackNonces]
  | cons n ns ih =>
    rw [trackNonces, ih, Finset.mem_union, List.mem_toFinset, or_assoc, List.exists_mem_cons_iff]
    apply or_congr_right
    by_cases hn : s.Indexed n.account i
    · exact iff_of_true (.inl hn) (.inl hn)
    · refine or_congr_right ⟨?_, ?_⟩
      · rintro ⟨m, hm, hi⟩
        exact ⟨m, hm, (indexed_trackNonce.mp hi).2⟩
      · rintro ⟨m, hm, hi⟩
        have hne : m.account ≠ n.account := fun he => hn (he ▸ hi)
        exact ⟨m, hm, indexed_trackNonce.mpr ⟨hne, hi⟩⟩

variable [OrderpoolOrder Order ID]

def takeOut (i : ID) (order : Order) (s : PrioritizedOrderpool ID Priority Order) :
    PrioritizedOrderpool ID Priority Order :=
  ((s.removeFromOrders i).removeQueued i).unindexOrder order

lemma entry_takeOut (i : ID) (order : Order) (s : PrioritizedOrderpool ID Priority Order) (j : ID) :
    (s.takeOut i order).entry j = if j = i then (s.entry j).takenOut else s.entry j := by
  split
  · next hj =>
    subst hj
    apply Entry.ext
    · exact Function.update_self _ _ _
    · exact eq_false (not_queued_unindexOrder _ _ _)
    · rfl
  · next hj =>
    apply Entry.ext
    · exact Function.update_of_ne hj _ _
    · exact propext (queued_removeQueued.trans (and_iff_left hj))
    · rfl

variable [PrioritizedOrderpoolPriority Priority Order] {order : Order}

lemma queued_enqueue : (s.enqueue order).Queued j ↔ s.Queued j ∨ j = orderId order := by
  have hiff : (s.enqueue order).Queued j ↔ (s.removeQueued (orderId order)).Queued j ∨ j = orderId order := by
    simp only [Queued, enqueue, List.mem_append, List.mem_singleton, Prod.mk.injEq, exists_or, exists_and_left,
      exists_eq, and_true]
  rw [hiff, queued_removeQueued]
  tauto

lemma onchainNonces_place (order : Order) (pending : List AccountNonce)
    (s : PrioritizedOrderpool ID Priority Order) :
    (s.place order pending).onchainNonces = s.onchainNonces := by
  rw [place]
  dsimp only
  split
  · rfl
  · rfl

lemma insertOrder_cases {ε : Type} (source : OrderpoolNonceSource ε) (order : Order)
    (s : PrioritizedOrderpool ID Priority Order) :
    (s.insertOrder source order).2 = s ∨
      (s.insertOrder source order).2 = (s.pendingNonces source (nonces order) []).2 ∨
      ∃ pending, s.orders (orderId order) = none ∧
        (s.pendingNonces source (nonces order) []).1 = .ok (some pending) ∧
        (s.insertOrder source order).2 = (s.pendingNonces source (nonces order) []).2.place order pending := by
  rw [insertOrder]
  split
  · exact .inl rfl
  · next hnone =>
    rcases s.pendingNonces source (nonces order) [] with ⟨r, s₁⟩
    rcases r with e | _ | pending
    · exact .inr (.inl rfl)
    · exact .inr (.inl rfl)
    · exact .inr (.inr ⟨pending, by simpa using hnone, rfl, rfl⟩)

lemma entry_place {pending : List AccountNonce} (h : Scanned s (nonces order) [] pending) (j : ID) :
    (s.place order pending).entry j =
      if j = orderId order then (s.entry j).offered s.onchainNonces order else s.entry j := by
  have hwaits := h.mem_awaited
  rw [Entry.offered, if_neg h.not_overtaken]
  cases pending with
  | nil =>
    have hnone : awaited s.onchainNonces (nonces order) = ∅ :=
      Set.eq_empty_of_forall_notMem fun a ha => List.not_mem_nil ((hwaits a).mpr ha)
    have hq : (s.place order []).Queued j ↔ s.Queued j ∨ j = orderId order := queued_enqueue
    split
    · next hj =>
      apply Entry.ext
      · rw [hj]
        exact Function.update_self _ _ _
      · exact propext (hq.trans (or_congr_right (iff_of_true hj hnone)))
      · rw [hnone, Set.union_empty]
        rfl
    · next hj =>
      apply Entry.ext
      · exact Function.update_of_ne hj _ _
      · exact propext (hq.trans (or_iff_left hj))
      · rfl
  | cons a pending =>
    have hsome : awaited s.onchainNonces (nonces order) ≠ ∅ :=
      Set.Nonempty.ne_empty ⟨a, (hwaits a).mp List.mem_cons_self⟩
    split
    · next hj =>
      apply Entry.ext
      · rw [hj]
        exact Function.update_self _ _ _
      · exact propext (or_iff_left hsome).symm
      · ext n
        exact waiting_park.trans (or_congr_right (by rw [and_iff_right hj, hwaits n]))
    · next hj =>
      apply Entry.ext
      · exact Function.update_of_ne hj _ _
      · rfl
      · ext n
        exact waiting_park.trans (or_iff_left fun hc => hj hc.1)

end Effects

end PrioritizedOrderpool

end Rblib.Orderpool2
