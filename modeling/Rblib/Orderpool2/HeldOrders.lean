import Rblib.Orderpool2.StepRuns

namespace Rblib.Orderpool2.PrioritizedOrderpool

open OrderpoolOrder Platform PlatformTypes Payload

variable {ID Priority Order ε : Type} {s s' : PrioritizedOrderpool ID Priority Order}
  {source : OrderpoolNonceSource ε} {q : Order → Prop}

def AllHeld (q : Order → Prop) (s : PrioritizedOrderpool ID Priority Order) : Prop :=
  ∀ i order, s.orders i = some order → q order

lemma AllHeld.of_orders (h : s.AllHeld q) (he : s'.orders = s.orders) : s'.AllHeld q := by
  rw [AllHeld, he]
  exact h

lemma orders_nonce (source : OrderpoolNonceSource ε) (a : Address) (s : PrioritizedOrderpool ID Priority Order) :
    (s.nonce source a).2.orders = s.orders := (nonce_extends source a s).orders_eq

lemma orders_retainOrder (source : OrderpoolNonceSource ε) (ns : List BundleNonce) (validNonces : ℕ)
    (s : PrioritizedOrderpool ID Priority Order) : (s.retainOrder source ns validNonces).2.orders = s.orders := by
  induction ns generalizing validNonces s with
  | nil => rfl
  | cons n ns ih =>
    have hn := orders_nonce source n.address s
    rw [retainOrder]
    rcases hr : s.nonce source n.address with ⟨r, s'⟩
    rw [hr] at hn
    cases r with
    | error e => exact hn
    | ok onchain =>
      dsimp only
      split
      · exact hn
      · split
        · exact (ih _ _).trans hn
        · exact (ih _ _).trans hn

lemma orders_trackNonces [DecidableEq ID] (ns : List AccountNonce) (invalidated : Finset ID)
    (s : PrioritizedOrderpool ID Priority Order) : (s.trackNonces ns invalidated).2.orders = s.orders := by
  induction ns generalizing invalidated s with
  | nil => rfl
  | cons n ns ih => exact ih _ _

lemma takeOrders_some [DecidableEq ID] {is : List ID} {orders : ID → Option Order} {i : ID} {order : Order}
    (h : (takeOrders is orders).2 i = some order) : orders i = some order := by
  by_cases hi : i ∈ is
  · rw [takeOrders_none is (.inl hi)] at h
    cases h
  · rwa [takeOrders_of_notMem orders hi] at h

variable [DecidableEq ID] [OrderpoolOrder Order ID]

lemma AllHeld.removePopped {i : ID} {order : Order} (h : s.AllHeld q)
    (hp : (s.removeQueued i).removePoppedOrder i = (some order, s')) : q order ∧ s'.AllHeld q := by
  rw [removePoppedOrder] at hp
  split at hp
  · cases hp
  · next found hfound =>
    cases hp
    refine ⟨h i _ hfound, fun j o hj => h j o ?_⟩
    change Function.update s.orders i none j = some o at hj
    by_cases hji : j = i
    · rw [hji, Function.update_self] at hj
      cases hj
    · rwa [Function.update_of_ne hji] at hj

lemma AllHeld.popOrder [LE Priority] {choice : PopChoice ID Priority} {r : Option Order} (h : s.AllHeld q)
    (hp : s.popOrder choice = .ok (r, s')) : (∀ order, r = some order → q order) ∧ s'.AllHeld q := by
  rw [PrioritizedOrderpool.popOrder] at hp
  split at hp
  · cases hp
    refine ⟨fun order ho => ?_, h⟩
    cases ho
  · split at hp
    · cases hp
    · next order popped hpop =>
      cases hp
      obtain ⟨horder, hrest⟩ := h.removePopped hpop
      refine ⟨fun o ho => ?_, hrest⟩
      cases ho
      exact horder

variable [PrioritizedOrderpoolPriority Priority Order]

lemma AllHeld.insertOrder (source : OrderpoolNonceSource ε) {order : Order} (h : s.AllHeld q) (horder : q order) :
    (s.insertOrder source order).2.AllHeld q := by
  have hread := (pendingNonces_extends source (nonces order) [] s).orders_eq
  rcases insertOrder_cases source order s with hsame | hscan | ⟨pending, -, -, hplace⟩
  · rwa [hsame]
  · rw [hscan]
    exact h.of_orders hread
  · rw [hplace]
    intro i o ho
    have horders : ((s.pendingNonces source (nonces order) []).2.place order pending).orders =
        Function.update s.orders (orderId order) (some order) := by
      rw [place, ← hread]
      dsimp only
      split <;> rfl
    rw [horders] at ho
    by_cases hi : i = orderId order
    · rw [hi, Function.update_self] at ho
      cases ho
      exact horder
    · rw [Function.update_of_ne hi] at ho
      exact h i o ho

lemma AllHeld.insertOrders (source : OrderpoolNonceSource ε) {orders : List Order} (h : s.AllHeld q)
    (horders : ∀ order ∈ orders, q order) :
    (s.insertOrders source orders).2.AllHeld q := by
  induction orders generalizing s with
  | nil => exact h
  | cons order orders ih =>
    obtain ⟨horder, hrest⟩ := List.forall_mem_cons.mp horders
    have hinsert := h.insertOrder source horder
    rw [PrioritizedOrderpool.insertOrders]
    rcases hr : s.insertOrder source order with ⟨r, s'⟩
    rw [hr] at hinsert
    cases r with
    | error e => exact hinsert
    | ok u => exact ih hinsert hrest

lemma AllHeld.revalidate (h : s.AllHeld q) (is : List ID) {r : Except ε Unit}
    (hr : s.revalidate source is = .ok (r, s')) : s'.AllHeld q := by
  induction is generalizing s with
  | nil =>
    cases hr
    exact h
  | cons i is ih =>
    rw [PrioritizedOrderpool.revalidate] at hr
    rcases hp : (s.removeQueued i).removePoppedOrder i with ⟨o, s₁⟩
    rw [hp] at hr
    cases o with
    | none => cases hr
    | some order =>
      obtain ⟨horder, hpopped⟩ := h.removePopped hp
      dsimp only at hr
      have hretain := hpopped.of_orders (orders_retainOrder source (nonces order) 0 s₁)
      rcases ht : s₁.retainOrder source (nonces order) 0 with ⟨kept, s₂⟩
      rw [ht] at hr hretain
      cases kept with
      | error e =>
        cases hr
        exact hretain
      | ok kept =>
        cases kept with
        | false => exact ih hretain hr
        | true =>
          dsimp only at hr
          have hinsert := hretain.insertOrder source horder
          rcases hi : s₂.insertOrder source order with ⟨r', s₃⟩
          rw [hi] at hr hinsert
          cases r' with
          | error e =>
            cases hr
            exact hinsert
          | ok u => exact ih hinsert hr

lemma AllHeld.promotePending (h : s.AllHeld q) (ns : List AccountNonce) :
    (s.promotePending source ns).2.AllHeld q := by
  induction ns generalizing s with
  | nil => exact h
  | cons n ns ih =>
    rw [PrioritizedOrderpool.promotePending]
    split
    · exact ih h
    · next pending hpending =>
      dsimp only
      have hcleared : ({ s with
          pendingOrders := Function.update s.pendingOrders n none
          orders := (takeOrders pending s.orders).2 } : PrioritizedOrderpool ID Priority Order).AllHeld q :=
        fun i order hi => h i order (takeOrders_some hi)
      have htaken : ∀ order ∈ (takeOrders pending s.orders).1, q order := by
        intro order ho
        obtain ⟨i, -, hi⟩ := mem_takeOrders.mp ho
        exact h i order hi
      have hinsert := hcleared.insertOrders source htaken
      split
      · next e s' hi =>
        rw [hi] at hinsert
        exact hinsert
      · next s' hi =>
        rw [hi] at hinsert
        exact ih hinsert

lemma AllHeld.updateOnchainNonces {visit : SetOrder ID} {newNonces : List AccountNonce} {r : Except ε Unit}
    (h : s.AllHeld q) (hr : s.updateOnchainNonces visit source newNonces = .ok (r, s')) : s'.AllHeld q := by
  have htracked := h.of_orders (orders_trackNonces newNonces ∅ s)
  rw [PrioritizedOrderpool.updateOnchainNonces] at hr
  dsimp only at hr
  split at hr
  · cases hr
  · next e s₂ hrevalidate =>
    cases hr
    exact htracked.revalidate _ hrevalidate
  · next s₂ hrevalidate =>
    have hrevalidated := htracked.revalidate _ hrevalidate
    obtain rfl := (Prod.mk.inj (Except.ok.inj hr)).2
    exact hrevalidated.promotePending newNonces

end Rblib.Orderpool2.PrioritizedOrderpool
