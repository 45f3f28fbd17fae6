import Rblib.Orderpool2.PrioritizedPool

/-! The maps of the prioritized orderpool stay in step. `Consistent` is stated for the half updated
states too: `dirty` are the queued orders whose account changed and that were not looked at again,
`due` the nonces whose waiting orders were not promoted yet, and `held` the orders taken out to be
inserted again. -/

namespace Rblib.Orderpool2.PrioritizedOrderpool

open Payload OrderpoolOrder PrioritizedOrderpoolPriority

section Views

variable {ID Priority Order : Type}

def Queued (s : PrioritizedOrderpool ID Priority Order) (i : ID) : Prop := ∃ p, (i, p) ∈ s.mainQueue

def Indexed (s : PrioritizedOrderpool ID Priority Order) (a : Address) (i : ID) : Prop :=
  i ∈ (s.mainQueueNonces a).getD []

def Waiting (s : PrioritizedOrderpool ID Priority Order) (n : AccountNonce) (i : ID) : Prop :=
  i ∈ (s.pendingOrders n).getD []

structure Extends (s s' : PrioritizedOrderpool ID Priority Order) : Prop where
  frame : s' = { s with onchainNonces := s'.onchainNonces }
  cached : ∀ {a v}, s.onchainNonces a = some v → s'.onchainNonces a = some v

namespace Extends

variable {s s' s'' : PrioritizedOrderpool ID Priority Order}

lemma refl (s : PrioritizedOrderpool ID Priority Order) : Extends s s := ⟨rfl, fun h => h⟩

lemma trans (h : Extends s s') (h' : Extends s' s'') : Extends s s'' := by
  refine ⟨?_, fun ha => h'.cached (h.cached ha)⟩
  calc s'' = { s' with onchainNonces := s''.onchainNonces } := h'.frame
    _ = { s with onchainNonces := s''.onchainNonces } := by rw [h.frame]

lemma orders_eq (h : Extends s s') : s'.orders = s.orders := by rw [h.frame]

lemma mainQueue_eq (h : Extends s s') : s'.mainQueue = s.mainQueue := by rw [h.frame]

end Extends

variable [OrderpoolOrder Order ID]

def Ready (s : PrioritizedOrderpool ID Priority Order) (order : Order) : Prop :=
  ∀ n ∈ nonces order, n.optional = false → s.onchainNonces n.address = some n.nonce

def Tracked (s : PrioritizedOrderpool ID Priority Order) (ns : List BundleNonce) : Prop :=
  ∀ n ∈ ns, ∃ v, s.onchainNonces n.address = some v

def Overtaken (onchain : Address → Option ℕ) (ns : List BundleNonce) : Prop :=
  ∃ n ∈ ns, n.optional = false ∧ ∃ v, onchain n.address = some v ∧ n.nonce < v

def Current (onchain : Address → Option ℕ) (ns : List BundleNonce) : Prop :=
  ∃ n ∈ ns, onchain n.address = some n.nonce

def Known (s : PrioritizedOrderpool ID Priority Order) (held : List Order) (i : ID) (order : Order) : Prop :=
  s.orders i = some order ∨ order ∈ held ∧ orderId order = i

structure Consistent [PrioritizedOrderpoolPriority Priority Order]
    (s : PrioritizedOrderpool ID Priority Order) (dirty : Finset ID) (due : List AccountNonce)
    (held : List Order) : Prop where
  keyed : ∀ {i order}, s.orders i = some order → orderId order = i
  released : ∀ order ∈ held, s.orders (orderId order) = none
  distinct : (held.map orderId).Nodup
  tracked : ∀ {i order}, s.Known held i order → s.Tracked (nonces order)
  queued : ∀ {i p}, (i, p) ∈ s.mainQueue → ∃ order, s.Known held i order ∧ p = new order ∧
    (i ∉ dirty → s.Ready order ∧ ∀ n ∈ nonces order, s.Indexed n.address i)
  invalidated : ∀ i ∈ dirty, s.Queued i ∧ ∃ order, s.Known held i order
  waiting : ∀ {i order}, s.orders i = some order → s.Queued i ∨ ∃ n ∈ nonces order, n.optional = false ∧
    s.Waiting n.accountNonce i ∧ (s.onchainNonces n.address = some n.nonce → n.accountNonce ∈ due)
  indexed : ∀ {a i}, s.Indexed a i →
    s.Queued i ∧ ∃ order, s.Known held i order ∧ ∃ n ∈ nonces order, n.address = a

end Views

section Cache

variable {ID Priority Order ε : Type} {s s' : PrioritizedOrderpool ID Priority Order}
  {source : OrderpoolNonceSource ε}

lemma nonce_extends (source : OrderpoolNonceSource ε) (a : Address)
    (s : PrioritizedOrderpool ID Priority Order) : Extends s (s.nonce source a).2 := by
  rw [nonce]
  cases ha : s.onchainNonces a with
  | some v => exact Extends.refl s
  | none =>
    cases source a with
    | error e => exact Extends.refl s
    | ok v =>
      refine ⟨rfl, fun {b w} hb => ?_⟩
      have hab : b ≠ a := by
        intro h
        rw [h, ha] at hb
        exact absurd hb (by simp)
      simpa only [Function.update_of_ne hab] using hb

lemma nonce_ok {a : Address} {v : ℕ} (h : s.nonce source a = (.ok v, s')) :
    s'.onchainNonces a = some v := by
  rw [nonce] at h
  cases ha : s.onchainNonces a with
  | some w =>
    simp only [ha, Prod.mk.injEq, Except.ok.injEq] at h
    rw [← h.2, ha, h.1]
  | none =>
    cases hs : source a with
    | error e => simp [ha, hs] at h
    | ok w =>
      simp only [ha, hs, Prod.mk.injEq, Except.ok.injEq] at h
      rw [← h.2, ← h.1]
      exact Function.update_self _ _ _

lemma nonce_tracked {a : Address} {v : ℕ} (h : s.onchainNonces a = some v) :
    s.nonce source a = (.ok v, s) := by
  simp only [nonce, h]

lemma pendingNonces_keeps {P : PrioritizedOrderpool ID Priority Order → Prop} (source : OrderpoolNonceSource ε)
    (hread : ∀ s a, P s → P (s.nonce source a).2) (ns : List BundleNonce) (pending : List AccountNonce) (h : P s) :
    P (s.pendingNonces source ns pending).2 := by
  induction ns generalizing pending s with
  | nil => exact h
  | cons n ns ih =>
    have hn := hread s n.address h
    rw [pendingNonces]
    rcases hr : s.nonce source n.address with ⟨r, s'⟩
    rw [hr] at hn
    cases r with
    | error e => exact hn
    | ok onchain =>
      dsimp only
      split
      · exact hn
      · split
        · exact ih _ hn
        · exact ih _ hn

lemma pendingNonces_extends (source : OrderpoolNonceSource ε) (ns : List BundleNonce)
    (pending : List AccountNonce) (s : PrioritizedOrderpool ID Priority Order) :
    Extends s (s.pendingNonces source ns pending).2 := by
  apply pendingNonces_keeps
  · exact fun s' a h => h.trans (nonce_extends source a s')
  · exact Extends.refl s

lemma pendingNonces_stale {ns : List BundleNonce} {pending : List AccountNonce}
    (h : s.pendingNonces source ns pending = (.ok none, s')) : Overtaken s'.onchainNonces ns := by
  induction ns generalizing pending s with
  | nil => simp [pendingNonces] at h
  | cons n ns ih =>
    rw [pendingNonces] at h
    rcases hr : s.nonce source n.address with ⟨r, s₁⟩
    rw [hr] at h
    cases r with
    | error e => simp at h
    | ok onchain =>
      dsimp only at h
      split at h
      · next hlt =>
        rw [← (Prod.mk.inj h).2]
        exact ⟨n, List.mem_cons_self, hlt.2, onchain, nonce_ok hr, hlt.1⟩
      · split at h
        · obtain ⟨m, hm, hmv⟩ := ih h
          exact ⟨m, List.mem_cons_of_mem _ hm, hmv⟩
        · obtain ⟨m, hm, hmv⟩ := ih h
          exact ⟨m, List.mem_cons_of_mem _ hm, hmv⟩

structure Scanned (s : PrioritizedOrderpool ID Priority Order) (ns : List BundleNonce)
    (before pending : List AccountNonce) : Prop where
  fresh : ∀ n ∈ ns, ∃ v, s.onchainNonces n.address = some v ∧ (n.optional = false → v ≤ n.nonce)
  mem_pending : ∀ a, a ∈ pending ↔ a ∈ before ∨ ∃ n ∈ ns, n.optional = false ∧ n.accountNonce = a ∧
    s.onchainNonces n.address ≠ some n.nonce

lemma Scanned.cons {n : BundleNonce} {ns : List BundleNonce} {before before' pending : List AccountNonce}
    {v : ℕ} (h : Scanned s ns before' pending) (hv : s.onchainNonces n.address = some v)
    (hfresh : n.optional = false → v ≤ n.nonce)
    (hb : ∀ a, a ∈ before' ↔ a ∈ before ∨ n.optional = false ∧ n.accountNonce = a ∧ v ≠ n.nonce) :
    Scanned s (n :: ns) before pending := by
  have hne : s.onchainNonces n.address ≠ some n.nonce ↔ v ≠ n.nonce := by
    rw [hv, ne_eq, Option.some.injEq]
  refine ⟨?_, fun a => ?_⟩
  · intro m hm
    rcases List.mem_cons.mp hm with rfl | hm
    · exact ⟨v, hv, hfresh⟩
    · exact h.fresh m hm
  · rw [h.mem_pending a, hb a, ← hne, or_assoc]
    apply or_congr_right
    rw [List.exists_mem_cons_iff]

lemma pendingNonces_scanned {ns : List BundleNonce} {before pending : List AccountNonce}
    (h : s.pendingNonces source ns before = (.ok (some pending), s')) :
    Scanned s' ns before pending := by
  induction ns generalizing before s with
  | nil =>
    simp only [pendingNonces, Prod.mk.injEq, Except.ok.injEq, Option.some.injEq] at h
    exact ⟨by simp, by simp [h.1]⟩
  | cons n ns ih =>
    rw [pendingNonces] at h
    rcases hr : s.nonce source n.address with ⟨r, s₁⟩
    rw [hr] at h
    cases r with
    | error e => simp at h
    | ok onchain =>
      dsimp only at h
      have hcached : ∀ acc, s₁.pendingNonces source ns acc = (.ok (some pending), s') →
          s'.onchainNonces n.address = some onchain := by
        intro acc hacc
        have he := pendingNonces_extends source ns acc s₁
        rw [hacc] at he
        exact he.cached (nonce_ok hr)
      split at h
      · simp at h
      · next hnot =>
        have hfresh : n.optional = false → onchain ≤ n.nonce := by
          intro ho
          by_contra hlt
          exact hnot ⟨by omega, ho⟩
        split at h
        · next hlt =>
          apply (ih h).cons (hcached _ h) hfresh
          intro a
          have hne : onchain ≠ n.nonce := by omega
          simp [hlt.2, hne, eq_comm]
        · next hnlt =>
          apply (ih h).cons (hcached _ h) hfresh
          intro a
          have hskip : ¬ (n.optional = false ∧ n.accountNonce = a ∧ onchain ≠ n.nonce) := by
            rintro ⟨ho, -, hne⟩
            have hle := hfresh ho
            exact hnlt ⟨by omega, ho⟩
          rw [or_iff_left hskip]

lemma pendingNonces_tracked {ns : List BundleNonce} (pending : List AccountNonce) (h : Tracked s ns) :
    ∃ r, ∀ {ε : Type} (source : OrderpoolNonceSource ε), s.pendingNonces source ns pending = (.ok r, s) := by
  induction ns generalizing pending with
  | nil => exact ⟨_, fun _ => rfl⟩
  | cons n ns ih =>
    obtain ⟨v, hv⟩ := h n List.mem_cons_self
    have ht : Tracked s ns := fun m hm => h m (List.mem_cons_of_mem _ hm)
    simp only [pendingNonces, nonce_tracked hv]
    split
    · exact ⟨_, fun _ => rfl⟩
    · split
      · exact ih _ ht
      · exact ih _ ht

lemma retainOrder_tracked {ns : List BundleNonce} (validNonces : ℕ) (h : Tracked s ns) :
    ∃ r, (∀ {ε : Type} (source : OrderpoolNonceSource ε), s.retainOrder source ns validNonces = (.ok r, s)) ∧
      (r = true ↔ ¬ Overtaken s.onchainNonces ns ∧ (0 < validNonces ∨ Current s.onchainNonces ns)) := by
  induction ns generalizing validNonces with
  | nil => exact ⟨_, fun _ => rfl, by simp [Overtaken, Current]⟩
  | cons n ns ih =>
    obtain ⟨v, hv⟩ := h n List.mem_cons_self
    have ht : Tracked s ns := fun m hm => h m (List.mem_cons_of_mem _ hm)
    have hover : Overtaken s.onchainNonces (n :: ns) ↔
        n.optional = false ∧ n.nonce < v ∨ Overtaken s.onchainNonces ns := by
      simp [Overtaken, hv]
    have hcurrent : Current s.onchainNonces (n :: ns) ↔ v = n.nonce ∨ Current s.onchainNonces ns := by
      simp [Current, hv]
    simp only [retainOrder, nonce_tracked hv, hover, hcurrent]
    split
    · next hlt => exact ⟨_, fun _ => rfl, by simp [hlt.2, hlt.1]⟩
    · next hnot =>
      have hfresh : ¬ (n.optional = false ∧ n.nonce < v) := fun hc => hnot ⟨hc.2, hc.1⟩
      split
      · next heq =>
        obtain ⟨r, hr, hiff⟩ := ih (validNonces + 1) ht
        exact ⟨r, hr, by simpa [hfresh, heq] using hiff⟩
      · next hne =>
        obtain ⟨r, hr, hiff⟩ := ih validNonces ht
        exact ⟨r, hr, by simpa only [hfresh, hne, false_or] using hiff⟩

lemma queued_removeQueued [DecidableEq ID] {i j : ID} : (s.removeQueued i).Queued j ↔ s.Queued j ∧ j ≠ i := by
  simp only [Queued, removeQueued, List.mem_filter, decide_eq_true_eq, exists_and_right]

lemma trackNonce_self (n : AccountNonce) : (s.trackNonce n).onchainNonces n.account = some n.nonce :=
  Function.update_self _ _ _

lemma trackNonce_of_ne {n : AccountNonce} {a : Address} (h : a ≠ n.account) :
    (s.trackNonce n).onchainNonces a = s.onchainNonces a :=
  Function.update_of_ne h _ _

lemma indexed_trackNonce {n : AccountNonce} {a : Address} {i : ID} :
    (s.trackNonce n).Indexed a i ↔ a ≠ n.account ∧ s.Indexed a i := by
  by_cases h : a = n.account
  · simp [Indexed, trackNonce, h]
  · simp [Indexed, trackNonce, h]

lemma takeOrders_none [DecidableEq ID] (is : List ID) {orders : ID → Option Order} {j : ID}
    (h : j ∈ is ∨ orders j = none) : (takeOrders is orders).2 j = none := by
  induction is generalizing orders with
  | nil => exact h.resolve_left (by simp)
  | cons i is ih =>
    have hj : j ∈ is ∨ Function.update orders i none j = none := by
      by_cases hji : j = i
      · exact .inr (by rw [hji, Function.update_self])
      · rw [Function.update_of_ne hji]
        exact h.imp_left (fun hm => (List.mem_cons.mp hm).resolve_left hji)
    rw [takeOrders]
    cases orders i with
    | none => exact ih hj
    | some order => exact ih hj

lemma takeOrders_of_notMem [DecidableEq ID] {is : List ID} {j : ID} (orders : ID → Option Order) (h : j ∉ is) :
    (takeOrders is orders).2 j = orders j := by
  induction is generalizing orders with
  | nil => rfl
  | cons i is ih =>
    rw [List.mem_cons, not_or] at h
    have hrest := ih (Function.update orders i none) h.2
    rw [Function.update_of_ne h.1] at hrest
    rw [takeOrders]
    cases orders i with
    | none => exact hrest
    | some order => exact hrest

lemma mem_takeOrders [DecidableEq ID] {is : List ID} {orders : ID → Option Order} {order : Order} :
    order ∈ (takeOrders is orders).1 ↔ ∃ i ∈ is, orders i = some order := by
  induction is generalizing orders with
  | nil => simp [takeOrders]
  | cons i is ih =>
    have hrest : (∃ j ∈ is, Function.update orders i none j = some order) ↔
        ∃ j ∈ is, j ≠ i ∧ orders j = some order := by
      refine exists_congr fun j => and_congr_right fun _ => ?_
      by_cases hj : j = i
      · simp [hj]
      · simp [hj]
    rw [List.exists_mem_cons_iff, takeOrders]
    cases hi : orders i with
    | none =>
      rw [ih, hrest]
      constructor
      · rintro ⟨j, hj, -, hjo⟩
        exact .inr ⟨j, hj, hjo⟩
      · rintro (hio | ⟨j, hj, hjo⟩)
        · exact absurd hio (by simp)
        · refine ⟨j, hj, ?_, hjo⟩
          rintro rfl
          exact absurd (hi.symm.trans hjo) (by simp)
    | some o =>
      rw [List.mem_cons, ih, hrest, Option.some.injEq]
      constructor
      · rintro (ho | ⟨j, hj, -, hjo⟩)
        · exact .inl ho.symm
        · exact .inr ⟨j, hj, hjo⟩
      · rintro (ho | ⟨j, hj, hjo⟩)
        · exact .inl ho.symm
        · by_cases hji : j = i
          · subst hji
            exact .inl (Option.some.inj (hi.symm.trans hjo)).symm
          · exact .inr ⟨j, hj, hji, hjo⟩

end Cache

section Operations

variable {ID Priority Order : Type} [OrderpoolOrder Order ID] {s : PrioritizedOrderpool ID Priority Order}
  {order : Order}

lemma mem_indexFold (ns : List BundleNonce) (index : Address → Option (List ID)) (i j : ID) (a : Address) :
    j ∈ ((ns.foldl (fun index (n : BundleNonce) =>
      Function.update index n.address (some ((index n.address).getD [] ++ [i]))) index) a).getD [] ↔
      j ∈ (index a).getD [] ∨ j = i ∧ ∃ n ∈ ns, n.address = a := by
  induction ns generalizing index with
  | nil => simp
  | cons n ns ih =>
    rw [List.foldl_cons, ih, List.exists_mem_cons_iff]
    by_cases ha : n.address = a
    · subst ha
      rw [Function.update_self]
      simp only [Option.getD_some, List.mem_append, List.mem_singleton, true_or, and_true]
      tauto
    · rw [Function.update_of_ne (Ne.symm ha)]
      simp only [ha, false_or]

lemma indexed_indexOrder {a : Address} {j : ID} : (s.indexOrder order).Indexed a j ↔
    s.Indexed a j ∨ j = orderId order ∧ ∃ n ∈ nonces order, n.address = a :=
  mem_indexFold _ _ _ _ _

variable [DecidableEq ID]

lemma mem_unindexFold (ns : List BundleNonce) (index : Address → Option (List ID)) (i j : ID) (a : Address) :
    j ∈ ((ns.foldl (fun index (n : BundleNonce) =>
      Function.update index n.address ((index n.address).map (·.filter (· ≠ i)))) index) a).getD [] ↔
      j ∈ (index a).getD [] ∧ ¬ (j = i ∧ ∃ n ∈ ns, n.address = a) := by
  induction ns generalizing index with
  | nil => simp
  | cons n ns ih =>
    rw [List.foldl_cons, ih, List.exists_mem_cons_iff]
    by_cases ha : n.address = a
    · subst ha
      rw [Function.update_self]
      cases index n.address with
      | none => simp
      | some l =>
        simp only [Option.map_some, Option.getD_some, List.mem_filter, decide_eq_true_eq, true_or, and_true]
        tauto
    · rw [Function.update_of_ne (Ne.symm ha)]
      simp only [ha, false_or]

lemma mem_parkFold (ns : List AccountNonce) (waiting : AccountNonce → Option (List ID)) (i j : ID)
    (a : AccountNonce) :
    j ∈ ((ns.foldl (fun waiting n => Function.update waiting n (some
      (if i ∈ (waiting n).getD [] then (waiting n).getD [] else (waiting n).getD [] ++ [i])))
        waiting) a).getD [] ↔ j ∈ (waiting a).getD [] ∨ j = i ∧ a ∈ ns := by
  induction ns generalizing waiting with
  | nil => simp
  | cons n ns ih =>
    rw [List.foldl_cons, ih, List.mem_cons]
    by_cases ha : a = n
    · subst ha
      rw [Function.update_self, Option.getD_some]
      split
      · next hi =>
        have hj : j = i → j ∈ (waiting a).getD [] := fun h => h ▸ hi
        tauto
      · simp only [List.mem_append, List.mem_singleton, true_or, and_true]
        tauto
    · rw [Function.update_of_ne ha]
      simp only [ha, false_or]

lemma indexed_unindexOrder {a : Address} {j : ID} : (s.unindexOrder order).Indexed a j ↔
    s.Indexed a j ∧ ¬ (j = orderId order ∧ ∃ n ∈ nonces order, n.address = a) :=
  mem_unindexFold _ _ _ _ _

lemma waiting_park {pending : List AccountNonce} {n : AccountNonce} {j : ID} :
    (s.park order pending).Waiting n j ↔ s.Waiting n j ∨ j = orderId order ∧ n ∈ pending :=
  mem_parkFold _ _ _ _ _

lemma not_queued_unindexOrder (s : PrioritizedOrderpool ID Priority Order) (i : ID) (order : Order) :
    ¬ ((s.removeQueued i).unindexOrder order).Queued i :=
  fun hq => (queued_removeQueued.mp hq).2 rfl

end Operations

end Rblib.Orderpool2.PrioritizedOrderpool
