import Rblib.Orderpool2.Entries

namespace Rblib.Orderpool2.PrioritizedOrderpool

open Payload OrderpoolOrder PrioritizedOrderpoolPriority

namespace Consistent

section Steps

variable {ID Priority Order : Type} [OrderpoolOrder Order ID]
  [PrioritizedOrderpoolPriority Priority Order] {s s' : PrioritizedOrderpool ID Priority Order}
  {dirty : Finset ID} {due : List AccountNonce} {held : List Order} {order order' : Order} {i : ID}

lemma initial : Consistent ({} : PrioritizedOrderpool ID Priority Order) ∅ [] [] where
  keyed h := absurd h (by simp)
  released o h := absurd h (by simp)
  distinct := List.nodup_nil
  tracked h := by simp [Known] at h
  queued h := absurd h (by simp)
  invalidated j h := absurd h (by simp)
  waiting h := absurd h (by simp)
  indexed h := by simp [Indexed] at h

lemma known_unique (h : Consistent s dirty due held) (ho : s.Known held i order)
    (ho' : s.Known held i order') : order = order' := by
  rcases ho with ho | ⟨ho, hi⟩
  · rcases ho' with ho' | ⟨ho', hi'⟩
    · exact Option.some.inj (ho.symm.trans ho')
    · have hn := h.released order' ho'
      rw [hi', ho] at hn
      exact absurd hn (by simp)
  · rcases ho' with ho' | ⟨ho', hi'⟩
    · have hn := h.released order ho
      rw [hi, ho'] at hn
      exact absurd hn (by simp)
    · exact List.inj_on_of_nodup_map h.distinct ho ho' (hi.trans hi'.symm)

lemma weaken_due {due' : List AccountNonce} (h : Consistent s dirty due held) (hd : due ⊆ due') :
    Consistent s dirty due' held :=
  { h with
    waiting := by
      intro i order ho
      rcases h.waiting ho with hq | ⟨n, hn, hopt, hw, hdue⟩
      · exact .inl hq
      · exact .inr ⟨n, hn, hopt, hw, fun hv => hd (hdue hv)⟩ }

lemma extended (h : Consistent s dirty due held) (he : Extends s s') : Consistent s' dirty due held := by
  have hq : s'.mainQueue = s.mainQueue := he.mainQueue_eq
  have ho : s'.orders = s.orders := he.orders_eq
  have hi : s'.mainQueueNonces = s.mainQueueNonces := by rw [he.frame]
  have hp : s'.pendingOrders = s.pendingOrders := by rw [he.frame]
  refine ⟨?_, ?_, h.distinct, ?_, ?_, ?_, ?_, ?_⟩
  · rw [ho]
    exact h.keyed
  · rw [ho]
    exact h.released
  · intro i order hk n hn
    rw [Known, ho] at hk
    obtain ⟨v, hv⟩ := h.tracked hk n hn
    exact ⟨v, he.cached hv⟩
  · intro i p hip
    rw [hq] at hip
    obtain ⟨order, hk, hnew, hclean⟩ := h.queued hip
    refine ⟨order, by rwa [Known, ho], hnew, fun hd => ?_⟩
    obtain ⟨hr, hx⟩ := hclean hd
    exact ⟨fun n hn hopt => he.cached (hr n hn hopt), by simpa only [Indexed, hi] using hx⟩
  · simpa only [Queued, Known, hq, ho] using h.invalidated
  · intro i order hio
    rw [ho] at hio
    rcases h.waiting hio with hq' | ⟨n, hn, hopt, hw, hdue⟩
    · exact .inl (by rwa [Queued, hq])
    · refine .inr ⟨n, hn, hopt, by rwa [Waiting, hp], fun hv => hdue ?_⟩
      obtain ⟨v, hv'⟩ := h.tracked (.inl hio) n hn
      rw [hv', ← he.cached hv', hv]
  · intro a i hx
    rw [Indexed, hi] at hx
    simpa only [Queued, Known, hq, ho] using h.indexed hx

lemma ready_of_queued (h : Consistent s dirty due held) (hk : s.Known held i order) (hd : i ∉ dirty)
    (hq : s.Queued i) : s.Ready order := by
  obtain ⟨p, hp⟩ := hq
  obtain ⟨o, hko, -, hclean⟩ := h.queued hp
  rw [h.known_unique hk hko]
  exact (hclean hd).1

lemma queued_iff_ready (h : Consistent s ∅ [] []) (i : ID) :
    s.Queued i ↔ ∃ order, s.orders i = some order ∧ s.Ready order := by
  constructor
  · intro hq
    obtain ⟨p, hp⟩ := hq
    obtain ⟨order, hk, -, hclean⟩ := h.queued hp
    exact ⟨order, hk.resolve_right (by simp), (hclean (Finset.notMem_empty i)).1⟩
  · rintro ⟨order, hi, hr⟩
    obtain hq | ⟨n, hn, hopt, -, hdue⟩ := h.waiting hi
    · exact hq
    · exact absurd (hdue (hr n hn hopt)) (by simp)

lemma priority_eq {p : Priority} (h : Consistent s ∅ [] []) (hp : (i, p) ∈ s.mainQueue)
    (hi : s.orders i = some order) : p = new order := by
  obtain ⟨o, hk, hnew, -⟩ := h.queued hp
  rw [hnew, h.known_unique hk (.inl hi)]

lemma redistribute {held' : List Order} {orders : ID → Option Order} (h : Consistent s dirty due held)
    (hsub : ∀ {j o}, orders j = some o → s.orders j = some o)
    (hreleased : ∀ o ∈ held', orders (orderId o) = none) (hdistinct : (held'.map orderId).Nodup)
    (htracked : ∀ o ∈ held', s.Tracked (nonces o))
    (hknown : ∀ {j o}, s.Queued j → s.Known held j o → orders j = some o ∨ o ∈ held' ∧ orderId o = j) :
    Consistent { s with orders := orders } dirty due held' where
  keyed hj := h.keyed (hsub hj)
  released := hreleased
  distinct := hdistinct
  tracked hk := by
    rcases hk with hk | ⟨hk, -⟩
    · exact h.tracked (.inl (hsub hk))
    · exact htracked _ hk
  queued hjp := by
    obtain ⟨o, hk, hrest⟩ := h.queued hjp
    exact ⟨o, hknown ⟨_, hjp⟩ hk, hrest⟩
  invalidated j hj := by
    obtain ⟨hjq, o, hk⟩ := h.invalidated j hj
    exact ⟨hjq, o, hknown hjq hk⟩
  waiting hj := h.waiting (hsub hj)
  indexed hj := by
    obtain ⟨hjq, o, hk, hn⟩ := h.indexed hj
    exact ⟨hjq, o, hknown hjq hk, hn⟩

lemma tracked_held (h : Consistent s dirty due held) (ho : order ∈ held) : s.Tracked (nonces order) :=
  h.tracked (.inr ⟨ho, rfl⟩)

lemma discard (h : Consistent s dirty due (order :: held)) (hq : ¬ s.Queued (orderId order)) :
    Consistent s dirty due held := by
  refine h.redistribute (fun hj => hj) (fun o ho => h.released o (List.mem_cons_of_mem _ ho))
    h.distinct.of_cons (fun o ho => h.tracked_held (List.mem_cons_of_mem _ ho)) ?_
  intro j o hj hk
  rcases hk with hk | ⟨hk, hid⟩
  · exact .inl hk
  · rcases List.mem_cons.mp hk with rfl | hk
    · exact absurd (hid ▸ hj) hq
    · exact .inr ⟨hk, hid⟩

lemma offer (h : Consistent s dirty due held) (hnone : s.orders (orderId order) = none)
    (hheld : orderId order ∉ held.map orderId) (ht : s.Tracked (nonces order)) :
    Consistent s dirty due (order :: held) := by
  refine h.redistribute (fun hj => hj) ?_ ?_ ?_ ?_
  · intro o ho
    rcases List.mem_cons.mp ho with rfl | ho
    · exact hnone
    · exact h.released o ho
  · rw [List.map_cons, List.nodup_cons]
    exact ⟨hheld, h.distinct⟩
  · intro o ho
    rcases List.mem_cons.mp ho with rfl | ho
    · exact ht
    · exact h.tracked_held ho
  · intro j o _ hk
    exact hk.imp_right (fun ho => ⟨List.mem_cons_of_mem _ ho.1, ho.2⟩)

lemma promote {n : AccountNonce} (h : Consistent s dirty (n :: due) held)
    (hnone : ∀ i, s.Waiting n i → s.orders i = none) :
    Consistent { s with pendingOrders := Function.update s.pendingOrders n none } dirty due held :=
  { h with
    waiting := by
      intro i order hi
      apply (h.waiting hi).imp_right
      rintro ⟨m, hm, hopt, hw, hdue⟩
      have hmn : m.accountNonce ≠ n := by
        intro he
        have hn := hnone i (he ▸ hw)
        rw [hn] at hi
        exact absurd hi (by simp)
      refine ⟨m, hm, hopt, ?_, fun hv => (List.mem_cons.mp (hdue hv)).resolve_left hmn⟩
      simpa only [Waiting, Function.update_of_ne hmn] using hw }

end Steps

section Moves

variable {ID Priority Order : Type} [DecidableEq ID] [OrderpoolOrder Order ID]
  [PrioritizedOrderpoolPriority Priority Order] {s : PrioritizedOrderpool ID Priority Order}
  {dirty : Finset ID} {due : List AccountNonce} {held : List Order} {order : Order} {i : ID}

lemma removeFromOrders (h : Consistent s dirty due held) (hi : s.orders i = some order) :
    Consistent (s.removeFromOrders i) dirty due (held ++ [order]) := by
  have hid := h.keyed hi
  have hne : ∀ o ∈ held, orderId o ≠ i := by
    intro o ho he
    have hn := h.released o ho
    rw [he, hi] at hn
    exact absurd hn (by simp)
  refine h.redistribute ?_ ?_ ?_ ?_ ?_
  · intro j o hj
    by_cases hji : j = i
    · rw [hji, Function.update_self] at hj
      exact absurd hj (by simp)
    · rwa [Function.update_of_ne hji] at hj
  · intro o ho
    rcases List.mem_append.mp ho with ho | ho
    · rw [Function.update_of_ne (hne o ho)]
      exact h.released o ho
    · rw [List.mem_singleton.mp ho, hid, Function.update_self]
  · rw [List.map_append, List.nodup_append]
    refine ⟨h.distinct, by simp, ?_⟩
    intro a ha b hb
    obtain ⟨o, ho, rfl⟩ := List.mem_map.mp ha
    rw [List.map_singleton, List.mem_singleton, hid] at hb
    rw [hb]
    exact hne o ho
  · intro o ho
    rcases List.mem_append.mp ho with ho | ho
    · exact h.tracked_held ho
    · rw [List.mem_singleton.mp ho]
      exact h.tracked (.inl hi)
  · intro j o _ hk
    by_cases hji : j = i
    · subst hji
      rw [h.known_unique hk (.inl hi)]
      exact .inr ⟨by simp, hid⟩
    · rw [Function.update_of_ne hji]
      exact hk.imp_right (fun ho => ⟨List.mem_append_left _ ho.1, ho.2⟩)

lemma unqueue (h : Consistent s dirty due (order :: held)) :
    Consistent ((s.removeQueued (orderId order)).unindexOrder order) (dirty.erase (orderId order)) due
      (order :: held) := by
  have hself : s.Known (order :: held) (orderId order) order := .inr ⟨List.mem_cons_self, rfl⟩
  refine ⟨h.keyed, h.released, h.distinct, h.tracked, ?_, ?_, ?_, ?_⟩
  · intro j p hjp
    obtain ⟨hjp, hne⟩ := List.mem_filter.mp hjp
    have hne : j ≠ orderId order := by simpa using hne
    obtain ⟨o, hk, hnew, hclean⟩ := h.queued hjp
    refine ⟨o, hk, hnew, fun hd => ?_⟩
    obtain ⟨hr, hx⟩ := hclean (fun hj => hd (Finset.mem_erase.mpr ⟨hne, hj⟩))
    exact ⟨hr, fun n hn => indexed_unindexOrder.mpr ⟨hx n hn, fun hc => hne hc.1⟩⟩
  · intro j hj
    obtain ⟨hne, hj⟩ := Finset.mem_erase.mp hj
    obtain ⟨hjq, hk⟩ := h.invalidated j hj
    exact ⟨queued_removeQueued.mpr ⟨hjq, hne⟩, hk⟩
  · intro j o hj
    have hne : j ≠ orderId order := by
      intro he
      have hn := h.released order List.mem_cons_self
      rw [← he] at hn
      exact absurd (hn.symm.trans hj) (by simp)
    exact (h.waiting hj).imp_left (fun hq => queued_removeQueued.mpr ⟨hq, hne⟩)
  · intro a j hj
    obtain ⟨hj, hnot⟩ := indexed_unindexOrder.mp hj
    obtain ⟨hjq, o, hk, hn⟩ := h.indexed hj
    refine ⟨queued_removeQueued.mpr ⟨hjq, fun he => hnot ⟨he, ?_⟩⟩, o, hk, hn⟩
    have hk' : s.Known (order :: held) (orderId order) o := he ▸ hk
    rwa [h.known_unique hk' hself] at hn

lemma list (h : Consistent s dirty due (order :: held))
    (hw : s.Queued (orderId order) ∨ ∃ n ∈ nonces order, n.optional = false ∧
      s.Waiting n.accountNonce (orderId order) ∧
        (s.onchainNonces n.address = some n.nonce → n.accountNonce ∈ due)) :
    Consistent { s with orders := Function.update s.orders (orderId order) (some order) } dirty due held := by
  have hne : ∀ o ∈ held, orderId o ≠ orderId order := by
    intro o ho he
    have hd := h.distinct
    rw [List.map_cons, List.nodup_cons, ← he] at hd
    exact hd.1 (List.mem_map_of_mem ho)
  have hlisted : ∀ {j o}, Function.update s.orders (orderId order) (some order) j = some o →
      j = orderId order ∧ o = order ∨ s.orders j = some o := by
    intro j o hj
    by_cases hid : j = orderId order
    · rw [hid, Function.update_self] at hj
      exact .inl ⟨hid, (Option.some.inj hj).symm⟩
    · rw [Function.update_of_ne hid] at hj
      exact .inr hj
  have hknown : ∀ {j o}, s.Known (order :: held) j o →
      Function.update s.orders (orderId order) (some order) j = some o ∨ o ∈ held ∧ orderId o = j := by
    rintro j o (hk | ⟨hk, rfl⟩)
    · have hj : j ≠ orderId order := by
        intro he
        have hn := h.released order List.mem_cons_self
        rw [← he, hk] at hn
        exact absurd hn (by simp)
      exact .inl (by rwa [Function.update_of_ne hj])
    · rcases List.mem_cons.mp hk with rfl | hk
      · exact .inl (Function.update_self _ _ _)
      · exact .inr ⟨hk, rfl⟩
  refine ⟨?_, ?_, h.distinct.of_cons, ?_, ?_, ?_, ?_, ?_⟩
  · intro j o hj
    rcases hlisted hj with ⟨rfl, rfl⟩ | hj
    · rfl
    · exact h.keyed hj
  · intro o ho
    dsimp only
    rw [Function.update_of_ne (hne o ho)]
    exact h.released o (List.mem_cons_of_mem _ ho)
  · intro j o hk
    rcases hk with hk | ⟨hk, -⟩
    · rcases hlisted hk with ⟨-, rfl⟩ | hk
      · exact h.tracked_held List.mem_cons_self
      · exact h.tracked (.inl hk)
    · exact h.tracked_held (List.mem_cons_of_mem _ hk)
  · intro j p hjp
    obtain ⟨o, hk, hrest⟩ := h.queued hjp
    exact ⟨o, hknown hk, hrest⟩
  · intro j hj
    obtain ⟨hjq, o, hk⟩ := h.invalidated j hj
    exact ⟨hjq, o, hknown hk⟩
  · intro j o hj
    rcases hlisted hj with ⟨rfl, rfl⟩ | hj
    · exact hw
    · exact h.waiting hj
  · intro a j hj
    obtain ⟨hjq, o, hk, hn⟩ := h.indexed hj
    exact ⟨hjq, o, hknown hk, hn⟩

lemma enqueue (h : Consistent s dirty due (order :: held)) (hr : s.Ready order) :
    Consistent ((s.enqueue order).indexOrder order) dirty due (order :: held) := by
  have hself : s.Known (order :: held) (orderId order) order := .inr ⟨List.mem_cons_self, rfl⟩
  have hlast : ((s.enqueue order).indexOrder order).Queued (orderId order) :=
    ⟨new order, List.mem_append_right _ (List.mem_singleton.mpr rfl)⟩
  have hkept : ∀ {j}, s.Queued j → ((s.enqueue order).indexOrder order).Queued j := by
    intro j hj
    by_cases hid : j = orderId order
    · exact hid ▸ hlast
    · obtain ⟨p, hp⟩ := queued_removeQueued.mpr ⟨hj, hid⟩
      exact ⟨p, List.mem_append_left _ hp⟩
  refine ⟨h.keyed, h.released, h.distinct, h.tracked, ?_, ?_, ?_, ?_⟩
  · intro j p hjp
    rcases List.mem_append.mp hjp with hjp | hjp
    · obtain ⟨o, hk, hnew, hclean⟩ := h.queued (List.mem_of_mem_filter hjp)
      refine ⟨o, hk, hnew, fun hd => ⟨(hclean hd).1, fun n hn => ?_⟩⟩
      exact indexed_indexOrder.mpr (.inl ((hclean hd).2 n hn))
    · obtain ⟨rfl, rfl⟩ := Prod.mk.inj (List.mem_singleton.mp hjp)
      exact ⟨order, hself, rfl, fun _ => ⟨hr, fun n hn => indexed_indexOrder.mpr (.inr ⟨rfl, n, hn, rfl⟩)⟩⟩
  · intro j hj
    obtain ⟨hjq, hk⟩ := h.invalidated j hj
    exact ⟨hkept hjq, hk⟩
  · intro j o hj
    exact (h.waiting hj).imp_left hkept
  · intro a j hj
    rcases indexed_indexOrder.mp hj with hj | ⟨rfl, hn⟩
    · obtain ⟨hjq, hk⟩ := h.indexed hj
      exact ⟨hkept hjq, hk⟩
    · exact ⟨hlast, order, hself, hn⟩

lemma park (h : Consistent s dirty due held) (pending : List AccountNonce) :
    Consistent (s.park order pending) dirty due held :=
  { h with
    waiting := by
      intro j o hj
      apply (h.waiting hj).imp_right
      rintro ⟨n, hn, hopt, hw, hdue⟩
      exact ⟨n, hn, hopt, waiting_park.mpr (.inl hw), hdue⟩ }

lemma place {pending : List AccountNonce} (h : Consistent s dirty due (order :: held))
    (hscan : Scanned s (nonces order) [] pending) : Consistent (s.place order pending) dirty due held := by
  rw [PrioritizedOrderpool.place]
  cases pending with
  | nil =>
    have hr : s.Ready order := by
      intro n hn hopt
      by_contra hne
      have hmem := (hscan.mem_pending n.accountNonce).mpr (.inr ⟨n, hn, hopt, rfl, hne⟩)
      exact absurd hmem (by simp)
    apply (h.enqueue hr).list
    exact .inl ⟨new order, List.mem_append_right _ (List.mem_singleton.mpr rfl)⟩
  | cons a pending =>
    apply (h.park (a :: pending)).list
    have hmem := (hscan.mem_pending a).mp List.mem_cons_self
    obtain ⟨n, hn, hopt, rfl, hne⟩ := hmem.resolve_left (by simp)
    exact .inr ⟨n, hn, hopt, waiting_park.mpr (.inr ⟨rfl, List.mem_cons_self⟩), fun hv => absurd hv hne⟩

end Moves

section Calls

variable {ID Priority Order ε : Type} [DecidableEq ID] [OrderpoolOrder Order ID]
  [PrioritizedOrderpoolPriority Priority Order] {s : PrioritizedOrderpool ID Priority Order}
  {dirty : Finset ID} {due : List AccountNonce} {held : List Order} {order : Order} {i : ID}

lemma insertOrder_held (h : Consistent s dirty due (order :: held)) (hd : orderId order ∉ dirty) :
    ∃ s', (∀ {ε : Type} (source : OrderpoolNonceSource ε), s.insertOrder source order = (.ok (), s')) ∧
      Consistent s' dirty due held ∧
      s.Evolves s' fun j e => if j = orderId order then e.offered s.onchainNonces order else e := by
  have hself : s.Known (order :: held) (orderId order) order := .inr ⟨List.mem_cons_self, rfl⟩
  have hnone := h.released order List.mem_cons_self
  obtain ⟨r, hr⟩ := pendingNonces_tracked [] (h.tracked hself)
  have hscan := hr (fun _ => .error ())
  cases r with
  | none =>
    have hover := pendingNonces_stale hscan
    refine ⟨s, fun source => ?_, h.discard fun hq => ?_, rfl, fun j => ?_⟩
    · rw [PrioritizedOrderpool.insertOrder, hnone, hr source]
      rfl
    · obtain ⟨n, hn, hopt, v, hv, hlt⟩ := hover
      have hready := h.ready_of_queued hself hd hq n hn hopt
      rw [hv] at hready
      exact absurd (Option.some.inj hready) (by omega)
    · rw [Entry.offered, if_pos hover, ite_self]
  | some pending =>
    have hs := pendingNonces_scanned hscan
    refine ⟨s.place order pending, fun source => ?_, h.place hs, onchainNonces_place _ _ _, entry_place hs⟩
    rw [PrioritizedOrderpool.insertOrder, hnone, hr source]
    rfl

lemma insertOrder (source : OrderpoolNonceSource ε) (h : Consistent s dirty due []) (order : Order) :
    Consistent (s.insertOrder source order).2 dirty due [] := by
  have he := pendingNonces_extends source (nonces order) [] s
  have h' := h.extended he
  rcases insertOrder_cases source order s with hsame | hread | ⟨pending, hnone, hscan, hplace⟩
  · rwa [hsame]
  · rwa [hread]
  · have hs := pendingNonces_scanned (Prod.ext hscan rfl)
    rw [hplace]
    refine (h'.offer ?_ (by simp) ?_).place hs
    · rw [he.orders_eq, hnone]
    · intro n hn
      obtain ⟨v, hv, -⟩ := hs.fresh n hn
      exact ⟨v, hv⟩

lemma trackNonce {n : AccountNonce} (h : Consistent s dirty due []) (hn : n ∈ due) :
    Consistent (s.trackNonce n) (dirty ∪ ((s.mainQueueNonces n.account).getD []).toFinset) due [] := by
  refine ⟨h.keyed, h.released, h.distinct, ?_, ?_, ?_, ?_, ?_⟩
  · intro j o hk m hm
    obtain ⟨v, hv⟩ := h.tracked hk m hm
    by_cases ha : m.address = n.account
    · exact ⟨n.nonce, by rw [ha, trackNonce_self]⟩
    · exact ⟨v, by rwa [trackNonce_of_ne ha]⟩
  · intro j p hjp
    obtain ⟨o, hk, hnew, hclean⟩ := h.queued hjp
    refine ⟨o, hk, hnew, fun hd => ?_⟩
    rw [Finset.notMem_union, List.mem_toFinset] at hd
    obtain ⟨hr, hx⟩ := hclean hd.1
    have haway : ∀ m ∈ nonces o, m.address ≠ n.account := fun m hm ha => hd.2 (ha ▸ hx m hm)
    refine ⟨fun m hm hopt => ?_, fun m hm => ?_⟩
    · rw [trackNonce_of_ne (haway m hm)]
      exact hr m hm hopt
    · exact indexed_trackNonce.mpr ⟨haway m hm, hx m hm⟩
  · intro j hj
    rcases Finset.mem_union.mp hj with hj | hj
    · exact h.invalidated j hj
    · obtain ⟨hjq, o, hk, -⟩ := h.indexed (List.mem_toFinset.mp hj)
      exact ⟨hjq, o, hk⟩
  · intro j o hj
    apply (h.waiting hj).imp_right
    rintro ⟨m, hm, hopt, hw, hdue⟩
    refine ⟨m, hm, hopt, hw, fun hv => ?_⟩
    by_cases ha : m.address = n.account
    · rw [ha, trackNonce_self] at hv
      have hmn : m.accountNonce = n := by
        rw [BundleNonce.accountNonce, ha, ← Option.some.inj hv]
      exact hmn ▸ hn
    · rw [trackNonce_of_ne ha] at hv
      exact hdue hv
  · intro a j hj
    exact h.indexed (indexed_trackNonce.mp hj).2

lemma trackNonces {ns : List AccountNonce} (h : Consistent s dirty due []) (hdue : ns ⊆ due) :
    Consistent (s.trackNonces ns dirty).2 (s.trackNonces ns dirty).1 due [] := by
  induction ns generalizing s dirty with
  | nil => exact h
  | cons n ns ih =>
    obtain ⟨hn, hns⟩ := List.cons_subset.mp hdue
    exact ih (h.trackNonce hn) hns

lemma removePoppedOrder (h : Consistent s dirty due []) (hi : s.orders i = some order) :
    (s.removeQueued i).removePoppedOrder i = (some order, s.takeOut i order) ∧
      Consistent (s.takeOut i order) (dirty.erase i) due [order] := by
  refine ⟨?_, ?_⟩
  · have hi' : (s.removeQueued i).orders i = some order := hi
    rw [PrioritizedOrderpool.removePoppedOrder, hi']
    rfl
  · obtain rfl := h.keyed hi
    exact (h.removeFromOrders hi).unqueue

lemma revisit (h : Consistent s dirty due []) (hi : i ∈ dirty) :
    ∃ s', (∀ {ε : Type} (source : OrderpoolNonceSource ε) (is : List ID),
        s.revalidate source (i :: is) = s'.revalidate source is) ∧
      Consistent s' (dirty.erase i) due [] ∧
      s.Evolves s' fun j e => if j = i then e.revisited s.onchainNonces else e := by
  obtain ⟨-, order, hk⟩ := h.invalidated i hi
  have hio : s.orders i = some order := hk.resolve_right (by simp)
  have hid := h.keyed hio
  obtain ⟨hpop, h₁⟩ := h.removePoppedOrder hio
  obtain ⟨r, hr, hiff⟩ := retainOrder_tracked 0 (h₁.tracked_held List.mem_cons_self)
  have hkeep : r = true ↔ Retained s.onchainNonces (nonces order) := by
    rw [or_iff_right (lt_irrefl 0)] at hiff
    exact hiff
  have hentry := entry_takeOut i order s
  cases r with
  | false =>
    refine ⟨_, fun source is => ?_, h₁.discard ?_, rfl, fun j => ?_⟩
    · rw [PrioritizedOrderpool.revalidate, hpop]
      dsimp only
      rw [hr source]
    · rw [hid]
      exact not_queued_unindexOrder _ _ _
    · rw [hentry j]
      by_cases hj : j = i
      · subst hj
        have hnot : ¬ Retained s.onchainNonces (nonces order) := fun hc => Bool.noConfusion (hkeep.mpr hc)
        rw [if_pos rfl, if_pos rfl, Entry.revisited_of_not_retained hio hnot]
      · rw [if_neg hj, if_neg hj]
  | true =>
    have hclean : orderId order ∉ dirty.erase i := by
      rw [hid]
      exact Finset.notMem_erase i dirty
    obtain ⟨s₂, hs₂, h₂, hevolves⟩ := h₁.insertOrder_held hclean
    refine ⟨s₂, fun source is => ?_, h₂, hevolves.onchain, fun j => ?_⟩
    · rw [PrioritizedOrderpool.revalidate, hpop]
      dsimp only
      rw [hr source]
      dsimp only
      rw [hs₂ source]
    · rw [hevolves.entry j, hentry j, hid]
      by_cases hj : j = i
      · subst hj
        rw [if_pos rfl, if_pos rfl, if_pos rfl, Entry.revisited_of_retained hio (hkeep.mp rfl)]
        rfl
      · rw [if_neg hj, if_neg hj, if_neg hj]

lemma revalidate {is : List ID} (h : Consistent s dirty due []) (hnd : is.Nodup)
    (hmem : ∀ i, i ∈ is ↔ i ∈ dirty) :
    ∃ s', (∀ {ε : Type} (source : OrderpoolNonceSource ε), s.revalidate source is = .ok (.ok (), s')) ∧
      Consistent s' ∅ due [] ∧
      s.Evolves s' fun j e => if j ∈ dirty then e.revisited s.onchainNonces else e := by
  induction is generalizing s dirty with
  | nil =>
    have hempty : dirty = ∅ := Finset.eq_empty_of_forall_notMem fun i hi => by simpa using (hmem i).mpr hi
    subst hempty
    exact ⟨s, fun _ => rfl, h, rfl, fun j => rfl⟩
  | cons i is ih =>
    obtain ⟨hni, hnd⟩ := List.nodup_cons.mp hnd
    have hi := (hmem i).mp List.mem_cons_self
    obtain ⟨s₁, hs₁, h₁, hfirst⟩ := h.revisit hi
    have hmem' : ∀ j, j ∈ is ↔ j ∈ dirty.erase i := by
      intro j
      rw [Finset.mem_erase, ← hmem j, List.mem_cons]
      constructor
      · exact fun hj => ⟨fun he => hni (he ▸ hj), .inr hj⟩
      · exact fun hj => hj.2.resolve_left hj.1
    obtain ⟨s₂, hs₂, h₂, hrest⟩ := ih h₁ hnd hmem'
    refine ⟨s₂, fun source => (hs₁ source is).trans (hs₂ source), h₂, hrest.onchain.trans hfirst.onchain, ?_⟩
    intro j
    rw [hrest.entry, hfirst.entry, hfirst.onchain]
    by_cases hj : j = i
    · subst hj
      rw [if_neg (Finset.notMem_erase j dirty), if_pos rfl, if_pos hi]
    · rw [if_neg hj]
      by_cases hd : j ∈ dirty
      · rw [if_pos (Finset.mem_erase.mpr ⟨hj, hd⟩), if_pos hd]
      · rw [if_neg (fun hc => hd (Finset.mem_of_mem_erase hc)), if_neg hd]

lemma insertOrders (h : Consistent s ∅ due held) :
    ∃ s', (∀ {ε : Type} (source : OrderpoolNonceSource ε), s.insertOrders source held = (.ok (), s')) ∧
      Consistent s' ∅ due [] ∧ s'.onchainNonces = s.onchainNonces ∧
      (∀ order ∈ held, s'.entry (orderId order) = (s.entry (orderId order)).offered s.onchainNonces order) ∧
      ∀ j, j ∉ held.map orderId → s'.entry j = s.entry j := by
  induction held generalizing s with
  | nil => exact ⟨s, fun _ => rfl, h, rfl, fun o ho => absurd ho (by simp), fun j _ => rfl⟩
  | cons order held ih =>
    have hnd := h.distinct
    rw [List.map_cons, List.nodup_cons] at hnd
    obtain ⟨s₁, hs₁, h₁, hfirst⟩ := h.insertOrder_held (Finset.notMem_empty _)
    obtain ⟨s₂, hs₂, h₂, honchain, htaken, hother⟩ := ih h₁
    refine ⟨s₂, fun source => ?_, h₂, honchain.trans hfirst.onchain, ?_, ?_⟩
    · rw [PrioritizedOrderpool.insertOrders, hs₁ source]
      exact hs₂ source
    · intro o ho
      rcases List.mem_cons.mp ho with rfl | ho
      · rw [hother _ hnd.1, hfirst.entry, if_pos rfl]
      · have hne : orderId o ≠ orderId order := fun he => hnd.1 (he ▸ List.mem_map_of_mem ho)
        rw [htaken o ho, hfirst.entry, if_neg hne, hfirst.onchain]
    · intro j hj
      rw [List.map_cons, List.mem_cons, not_or] at hj
      rw [hother j hj.2, hfirst.entry, if_neg hj.1]

lemma takeOrders (is : List ID) (h : Consistent s dirty due held) :
    Consistent { s with orders := (takeOrders is s.orders).2 } dirty due
      (held ++ (PrioritizedOrderpool.takeOrders is s.orders).1) := by
  induction is generalizing s held with
  | nil =>
    rw [PrioritizedOrderpool.takeOrders, List.append_nil]
    exact h
  | cons i is ih =>
    rw [PrioritizedOrderpool.takeOrders]
    cases hi : s.orders i with
    | none =>
      have hsame : Function.update s.orders i none = s.orders := by
        rw [← hi, Function.update_eq_self]
      rw [hsame]
      exact ih h
    | some order =>
      have hstep := ih (h.removeFromOrders hi)
      rw [List.append_assoc, List.singleton_append] at hstep
      exact hstep

lemma orders_of_mem_takeOrders {is : List ID} {j : ID} (h : Consistent s dirty due held)
    (ho : order ∈ (PrioritizedOrderpool.takeOrders is s.orders).1) (hid : orderId order = j) :
    s.orders j = some order ∧ j ∈ is := by
  obtain ⟨i, hi, hio⟩ := mem_takeOrders.mp ho
  obtain rfl : i = j := (h.keyed hio).symm.trans hid
  exact ⟨hio, hi⟩

lemma wake {n : AccountNonce} (h : Consistent s ∅ (n :: due) []) :
    ∃ s', (∀ {ε : Type} (source : OrderpoolNonceSource ε) (ns : List AccountNonce),
        s.promotePending source (n :: ns) = s'.promotePending source ns) ∧
      Consistent s' ∅ due [] ∧ s.Evolves s' fun _ e => e.woken s.onchainNonces n := by
  cases hp : s.pendingOrders n with
  | none =>
    have hsame : Function.update s.pendingOrders n none = s.pendingOrders := by
      rw [← hp, Function.update_eq_self]
    have hnone : ∀ i, ¬ s.Waiting n i := fun i hi => by simp [Waiting, hp] at hi
    have hpromoted := h.promote (fun i hi => absurd hi (hnone i))
    rw [hsame] at hpromoted
    refine ⟨s, fun source ns => ?_, hpromoted, rfl, fun j => ?_⟩
    · rw [PrioritizedOrderpool.promotePending, hp]
    · exact (if_neg (hnone j)).symm
  | some pending =>
    have hwaits : ∀ j, n ∈ (s.entry j).waiting ↔ j ∈ pending := by
      intro j
      change j ∈ (s.pendingOrders n).getD [] ↔ j ∈ pending
      rw [hp]
      rfl
    have htaken := h.takeOrders pending
    rw [List.nil_append] at htaken
    have hpromoted : Consistent { s with
        pendingOrders := Function.update s.pendingOrders n none
        orders := (PrioritizedOrderpool.takeOrders pending s.orders).2 } ∅ due
          (PrioritizedOrderpool.takeOrders pending s.orders).1 :=
      htaken.promote (fun i hi => takeOrders_none pending (.inl ((hwaits i).mp hi)))
    obtain ⟨s₁, hs₁, h₁, honchain, hheld, hother⟩ := hpromoted.insertOrders
    refine ⟨s₁, fun source ns => ?_, h₁, honchain, fun j => ?_⟩
    · rw [PrioritizedOrderpool.promotePending, hp]
      dsimp only
      rw [hs₁ source]
    · by_cases hj : j ∈ pending
      · cases hjo : s.orders j with
        | none =>
          rw [hother j, entry_wake, takeOrders_none pending (.inl hj), Entry.woken_of_absent hjo]
          · simp only [entry, hjo]
          · intro hmem
            obtain ⟨o, ho, hid⟩ := List.mem_map.mp hmem
            exact absurd (hjo.symm.trans (h.orders_of_mem_takeOrders ho hid).1) (by simp)
        | some order =>
          have hid := h.keyed hjo
          have hoffered := hheld order (mem_takeOrders.mpr ⟨j, hj, hjo⟩)
          rw [hid, entry_wake, takeOrders_none pending (.inl hj)] at hoffered
          rw [hoffered, Entry.woken_of_waiting hjo ((hwaits j).mpr hj)]
          rfl
      · have hnot : n ∉ (s.entry j).waiting := fun hc => hj ((hwaits j).mp hc)
        rw [hother j, entry_wake, takeOrders_of_notMem _ hj, Entry.woken, if_neg hnot,
          Set.sdiff_singleton_eq_self hnot]
        · rfl
        · intro hmem
          obtain ⟨o, ho, hid⟩ := List.mem_map.mp hmem
          exact hj (h.orders_of_mem_takeOrders ho hid).2

lemma promotePending (h : Consistent s ∅ due []) :
    ∃ s', (∀ {ε : Type} (source : OrderpoolNonceSource ε), s.promotePending source due = (.ok (), s')) ∧
      Consistent s' ∅ [] [] ∧ s.Evolves s' fun _ e => due.foldl (Entry.woken s.onchainNonces) e := by
  induction due generalizing s with
  | nil => exact ⟨s, fun _ => rfl, h, rfl, fun j => rfl⟩
  | cons n due ih =>
    obtain ⟨s₁, hs₁, h₁, hfirst⟩ := h.wake
    obtain ⟨s₂, hs₂, h₂, hrest⟩ := ih h₁
    rw [hfirst.onchain] at hrest
    exact ⟨s₂, fun source => (hs₁ source due).trans (hs₂ source), h₂, hfirst.trans hrest⟩

lemma mem_invalidated (h : Consistent s ∅ [] []) (newNonces : List AccountNonce) (i : ID) :
    i ∈ (s.trackNonces newNonces ∅).1 ↔ (s.entry i).Touched newNonces := by
  rw [mem_trackNonces, or_iff_right (Finset.notMem_empty i)]
  constructor
  · rintro ⟨n, hn, hi⟩
    obtain ⟨hq, order, hk, m, hm, hmn⟩ := h.indexed hi
    exact ⟨hq, order, hk.resolve_right (by simp), m, hm, hmn ▸ List.mem_map_of_mem hn⟩
  · rintro ⟨⟨p, hp⟩, order, hi, m, hm, hmem⟩
    obtain ⟨n, hn, hnm⟩ := List.mem_map.mp hmem
    obtain ⟨o, hk, -, hclean⟩ := h.queued hp
    have ho : order = o := h.known_unique (.inl hi) hk
    exact ⟨n, hn, hnm ▸ (hclean (Finset.notMem_empty i)).2 m (ho ▸ hm)⟩

lemma updateOnchainNonces (h : Consistent s ∅ [] []) (visit : SetOrder ID) (newNonces : List AccountNonce) :
    ∃ s', (∀ {ε : Type} (source : OrderpoolNonceSource ε),
        s.updateOnchainNonces visit source newNonces = .ok (.ok (), s')) ∧
      Consistent s' ∅ [] [] ∧ s'.onchainNonces = (s.trackNonces newNonces ∅).2.onchainNonces ∧
      ∀ i, s'.entry i = (s.entry i).updated s'.onchainNonces newNonces := by
  have h₁ := (h.weaken_due (List.nil_subset newNonces)).trackNonces (List.Subset.refl _)
  obtain ⟨s₂, hs₂, h₂, hrevisited⟩ := h₁.revalidate (visit.nodup _) (visit.mem_list _)
  obtain ⟨s₃, hs₃, h₃, hwoken⟩ := h₂.promotePending
  have honchain := hwoken.onchain.trans hrevisited.onchain
  refine ⟨s₃, fun source => ?_, h₃, honchain, fun i => ?_⟩
  · rw [PrioritizedOrderpool.updateOnchainNonces]
    dsimp only
    rw [hs₂ source]
    dsimp only
    rw [hs₃ source]
  · rw [hwoken.entry, hrevisited.entry, hrevisited.onchain, ← honchain, entry_trackNonces, Entry.updated,
      Entry.checked]
    by_cases ht : (s.entry i).Touched newNonces
    · rw [if_pos ht, if_pos ((h.mem_invalidated newNonces i).mpr ht)]
    · rw [if_neg ht, if_neg (fun hc => ht ((h.mem_invalidated newNonces i).mp hc))]

end Calls

section Queue

variable {ID Priority Order : Type} [DecidableEq ID] [OrderpoolOrder Order ID]
  [PrioritizedOrderpoolPriority Priority Order] {s : PrioritizedOrderpool ID Priority Order}

lemma dequeue {i : ID} {order : Order} (h : Consistent s ∅ [] []) (hi : s.orders i = some order) :
    (s.removeQueued i).removePoppedOrder i = (some order, s.takeOut i order) ∧
      Consistent (s.takeOut i order) ∅ [] [] := by
  obtain ⟨hpop, h₁⟩ := h.removePoppedOrder hi
  refine ⟨hpop, h₁.discard ?_⟩
  rw [h.keyed hi]
  exact not_queued_unindexOrder _ _ _

lemma removeOrder_of_queued {i : ID} (h : Consistent s ∅ [] []) (hq : s.Queued i) :
    ∃ order, s.orders i = some order ∧ s.removeOrder i = (none, s.takeOut i order) := by
  have hany : s.mainQueue.any (fun e => decide (e.1 = i)) = true := by
    obtain ⟨p, hp⟩ := hq
    exact List.any_eq_true.mpr ⟨_, hp, by simp⟩
  obtain ⟨order, hi, -⟩ := (h.queued_iff_ready i).mp hq
  have hnone : (s.takeOut i order).orders i = none := Function.update_self _ _ _
  have hsame : (s.takeOut i order).removeFromOrders i = s.takeOut i order := by
    rw [PrioritizedOrderpool.removeFromOrders, ← hnone, Function.update_eq_self]
  refine ⟨order, hi, ?_⟩
  rw [PrioritizedOrderpool.removeOrder, if_pos hany, (h.dequeue hi).1]
  exact Prod.ext hnone hsame

omit [PrioritizedOrderpoolPriority Priority Order] in
lemma removeOrder_of_not_queued {i : ID} (hq : ¬ s.Queued i) :
    s.removeOrder i = (s.orders i, s.removeFromOrders i) := by
  have hany : ¬ s.mainQueue.any (fun e => decide (e.1 = i)) = true := by
    intro ha
    obtain ⟨e, he, hei⟩ := List.any_eq_true.mp ha
    obtain rfl := of_decide_eq_true hei
    exact hq ⟨e.2, he⟩
  rw [PrioritizedOrderpool.removeOrder, if_neg hany]

lemma removeOrder (h : Consistent s ∅ [] []) (i : ID) : Consistent (s.removeOrder i).2 ∅ [] [] := by
  by_cases hq : s.Queued i
  · obtain ⟨order, hi, hremove⟩ := h.removeOrder_of_queued hq
    rw [hremove]
    exact (h.dequeue hi).2
  · rw [removeOrder_of_not_queued hq]
    cases hi : s.orders i with
    | none => rwa [PrioritizedOrderpool.removeFromOrders, ← hi, Function.update_eq_self]
    | some order =>
      apply (h.removeFromOrders hi).discard
      rw [h.keyed hi]
      exact hq

variable [LE Priority]

lemma popOrder (h : Consistent s ∅ [] []) (choice : PopChoice ID Priority) :
    ∃ r s', s.popOrder choice = .ok (r, s') ∧ Consistent s' ∅ [] [] ∧ match r with
      | none => (∀ i other, s.orders i = some other → ¬ s.Ready other) ∧ s' = s
      | some order => (s.orders (orderId order) = some order ∧ s.Ready order ∧
          ∀ i other, s.orders i = some other → s.Ready other →
            (new other : Priority) ≤ new order) ∧ s' = s.takeOut (orderId order) order := by
  rw [PrioritizedOrderpool.popOrder]
  cases hc : choice.pick s.mainQueue with
  | none =>
    refine ⟨none, s, rfl, h, fun i other hi hr => ?_, rfl⟩
    obtain ⟨p, hp⟩ := (h.queued_iff_ready i).mpr ⟨other, hi, hr⟩
    rw [(choice.pick_none _).mp hc] at hp
    exact absurd hp (by simp)
  | some e =>
    have he := choice.pick_mem _ _ hc
    obtain ⟨order, hi, hr⟩ := (h.queued_iff_ready e.1).mp ⟨e.2, he⟩
    obtain ⟨hpop, h'⟩ := h.dequeue hi
    have hid := h.keyed hi
    refine ⟨some order, s.takeOut e.1 order, ?_, h', ⟨?_, hr, fun j other hj hr' => ?_⟩, ?_⟩
    · dsimp only
      rw [hpop]
    · rwa [hid]
    · obtain ⟨p, hp⟩ := (h.queued_iff_ready j).mpr ⟨other, hj, hr'⟩
      have hother := h.priority_eq hp hj
      have horder := h.priority_eq he hi
      rw [← hother, ← horder]
      exact choice.pick_max _ _ hc _ hp
    · rw [hid]

end Queue

end Consistent

section Runs

variable {ID Priority Order ε : Type} [DecidableEq ID] [OrderpoolOrder Order ID] [LE Priority]
  [PrioritizedOrderpoolPriority Priority Order] {s : PrioritizedOrderpool ID Priority Order}

lemma call_consistent (h : Consistent s ∅ [] []) (c : Call ID Priority Order ε) :
    ∃ s', s.call c = .ok s' ∧ Consistent s' ∅ [] [] := by
  cases c with
  | insertOrder order source => exact ⟨_, rfl, Consistent.insertOrder source h order⟩
  | updateOnchainNonces newNonces source visit =>
    obtain ⟨s', hs', h', -⟩ := h.updateOnchainNonces visit newNonces
    refine ⟨s', ?_, h'⟩
    rw [call, hs']
    rfl
  | removeOrder i => exact ⟨_, rfl, h.removeOrder i⟩
  | popOrder choice =>
    obtain ⟨r, s', hs', h', -⟩ := h.popOrder choice
    refine ⟨s', ?_, h'⟩
    rw [call, hs']
    rfl

lemma run_consistent (h : Consistent s ∅ [] []) (calls : List (Call ID Priority Order ε)) :
    ∃ s', run calls s = .ok s' ∧ Consistent s' ∅ [] [] := by
  induction calls generalizing s with
  | nil => exact ⟨s, rfl, h⟩
  | cons c calls ih =>
    obtain ⟨s₁, hs₁, h₁⟩ := call_consistent h c
    rw [run, hs₁]
    exact ih h₁

theorem queue_holds_ready_orders (calls : List (Call ID Priority Order ε)) :
    ∃ s : PrioritizedOrderpool ID Priority Order, run calls {} = .ok s ∧
      (∀ i, s.Queued i ↔ ∃ order, s.orders i = some order ∧ s.Ready order) ∧
      ∀ choice : PopChoice ID Priority, ∃ r s', s.popOrder choice = .ok (r, s') ∧ match r with
        | none => ∀ i other, s.orders i = some other → ¬ s.Ready other
        | some order => s.orders (orderId order) = some order ∧ s.Ready order ∧
            ∀ i other, s.orders i = some other → s.Ready other →
              (new other : Priority) ≤ new order := by
  obtain ⟨s, hs, h⟩ := run_consistent (ε := ε) Consistent.initial calls
  refine ⟨s, hs, h.queued_iff_ready, fun choice => ?_⟩
  obtain ⟨r, s', hs', -, hr⟩ := h.popOrder choice
  cases r with
  | none => exact ⟨none, s', hs', hr.1⟩
  | some order => exact ⟨some order, s', hs', hr.1⟩

end Runs

end Rblib.Orderpool2.PrioritizedOrderpool
