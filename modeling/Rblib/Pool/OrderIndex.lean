import Rblib.Pool.OrderPool

namespace Rblib.Pool

open Platform PlatformTypes Payload Orderpool2

variable {P : Type} [PlatformTypes P]

namespace OrderPool

def HashesAgree (orders : List (Order P)) : Prop :=
  ∀ o ∈ orders, ∀ o' ∈ orders, o.hash = o'.hash → ∀ tx, tx ∈ o.txHashes ↔ tx ∈ o'.txHashes

structure Indexed (known : List (Order P)) (pool : OrderPool P) : Prop where
  keyed : ∀ {h o}, pool.orders h = some o → o ∈ known ∧ o.hash = h
  complete : ∀ {h o tx}, pool.orders h = some o → tx ∈ o.txHashes → h ∈ pool.listed tx
  sound : ∀ {h tx}, h ∈ pool.listed tx → ∃ o ∈ known, o.hash = h ∧ tx ∈ o.txHashes

section Operations

variable {known : List (Order P)} {pool : OrderPool P}

lemma mem_listed_indexUnder (pool : OrderPool P) (tx h tx' h' : B256) :
    h' ∈ (pool.indexUnder tx h).listed tx' ↔ h' ∈ pool.listed tx' ∨ h' = h ∧ tx' = tx := by
  simp only [listed, indexUnder, Function.update_apply]
  by_cases htx : tx' = tx
  · simp [htx, or_comm]
  · simp [htx]

lemma mem_listed_indexAll (txs : List B256) (h : B256) (pool : OrderPool P) (tx' h' : B256) :
    h' ∈ (txs.foldl (fun pool tx => pool.indexUnder tx h) pool).listed tx' ↔
      h' ∈ pool.listed tx' ∨ h' = h ∧ tx' ∈ txs := by
  induction txs generalizing pool with
  | nil => simp
  | cons tx txs ih =>
    rw [List.foldl_cons, ih, mem_listed_indexUnder, List.mem_cons, and_or_left, or_assoc]

lemma orders_indexAll (txs : List B256) (h : B256) (pool : OrderPool P) :
    (txs.foldl (fun pool tx => pool.indexUnder tx h) pool).orders = pool.orders := by
  induction txs generalizing pool with
  | nil => rfl
  | cons tx txs ih =>
    rw [List.foldl_cons, ih]
    rfl

lemma orders_insert_self (order : Order P) (pool : OrderPool P) :
    (pool.insert order).orders order.hash = some order :=
  Function.update_self order.hash _ _

lemma Indexed.insert (h : Indexed known pool) (order : Order P) :
    Indexed (known ++ [order]) (pool.insert order) := by
  have hlisted : ∀ tx' h', h' ∈ (pool.insert order).listed tx' ↔
      h' ∈ pool.listed tx' ∨ h' = order.hash ∧ tx' ∈ order.txHashes := mem_listed_indexAll _ _ pool
  have hstored : ∀ i o, (pool.insert order).orders i = some o →
      i = order.hash ∧ o = order ∨ pool.orders i = some o := by
    intro i o ho
    simp only [OrderPool.insert, store, orders_indexAll, Function.update_apply] at ho
    split at ho
    · next hi => exact .inl ⟨hi, (Option.some.inj ho).symm⟩
    · exact .inr ho
  refine ⟨fun {i o} ho => ?_, fun {i o tx} ho htx => ?_, fun {i tx} hi => ?_⟩
  · obtain ⟨rfl, rfl⟩ | ho := hstored i o ho
    · exact ⟨List.mem_append_right _ List.mem_cons_self, rfl⟩
    · exact ⟨List.mem_append_left _ (h.keyed ho).1, (h.keyed ho).2⟩
  · rw [hlisted]
    obtain ⟨rfl, rfl⟩ | ho := hstored i o ho
    · exact .inr ⟨rfl, htx⟩
    · exact .inl (h.complete ho htx)
  · obtain hi | ⟨rfl, htx⟩ := (hlisted tx i).mp hi
    · obtain ⟨o, hk, ho⟩ := h.sound hi
      exact ⟨o, List.mem_append_left _ hk, ho⟩
    · exact ⟨order, List.mem_append_right _ List.mem_cons_self, rfl, htx⟩

lemma Indexed.shrink {pool' : OrderPool P} (h : Indexed known pool)
    (hstored : ∀ i o, pool'.orders i = some o → pool.orders i = some o)
    (hlisted : ∀ tx, pool'.listed tx ⊆ pool.listed tx)
    (hkept : ∀ i o tx, pool'.orders i = some o → tx ∈ o.txHashes → i ∈ pool.listed tx → i ∈ pool'.listed tx) :
    Indexed known pool' := by
  refine ⟨fun {i o} ho => h.keyed (hstored i o ho), fun {i o tx} ho htx => ?_, fun hi => h.sound (hlisted _ hi)⟩
  apply hkept i o tx ho htx
  exact h.complete (hstored i o ho) htx

lemma orders_remove (hash : B256) (pool : OrderPool P) (i : B256) :
    (pool.remove hash).orders i = if i = hash then none else pool.orders i :=
  Function.update_apply pool.orders hash none i

lemma Indexed.remove (h : Indexed known pool) (hash : B256) : Indexed known (pool.remove hash) := by
  apply h.shrink
  · intro i o ho
    rw [orders_remove] at ho
    split at ho
    · cases ho
    · exact ho
  · exact fun tx => Finset.Subset.refl _
  · exact fun i o tx _ _ hi => hi

lemma removeEach_spec (hashes : List B256) (pool : OrderPool P) :
    (∀ i, (hashes.foldl (fun pool hash => pool.remove hash) pool).orders i =
      if i ∈ hashes then none else pool.orders i) ∧
    (hashes.foldl (fun pool hash => pool.remove hash) pool).txMap = pool.txMap := by
  induction hashes generalizing pool with
  | nil => exact ⟨fun i => by simp, rfl⟩
  | cons hash hashes ih =>
    obtain ⟨horders, hmap⟩ := ih (pool.remove hash)
    refine ⟨fun i => ?_, hmap⟩
    rw [List.foldl_cons, horders, orders_remove]
    by_cases hi : i = hash
    · simp [hi]
    · simp [hi]

lemma orders_removeAnyWith (visit : SetOrder B256) (tx : B256) (pool : OrderPool P) (i : B256) :
    (pool.removeAnyWith visit tx).orders i = if i ∈ pool.listed tx then none else pool.orders i := by
  rw [removeAnyWith, listed]
  dsimp only [removeTransaction]
  cases ht : pool.txMap tx with
  | none => simp
  | some orders =>
    rw [(removeEach_spec (visit.list orders) _).1 i]
    simp only [visit.mem_list, Option.getD_some]
    rfl

lemma listed_removeAnyWith (visit : SetOrder B256) (tx : B256) (pool : OrderPool P) (tx' : B256) :
    (pool.removeAnyWith visit tx).listed tx' = if tx' = tx then ∅ else pool.listed tx' := by
  rw [removeAnyWith, listed]
  dsimp only [removeTransaction]
  cases ht : pool.txMap tx with
  | none =>
    by_cases h : tx' = tx
    · simp [h, ht]
    · simp [h, listed]
  | some orders =>
    simp only [(removeEach_spec (visit.list orders) _).2, takeIndex, Function.update_apply]
    by_cases h : tx' = tx
    · simp [h]
    · simp [h, listed]

lemma stored_removeAnyWith {visit : SetOrder B256} {tx i : B256} {o : Order P}
    (ho : (pool.removeAnyWith visit tx).orders i = some o) : i ∉ pool.listed tx ∧ pool.orders i = some o := by
  rw [orders_removeAnyWith] at ho
  split at ho
  · cases ho
  · next hi => exact ⟨hi, ho⟩

lemma Indexed.removeAnyWith (h : Indexed known pool) (visit : SetOrder B256) (tx : B256) :
    Indexed known (pool.removeAnyWith visit tx) := by
  apply h.shrink
  · exact fun i o ho => (stored_removeAnyWith ho).2
  · intro tx'
    rw [listed_removeAnyWith]
    split
    · exact Finset.empty_subset _
    · exact Finset.Subset.refl _
  · intro i o tx' ho htx hi
    have hne : tx' ≠ tx := by
      rintro rfl
      exact (stored_removeAnyWith ho).1 hi
    rwa [listed_removeAnyWith, if_neg hne]

lemma Indexed.removeAll (h : Indexed known pool) (visit : SetOrder B256) (txs : List B256) :
    Indexed known (pool.removeAll visit txs) ∧
      (∀ i o, (pool.removeAll visit txs).orders i = some o →
        pool.orders i = some o ∧ ∀ tx ∈ o.txHashes, tx ∉ txs) := by
  induction txs generalizing pool with
  | nil => exact ⟨h, fun i o ho => ⟨ho, fun tx _ => List.not_mem_nil⟩⟩
  | cons t txs ih =>
    obtain ⟨hindexed, hstored⟩ := ih (h.removeAnyWith visit t)
    refine ⟨hindexed, fun i o ho => ?_⟩
    obtain ⟨hrest, hclean⟩ := hstored i o ho
    obtain ⟨hi, hpool⟩ := stored_removeAnyWith hrest
    refine ⟨hpool, fun tx htx hmem => ?_⟩
    obtain rfl | hmem := List.mem_cons.mp hmem
    · exact hi (h.complete hpool htx)
    · exact hclean tx htx hmem

lemma Indexed.removeAll_keeps (h : Indexed known pool) (hagree : HashesAgree known) (visit : SetOrder B256)
    {txs : List B256} {i : B256} {o : Order P} (ho : pool.orders i = some o)
    (hfree : ∀ tx ∈ o.txHashes, tx ∉ txs) : (pool.removeAll visit txs).orders i = some o := by
  induction txs generalizing pool with
  | nil => exact ho
  | cons t txs ih =>
    have hi : i ∉ pool.listed t := by
      intro hi
      obtain ⟨hknown, hhash⟩ := h.keyed ho
      obtain ⟨o', hknown', hhash', ht⟩ := h.sound hi
      have hshared : t ∈ o.txHashes := (hagree o' hknown' o hknown (hhash'.trans hhash.symm) t).mp ht
      exact hfree t hshared List.mem_cons_self
    apply ih (h.removeAnyWith visit t)
    · rw [orders_removeAnyWith, if_neg hi, ho]
    · exact fun tx htx hmem => hfree tx htx (List.mem_cons_of_mem _ hmem)

lemma Indexed.removeInvalidatedOrders (h : Indexed known pool) (header : Header) :
    Indexed known (pool.removeInvalidatedOrders header) := by
  apply h.shrink
  · exact fun i o ho => (Option.filter_eq_some_iff.mp ho).1
  · exact fun tx => Finset.Subset.refl _
  · exact fun i o tx _ _ hi => hi

lemma Indexed.call (h : Indexed known pool) (c : Call P) :
    Indexed (known ++ c.inserted.toList) (pool.call c) := by
  cases c with
  | insert order => exact h.insert order
  | remove hash =>
    rw [Call.inserted, Option.toList_none, List.append_nil]
    exact h.remove hash
  | removeAnyWith visit tx =>
    rw [Call.inserted, Option.toList_none, List.append_nil]
    exact h.removeAnyWith visit tx
  | reportCommittedBlock visit block =>
    rw [Call.inserted, Option.toList_none, List.append_nil]
    exact (h.removeAll visit _).1.removeInvalidatedOrders block.sealedHeader

lemma Indexed.run (h : Indexed known pool) (calls : List (Call P)) :
    Indexed (known ++ inserted calls) (pool.run calls) := by
  induction calls generalizing known pool with
  | nil =>
    rw [inserted, List.filterMap_nil, List.append_nil]
    exact h
  | cons c calls ih =>
    have hrest := ih (h.call c)
    rw [List.append_assoc] at hrest
    have hlist : c.inserted.toList ++ inserted calls = inserted (c :: calls) := by
      rw [inserted, inserted, List.filterMap_cons]
      cases c.inserted <;> rfl
    rwa [hlist] at hrest

end Operations

lemma indexed_empty (host : Option HostNode) : Indexed [] ({ host := host } : OrderPool P) :=
  ⟨(nomatch ·), (nomatch ·), fun h => absurd h (Finset.notMem_empty _)⟩

theorem committed_block_collected (host : Option HostNode) (calls : List (Call P))
    (hagree : HashesAgree (inserted calls)) (visit : SetOrder B256) (block : SealedBlock P) :
    (∀ i o, (({ host := host } : OrderPool P).run calls |>.reportCommittedBlock visit block).orders i = some o →
      ∀ tx ∈ o.txHashes, tx ∉ block.transactions.map txHash) ∧
    ∀ i o, (({ host := host } : OrderPool P).run calls).orders i = some o →
      (∀ tx ∈ o.txHashes, tx ∉ block.transactions.map txHash) →
      o.isPermanentlyIneligible block.sealedHeader = false →
      (({ host := host } : OrderPool P).run calls |>.reportCommittedBlock visit block).orders i = some o := by
  have hrun : Indexed (inserted calls) (({ host := host } : OrderPool P).run calls) :=
    (indexed_empty host).run calls
  refine ⟨fun i o ho => ?_, fun i o ho hfree hlive => ?_⟩
  · rw [reportCommittedBlock, OrderPool.removeInvalidatedOrders, Option.filter_eq_some_iff] at ho
    exact ((hrun.removeAll visit _).2 i o ho.1).2
  · rw [reportCommittedBlock, OrderPool.removeInvalidatedOrders, Option.filter_eq_some_iff]
    refine ⟨hrun.removeAll_keeps hagree visit ho hfree, ?_⟩
    rw [hlive]
    rfl

lemma hashesAgree_of_nodup {orders : List (Order P)} (h : (orders.map Order.hash).Nodup) : HashesAgree orders := by
  intro o ho o' ho' hhash tx
  rw [List.inj_on_of_nodup_map h ho ho' hhash]

def firstTx : PlainTx := ⟨21, 7, 0⟩

def secondTx : PlainTx := ⟨22, 8, 0⟩

def thirdTx : PlainTx := ⟨23, 9, 0⟩

def pairOrder : Order Devnet :=
    .bundle ((FlashbotsBundle.default.withTransaction firstTx).withTransaction secondTx)

def looseOrder : Order Devnet := .transaction thirdTx

def pairCalls : List (Call Devnet) := [.insert pairOrder, .insert looseOrder]

def pairBlock : SealedBlock Devnet := ⟨⟨1, 12⟩, [secondTx]⟩

theorem pairBlock_collected :
    (({} : OrderPool Devnet).run pairCalls |>.reportCommittedBlock default pairBlock).orders looseOrder.hash =
      some looseOrder ∧
    ∀ i o, (({} : OrderPool Devnet).run pairCalls |>.reportCommittedBlock default pairBlock).orders i = some o →
      secondTx.hash ∉ o.txHashes := by
  have hagree : HashesAgree (inserted pairCalls) := hashesAgree_of_nodup (by decide +kernel)
  obtain ⟨hgone, hkept⟩ := committed_block_collected none pairCalls hagree default pairBlock
  refine ⟨hkept looseOrder.hash looseOrder (orders_insert_self looseOrder _) ?_ rfl, ?_⟩
  · intro tx htx
    obtain rfl := List.mem_singleton.mp htx
    decide
  · exact fun i o ho htx => hgone i o ho secondTx.hash htx List.mem_cons_self

end OrderPool

end Rblib.Pool
