import Rblib.Library.InvertedIndex
import Rblib.Pool.OrderIndex

namespace Rblib.Pool

open Platform PlatformTypes Payload Orderpool2 Library

variable {P : Type} [PlatformTypes P]

def IsPermanent (error : ExecutionError P) : Prop :=
  error = .ineligibleBundle .permanentlyIneligible ∨ error = .invalidSignature

namespace OrderPool

def reportExecutionError (hash : B256) (error : ExecutionError P) (pool : OrderPool P) : OrderPool P :=
  match error with
  | .ineligibleBundle .permanentlyIneligible => pool.remove hash
  | .invalidSignature => pool.remove hash
  | _ => pool

inductive Operation (P : Type) [PlatformTypes P]
  | call (c : Call P)
  | reportExecutionError (hash : B256) (error : ExecutionError P)

def perform (pool : OrderPool P) : Operation P → OrderPool P
  | .call c => pool.call c
  | .reportExecutionError hash error => pool.reportExecutionError hash error

structure IndexExact (pool : OrderPool P) : Prop where
  entries : ∀ hash tx, hash ∈ pool.listed tx ↔ ∃ o, pool.orders hash = some o ∧ tx ∈ o.txHashes
  keys : ∀ tx, (pool.txMap tx).isSome = true ↔ ∃ hash o, pool.orders hash = some o ∧ tx ∈ o.txHashes

/-- Every stored order that the operation takes out, or puts another in the place of, has no
transaction whose entry stays. -/
def Clean (pool : OrderPool P) : Operation P → Prop
  | .call (.insert order) => ∀ old, pool.orders order.hash = some old → ∀ tx ∈ old.txHashes, tx ∈ order.txHashes
  | .call (.remove hash) => ∀ o, pool.orders hash = some o → o.txHashes = []
  | .call (.removeAnyWith _ tx) =>
    ∀ hash o, pool.orders hash = some o → tx ∈ o.txHashes → ∀ tx' ∈ o.txHashes, tx' = tx
  | .call (.reportCommittedBlock _ block) => ∀ hash o, pool.orders hash = some o →
      (∃ tx ∈ o.txHashes, tx ∈ block.transactions.map txHash) ∨
        o.isPermanentlyIneligible block.sealedHeader = true →
      ∀ tx ∈ o.txHashes, tx ∈ block.transactions.map txHash
  | .reportExecutionError hash error => IsPermanent error → ∀ o, pool.orders hash = some o → o.txHashes = []

def Entries (pool : OrderPool P) : Prop :=
  InvertedIndex.Exact (fun (o : Order P) tx => tx ∈ o.txHashes) pool.orders (fun hash tx => hash ∈ pool.listed tx)

def Tidy (pool : OrderPool P) : Prop := ∀ tx hashes, pool.txMap tx = some hashes → hashes.Nonempty

lemma Tidy.indexExact_iff {pool : OrderPool P} (h : Tidy pool) : IndexExact pool ↔ Entries pool := by
  refine ⟨fun hexact => hexact.entries, fun hentries => ⟨hentries, fun tx => ?_⟩⟩
  constructor
  · intro hsome
    obtain ⟨hashes, htx⟩ := Option.isSome_iff_exists.mp hsome
    obtain ⟨hash, hmem⟩ := h tx hashes htx
    have hlisted : hash ∈ pool.listed tx := by rw [listed, htx, Option.getD_some]; exact hmem
    exact ⟨hash, (hentries hash tx).mp hlisted⟩
  · rintro ⟨hash, ho⟩
    have hlisted : hash ∈ pool.listed tx := (hentries hash tx).mpr ho
    cases htx : pool.txMap tx with
    | none =>
      rw [listed, htx] at hlisted
      exact absurd hlisted (Finset.notMem_empty _)
    | some hashes => rfl

section Operations

variable {pool : OrderPool P}

lemma orders_insert (order : Order P) (pool : OrderPool P) (i : B256) :
    (pool.insert order).orders i = if i = order.hash then some order else pool.orders i := by
  rw [insert, store, orders_indexAll]
  exact Function.update_apply pool.orders order.hash (some order) i

lemma Entries.insert_iff (h : Entries pool) (order : Order P) :
    Entries (pool.insert order) ↔
      ∀ old, pool.orders order.hash = some old → ∀ tx ∈ old.txHashes, tx ∈ order.txHashes :=
  InvertedIndex.Exact.store_iff h (orders_insert_self order pool)
    (fun i hi => by rw [orders_insert, if_neg hi]) (fun i tx => mem_listed_indexAll _ _ pool tx i)

lemma Entries.remove_iff (h : Entries pool) (hash : B256) :
    Entries (pool.remove hash) ↔ ∀ o, pool.orders hash = some o → o.txHashes = [] := by
  have hstored : ∀ i (o : Order P), (pool.remove hash).orders i = some o ↔
    pool.orders i = some o ∧ ¬ i = hash := by
    intro i o
    rw [orders_remove]
    by_cases hi : i = hash
    · simp [hi]
    · simp [hi]
  have hlisted : ∀ i tx, i ∈ (pool.remove hash).listed tx ↔ i ∈ pool.listed tx ∧ ¬ False := by
    intro i tx
    rw [not_false_eq_true, and_true]
    rfl
  have hiff := InvertedIndex.Exact.discard_iff h (fun i _ => i = hash) (fun _ => False) hstored hlisted
    (fun _ _ _ _ _ hnever => hnever.elim)
  refine hiff.trans ⟨fun hclean o ho => ?_, fun hclean i o ho hi tx htx => ?_⟩
  · exact List.eq_nil_iff_forall_not_mem.mpr (hclean hash o ho rfl)
  · subst hi
    rw [hclean o ho] at htx
    cases htx

lemma listed_removeAll (visit : SetOrder B256) (txs : List B256) (pool : OrderPool P) (tx : B256) :
    (pool.removeAll visit txs).listed tx = if tx ∈ txs then ∅ else pool.listed tx := by
  induction txs generalizing pool with
  | nil => rfl
  | cons t txs ih =>
    have hrest := ih (pool.removeAnyWith visit t)
    rw [listed_removeAnyWith] at hrest
    by_cases ht : tx = t
    · rw [if_pos ht, ite_self] at hrest
      rw [if_pos (ht ▸ List.mem_cons_self)]
      exact hrest
    · rw [if_neg ht] at hrest
      simp only [List.mem_cons, ht, false_or]
      exact hrest

lemma orders_removeAll (visit : SetOrder B256) (txs : List B256) (pool : OrderPool P) (i : B256) (o : Order P) :
    (pool.removeAll visit txs).orders i = some o ↔ pool.orders i = some o ∧ ¬ ∃ tx ∈ txs, i ∈ pool.listed tx := by
  induction txs generalizing pool with
  | nil => simp [removeAll]
  | cons t txs ih =>
    have hrest := ih (pool.removeAnyWith visit t)
    have hhead : (pool.removeAnyWith visit t).orders i = some o ↔ pool.orders i = some o ∧ i ∉ pool.listed t := by
      rw [orders_removeAnyWith]
      by_cases hi : i ∈ pool.listed t
      · simp [hi]
      · simp [hi]
    rw [hhead, and_assoc] at hrest
    refine hrest.trans (and_congr_right fun _ => ?_)
    constructor
    · rintro ⟨hi, hnone⟩ ⟨tx, htx, hlisted⟩
      obtain rfl | htx := List.mem_cons.mp htx
      · exact hi hlisted
      · refine hnone ⟨tx, htx, ?_⟩
        rw [listed_removeAnyWith, if_neg (by rintro rfl; exact hi hlisted)]
        exact hlisted
    · intro hnone
      refine ⟨fun hi => hnone ⟨t, List.mem_cons_self, hi⟩, ?_⟩
      rintro ⟨tx, htx, hlisted⟩
      rw [listed_removeAnyWith] at hlisted
      split at hlisted
      · exact absurd hlisted (Finset.notMem_empty _)
      · exact hnone ⟨tx, List.mem_cons_of_mem _ htx, hlisted⟩

lemma Entries.removeAnyWith_iff (h : Entries pool) (visit : SetOrder B256) (tx : B256) :
    Entries (pool.removeAnyWith visit tx) ↔
      ∀ hash o, pool.orders hash = some o → tx ∈ o.txHashes → ∀ tx' ∈ o.txHashes, tx' = tx := by
  have hstored : ∀ i (o : Order P), (pool.removeAnyWith visit tx).orders i = some o ↔
      pool.orders i = some o ∧ ¬ i ∈ pool.listed tx := by
    intro i o
    rw [orders_removeAnyWith]
    by_cases hi : i ∈ pool.listed tx
    · simp [hi]
    · simp [hi]
  have hlisted : ∀ i t, i ∈ (pool.removeAnyWith visit tx).listed t ↔ i ∈ pool.listed t ∧ ¬ t = tx := by
    intro i t
    rw [listed_removeAnyWith]
    by_cases ht : t = tx
    · simp [ht]
    · simp [ht]
  have hiff := InvertedIndex.Exact.discard_iff h (fun i _ => i ∈ pool.listed tx) (fun t => t = tx) hstored hlisted
    (fun i o t ho ht htx => by subst htx; exact (h.listed_iff ho t).mpr ht)
  refine hiff.trans (forall₃_congr fun i o ho => ?_)
  rw [h.listed_iff ho tx]

lemma Entries.reportCommittedBlock_iff (h : Entries pool) (visit : SetOrder B256) (block : SealedBlock P) :
    Entries (pool.reportCommittedBlock visit block) ↔ ∀ hash o, pool.orders hash = some o →
      (∃ tx ∈ o.txHashes, tx ∈ block.transactions.map txHash) ∨
        o.isPermanentlyIneligible block.sealedHeader = true →
      ∀ tx ∈ o.txHashes, tx ∈ block.transactions.map txHash := by
  set txs := block.transactions.map txHash with htxs
  have hshares : ∀ i o, pool.orders i = some o →
      ((∃ tx ∈ txs, i ∈ pool.listed tx) ↔ ∃ tx ∈ o.txHashes, tx ∈ txs) := by
    intro i o ho
    constructor
    · rintro ⟨tx, htx, hi⟩
      exact ⟨tx, (h.listed_iff ho tx).mp hi, htx⟩
    · rintro ⟨tx, htx, hmem⟩
      exact ⟨tx, hmem, (h.listed_iff ho tx).mpr htx⟩
  have hstored : ∀ i o, (pool.reportCommittedBlock visit block).orders i = some o ↔ pool.orders i = some o ∧
      ¬ ((∃ tx ∈ txs, i ∈ pool.listed tx) ∨ o.isPermanentlyIneligible block.sealedHeader = true) := by
    intro i o
    rw [reportCommittedBlock, OrderPool.removeInvalidatedOrders, Option.filter_eq_some_iff, orders_removeAll]
    simp [htxs, not_or, and_assoc]
  have hlisted : ∀ i tx, i ∈ (pool.reportCommittedBlock visit block).listed tx ↔
      i ∈ pool.listed tx ∧ ¬ tx ∈ txs := by
    intro i tx
    have hall : (pool.reportCommittedBlock visit block).listed tx = (pool.removeAll visit txs).listed tx := rfl
    rw [hall, listed_removeAll]
    by_cases htx : tx ∈ txs
    · simp [htx]
    · simp [htx]
  have hiff := InvertedIndex.Exact.discard_iff h
    (fun i o => (∃ tx ∈ txs, i ∈ pool.listed tx) ∨ o.isPermanentlyIneligible block.sealedHeader = true)
    (fun tx => tx ∈ txs) hstored hlisted
    (fun i o tx ho htx hmem => .inl ⟨tx, hmem, (h.listed_iff ho tx).mpr htx⟩)
  refine hiff.trans (forall₃_congr fun i o ho => ?_)
  rw [hshares i o ho]

lemma reportExecutionError_cases (hash : B256) (error : ExecutionError P) (pool : OrderPool P) :
    IsPermanent error ∧ pool.reportExecutionError hash error = pool.remove hash ∨
    ¬ IsPermanent error ∧ pool.reportExecutionError hash error = pool := by
  cases error with
  | invalidSignature => exact .inl ⟨.inr rfl, rfl⟩
  | invalidTransaction e => exact .inr ⟨by simp [IsPermanent], rfl⟩
  | invalidBundleTransaction tx e => exact .inr ⟨by simp [IsPermanent], rfl⟩
  | bundleTransactionReverted tx reason => exact .inr ⟨by simp [IsPermanent], rfl⟩
  | ineligibleBundle eligibility =>
    cases eligibility with
    | eligible => exact .inr ⟨by simp [IsPermanent], rfl⟩
    | temporarilyIneligible => exact .inr ⟨by simp [IsPermanent], rfl⟩
    | permanentlyIneligible => exact .inl ⟨.inl rfl, rfl⟩

lemma Entries.perform_iff (h : Entries pool) (operation : Operation P) :
    Entries (pool.perform operation) ↔ Clean pool operation := by
  cases operation with
  | call c =>
    cases c with
    | insert order => exact h.insert_iff order
    | remove hash => exact h.remove_iff hash
    | removeAnyWith visit tx => exact h.removeAnyWith_iff visit tx
    | reportCommittedBlock visit block => exact h.reportCommittedBlock_iff visit block
  | reportExecutionError hash error =>
    obtain ⟨hperm, heq⟩ | ⟨hperm, heq⟩ := reportExecutionError_cases hash error pool
    · rw [perform, heq, h.remove_iff hash]
      exact ⟨fun hclean _ => hclean, fun hclean => hclean hperm⟩
    · rw [perform, heq]
      exact iff_of_true h fun hp => absurd hp hperm

lemma Tidy.indexAll (h : Tidy pool) (txs : List B256) (hash : B256) :
    Tidy (txs.foldl (fun pool tx => pool.indexUnder tx hash) pool) := by
  induction txs generalizing pool with
  | nil => exact h
  | cons t txs ih =>
    refine ih fun tx hashes htx => ?_
    simp only [indexUnder, Function.update_apply] at htx
    split at htx
    · cases htx
      exact Finset.insert_nonempty _ _
    · exact h tx hashes htx

lemma Tidy.removeAnyWith (h : Tidy pool) (visit : SetOrder B256) (tx : B256) :
    Tidy (pool.removeAnyWith visit tx) := by
  intro t hashes ht
  rw [OrderPool.removeAnyWith] at ht
  dsimp only [removeTransaction] at ht
  cases htx : pool.txMap tx with
  | none =>
    rw [htx] at ht
    exact h t hashes ht
  | some orders =>
    simp only [htx, (removeEach_spec (visit.list orders) _).2, takeIndex, Function.update_apply] at ht
    split at ht
    · cases ht
    · exact h t hashes ht

lemma Tidy.removeAll (h : Tidy pool) (visit : SetOrder B256) (txs : List B256) :
    Tidy (pool.removeAll visit txs) := by
  induction txs generalizing pool with
  | nil => exact h
  | cons t txs ih => exact ih (h.removeAnyWith visit t)

lemma Tidy.perform (h : Tidy pool) (operation : Operation P) : Tidy (pool.perform operation) := by
  cases operation with
  | call c =>
    cases c with
    | insert order => exact h.indexAll order.txHashes order.hash
    | remove hash => exact h
    | removeAnyWith visit tx => exact h.removeAnyWith visit tx
    | reportCommittedBlock visit block => exact h.removeAll visit _
  | reportExecutionError hash error =>
    obtain ⟨-, heq⟩ | ⟨-, heq⟩ := reportExecutionError_cases hash error pool
    · rw [OrderPool.perform, heq]
      exact h
    · rw [OrderPool.perform, heq]
      exact h

lemma IndexExact.perform_iff (h : IndexExact pool ∧ Tidy pool) (operation : Operation P) :
    IndexExact (pool.perform operation) ∧ Tidy (pool.perform operation) ↔ Clean pool operation := by
  have htidy : Tidy (pool.perform operation) := h.2.perform operation
  have hentries : Entries pool := h.2.indexExact_iff.mp h.1
  rw [and_iff_left htidy, htidy.indexExact_iff, hentries.perform_iff]

end Operations

lemma indexExact_empty (host : Option HostNode) : IndexExact ({ host := host } : OrderPool P) ∧
    Tidy ({ host := host } : OrderPool P) := by
  refine ⟨⟨fun hash tx => ?_, fun tx => ?_⟩, fun tx hashes htx => by cases htx⟩
  · simp [listed]
  · simp

lemma tidy_run (host : Option HostNode) (operations : List (Operation P)) :
    Tidy (operations.foldl perform ({ host := host } : OrderPool P)) := by
  induction operations using List.reverseRecOn with
  | nil => exact (indexExact_empty host).2
  | append_singleton operations operation ih =>
    rw [List.foldl_concat]
    exact ih.perform operation

theorem index_exact_iff (host : Option HostNode) (operations : List (Operation P)) :
    (∀ done, done <+: operations → IndexExact (done.foldl perform ({ host := host } : OrderPool P))) ↔
      ∀ done operation, done ++ [operation] <+: operations →
        Clean (done.foldl perform ({ host := host } : OrderPool P)) operation := by
  have hstep : ∀ (pool : OrderPool P) (operation : Operation P), IndexExact pool ∧ Tidy pool →
      (IndexExact (pool.perform operation) ∧ Tidy (pool.perform operation) ↔ Clean pool operation) :=
    fun _ operation h => IndexExact.perform_iff h operation
  have hruns := kept_throughout_iff hstep (indexExact_empty host) operations
  rw [← hruns]
  exact forall₂_congr fun done _ => (and_iff_left (tidy_run host done)).symm

theorem removed_order_listed :
    ¬ ∀ (host : Option HostNode) (operations : List (Operation Devnet)),
      IndexExact (operations.foldl perform ({ host := host } : OrderPool Devnet)) := by
  intro h
  have hexact := h none [.call (.insert looseOrder), .call (.remove looseOrder.hash)]
  have hlisted : looseOrder.hash ∈ (List.foldl perform ({} : OrderPool Devnet)
      [.call (.insert looseOrder), .call (.remove looseOrder.hash)]).listed thirdTx.hash := by decide
  obtain ⟨o, ho, -⟩ := (hexact.entries looseOrder.hash thirdTx.hash).mp hlisted
  have hgone : (List.foldl perform ({} : OrderPool Devnet)
      [.call (.insert looseOrder), .call (.remove looseOrder.hash)]).orders looseOrder.hash = none :=
    (orders_remove looseOrder.hash _ looseOrder.hash).trans (if_pos rfl)
  rw [hgone] at ho
  cases ho

end OrderPool

end Rblib.Pool
