import Rblib.Payload.BundleRun
import Rblib.Platform.BundleExt

namespace Rblib.Payload

open Platform PlatformTypes Library

variable {P : Type} [PlatformTypes P]

/-- An execution of the bundle that gets to `tx`, which does not succeed. -/
structure FailedAttempt (bundle : FlashbotsBundle P) (tx : Transaction P) where
  block : BlockContext P
  db : DatabaseRef
  before : List (Transaction P × Bytes)
  bytes : Bytes
  after : List (Transaction P × Bytes)
  progress : Executable.Progress P
  result : TransactionExecutionResult P
  state : EvmState P
  eligible : bundle.eligibilityAt block.timestamp block.number = .eligible
  encoded : bundle.transactionsEncoded = before ++ (tx, bytes) :: after
  reached : before.foldlM (Executable.executeBundleTransaction bundle block db) {} = .ok progress
  executed : block.evm.transact db progress.commits tx bytes = .ok (result, state)
  failed : isSuccess result = false

namespace FailedAttempt

variable {bundle : FlashbotsBundle P} {tx : Transaction P}

def Reverted (attempt : FailedAttempt bundle tx) : Prop :=
  ∃ reason, Executable.executeBundle bundle attempt.block attempt.db =
    .error (.bundleTransactionReverted (txHash tx) reason)

structure Kept (attempt : FailedAttempt bundle tx) : Prop where
  committed : Executable.executeBundleTransaction bundle attempt.block attempt.db attempt.progress
    (tx, attempt.bytes) =
    .ok { attempt.progress with
      commits := attempt.progress.commits ++ [attempt.state]
      results := attempt.progress.results ++ [attempt.result] }
  kept : ∀ executed, Executable.executeBundle bundle attempt.block attempt.db = .ok executed →
    tx ∈ executed.source.transactions ∧ attempt.result ∈ executed.results

end FailedAttempt

def NeverDiscarded (bundle : FlashbotsBundle P) (tx : Transaction P) : Prop :=
  ∀ block db executed, Executable.executeBundle bundle block db = .ok executed → tx ∈ executed.source.transactions

structure ClassesAgree (bundle : FlashbotsBundle P) : Prop where
  critical : ∀ tx ∈ bundle.transactions, ∀ attempt : FailedAttempt bundle tx,
    attempt.Reverted ↔ tx ∈ bundle.criticalTxs
  failable : ∀ tx ∈ bundle.transactions, ∀ attempt : FailedAttempt bundle tx,
    attempt.Kept ↔ tx ∈ bundle.failableTxs
  required : ∀ tx ∈ bundle.transactions, NeverDiscarded bundle tx ↔ tx ∈ bundle.requiredTxs
  difference : ∀ tx, tx ∈ bundle.criticalTxs ↔ tx ∈ bundle.requiredTxs ∧ tx ∉ bundle.failableTxs

section Fold

variable {bundle : FlashbotsBundle P} {block : BlockContext P} {db : DatabaseRef} {tx : Transaction P}

lemma executeBundleTransaction_failed {acc : Executable.Progress P} {bytes : Bytes}
    {result : TransactionExecutionResult P} {state : EvmState P}
    (hr : block.evm.transact db acc.commits tx bytes = .ok (result, state)) (hf : isSuccess result = false) :
    Executable.executeBundleTransaction bundle block db acc (tx, bytes) =
      if bundle.isAllowedToFail (txHash tx) then
        .ok { acc with commits := acc.commits ++ [state], results := acc.results ++ [result] }
      else if bundle.isOptional (txHash tx) then .ok { acc with discarded := acc.discarded ++ [txHash tx] }
      else .error (.bundleTransactionReverted (txHash tx) (haltReason result)) := by
  simp only [Executable.executeBundleTransaction, hr, hf, Bool.false_or]

lemma executeBundleTransaction_reverted {acc : Executable.Progress P} {t : Transaction P × Bytes} {hash : B256}
    {reason : Option (HaltReason P)}
    (h : Executable.executeBundleTransaction bundle block db acc t = .error
      (.bundleTransactionReverted hash reason)) :
    txHash t.1 = hash := by
  rw [Executable.executeBundleTransaction] at h
  split at h
  · split at h
    · cases h
    · split at h
      · cases h
      · cases h
        rfl
  · split at h
    · cases h
    · cases h

lemma committed_append (ts : List (Transaction P × Bytes)) {left : List (Transaction P × Bytes)}
    {acc acc' : Executable.Progress P}
    (h : left.foldlM (Executable.executeBundleTransaction bundle block db) acc = .ok acc') :
    committed bundle block.evm db acc.commits (left ++ ts) =
      committed bundle block.evm db acc.commits left ++ committed bundle block.evm db acc'.commits ts := by
  induction left generalizing acc with
  | nil =>
    cases h
    rfl
  | cons t left ih =>
    obtain ⟨next, hs, hrest⟩ := foldlM_cons_eq_ok.mp h
    obtain ⟨result, state, hr, hc, rfl⟩ | ⟨-, hc, rfl⟩ := executeBundleTransaction_ok hs
    · rw [List.cons_append, committed_taken hr hc, committed_taken hr hc, ih hrest, List.cons_append]
    · rw [List.cons_append, committed_left_out hc, committed_left_out hc, ih hrest]

lemma neverDiscarded_of_required (hlen : bundle.recovered.length = bundle.inner.txs.length)
    (hhashes : (bundle.transactions.map txHash).Nodup) (h : tx ∈ bundle.requiredTxs) :
    NeverDiscarded bundle tx := by
  intro block db executed hexec
  obtain ⟨htx, hopt⟩ := FlashbotsBundle.mem_requiredTxs.mp h
  have hacc := accurate_of_adjacent hlen (adjacent_of_nodup hhashes _) hexec
  obtain ⟨-, acc, hf, -⟩ := executeBundle_ok_iff.mp hexec
  obtain ⟨marks, hm⟩ := executeBundle_marks _ hf
  have hall : marks.map Prod.fst = bundle.transactions := by
    rw [hm.all, FlashbotsBundle.transactionsEncoded, List.map_fst_zip hlen.le]
    rfl
  obtain ⟨m, hmem, rfl⟩ := List.mem_map.mp (hall.symm ▸ htx)
  have hmark : m.2 = true := by
    by_contra hdropped
    rw [hm.optional m hmem (Bool.eq_false_of_not_eq_true hdropped)] at hopt
    cases hopt
  rw [hacc.transactions, ← hm.kept]
  exact List.mem_map_of_mem (List.mem_filter.mpr ⟨hmem, hmark⟩)

end Fold

namespace FailedAttempt

variable {bundle : FlashbotsBundle P} {tx : Transaction P}

lemma step_eq (attempt : FailedAttempt bundle tx) :
    Executable.executeBundleTransaction bundle attempt.block attempt.db attempt.progress (tx, attempt.bytes) =
      if bundle.isAllowedToFail (txHash tx) then
        .ok { attempt.progress with
          commits := attempt.progress.commits ++ [attempt.state]
          results := attempt.progress.results ++ [attempt.result] }
      else if bundle.isOptional (txHash tx) then
        .ok { attempt.progress with discarded := attempt.progress.discarded ++ [txHash tx] }
      else .error (.bundleTransactionReverted (txHash tx) (haltReason attempt.result)) :=
  executeBundleTransaction_failed attempt.executed attempt.failed

lemma fold_eq (attempt : FailedAttempt bundle tx) :
    bundle.transactionsEncoded.foldlM (Executable.executeBundleTransaction bundle attempt.block attempt.db) {} =
      Executable.executeBundleTransaction bundle attempt.block attempt.db attempt.progress (tx, attempt.bytes) >>=
        attempt.after.foldlM (Executable.executeBundleTransaction bundle attempt.block attempt.db) := by
  rw [attempt.encoded, List.foldlM_append, attempt.reached]
  rfl

lemma executeBundle_error (attempt : FailedAttempt bundle tx) {e : ExecutionError P} :
    Executable.executeBundle bundle attempt.block attempt.db = .error e ↔
      bundle.transactionsEncoded.foldlM (Executable.executeBundleTransaction bundle attempt.block attempt.db) {} =
        .error e := by
  rw [Executable.executeBundle, if_neg (not_not.mpr attempt.eligible), bind_eq_error]
  refine or_iff_left ?_
  rintro ⟨progress, -, hdone⟩
  cases hdone

lemma mem_transactions (attempt : FailedAttempt bundle tx) : tx ∈ bundle.transactions := by
  have hmem : (tx, attempt.bytes) ∈ bundle.transactionsEncoded := by
    rw [attempt.encoded]
    exact List.mem_append_right _ List.mem_cons_self
  exact (List.of_mem_zip hmem).1

lemma hash_after (attempt : FailedAttempt bundle tx) (hhashes : (bundle.transactions.map txHash).Nodup)
    (hlen : bundle.recovered.length = bundle.inner.txs.length) : ∀ t ∈ attempt.after, txHash t.1 ≠ txHash tx := by
  have hall : bundle.transactionsEncoded.map Prod.fst = bundle.transactions := List.map_fst_zip hlen.le
  rw [← hall, attempt.encoded, List.map_map, List.map_append, List.map_cons, List.nodup_append,
    List.nodup_cons] at hhashes
  intro t ht heq
  apply hhashes.2.1.1
  rw [Function.comp_apply, ← heq]
  exact List.mem_map_of_mem (f := txHash ∘ Prod.fst) ht

lemma reverted_iff (attempt : FailedAttempt bundle tx) (hhashes : (bundle.transactions.map txHash).Nodup)
    (hlen : bundle.recovered.length = bundle.inner.txs.length) : attempt.Reverted ↔ tx ∈ bundle.criticalTxs := by
  rw [FlashbotsBundle.mem_criticalTxs, FlashbotsBundle.mem_requiredTxs, Reverted]
  simp only [attempt.executeBundle_error, attempt.fold_eq, bind_eq_error]
  constructor
  · rintro ⟨reason, hhere | ⟨acc, -, hlater⟩⟩
    · rw [attempt.step_eq] at hhere
      split at hhere
      · cases hhere
      · next hallowed =>
        split at hhere
        · cases hhere
        · next hopt =>
          exact ⟨⟨attempt.mem_transactions, Bool.eq_false_of_not_eq_true hopt⟩,
            Bool.eq_false_of_not_eq_true hallowed⟩
    · obtain ⟨t, ht, acc', herror⟩ := foldlM_eq_error hlater
      exact absurd (executeBundleTransaction_reverted herror) (attempt.hash_after hhashes hlen t ht)
  · rintro ⟨⟨-, hopt⟩, hallowed⟩
    refine ⟨haltReason attempt.result, .inl ?_⟩
    rw [attempt.step_eq, if_neg (by simp [hallowed]), if_neg (by simp [hopt])]

lemma kept_iff (attempt : FailedAttempt bundle tx) (hhashes : (bundle.transactions.map txHash).Nodup)
    (hlen : bundle.recovered.length = bundle.inner.txs.length) :
    attempt.Kept ↔ bundle.isAllowedToFail (txHash tx) = true := by
  constructor
  · intro hkept
    have hstep := hkept.committed
    rw [attempt.step_eq] at hstep
    split at hstep
    · next hallowed => exact hallowed
    · split at hstep
      · have hcommits := congrArg Executable.Progress.commits (Except.ok.inj hstep)
        simp at hcommits
      · cases hstep
  · intro hallowed
    refine ⟨by rw [attempt.step_eq, if_pos hallowed], fun executed hexec => ?_⟩
    have hacc := accurate_of_adjacent hlen (adjacent_of_nodup hhashes _) hexec
    have hmem : (⟨tx, attempt.result, attempt.state⟩ : Commit P) ∈
        committed bundle attempt.block.evm attempt.db [] bundle.transactionsEncoded := by
      rw [attempt.encoded]
      have hsplit := committed_append ((tx, attempt.bytes) :: attempt.after) attempt.reached
      have hhere := committed_taken (t := (tx, attempt.bytes)) attempt.executed
        (by rw [hallowed, Bool.or_true]) attempt.after
      rw [hsplit, hhere]
      exact List.mem_append_right _ List.mem_cons_self
    rw [hacc.transactions, hacc.results]
    exact ⟨List.mem_map_of_mem (f := Commit.transaction) hmem, List.mem_map_of_mem (f := Commit.result) hmem⟩

end FailedAttempt

structure CanFail (P : Type) [PlatformTypes P] : Prop where
  failure : ∃ result : TransactionExecutionResult P, isSuccess result = false
  state : Nonempty (EvmState P)

lemma allOptional_of_agree {bundle : FlashbotsBundle P} (h : ClassesAgree bundle) :
    ∀ tx ∈ bundle.transactions, tx ∉ bundle.requiredTxs := by
  intro tx htx hrequired
  have hdiff := h.difference tx
  rw [FlashbotsBundle.mem_criticalTxs, FlashbotsBundle.mem_failableTxs] at hdiff
  cases hallowed : bundle.isAllowedToFail (txHash tx) with
  | true =>
    have hcritical := hdiff.mpr ⟨hrequired, fun hf => by simp [hallowed] at hf⟩
    simp [hallowed] at hcritical
  | false => exact (hdiff.mp ⟨hrequired, hallowed⟩).2 ⟨htx, hallowed⟩

lemma exists_failedAttempt (hP : CanFail P) {bundle : FlashbotsBundle P} {block : BlockContext P}
    (db : DatabaseRef) (hlen : bundle.recovered.length = bundle.inner.txs.length)
    (helig : bundle.eligibilityAt block.timestamp block.number = .eligible) (hne : bundle.transactions ≠ []) :
    ∃ tx, Nonempty (FailedAttempt bundle tx) := by
  obtain ⟨result, hfailed⟩ := hP.failure
  obtain ⟨state⟩ := hP.state
  have hencoded : bundle.transactionsEncoded ≠ [] := by
    intro hnil
    have hzip : (bundle.recovered.zip bundle.inner.txs).length = 0 := List.length_eq_zero_iff.mpr hnil
    rw [List.length_zip, hlen, min_self, ← hlen] at hzip
    exact hne (List.length_eq_zero_iff.mp hzip)
  obtain ⟨⟨tx, bytes⟩, after, hsplit⟩ := List.exists_cons_of_ne_nil hencoded
  let failing : BlockContext P := { block with
    evm := ⟨fun _ _ _ _ => .ok (result, state), fun _ _ => ⟨fun _ => none, fun _ => none⟩⟩ }
  exact ⟨tx, ⟨⟨failing, db, [], bytes, after, {}, result, state, helig, hsplit, rfl, rfl, hfailed⟩⟩⟩

/-- `failable_txs` lists the transactions that are not allowed to fail; the other classes are those
of the execution. -/
theorem classes_agree_iff (hP : CanFail P) {bundle : FlashbotsBundle P}
    (hlen : bundle.recovered.length = bundle.inner.txs.length) (hhashes : (bundle.transactions.map txHash).Nodup) :
    (ClassesAgree bundle ↔ bundle.transactions = []) ∧
    (∀ tx, ∀ attempt : FailedAttempt bundle tx, (attempt.Reverted ↔ tx ∈ bundle.criticalTxs) ∧
      (attempt.Kept ↔ tx ∉ bundle.failableTxs)) ∧
    ∀ tx ∈ bundle.requiredTxs, NeverDiscarded bundle tx := by
  have hkept : ∀ tx, ∀ attempt : FailedAttempt bundle tx, attempt.Kept ↔ tx ∉ bundle.failableTxs := by
    intro tx attempt
    rw [attempt.kept_iff hhashes hlen, FlashbotsBundle.mem_failableTxs, and_iff_right attempt.mem_transactions,
      Bool.not_eq_false]
  refine ⟨⟨fun hagree => ?_, fun hnil => ?_⟩, fun tx attempt =>
    ⟨attempt.reverted_iff hhashes hlen, hkept tx attempt⟩,
    fun tx htx => neverDiscarded_of_required hlen hhashes htx⟩
  · by_contra hne
    obtain ⟨first, hfirst⟩ := List.exists_mem_of_ne_nil _ hne
    have hdiscarded := mt (hagree.required first hfirst).mp (allOptional_of_agree hagree first hfirst)
    rw [NeverDiscarded] at hdiscarded
    push Not at hdiscarded
    obtain ⟨block, db, executed, hexec, -⟩ := hdiscarded
    obtain ⟨tx, ⟨attempt⟩⟩ := exists_failedAttempt hP db hlen (executeBundle_ok_iff.mp hexec).1 hne
    have hsame := (hagree.failable tx attempt.mem_transactions attempt).symm.trans (hkept tx attempt)
    exact iff_not_self hsame
  · have hnone : ∀ tx, tx ∉ bundle.transactions := fun tx => hnil ▸ List.not_mem_nil
    refine ⟨fun tx htx => absurd htx (hnone tx), fun tx htx => absurd htx (hnone tx),
      fun tx htx => absurd htx (hnone tx), fun tx => ?_⟩
    rw [FlashbotsBundle.mem_criticalTxs, FlashbotsBundle.mem_requiredTxs]
    exact ⟨fun h => absurd h.1.1 (hnone tx), fun h => absurd h.1.1 (hnone tx)⟩

namespace Devnet

lemma canFail : CanFail Devnet := ⟨⟨false, rfl⟩, ⟨((0, 0) : Address × ℕ)⟩⟩

def revertableFirst : FlashbotsBundle Devnet := (FlashbotsBundle.default.withTransaction first).markAsRevertable 21

def failingBlock : BlockContext Devnet := { block with
  evm := ⟨fun _ _ _ _ => .ok (false, ((7, 1) : Address × ℕ)), fun _ _ => ⟨fun _ => none, fun _ => none⟩⟩ }

def firstFails : FailedAttempt revertableFirst first where
  block := failingBlock
  db := emptyDatabase
  before := []
  bytes := hashBytes 21
  after := []
  progress := {}
  result := false
  state := ((7, 1) : Address × ℕ)
  eligible := rfl
  encoded := rfl
  reached := rfl
  executed := rfl
  failed := rfl

theorem revertableFirst_unlisted : firstFails.Kept ∧ revertableFirst.failableTxs = [] ∧
    ¬ ClassesAgree revertableFirst := by
  have hkept : firstFails.Kept := (firstFails.kept_iff (by decide) rfl).mpr (by decide)
  have hlisted : revertableFirst.failableTxs = [] := rfl
  refine ⟨hkept, hlisted, fun h => ?_⟩
  have hmem := (h.failable first List.mem_cons_self firstFails).mp hkept
  rw [hlisted] at hmem
  exact List.not_mem_nil hmem

theorem revertableFirst_required : NeverDiscarded revertableFirst first ∧
    (ClassesAgree revertableFirst ↔ revertableFirst.transactions = []) := by
  have hlen : revertableFirst.recovered.length = revertableFirst.inner.txs.length := rfl
  have hclasses := classes_agree_iff canFail hlen (by decide)
  exact ⟨hclasses.2.2 first List.mem_cons_self, hclasses.1⟩

end Devnet

end Rblib.Payload
