import Rblib.Library.FixedWidth
import Rblib.Payload.SealedHistory
import Rblib.Steps.RevertCorrect

namespace Rblib.Steps

open Library Platform PlatformTypes Payload

variable {P : Type} [PlatformTypes P]

/-- `txs_dropped` is an `AtomicU32`, whose `fetch_add` wraps around. -/
def PerJobCounters.txsDroppedCount (c : PerJobCounters) : UInt32 := .ofNat c.txsDropped

namespace RemoveRevertedTransactions

def transactions (c : Checkpoint P) : List (Transaction P) := (Span.history c).transactions

def dropped (input output : Checkpoint P) : List B256 :=
  ((transactions input).map txHash).diff ((transactions output).map txHash)

/-- How trying an order again on a payload ends: the payload after it, the transactions trimmed off
the order as failed, and how many more it lost to the execution that kept it. -/
structure Retrial (P : Type) [PlatformTypes P] where
  payload : Checkpoint P
  kept : Bool
  trimmed : List B256 := []
  discarded : ℕ := 0
  tick : ℕ

def Retrial.trim (failed : List B256) (r : Retrial P) : Retrial P := { r with trimmed := failed ++ r.trimmed }

def Retrial.counted (size : ℕ) (r : Retrial P) : ℕ := r.trimmed.length + if r.kept then 0 else size

def Retrial.twice (r : Retrial P) : ℕ := if r.kept then 0 else r.trimmed.length

def retryBundle (fresh : ℕ → ℕ × ℕ) (payload : Checkpoint P) (bundle : FlashbotsBundle P) (tick : ℕ) : Retrial P :=
  match payload.apply (.bundle bundle) (fresh tick).1 (fresh tick).2 with
  | .error _ => { payload, kept := false, tick := tick + 1 }
  | .ok checkpoint =>
    if (optionalFailedTxs bundle checkpoint).isEmpty then
      { payload := checkpoint, kept := true, tick := tick + 1
        discarded := bundle.transactions.length - checkpoint.transactions.length }
    else
      let failed := (optionalFailedTxs bundle checkpoint).map Prod.fst
      (retryBundle fresh payload (failed.foldl FlashbotsBundle.withoutTransaction bundle) (tick + 1)).trim failed
termination_by bundle.inner.droppingTxHashes.length
decreasing_by exact droppingTxHashes_lt ‹_›

def retryTransaction (fresh : ℕ → ℕ × ℕ) (payload : Checkpoint P) (tx : Transaction P) (tick : ℕ) : Retrial P :=
  match payload.apply (.transaction tx) (fresh tick).1 (fresh tick).2 with
  | .error _ => { payload, kept := false, tick := tick + 1 }
  | .ok checkpoint =>
    if hasFailures checkpoint then { payload, kept := false, tick := tick + 1 }
    else { payload := checkpoint, kept := true, tick := tick + 1 }

def retry (fresh : ℕ → ℕ × ℕ) (payload : Checkpoint P) (tick : ℕ) (order : Checkpoint P) : Retrial P :=
  match order.asTransaction, order.asBundle with
  | some tx, _ => retryTransaction fresh payload tx tick
  | none, some bundle => retryBundle fresh payload bundle tick
  | none, none => { payload, kept := false, tick }

def retrials (fresh : ℕ → ℕ × ℕ) : Checkpoint P → ℕ → List (Checkpoint P) → List (Retrial P)
  | _, _, [] => []
  | payload, tick, order :: orders =>
    let retrial := retry fresh payload tick order
    retrial :: retrials fresh retrial.payload retrial.tick orders

def retried (fresh : ℕ → ℕ × ℕ) (payload : Checkpoint P) : List (Retrial P) :=
  match payload.historyStaging.findIdx? hasFailures with
  | none => []
  | some prefixLen => match (payload.historyStaging.take prefixLen).getLast? with
    | none => []
    | some baseline => retrials fresh baseline 0 (payload.historyStaging.drop prefixLen)

def countedTwice (retrials : List (Retrial P)) : ℕ := (retrials.map Retrial.twice).sum

def notCounted (retrials : List (Retrial P)) : ℕ := (retrials.map Retrial.discarded).sum

section Bundles

variable {p c : Checkpoint P} {bundle : FlashbotsBundle P} {id now : ℕ}

lemma apply_bundle_transactions (h : p.apply (.bundle bundle) id now = .ok c) :
    c.transactions.Sublist bundle.transactions ∧ ∃ result, c = p.applyWith (.executable result) id now := by
  obtain ⟨result, hr, rfl⟩ := Checkpoint.apply_eq h
  exact ⟨source_sublist hr, _, rfl⟩

lemma transactions_of_result {result : ExecutionResult P} (h : c.result = some result) :
    c.transactions = result.source.transactions := by
  rw [Checkpoint.result] at h
  rw [Checkpoint.transactions]
  cases hm : c.data.mutation with
  | barrier =>
    rw [hm] at h
    cases h
  | executable result' =>
    rw [hm] at h
    rw [Option.some.inj h]

lemma failedTxs_sublist (c : Checkpoint P) : (c.failedTxs.map Prod.fst).Sublist c.transactions := by
  rw [Checkpoint.failedTxs]
  cases hr : c.result with
  | none => exact List.nil_sublist _
  | some result =>
    rw [transactions_of_result hr]
    refine (List.filter_sublist.map _).trans ?_
    rw [List.zip_eq_zip_take_min, List.map_fst_zip (by simp)]
    exact List.take_sublist _ _

lemma failed_sublist (bundle : FlashbotsBundle P) (c : Checkpoint P) :
    ((optionalFailedTxs bundle c).map Prod.fst).Sublist (c.transactions.map txHash) := by
  refine .trans ?_ ((failedTxs_sublist c).map txHash)
  rw [optionalFailedTxs, List.map_map]
  induction c.failedTxs with
  | nil => exact .slnil
  | cons e failed ih =>
    rw [List.map_cons, List.filterMap_cons]
    split_ifs
    · exact ih.cons_cons _
    · exact ih.cons _

lemma trimmed_length (h : p.apply (.bundle bundle) id now = .ok c) :
    let failed := (optionalFailedTxs bundle c).map Prod.fst
    let reduced := failed.foldl FlashbotsBundle.withoutTransaction bundle
    reduced.transactions.Sublist bundle.transactions ∧
      bundle.transactions.length = reduced.transactions.length + failed.length := by
  have hfailed := (failed_sublist bundle c).trans ((apply_bundle_transactions h).1.map txHash)
  dsimp only [FlashbotsBundle.transactions]
  rw [recovered_withoutTransactions]
  exact ⟨eraseFirst_sublist txHash _ _, (eraseFirst_length_eq txHash hfailed.subperm).symm⟩

end Bundles

section Accounts

variable (fresh : ℕ → ℕ × ℕ)

structure Retrial.Accounts (payload : Checkpoint P) (txs : List (Transaction P)) (r : Retrial P)
    (left : List (Transaction P)) : Prop where
  grown : transactions r.payload = transactions payload ++ left
  sublist : left.Sublist txs
  kept : r.kept = true → txs.length = left.length + r.trimmed.length + r.discarded
  refused : r.kept = false → left = [] ∧ r.discarded = 0

lemma refused_accounts (payload : Checkpoint P) (txs : List (Transaction P)) (tick : ℕ) :
    Retrial.Accounts payload txs { payload, kept := false, tick } [] :=
  ⟨(List.append_nil _).symm, List.nil_sublist _, nofun, fun _ => ⟨rfl, rfl⟩⟩

lemma Retrial.Accounts.trim {payload : Checkpoint P} {txs reduced left : List (Transaction P)} {r : Retrial P}
    (h : r.Accounts payload reduced left) {failed : List B256} (hreduced : reduced.Sublist txs)
    (hlength : txs.length = reduced.length + failed.length) : (r.trim failed).Accounts payload txs left := by
  refine ⟨h.grown, h.sublist.trans hreduced, fun hk => ?_, h.refused⟩
  change txs.length = left.length + (failed ++ r.trimmed).length + r.discarded
  have hkept := h.kept hk
  rw [List.length_append]
  omega

lemma retryBundle_accounts (payload : Checkpoint P) (bundle : FlashbotsBundle P) (tick : ℕ) :
    ∃ left, (retryBundle fresh payload bundle tick).Accounts payload bundle.transactions left := by
  induction bundle, tick using retryBundle.induct fresh payload with
  | case1 bundle tick e ha =>
    rw [retryBundle, ha]
    exact ⟨[], refused_accounts payload bundle.transactions (tick + 1)⟩
  | case2 bundle tick c ha hempty =>
    rw [retryBundle, ha]
    simp only [hempty, if_true]
    obtain ⟨hsub, result, rfl⟩ := apply_bundle_transactions ha
    refine ⟨_, Checkpoint.transactions_applyWith _ _ _ _, hsub, fun _ => ?_, nofun⟩
    exact (Nat.add_sub_of_le hsub.length_le).symm
  | case3 bundle tick c ha hempty failed ih =>
    obtain ⟨hreduced, hlength⟩ := trimmed_length ha
    obtain ⟨left, h⟩ := ih
    rw [retryBundle, ha]
    simp only [hempty, Bool.false_eq_true, if_false]
    exact ⟨left, h.trim hreduced hlength⟩

lemma retryTransaction_accounts (payload : Checkpoint P) (tx : Transaction P) (tick : ℕ) :
    ∃ left, (retryTransaction fresh payload tx tick).Accounts payload [tx] left := by
  rw [retryTransaction]
  cases ha : payload.apply (.transaction tx) (fresh tick).1 (fresh tick).2 with
  | error e => exact ⟨[], refused_accounts payload [tx] (tick + 1)⟩
  | ok c =>
    dsimp only
    split_ifs
    · exact ⟨[], refused_accounts payload [tx] (tick + 1)⟩
    · obtain ⟨result, hr, rfl⟩ := Checkpoint.apply_eq ha
      obtain ⟨r, -, rfl⟩ := execute_transaction_ok hr
      exact ⟨[tx], Checkpoint.transactions_applyWith _ _ _ _, .refl _, fun _ => rfl, nofun⟩

lemma source_cases (order : Checkpoint P) :
    (∃ tx, order.asTransaction = some tx ∧ order.transactions = [tx]) ∨
    (∃ bundle, order.asTransaction = none ∧ order.asBundle = some bundle ∧
      order.transactions = bundle.transactions) ∨
    (order.asTransaction = none ∧ order.asBundle = none ∧ order.transactions = []) := by
  rw [Checkpoint.asTransaction, Checkpoint.asBundle, Checkpoint.transactions, Checkpoint.result]
  cases order.data.mutation with
  | barrier => exact .inr (.inr ⟨rfl, rfl, rfl⟩)
  | executable result =>
    dsimp only [Option.map_some]
    cases result.source with
    | transaction tx => exact .inl ⟨tx, rfl, rfl⟩
    | bundle bundle => exact .inr (.inl ⟨bundle, rfl, rfl, rfl⟩)

lemma retry_accounts (payload : Checkpoint P) (tick : ℕ) (order : Checkpoint P) :
    ∃ left, (retry fresh payload tick order).Accounts payload order.transactions left := by
  rw [retry]
  obtain ⟨tx, htx, htxs⟩ | ⟨bundle, htx, hbundle, htxs⟩ | ⟨htx, hbundle, htxs⟩ := source_cases order
  · rw [htx, htxs]
    exact retryTransaction_accounts fresh payload tx tick
  · rw [htx, hbundle, htxs]
    exact retryBundle_accounts fresh payload bundle tick
  · rw [htx, hbundle, htxs]
    exact ⟨[], refused_accounts payload [] tick⟩

lemma Retrial.Accounts.counter {payload : Checkpoint P} {txs left : List (Transaction P)} {r : Retrial P}
    (h : r.Accounts payload txs left) :
    r.counted txs.length + left.length + r.discarded = txs.length + r.twice := by
  rw [Retrial.counted, Retrial.twice]
  cases hk : r.kept with
  | true =>
    have hkept := h.kept hk
    simp only [if_true]
    omega
  | false =>
    obtain ⟨rfl, hdiscarded⟩ := h.refused hk
    rw [hdiscarded, List.length_nil]
    simp only [Bool.false_eq_true, if_false]
    omega

lemma Retrial.counted_trim (failed : List B256) (r : Retrial P) (size : ℕ) :
    (r.trim failed).counted size = failed.length + r.counted size := by
  rw [Retrial.counted, Retrial.trim, List.length_append, Nat.add_assoc]
  rfl

def Follows (sweep after : Sweep P) (size : ℕ) (r : Retrial P) : Prop :=
  after.validPrefix = r.payload ∧ after.tick = r.tick ∧
    after.perJob.txsDropped = sweep.perJob.txsDropped + r.counted size

lemma extendWithBundle_follows (order : Checkpoint P) (bundle : FlashbotsBundle P) (sweep : Sweep P) :
    Follows sweep (extendWithBundle fresh order bundle sweep) order.transactions.length
      (retryBundle fresh sweep.validPrefix bundle sweep.tick) := by
  induction bundle, sweep using extendWithBundle.induct fresh with
  | case1 bundle sweep e ha =>
    rw [extendWithBundle, retryBundle, ha]
    exact ⟨rfl, rfl, by simp [Retrial.counted, PerJobCounters.markDropped, PerJobCounters.incTxsDropped,
      PerJobCounters.incGasDropped]⟩
  | case2 bundle sweep new ha hempty =>
    rw [extendWithBundle, retryBundle, ha]
    simp only [hempty, if_true]
    exact ⟨rfl, rfl, rfl⟩
  | case3 bundle sweep new ha hempty failed gas reduced ih =>
    rw [extendWithBundle, retryBundle, ha]
    simp only [hempty, Bool.false_eq_true, if_false]
    obtain ⟨hpayload, htick, hcounter⟩ := ih
    refine ⟨hpayload, htick, hcounter.trans ?_⟩
    rw [Retrial.counted_trim, ← Nat.add_assoc]
    rfl

lemma extendWithTransaction_follows (tx : Transaction P) (sweep : Sweep P) :
    Follows sweep (extendWithTransaction fresh tx sweep) 1
      (retryTransaction fresh sweep.validPrefix tx sweep.tick) := by
  rw [extendWithTransaction, retryTransaction]
  cases ha : sweep.validPrefix.apply (.transaction tx) (fresh sweep.tick).1 (fresh sweep.tick).2 with
  | error e => exact ⟨rfl, rfl, rfl⟩
  | ok c =>
    dsimp only
    split_ifs
    · obtain ⟨result, hr, rfl⟩ := Checkpoint.apply_eq ha
      obtain ⟨r, -, rfl⟩ := execute_transaction_ok hr
      exact ⟨rfl, rfl, rfl⟩
    · exact ⟨rfl, rfl, rfl⟩

lemma extendWith_follows (sweep : Sweep P) (order : Checkpoint P) :
    Follows sweep (extendWith fresh sweep order) order.transactions.length
      (retry fresh sweep.validPrefix sweep.tick order) := by
  rw [extendWith, retry]
  obtain ⟨tx, htx, htxs⟩ | ⟨bundle, htx, hbundle, -⟩ | ⟨htx, hbundle, htxs⟩ := source_cases order
  · rw [htx, htxs]
    exact extendWithTransaction_follows fresh tx sweep
  · rw [htx, hbundle]
    exact extendWithBundle_follows fresh order bundle sweep
  · rw [htx, hbundle, htxs]
    exact ⟨rfl, rfl, rfl⟩

lemma sweep_accounts (orders : List (Checkpoint P)) (sweep : Sweep P) :
    let after := orders.foldl (extendWith fresh) sweep
    let tried := retrials fresh sweep.validPrefix sweep.tick orders
    ∃ left, transactions after.validPrefix = transactions sweep.validPrefix ++ left ∧
      left.Sublist (orders.flatMap Checkpoint.transactions) ∧
      after.perJob.txsDropped + left.length + notCounted tried =
        sweep.perJob.txsDropped + (orders.flatMap Checkpoint.transactions).length + countedTwice tried := by
  induction orders generalizing sweep with
  | nil => exact ⟨[], (List.append_nil _).symm, .refl _, rfl⟩
  | cons order orders ih =>
    obtain ⟨left, h⟩ := retry_accounts fresh sweep.validPrefix sweep.tick order
    obtain ⟨hpayload, htick, hcounter⟩ := extendWith_follows fresh sweep order
    obtain ⟨later, hgrown, hsublist, hlater⟩ := ih (extendWith fresh sweep order)
    rw [hpayload, htick] at hlater
    refine ⟨left ++ later, ?_, ?_, ?_⟩
    · rw [List.foldl_cons, hgrown, hpayload, h.grown, List.append_assoc]
    · rw [List.flatMap_cons]
      exact h.sublist.append hsublist
    · have hone := h.counter
      simp only [List.foldl_cons, retrials, notCounted, countedTwice, List.map_cons, List.sum_cons,
        List.flatMap_cons, List.length_append] at hlater ⊢
      omega

end Accounts

section Conversions

variable (fresh : ℕ → ℕ × ℕ)

def bundleCounts (size : ℕ) (payload : Checkpoint P) (bundle : FlashbotsBundle P) (tick : ℕ) : List ℕ :=
  match payload.apply (.bundle bundle) (fresh tick).1 (fresh tick).2 with
  | .error _ => [size]
  | .ok checkpoint =>
    if (optionalFailedTxs bundle checkpoint).isEmpty then []
    else
      let failed := (optionalFailedTxs bundle checkpoint).map Prod.fst
      failed.length :: bundleCounts size payload (failed.foldl FlashbotsBundle.withoutTransaction bundle)
        (tick + 1)
termination_by bundle.inner.droppingTxHashes.length
decreasing_by exact droppingTxHashes_lt ‹_›

def counts (payload : Checkpoint P) (tick : ℕ) (order : Checkpoint P) : List ℕ :=
  match order.asTransaction, order.asBundle with
  | some tx, _ => if (retryTransaction fresh payload tx tick).kept then [] else [1]
  | none, some bundle => bundleCounts fresh order.transactions.length payload bundle tick
  | none, none => []

lemma bundleCounts_le {size : ℕ} (payload : Checkpoint P) (bundle : FlashbotsBundle P) (tick : ℕ)
    (hsize : bundle.transactions.length ≤ size) : ∀ n ∈ bundleCounts fresh size payload bundle tick, n ≤ size := by
  induction bundle, tick using bundleCounts.induct fresh payload with
  | case1 bundle tick e ha =>
    rw [bundleCounts, ha]
    intro n hn
    exact (List.mem_singleton.mp hn).le
  | case2 bundle tick c ha hempty =>
    rw [bundleCounts, ha]
    simp [hempty]
  | case3 bundle tick c ha hempty failed ih =>
    obtain ⟨hreduced, hlength⟩ := trimmed_length ha
    rw [bundleCounts, ha]
    simp only [hempty, Bool.false_eq_true, if_false]
    intro n hn
    cases hn with
    | head => exact (Nat.le_of_add_left_le hlength.ge).trans hsize
    | tail _ hn => exact ih (hreduced.length_le.trans hsize) n hn

lemma bundleCounts_sum (size : ℕ) (payload : Checkpoint P) (bundle : FlashbotsBundle P) (tick : ℕ) :
    (bundleCounts fresh size payload bundle tick).sum = (retryBundle fresh payload bundle tick).counted size := by
  induction bundle, tick using bundleCounts.induct fresh payload with
  | case1 bundle tick e ha =>
    rw [bundleCounts, retryBundle, ha]
    simp [Retrial.counted]
  | case2 bundle tick c ha hempty =>
    rw [bundleCounts, retryBundle, ha]
    simp [hempty, Retrial.counted]
  | case3 bundle tick c ha hempty failed ih =>
    rw [bundleCounts, retryBundle, ha]
    simp only [hempty, Bool.false_eq_true, if_false]
    rw [Retrial.counted_trim, List.sum_cons, ih]

lemma counts_fit (sweep : Sweep P) {order : Checkpoint P} (hsize : order.transactions.length < 2 ^ 32) :
    (extendWith fresh sweep order).perJob.txsDropped =
        sweep.perJob.txsDropped + (counts fresh sweep.validPrefix sweep.tick order).sum ∧
      ∀ n ∈ counts fresh sweep.validPrefix sweep.tick order, n < 2 ^ 32 := by
  obtain ⟨-, -, hcounter⟩ := extendWith_follows fresh sweep order
  rw [hcounter, retry, counts]
  obtain ⟨tx, htx, htxs⟩ | ⟨bundle, htx, hbundle, htxs⟩ | ⟨htx, hbundle, htxs⟩ := source_cases order
  · rw [htx, htxs]
    have htrimmed : (retryTransaction fresh sweep.validPrefix tx sweep.tick).trimmed = [] := by
      rw [retryTransaction]
      cases sweep.validPrefix.apply (.transaction tx) (fresh sweep.tick).1 (fresh sweep.tick).2 with
      | error e => rfl
      | ok c =>
        dsimp only
        split_ifs <;> rfl
    dsimp only
    rw [Retrial.counted, htrimmed]
    cases (retryTransaction fresh sweep.validPrefix tx sweep.tick).kept with
    | true => exact ⟨rfl, nofun⟩
    | false => simp
  · rw [htx, hbundle]
    dsimp only
    rw [bundleCounts_sum]
    have hbundleSize := (congrArg List.length htxs).ge
    exact ⟨rfl, fun n hn => (bundleCounts_le fresh sweep.validPrefix bundle sweep.tick hbundleSize n hn).trans_lt
      hsize⟩
  · rw [htx, hbundle, htxs]
    exact ⟨rfl, nofun⟩

end Conversions

section Step

open Checkpoint (AllBuilt)

variable (fresh : ℕ → ℕ × ℕ) (perJob : PerJobCounters) {cs : List (Checkpoint P)} {payload : Checkpoint P}

lemma clean_of_isEmpty (h : AllBuilt cs) (hp : payload ∈ cs) (hempty : payload.isEmpty = true) :
    payload.historyStaging.findIdx? hasFailures = none := by
  cases payload with
  | base block data =>
    obtain ⟨before, barrier, after, hcut, hbarrier, -⟩ := Span.exists_cut h hp
    have hmem : barrier ∈ [Checkpoint.base block data] := by
      rw [show [Checkpoint.base block data] = before ++ barrier :: after from hcut]
      exact List.mem_append_right _ List.mem_cons_self
    rw [List.mem_singleton.mp hmem] at hbarrier
    rw [List.findIdx?_eq_none_iff]
    intro x hx
    rw [List.mem_singleton.mp ((OrderBy.staging_within_history _).subset hx)]
    exact barrier_clean hbarrier
  | next prev data =>
    have hdepth := h.layered.child _ hp prev rfl
    rw [Checkpoint.isEmpty, beq_iff_eq] at hempty
    omega

lemma history_split (h : AllBuilt cs) (hp : payload ∈ cs) {n : ℕ}
    (hfind : payload.historyStaging.findIdx? hasFailures = some n) :
    ∃ baseline, (payload.historyStaging.take n).getLast? = some baseline ∧
      payload.history = baseline.history ++ payload.historyStaging.drop n := by
  obtain ⟨before, barrier, after, hcut, hbarrier, hafter⟩ := Span.exists_cut h hp
  have hstaging : payload.historyStaging = barrier :: after := by
    rw [← Span.historyStaging_checkpoints, Span.historyStaging_cut hcut hbarrier hafter]
  rw [hstaging] at hfind ⊢
  obtain ⟨hlt, hfails, -⟩ := List.findIdx?_eq_some_iff_getElem.mp hfind
  cases n with
  | zero =>
    rw [List.getElem_cons_zero, barrier_clean hbarrier] at hfails
    cases hfails
  | succ k =>
    have hk : k < (barrier :: after).length := by omega
    refine ⟨(barrier :: after)[k], ?_, ?_⟩
    · rw [List.getLast?_take]
      simp
    · have hat : payload.history[before.length + k]? = some (barrier :: after)[k] := by
        rw [hcut, List.getElem?_append_right (Nat.le_add_right _ _), Nat.add_sub_cancel_left,
          List.getElem?_eq_getElem hk]
      rw [Checkpoint.history_at hat, hcut, Nat.add_assoc, List.take_length_add_append, List.append_assoc,
        List.take_append_drop]

lemma step_accounts (h : AllBuilt cs) (hp : payload ∈ cs) :
    ∃ sweep, step fresh perJob payload = .ok sweep ∧
      (transactions sweep.validPrefix).Sublist (transactions payload) ∧
      sweep.perJob.txsDropped + (transactions sweep.validPrefix).length + notCounted (retried fresh payload) =
        perJob.txsDropped + (transactions payload).length + countedTwice (retried fresh payload) := by
  cases hfind : payload.historyStaging.findIdx? hasFailures with
  | none =>
    refine ⟨{ validPrefix := payload, perJob }, ?_, .refl _, ?_⟩
    · exact step_clean fresh perJob (List.findIdx?_eq_none_iff.mp hfind)
    · simp only [retried, hfind]
      rfl
  | some n =>
    have hempty : ¬ payload.isEmpty = true := by
      intro hempty
      rw [clean_of_isEmpty h hp hempty] at hfind
      cases hfind
    obtain ⟨baseline, hlast, hhistory⟩ := history_split h hp hfind
    obtain ⟨left, hgrown, hsublist, hcounter⟩ :=
      sweep_accounts fresh (payload.historyStaging.drop n) { validPrefix := baseline, perJob }
    have hinput : transactions payload =
        transactions baseline ++ (payload.historyStaging.drop n).flatMap Checkpoint.transactions := by
      change payload.history.flatMap Checkpoint.transactions = _
      rw [hhistory, List.flatMap_append]
      rfl
    refine ⟨(payload.historyStaging.drop n).foldl (extendWith fresh) { validPrefix := baseline, perJob },
      ?_, ?_, ?_⟩
    · rw [step, if_neg hempty]
      simp only [hfind, hlast]
    · rw [hgrown, hinput]
      exact hsublist.append_left _
    · simp only [retried, hfind, hlast]
      rw [hgrown, hinput, List.length_append, List.length_append]
      dsimp only at hcounter ⊢
      omega

lemma dropped_length {input output : Checkpoint P} (h : (transactions output).Sublist (transactions input)) :
    (dropped input output).length + (transactions output).length = (transactions input).length := by
  have hperm := List.subperm_append_diff_self_of_count_le fun hash _ => (h.map txHash).count_le hash
  have hlength := hperm.length_eq
  rw [List.length_append, List.length_map, List.length_map] at hlength
  rw [dropped, Nat.add_comm]
  exact hlength

/-- The counter grows by the number of dropped transactions exactly when as many transactions are
counted twice as are not counted at all. -/
theorem dropped_counted_iff (h : AllBuilt cs) (hp : payload ∈ cs) :
    ∃ sweep, step fresh perJob payload = .ok sweep ∧
      (sweep.perJob.txsDroppedCount =
          perJob.txsDroppedCount + UInt32.ofNat (dropped payload sweep.validPrefix).length ↔
        countedTwice (retried fresh payload) ≡ notCounted (retried fresh payload) [MOD 2 ^ 32]) := by
  obtain ⟨sweep, hstep, hsublist, hcounter⟩ := step_accounts fresh perJob h hp
  refine ⟨sweep, hstep, ?_⟩
  have hdropped := dropped_length hsublist
  have hbalance : sweep.perJob.txsDropped + notCounted (retried fresh payload) =
      perJob.txsDropped + (dropped payload sweep.validPrefix).length +
        countedTwice (retried fresh payload) := by omega
  rw [PerJobCounters.txsDroppedCount, PerJobCounters.txsDroppedCount, ← UInt32.ofNat_add,
    FixedWidth.uint32_ofNat_eq_iff]
  constructor
  · intro heq
    have hsum := heq.add_right (notCounted (retried fresh payload))
    rw [hbalance] at hsum
    exact hsum.add_left_cancel' _
  · intro heq
    have hsum := heq.add_left (perJob.txsDropped + (dropped payload sweep.validPrefix).length)
    rw [← hbalance] at hsum
    exact hsum.add_right_cancel' _

end Step

section Examples

def clock (tick : ℕ) : ℕ × ℕ := (tick + 3, tick)

def nonceBlock : BlockContext Devnet :=
  { Devnet.block with
    evm := { Devnet.evm with
      transact := fun db commits tx encoded =>
        (Devnet.evm.transact db commits tx encoded).map fun r => (PlainTx.hash tx != 41, r.2) } }

def origin : Checkpoint Devnet := .newAtBlock nonceBlock 0 0

def followUp : PlainTx := ⟨43, 7, 1⟩

def withFollowUp : FlashbotsBundle Devnet :=
  (FlashbotsBundle.default.withTransaction succeeds).withOptionalTransaction followUp

def discardedPayload : Checkpoint Devnet :=
  OrderBy.extend (OrderBy.extend origin (.transaction reverted)) (.bundle withFollowUp)

def chained : FlashbotsBundle Devnet :=
  ((FlashbotsBundle.default.withOptionalTransaction reverted).markAsRevertable 41).withTransaction followUp

def trimmedPayload : Checkpoint Devnet := OrderBy.extend origin (.bundle chained)

lemma discardedPayload_built :
    Checkpoint.AllBuilt [discardedPayload, OrderBy.extend origin (.transaction reverted), origin] :=
  .apply (.bundle withFollowUp) 2 0 (.apply (.transaction reverted) 1 0 (.start _ _ _ .nil (by simp))
    (by decide) (.head _) rfl) (by decide) (.head _) rfl

lemma trimmedPayload_built : Checkpoint.AllBuilt [trimmedPayload, origin] :=
  .apply (.bundle chained) 1 0 (.start _ _ _ .nil (by simp)) (by decide) (.head _) rfl

lemma discardedPayload_step : step clock {} discardedPayload = .ok
    (extendWithBundle clock discardedPayload withFollowUp
    ⟨origin, ⟨1, 21000⟩, [.transactionDropped reverted], 1⟩) := rfl

lemma trimmedPayload_step : step clock {} trimmedPayload = .ok (extendWithBundle clock trimmedPayload chained
    ⟨origin, {}, [], 0⟩) := rfl

theorem dropped_miscounted :
    (∃ cs sweep, Checkpoint.AllBuilt cs ∧ discardedPayload ∈ cs ∧ step clock {} discardedPayload = .ok sweep ∧
      (dropped discardedPayload sweep.validPrefix).length = 2 ∧ sweep.perJob.txsDroppedCount = 1) ∧
    ∃ cs sweep, Checkpoint.AllBuilt cs ∧ trimmedPayload ∈ cs ∧ step clock {} trimmedPayload = .ok sweep ∧
      (dropped trimmedPayload sweep.validPrefix).length = 2 ∧ sweep.perJob.txsDroppedCount = 3 := by
  constructor
  · refine ⟨_, _, discardedPayload_built, .head _, discardedPayload_step, ?_, ?_⟩
    · rw [extendWithBundle]
      decide
    · rw [extendWithBundle]
      decide
  · have hagain : extendWithBundle clock trimmedPayload chained ⟨origin, {}, [], 0⟩ =
        extendWithBundle clock trimmedPayload (chained.withoutTransaction 41)
          ⟨origin, ⟨1, 21000⟩, [.bundlePartiallyDropped (chained.withoutTransaction 41) [41]], 1⟩ := by
      conv_lhs => rw [extendWithBundle]
      rfl
    refine ⟨_, _, trimmedPayload_built, .head _, trimmedPayload_step, ?_, ?_⟩
    · rw [hagain, extendWithBundle]
      decide
    · rw [hagain, extendWithBundle]
      decide

lemma revertedPayload_balanced :
    countedTwice (retried clock revertedPayload) ≡ notCounted (retried clock revertedPayload) [MOD 2 ^ 32] := by
  have hretried : retried clock revertedPayload =
      [retryTransaction clock start reverted 0, retryBundle clock start optionalReverted 1] := rfl
  have htrim : retryBundle clock start optionalReverted 1 =
      (retryBundle clock start (optionalReverted.withoutTransaction 41) 2).trim [41] := by
    conv_lhs => rw [retryBundle]
    rfl
  rw [hretried, htrim, retryBundle]
  rfl

theorem revertedPayload_counted : ∃ sweep, step clock {} revertedPayload = .ok sweep ∧
    sweep.perJob.txsDroppedCount =
      PerJobCounters.txsDroppedCount {} + UInt32.ofNat (dropped revertedPayload sweep.validPrefix).length := by
  have hbuilt : Checkpoint.AllBuilt [revertedPayload, OrderBy.extend start (.transaction reverted), start] :=
    .apply (.bundle optionalReverted) 2 0
      (.apply (.transaction reverted) 1 0 (.start _ _ _ .nil (by simp)) (by decide) (.head _) rfl)
      (by decide) (.head _) rfl
  obtain ⟨sweep, hstep, hiff⟩ := dropped_counted_iff clock {} hbuilt (.head _)
  exact ⟨sweep, hstep, hiff.mpr revertedPayload_balanced⟩

end Examples

end RemoveRevertedTransactions

end Rblib.Steps
