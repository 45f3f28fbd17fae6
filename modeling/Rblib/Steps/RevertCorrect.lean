import Rblib.Steps.Barriers
import Rblib.Steps.OrderingCorrect

namespace Rblib.Payload.Checkpoint

open Platform PlatformTypes

variable {P : Type} [PlatformTypes P]

def source (c : Checkpoint P) : Option (Executable P) := c.result.map ExecutionResult.source

def stagedOrders (c : Checkpoint P) : List (Executable P) := c.historyStaging.filterMap source

inductive Removable (c : Checkpoint P) : Prop
  | transaction {result : ExecutionResult P} {tx : Transaction P} {r : TransactionExecutionResult P}
      (hresult : c.result = some result) (hsource : result.source = .transaction tx) (hmem : r ∈ result.results)
      (hfailed : isSuccess r = false)
  | bundle {result : ExecutionResult P} {b : FlashbotsBundle P} {i : ℕ} {tx : Transaction P}
      {r : TransactionExecutionResult P} (hresult : c.result = some result) (hsource : result.source = .bundle b)
      (htx : b.transactions[i]? = some tx) (hr : result.results[i]? = some r) (hfailed : isSuccess r = false)
      (hopt : b.isOptional (txHash tx) = true)

end Rblib.Payload.Checkpoint

namespace Rblib.Payload

open Platform PlatformTypes

variable {P : Type} [PlatformTypes P]

inductive Executable.Reduces : Executable P → Executable P → Prop
  | transaction (tx : Transaction P) : Reduces (.transaction tx) (.transaction tx)
  | bundle (b : FlashbotsBundle P) (hashes : List B256) :
      Reduces (.bundle (hashes.foldl FlashbotsBundle.withoutTransaction b)) (.bundle b)

lemma Executable.Reduces.refl (e : Executable P) : e.Reduces e := by
  cases e with
  | transaction tx => exact .transaction tx
  | bundle b => exact .bundle b []

instance : Std.Refl (Executable.Reduces (P := P)) := ⟨Executable.Reduces.refl⟩

end Rblib.Payload

namespace Rblib.Steps.RemoveRevertedTransactions

open Platform PlatformTypes Payload Payload.Checkpoint OrderBy

variable {P : Type} [PlatformTypes P] {block : BlockContext P} {c first : Checkpoint P}
    {orders : List (Checkpoint P)}

lemma hasFailures_iff (c : Checkpoint P) : hasFailures c = true ↔ c.Removable := by
  rw [hasFailures]
  cases hr : c.result with
  | none =>
    refine ⟨nofun, fun h => ?_⟩
    cases h with
    | transaction hresult => cases hr.symm.trans hresult
    | bundle hresult => cases hr.symm.trans hresult
  | some result =>
    dsimp only
    cases hs : result.source with
    | transaction tx =>
      rw [List.any_eq_true]
      constructor
      · rintro ⟨r, hm, hfail⟩
        exact .transaction hr hs hm (by simpa using hfail)
      · intro h
        cases h with
        | transaction hresult _ hm hfail =>
          cases hr.symm.trans hresult
          exact ⟨_, hm, by simp [hfail]⟩
        | bundle hresult hsource =>
          cases hr.symm.trans hresult
          cases hs.symm.trans hsource
    | bundle b =>
      rw [List.any_eq_true]
      constructor
      · rintro ⟨e, hm, hfail⟩
        obtain ⟨i, hi⟩ := List.mem_iff_getElem?.mp hm
        obtain ⟨hresult, htx⟩ := List.getElem?_zip_eq_some.mp hi
        rw [List.getElem?_map] at hresult htx
        obtain ⟨r, hr', hfailed⟩ := Option.map_eq_some_iff.mp hresult
        obtain ⟨tx, htx, hhash⟩ := Option.map_eq_some_iff.mp htx
        rw [Bool.and_eq_true, ← hfailed, ← hhash] at hfail
        exact .bundle hr hs htx hr' (by simpa using hfail.1) hfail.2
      · intro h
        cases h with
        | transaction hresult hsource =>
          cases hr.symm.trans hresult
          cases hs.symm.trans hsource
        | @bundle _ _ i tx r hresult hsource htx hr' hfailed hopt =>
          cases hr.symm.trans hresult
          cases hs.symm.trans hsource
          refine ⟨(!isSuccess r, txHash tx), List.mem_iff_getElem?.mpr ⟨i, ?_⟩, ?_⟩
          · rw [List.getElem?_zip_eq_some, List.getElem?_map, List.getElem?_map, hr']
            exact ⟨rfl, congrArg (Option.map txHash) htx⟩
          · rw [hfailed, hopt]
            rfl

lemma hasFailures_of_isEmpty {bundle : FlashbotsBundle P} {p new : Checkpoint P} {id now : ℕ}
    (ha : p.apply (.bundle bundle) id now = .ok new) (hempty : (optionalFailedTxs bundle new).isEmpty = true) :
    hasFailures new = false := by
  obtain ⟨result, hr, rfl⟩ := apply_eq ha
  obtain ⟨-, acc, -, rfl⟩ := executeBundle_ok_iff.mp hr
  rw [← Bool.not_eq_true, hasFailures_iff]
  intro h
  cases h with
  | transaction hresult hsource =>
    cases hresult
    cases hsource
  | @bundle _ _ i tx r hresult hsource htx hr' hfailed hopt =>
    cases hresult
    cases hsource
    have hmem : (tx, r) ∈ (p.applyWith
      (.executable ⟨.bundle (acc.discarded.foldl FlashbotsBundle.withoutTransaction
        bundle), acc.results, p.block.evm.takeBundle p.database acc.commits⟩) id now).failedTxs := by
      refine List.mem_filter.mpr ⟨List.mem_iff_getElem?.mpr ⟨i, ?_⟩, by simp [hfailed]⟩
      exact List.getElem?_zip_eq_some.mpr ⟨htx, hr'⟩
    -- what is left of the bundle marks no other transaction optional
    have hold : bundle.isOptional (txHash tx) = true := by
      rw [FlashbotsBundle.isOptional, droppingTxHashes_without, List.contains_iff_mem] at hopt
      rw [FlashbotsBundle.isOptional, List.contains_iff_mem]
      exact List.mem_of_mem_filter hopt
    rw [List.isEmpty_iff, optionalFailedTxs, List.filterMap_eq_nil_iff] at hempty
    have hnone := hempty (tx, r) hmem
    rw [if_pos hold] at hnone
    cases hnone

section Sweep

def sources (checkpoints : List (Checkpoint P)) : List (Executable P) := checkpoints.filterMap source

structure Swept (first : Checkpoint P) (input : List (Checkpoint P)) (c : Checkpoint P)
    (orders : List (Checkpoint P)) : Prop where
  staged : Staged c first orders
  clean : ∀ x ∈ orders, hasFailures x = false
  kept : List.SublistForall₂ Executable.Reduces (sources orders) (sources input)

lemma sublistForall₂_append {α β : Type} {R : α → β → Prop} {l₁ l₁' : List α} {l₂ l₂' : List β}
    (h : List.SublistForall₂ R l₁ l₂) (h' : List.SublistForall₂ R l₁' l₂') :
    List.SublistForall₂ R (l₁ ++ l₁') (l₂ ++ l₂') := by
  obtain ⟨m, hm, hsub⟩ := List.sublistForall₂_iff.mp h
  obtain ⟨m', hm', hsub'⟩ := List.sublistForall₂_iff.mp h'
  apply List.sublistForall₂_iff.mpr
  exact ⟨m ++ m', List.rel_append hm hm', hsub.append hsub'⟩

variable {input : List (Checkpoint P)} {x : Checkpoint P}

lemma Swept.drop (h : Swept first input c orders) (x : Checkpoint P) : Swept first (input ++ [x]) c orders := by
  refine ⟨h.staged, h.clean, ?_⟩
  rw [sources, sources, List.filterMap_append, ← List.append_nil (orders.filterMap source)]
  exact sublistForall₂_append h.kept .nil

lemma Swept.extend (h : Swept first input c orders) {result : ExecutionResult P} {id now : ℕ} {e : Executable P}
    (hx : x.source = some e) (hreduces : result.source.Reduces e)
    (hclean : hasFailures (c.applyWith (.executable result) id now) = false) :
    Swept first (input ++ [x]) (c.applyWith (.executable result) id now)
      (orders ++ [c.applyWith (.executable result) id now]) := by
  refine ⟨h.staged.applied (Staged.exists_barrier h.staged) result id now, ?_, ?_⟩
  · intro y hy
    obtain hy | hy := List.mem_append.mp hy
    · exact h.clean y hy
    · rw [List.mem_singleton.mp hy]
      exact hclean
  · have hnew : (c.applyWith (.executable result) id now).source = some result.source := rfl
    rw [sources, sources, List.filterMap_append, List.filterMap_append, List.filterMap_cons_some hnew,
      List.filterMap_cons_some hx]
    exact sublistForall₂_append h.kept (.cons hreduces .nil)

lemma extendWithBundle_swept (fresh : ℕ → ℕ × ℕ) {b : FlashbotsBundle P} (hx : x.source = some (.bundle b))
    (bundle : FlashbotsBundle P) (sweep : Sweep P) (hashes : List B256)
    (hb : bundle = hashes.foldl FlashbotsBundle.withoutTransaction b)
    (h : Swept first input sweep.validPrefix orders) :
    ∃ orders', Swept first (input ++ [x]) (extendWithBundle fresh x bundle sweep).validPrefix orders' := by
  induction bundle, sweep using extendWithBundle.induct fresh generalizing hashes with
  | case1 bundle sweep e ha =>
    rw [extendWithBundle, ha]
    exact ⟨orders, h.drop x⟩
  | case2 bundle sweep new ha hempty =>
    rw [extendWithBundle, ha]
    simp only [hempty, if_true]
    have hclean := hasFailures_of_isEmpty ha hempty
    obtain ⟨result, hr, rfl⟩ := apply_eq ha
    obtain ⟨-, acc, -, rfl⟩ := executeBundle_ok_iff.mp hr
    refine ⟨_, h.extend hx ?_ hclean⟩
    rw [hb, ← List.foldl_append]
    exact .bundle b _
  | case3 bundle sweep new ha hempty failedHashes gas reduced ih =>
    rw [extendWithBundle, ha]
    simp only [hempty]
    apply ih (hashes ++ failedHashes)
    · rw [List.foldl_append, ← hb]
    · exact h

lemma extendWithTransaction_swept (fresh : ℕ → ℕ × ℕ) {tx : Transaction P} (hx : x.source = some (.transaction tx))
    (sweep : Sweep P) (h : Swept first input sweep.validPrefix orders) :
    ∃ orders', Swept first (input ++ [x]) (extendWithTransaction fresh tx sweep).validPrefix orders' := by
  rw [extendWithTransaction]
  split
  · exact ⟨orders, h.drop x⟩
  · next new ha =>
    split
    · exact ⟨orders, h.drop x⟩
    · next hclean =>
      obtain ⟨result, hr, rfl⟩ := apply_eq ha
      obtain ⟨r, -, rfl⟩ := execute_transaction_ok hr
      exact ⟨_, h.extend hx (.transaction tx) (by simpa using hclean)⟩

lemma extendWith_swept (fresh : ℕ → ℕ × ℕ) (sweep : Sweep P) (h : Swept first input sweep.validPrefix orders) :
    ∃ orders', Swept first (input ++ [x]) (extendWith fresh sweep x).validPrefix orders' := by
  rw [extendWith]
  split
  · next tx htx =>
    apply extendWithTransaction_swept fresh _ sweep h
    rw [asTransaction] at htx
    split at htx
    · next hsource =>
      rw [← Option.some.inj htx]
      exact hsource
    · cases htx
  · split
    · next bundle hbundle =>
      apply extendWithBundle_swept fresh _ bundle sweep [] rfl h
      rw [asBundle] at hbundle
      split at hbundle
      · next hsource =>
        rw [← Option.some.inj hbundle]
        exact hsource
      · cases hbundle
    · exact ⟨orders, h.drop x⟩

lemma sweep_swept (fresh : ℕ → ℕ × ℕ) (remaining : List (Checkpoint P)) (sweep : Sweep P)
    (h : Swept first input sweep.validPrefix orders) :
    ∃ orders', Swept first (input ++ remaining)
      (remaining.foldl (extendWith fresh) sweep).validPrefix orders' := by
  induction remaining generalizing sweep input orders with
  | nil =>
    rw [List.append_nil]
    exact ⟨orders, h⟩
  | cons x remaining ih =>
    obtain ⟨next, hnext⟩ := extendWith_swept (x := x) fresh sweep h
    rw [List.foldl_cons, ← List.singleton_append, ← List.append_assoc]
    exact ih _ hnext

end Sweep

section Baseline

lemma Staged.unique {first' : Checkpoint P} {orders' : List (Checkpoint P)} (h : Staged c first orders)
    (h' : Staged c first' orders') : first = first' ∧ orders = orders' :=
  List.cons.inj (h.staging.symm.trans h'.staging)

lemma staged_prefix (hb : Built block c) (h : Staged c first orders) {i : ℕ} {x : Checkpoint P}
    (hx : (first :: orders)[i]? = some x) : Staged x first (orders.take i) := by
  induction hb generalizing first orders i x with
  | start id now =>
    obtain ⟨rfl, rfl⟩ := Staged.unique h (staged_start block id now)
    cases i with
    | zero =>
      cases hx
      exact staged_start block id now
    | succ i => cases hx
  | @apply c c' executable id now hb hwf ha ih =>
    obtain ⟨result, -, rfl⟩ := apply_eq ha
    obtain ⟨first', orders', hc⟩ := staged hb
    have happlied := hc.applied (exists_barrier hb) result id now
    obtain ⟨rfl, rfl⟩ := Staged.unique h happlied
    rw [← List.cons_append] at hx
    by_cases hi : i < (first :: orders').length
    · rw [List.getElem?_append_left hi] at hx
      rw [List.take_append_of_le_length (by simpa [Nat.lt_succ_iff] using hi)]
      exact ih hc hx
    · rw [List.getElem?_append_right (by omega)] at hx
      obtain ⟨hlt, hval⟩ := List.getElem?_eq_some_iff.mp hx
      rw [List.getElem_singleton] at hval
      rw [← hval, List.take_of_length_le]
      · exact happlied
      · simp only [List.length_append, List.length_cons, List.length_nil] at hi ⊢
        omega
  | @barrier c id now hb ih =>
    have hbarrier : Staged (c.barrier id now) (c.barrier id now) [] := staged_barrier rfl
    obtain ⟨rfl, rfl⟩ := Staged.unique h hbarrier
    cases i with
    | zero =>
      cases hx
      exact hbarrier
    | succ i => cases hx

lemma Staged.historySealed (h : Staged c first orders) : c.historySealed = first.history := by
  have hsome : (c.iter.findIdx? isBarrier).isSome := by
    rw [List.findIdx?_isSome, List.any_eq_true]
    exact Staged.exists_barrier h
  obtain ⟨i, hi⟩ := Option.isSome_iff_exists.mp hsome
  have hi' : c.history.reverse.findIdx? isBarrier = some i := by
    rw [Checkpoint.history, List.reverse_reverse, hi]
  have hdrop := h.staging
  rw [historyStaging, hi'] at hdrop
  have hfirst : c.history[c.history.length - 1 - i]? = some first := by
    have hhead := congrArg (·[0]?) hdrop
    simpa using hhead
  rw [Checkpoint.historySealed, hi', history_at hfirst]

lemma barrier_clean (h : c.isBarrier = true) : hasFailures c = false := by
  rw [isBarrier, Option.isNone_iff_eq_none] at h
  rw [hasFailures, h]

lemma first_clean (h : Staged c first orders) : hasFailures first = false := barrier_clean h.barrier

lemma step_clean (fresh : ℕ → ℕ × ℕ) (perJob : PerJobCounters) {payload : Checkpoint P}
    (h : ∀ x ∈ payload.historyStaging, hasFailures x = false) :
    step fresh perJob payload = .ok { validPrefix := payload, perJob } := by
  have hnone : payload.historyStaging.findIdx? hasFailures = none := List.findIdx?_eq_none_iff.mpr h
  rw [step]
  split
  · rfl
  · simp only [hnone]

lemma Swept.staging_clean {input : List (Checkpoint P)} (h : Swept first input c orders) :
    ∀ x ∈ c.historyStaging, hasFailures x = false := by
  rw [h.staged.staging]
  exact List.forall_mem_cons.mpr ⟨first_clean h.staged, h.clean⟩

lemma Swept.stagedOrders {input : List (Checkpoint P)} (h : Swept first input c orders) :
    c.stagedOrders = sources orders := by
  have hnone := h.staged.barrier
  rw [isBarrier, Option.isNone_iff_eq_none] at hnone
  rw [Checkpoint.stagedOrders, h.staged.staging, List.filterMap_cons_none (by rw [source, hnone]; rfl)]
  rfl

lemma swept_of_clean (h : Staged c first orders) (hclean : ∀ x ∈ orders, hasFailures x = false) :
    Swept first orders c orders :=
  ⟨h, hclean, (List.Sublist.refl _).sublistForall₂⟩

lemma findIdx_take {α : Type} {q : α → Bool} {l : List α} {n : ℕ} (h : l.findIdx? q = some n) :
    ∀ x ∈ l.take n, q x = false := by
  obtain ⟨hn, -, hbefore⟩ := List.findIdx?_eq_some_iff_getElem.mp h
  intro x hx
  obtain ⟨j, hj, rfl⟩ := List.mem_iff_getElem.mp hx
  rw [List.length_take] at hj
  rw [List.getElem_take]
  exact (Bool.not_eq_true _).mp (hbefore j (by omega))

lemma step_swept (hb : Built block c) (h : Staged c first orders) (fresh : ℕ → ℕ × ℕ) (perJob : PerJobCounters) :
    ∃ sweep kept, step fresh perJob c = .ok sweep ∧ Swept first orders sweep.validPrefix kept := by
  rw [step, h.staging]
  split
  · next hempty =>
    have hdepth := h.depth
    rw [isEmpty, beq_iff_eq] at hempty
    have hnone : orders = [] := List.eq_nil_of_length_eq_zero (by omega)
    subst hnone
    exact ⟨_, _, rfl, swept_of_clean h fun x hx => absurd hx List.not_mem_nil⟩
  · dsimp only
    split
    · next hfind =>
      have hclean := List.findIdx?_eq_none_iff.mp hfind
      exact ⟨_, _, rfl, swept_of_clean h fun x hx => hclean x (List.mem_cons_of_mem _ hx)⟩
    · next prefixLen hfind =>
      obtain ⟨hlt, hfails, -⟩ := List.findIdx?_eq_some_iff_getElem.mp hfind
      -- the barrier itself has no failures, so the valid prefix is not empty
      obtain ⟨k, rfl⟩ : ∃ k, prefixLen = k + 1 := by
        cases prefixLen with
        | zero =>
          rw [List.getElem_cons_zero, first_clean h] at hfails
          cases hfails
        | succ k => exact ⟨k, rfl⟩
      have hk : k < (first :: orders).length := by omega
      have hlast : ((first :: orders).take (k + 1)).getLast? = some (first :: orders)[k] := by
        rw [List.getLast?_take]
        simp
      rw [hlast]
      have hstaged := staged_prefix hb h (List.getElem?_eq_getElem hk)
      have hclean : ∀ x ∈ orders.take k, hasFailures x = false :=
        fun x hx => findIdx_take hfind x (List.mem_cons_of_mem _ hx)
      obtain ⟨kept, hkept⟩ := sweep_swept fresh ((first :: orders).drop (k + 1))
        { validPrefix := (first :: orders)[k], perJob } (swept_of_clean hstaged hclean)
      refine ⟨_, kept, rfl, ?_⟩
      rw [List.drop_succ_cons, List.take_append_drop] at hkept
      exact hkept

end Baseline

theorem reverted_removed {payload : Checkpoint P} (hb : Built block payload) (fresh : ℕ → ℕ × ℕ)
    (perJob : PerJobCounters) :
    ∃ sweep, step fresh perJob payload = .ok sweep ∧
      sweep.validPrefix.historySealed = payload.historySealed ∧
      (∀ x ∈ sweep.validPrefix.historyStaging, ¬ x.Removable) ∧
      List.SublistForall₂ Executable.Reduces sweep.validPrefix.stagedOrders payload.stagedOrders ∧
      ((∀ x ∈ payload.historyStaging, ¬ x.Removable) → sweep.validPrefix = payload) ∧
      ∀ fresh' perJob', ∃ again, step fresh' perJob' sweep.validPrefix = .ok again ∧
        again.validPrefix = sweep.validPrefix := by
  obtain ⟨first, orders, h⟩ := staged hb
  obtain ⟨sweep, kept, hstep, hswept⟩ := step_swept hb h fresh perJob
  have hclean := hswept.staging_clean
  refine ⟨sweep, hstep, ?_, ?_, ?_, ?_, ?_⟩
  · rw [Staged.historySealed hswept.staged, Staged.historySealed h]
  · intro x hx hremovable
    have hfails := (hasFailures_iff x).mpr hremovable
    rw [hclean x hx] at hfails
    cases hfails
  · rw [hswept.stagedOrders, Checkpoint.stagedOrders, h.staging]
    have hnone := h.barrier
    rw [isBarrier, Option.isNone_iff_eq_none] at hnone
    rw [List.filterMap_cons_none (by rw [source, hnone]; rfl)]
    exact hswept.kept
  · intro hnot
    have hsame := step_clean fresh perJob fun x hx =>
      (Bool.not_eq_true _).mp (mt (hasFailures_iff x).mp (hnot x hx))
    rw [hstep] at hsame
    rw [Except.ok.inj hsame]
  · intro fresh' perJob'
    exact ⟨_, step_clean fresh' perJob' hclean, rfl⟩

section Example

def reverted : PlainTx := ⟨41, 7, 0⟩

def succeeds : PlainTx := ⟨42, 8, 0⟩

def revertingBlock : BlockContext Devnet :=
  { Devnet.block with
    evm := { Devnet.evm with
      transact := fun _ _ tx _ => .ok (PlainTx.hash tx != 41, (PlainTx.signer tx, PlainTx.nonce tx + 1)) } }

def optionalReverted : FlashbotsBundle Devnet :=
  ((FlashbotsBundle.default.withTransaction succeeds).withOptionalTransaction reverted).markAsRevertable 41

def revertedPayload : Checkpoint Devnet :=
  extend (extend (Checkpoint.newAtBlock revertingBlock 0 0) (.transaction reverted)) (.bundle optionalReverted)

def start : Checkpoint Devnet := Checkpoint.newAtBlock revertingBlock 0 0

lemma revertedPayload_step : step (fun n => (n + 3, n))
    {} revertedPayload = .ok (extendWithBundle (fun n => (n + 3, n))
    revertedPayload optionalReverted ⟨start, ⟨1, 21000⟩, [.transactionDropped reverted], 1⟩) := rfl

lemma optionalReverted_kept (fresh : ℕ → ℕ × ℕ) (perJob : PerJobCounters) (events : List (DropEvent Devnet))
    (tick : ℕ) : (extendWithBundle fresh revertedPayload optionalReverted
      ⟨start, perJob, events, tick⟩).validPrefix.stagedOrders.map Executable.transactions = [[succeeds]] := by
  have hagain : extendWithBundle fresh revertedPayload optionalReverted ⟨start, perJob, events, tick⟩ =
      extendWithBundle fresh revertedPayload (optionalReverted.withoutTransaction 41)
        ⟨start, (perJob.incTxsDropped 1).incGasDropped 21000,
          events ++ [.bundlePartiallyDropped (optionalReverted.withoutTransaction 41) [41]], tick + 1⟩ := by
    conv_lhs => rw [extendWithBundle]
    rfl
  rw [hagain, extendWithBundle]
  rfl

theorem revertedPayload_cleaned : ∃ sweep, step (fun n => (n + 3, n)) {} revertedPayload = .ok sweep ∧
    sweep.validPrefix.stagedOrders.map Executable.transactions = [[succeeds]] ∧
    ∀ x ∈ sweep.validPrefix.historyStaging, ¬ x.Removable := by
  have hwf : BundleWellFormed optionalReverted := by
    refine ⟨rfl, fun tx ht other ho h => ?_⟩
    have hall : ∀ tx ∈ [succeeds, reverted], ∀ other ∈ [succeeds, reverted],
        tx.hash = other.hash → (tx.signer, tx.nonce) = (other.signer, other.nonce) := by decide
    exact hall tx ht other ho h
  have hb : Built revertingBlock revertedPayload := built_extend (built_extend (.start 0 0) trivial) hwf
  obtain ⟨sweep, hstep, -, hclean, -⟩ := reverted_removed hb (fun n => (n + 3, n)) {}
  refine ⟨sweep, hstep, ?_, hclean⟩
  rw [revertedPayload_step] at hstep
  rw [← Except.ok.inj hstep]
  apply optionalReverted_kept

end Example

end Rblib.Steps.RemoveRevertedTransactions
