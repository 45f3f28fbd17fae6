import Rblib.Steps.OrderingReapply
import Rblib.Steps.OrderingReuse
import Rblib.Steps.RevertCorrect

namespace Rblib.Payload

open Platform PlatformTypes

variable {P : Type} [PlatformTypes P]

def BundleState.over (b : BundleState) (db : DatabaseRef) : DatabaseRef where
  basicRef a := match (b.account a).bind BundleAccount.info with
    | some info => .ok (some info)
    | none => db.basicRef a
  codeByHashRef h := match b.bytecode h with
    | some code => .ok code
    | none => db.codeByHashRef h
  storageRef a i := match ((b.account a).bind fun account => account.storage i).map StorageSlot.presentValue with
    | some value => .ok value
    | none => db.storageRef a i
  blockHashRef := db.blockHashRef

lemma Checkpoint.database_applyWith (c : Checkpoint P) (result : ExecutionResult P) (id now : ℕ) :
    (c.applyWith (.executable result) id now).database = result.state.over c.database := by
  have hstate : (next c ⟨id, c.depth + 1, .executable result, now⟩).state = some result.state := rfl
  simp only [database, BundleState.over, DatabaseRef.mk.injEq]
  refine ⟨?_, ?_, ?_, rfl⟩
  · funext a
    rw [basicRef, applyWith, iter, List.findSome?_cons, account, hstate, Option.bind_some]
    cases (result.state.account a).bind BundleAccount.info with
    | some info => rfl
    | none => rfl
  · funext h
    rw [codeByHashRef, applyWith, iter, List.findSome?_cons, hstate, Option.bind_some]
    cases result.state.bytecode h with
    | some code => rfl
    | none => rfl
  · funext a i
    rw [storageRef, applyWith, iter, List.findSome?_cons, account, hstate, Option.bind_some]
    cases ((result.state.account a).bind fun account => account.storage i).map StorageSlot.presentValue with
    | some value => rfl
    | none => rfl

def totalGas (results : List (ExecutionResult P)) : ℕ := (results.map ExecutionResult.gasUsed).sum

def replay (block : BlockContext P) : List (Executable P) → DatabaseRef → Except (ExecutionError P)
    (List (ExecutionResult P))
  | [], _ => .ok []
  | e :: es, db => do
    let result ← e.execute block db
    let results ← replay block es (result.state.over db)
    return result :: results

def ExecutionResult.failedTxs (r : ExecutionResult P) : List (Transaction P × TransactionExecutionResult P) :=
  (r.source.transactions.zip r.results).filter fun e => !isSuccess e.2

def ExecutionResult.failedOptional (bundle : FlashbotsBundle P) (r : ExecutionResult P) : List B256 :=
  (r.failedTxs.filter fun e => bundle.isOptional (txHash e.1)).map fun e => txHash e.1

/-- What is left of orders when those that fail are taken out, one after the other, with the results
of the rest. -/
inductive Survivors (block : BlockContext P) : DatabaseRef → List (Executable P) → List (ExecutionResult P) → Prop
  | nil (db : DatabaseRef) : Survivors block db [] []
  | refused {db : DatabaseRef} {e : Executable P} {es : List (Executable P)} {results : List (ExecutionResult P)}
    {error : ExecutionError P} (he : e.execute block db = .error error) (h : Survivors block db es results) :
    Survivors block db (e :: es) results
  | reverted {db : DatabaseRef} {tx : Transaction P} {es : List (Executable P)}
      {results : List (ExecutionResult P)}
    {r : ExecutionResult P} (he : (Executable.transaction tx).execute block db = .ok r)
    (hfails : r.results.any (fun t => !isSuccess t) = true) (h : Survivors block db es results) :
    Survivors block db (.transaction tx :: es) results
  | transaction {db : DatabaseRef} {tx : Transaction P} {es : List (Executable P)}
      {results : List (ExecutionResult P)}
    {r : ExecutionResult P} (he : (Executable.transaction tx).execute block db = .ok r)
    (hclean : r.results.any (fun t => !isSuccess t) = false) (h : Survivors block (r.state.over db) es results) :
    Survivors block db (.transaction tx :: es) (r :: results)
  | reduced {db : DatabaseRef} {b : FlashbotsBundle P} {es : List (Executable P)}
      {results : List (ExecutionResult P)}
    {r : ExecutionResult P} (he : (Executable.bundle b).execute block db = .ok r)
    (hfails : r.failedOptional b ≠ [])
    (h : Survivors block db (.bundle ((r.failedOptional b).foldl FlashbotsBundle.withoutTransaction b) :: es)
      results) :
    Survivors block db (.bundle b :: es) results
  | bundle {db : DatabaseRef} {b : FlashbotsBundle P} {es : List (Executable P)}
      {results : List (ExecutionResult P)}
    {r : ExecutionResult P} (he : (Executable.bundle b).execute block db = .ok r)
    (hclean : r.failedOptional b = [])
    (h : Survivors block (r.state.over db) es results) : Survivors block db (.bundle b :: es) (r :: results)

lemma Survivors.unique {block : BlockContext P} {db : DatabaseRef} {es : List (Executable P)}
    {results results' : List (ExecutionResult P)} (h : Survivors block db es results)
    (h' : Survivors block db es results') : results = results' := by
  induction h generalizing results' with
  | nil db =>
    cases h'
    rfl
  | refused he h ih =>
    cases h' with
    | refused _ h' => exact ih h'
    | reverted he' => cases he.symm.trans he'
    | transaction he' => cases he.symm.trans he'
    | reduced he' => cases he.symm.trans he'
    | bundle he' => cases he.symm.trans he'
  | reverted he hfails h ih =>
    cases h' with
    | refused he' => cases he.symm.trans he'
    | reverted _ _ h' => exact ih h'
    | transaction he' hclean' =>
      cases he.symm.trans he'
      cases hfails.symm.trans hclean'
  | transaction he hclean h ih =>
    cases h' with
    | refused he' => cases he.symm.trans he'
    | reverted he' hfails' =>
      cases he.symm.trans he'
      cases hclean.symm.trans hfails'
    | transaction he' _ h' =>
      cases he.symm.trans he'
      rw [ih h']
  | reduced he hfails h ih =>
    cases h' with
    | refused he' => cases he.symm.trans he'
    | reduced he' _ h' =>
      cases he.symm.trans he'
      exact ih h'
    | bundle he' hclean' =>
      cases he.symm.trans he'
      exact absurd hclean' hfails
  | bundle he hclean h ih =>
    cases h' with
    | refused he' => cases he.symm.trans he'
    | reduced he' hfails' =>
      cases he.symm.trans he'
      exact absurd hclean hfails'
    | bundle he' _ h' =>
      cases he.symm.trans he'
      rw [ih h']

end Rblib.Payload

namespace Rblib.Steps

open Platform PlatformTypes Payload Payload.Checkpoint Library OrderBy RemoveRevertedTransactions

section Rebuilt

variable {P Score ε : Type} [PlatformTypes P] {block : BlockContext P} {c q p : Checkpoint P}

lemma source_of_hash {x : Checkpoint P} {hash : B256} (h : x.hash = some hash) :
    ∃ e, x.source = some e ∧ x.tryIntoExecutable = .ok e := by
  cases hr : x.result with
  | none => simp [Checkpoint.hash, asTransaction, asBundle, hr] at h
  | some result => exact ⟨result.source, by rw [source, hr, Option.map_some], (tryIntoExecutable_eq hr).1⟩

lemma apply_ok {e : Executable P} {result : ExecutionResult P} (h : e.execute q.block q.database = .ok result)
    (id now : ℕ) : q.apply e id now = .ok (q.applyWith (.executable result) id now) := by
  rw [Checkpoint.apply, h]
  rfl

lemma apply_error {e : Executable P} {error : ExecutionError P} (h : e.execute q.block q.database = .error error)
    (id now : ℕ) : q.apply e id now = .error error := by
  rw [Checkpoint.apply, h]
  rfl

lemma reapply_replay (fresh : ℕ → ℕ × ℕ) {items : List (Checkpoint P)}
    (hitems : ∀ x ∈ items, ∃ hash, x.hash = some hash) :
    (∀ p, reapply fresh items q = .ok p → ∃ results, replay q.block (sources items) q.database = .ok results ∧
      p.cumulativeGasUsed = q.cumulativeGasUsed + totalGas results) ∧
    ∀ results, replay q.block (sources items) q.database = .ok results → ∃ p, reapply fresh items q = .ok p := by
  induction items generalizing q with
  | nil =>
    refine ⟨fun p hp => ⟨[], rfl, ?_⟩, fun _ _ => ⟨q, rfl⟩⟩
    obtain rfl := Except.ok.inj hp
    rfl
  | cons x items ih =>
    obtain ⟨hash, hhash⟩ := hitems x List.mem_cons_self
    obtain ⟨e, hsource, hexec⟩ := source_of_hash hhash
    have hrest : ∀ y ∈ items, ∃ hash, y.hash = some hash := fun y hy => hitems y (List.mem_cons_of_mem _ hy)
    have hcons : sources (x :: items) = e :: sources items := List.filterMap_cons_some hsource
    rw [hcons, replay]
    constructor
    · intro p hp
      obtain ⟨executable, hx, q', ha, hp⟩ := reapply_cons_ok.mp hp
      obtain rfl := Except.ok.inj (hexec.symm.trans hx)
      obtain ⟨result, hr, rfl⟩ := apply_eq ha
      obtain ⟨results, hresults, hgas⟩ := (ih hrest).1 p hp
      rw [database_applyWith] at hresults
      refine ⟨result :: results, bind_eq_ok.mpr ⟨result, hr, bind_eq_ok.mpr ⟨results, hresults, rfl⟩⟩, ?_⟩
      rw [hgas, cumulativeGasUsed_applyWith, Nat.add_assoc]
      rfl
    · intro results hresults
      obtain ⟨result, hr, hresults⟩ := bind_eq_ok.mp hresults
      obtain ⟨rest, hrest', -⟩ := bind_eq_ok.mp hresults
      rw [← database_applyWith q result (fresh items.length).1 (fresh items.length).2] at hrest'
      obtain ⟨p, hp⟩ := (ih (q := q.applyWith (.executable result) _ _) hrest).2 rest hrest'
      exact ⟨p, reapply_cons_ok.mpr ⟨e, hexec, _, apply_ok hr _ _, hp⟩⟩

section Sweep

structure Extends (q q' : Checkpoint P) (es : List (Executable P)) (added : List (ExecutionResult P)) : Prop where
  block : q'.block = q.block
  gas : q'.cumulativeGasUsed = q.cumulativeGasUsed + totalGas added
  survivors : ∀ rest results, Survivors q.block q'.database rest results →
    Survivors q.block q.database (es ++ rest) (added ++ results)

lemma failedOptional_eq (bundle : FlashbotsBundle P) (q : Checkpoint P) (result : ExecutionResult P) (id now : ℕ) :
    (optionalFailedTxs bundle (q.applyWith (.executable result) id now)).map Prod.fst =
      result.failedOptional bundle := by
  have hfailed : (q.applyWith (.executable result) id now).failedTxs = result.failedTxs := rfl
  rw [optionalFailedTxs, hfailed, ExecutionResult.failedOptional, ← List.filterMap_eq_filter, List.map_filterMap,
    List.map_filterMap]
  apply List.filterMap_congr
  intro e _
  by_cases h : bundle.isOptional (txHash e.1) = true
  · simp [h, Option.guard]
  · simp [h, Option.guard]

lemma extendWithTransaction_extends (fresh : ℕ → ℕ × ℕ) (tx : Transaction P) (sweep : Sweep P) :
    ∃ added, Extends sweep.validPrefix (extendWithTransaction fresh tx sweep).validPrefix
      [.transaction tx] added := by
  rw [extendWithTransaction]
  cases he : (Executable.transaction tx).execute sweep.validPrefix.block sweep.validPrefix.database with
  | error error =>
    rw [apply_error he]
    exact ⟨[], rfl, rfl, fun rest results h => .refused he h⟩
  | ok result =>
    have hfailures : ∀ id now, hasFailures (sweep.validPrefix.applyWith (.executable result) id now) =
        result.results.any fun t => !isSuccess t := by
      obtain ⟨r, -, rfl⟩ := execute_transaction_ok he
      exact fun id now => rfl
    rw [apply_ok he]
    dsimp only
    rw [hfailures]
    cases hany : result.results.any fun t => !isSuccess t with
    | true => exact ⟨[], rfl, rfl, fun rest results h => .reverted he hany h⟩
    | false =>
      refine ⟨[result], rfl, cumulativeGasUsed_applyWith _ _ _ _, fun rest results h => ?_⟩
      rw [if_neg Bool.false_ne_true, database_applyWith] at h
      exact .transaction he hany h

lemma extendWithBundle_extends (fresh : ℕ → ℕ × ℕ) (x : Checkpoint P) (bundle : FlashbotsBundle P)
    (sweep : Sweep P) :
    ∃ added, Extends sweep.validPrefix (extendWithBundle fresh x bundle sweep).validPrefix
      [.bundle bundle] added := by
  induction bundle, sweep using extendWithBundle.induct fresh with
  | case1 bundle sweep e ha =>
    rw [extendWithBundle, ha]
    refine ⟨[], rfl, rfl, fun rest results h => ?_⟩
    cases he : (Executable.bundle bundle).execute sweep.validPrefix.block sweep.validPrefix.database with
    | error error => exact .refused he h
    | ok result =>
      rw [apply_ok he] at ha
      cases ha
  | case2 bundle sweep new ha hempty =>
    rw [extendWithBundle, ha]
    obtain ⟨result, he, rfl⟩ := apply_eq ha
    dsimp only
    rw [if_pos hempty]
    refine ⟨[result], rfl, cumulativeGasUsed_applyWith _ _ _ _, fun rest results h => ?_⟩
    rw [database_applyWith] at h
    refine .bundle he ?_ h
    rw [← failedOptional_eq, List.isEmpty_iff.mp hempty, List.map_nil]
  | case3 bundle sweep new ha hempty failedHashes gas reduced ih =>
    rw [extendWithBundle, ha]
    obtain ⟨result, he, rfl⟩ := apply_eq ha
    dsimp only
    rw [if_neg hempty]
    obtain ⟨added, hblock, hgas, hsurvivors⟩ := ih
    refine ⟨added, hblock, hgas, fun rest results h => ?_⟩
    have hfailed := failedOptional_eq bundle sweep.validPrefix result (fresh sweep.tick).1 (fresh sweep.tick).2
    apply Survivors.reduced he
    · rw [← hfailed, ne_eq, List.map_eq_nil_iff, ← List.isEmpty_iff]
      exact hempty
    · rw [← hfailed]
      exact hsurvivors rest results h

lemma extendWith_extends (fresh : ℕ → ℕ × ℕ) (sweep : Sweep P) (x : Checkpoint P) :
    ∃ added, Extends sweep.validPrefix (extendWith fresh sweep x).validPrefix (sources [x]) added := by
  rw [extendWith, asTransaction, asBundle, ← source]
  cases hx : x.source with
  | none =>
    rw [sources, List.filterMap_cons_none hx]
    exact ⟨[], rfl, rfl, fun rest results h => h⟩
  | some e =>
    rw [sources, List.filterMap_cons_some hx]
    cases e with
    | transaction tx => exact extendWithTransaction_extends fresh tx sweep
    | bundle bundle => exact extendWithBundle_extends fresh x bundle sweep

lemma sweep_survivors (fresh : ℕ → ℕ × ℕ) (remaining : List (Checkpoint P)) (sweep : Sweep P) :
    ∃ results, Survivors sweep.validPrefix.block sweep.validPrefix.database (sources remaining) results ∧
      (remaining.foldl (extendWith fresh) sweep).validPrefix.cumulativeGasUsed =
        sweep.validPrefix.cumulativeGasUsed + totalGas results := by
  induction remaining generalizing sweep with
  | nil => exact ⟨[], .nil _, rfl⟩
  | cons x remaining ih =>
    obtain ⟨added, hblock, hgas, hsurvivors⟩ := extendWith_extends fresh sweep x
    obtain ⟨results, hresults, hrest⟩ := ih (extendWith fresh sweep x)
    rw [hblock] at hresults
    refine ⟨added ++ results, ?_, ?_⟩
    · have hcons : sources (x :: remaining) = sources [x] ++ sources remaining := by
        rw [sources, ← List.singleton_append, List.filterMap_append]
        rfl
      rw [hcons]
      exact hsurvivors _ _ hresults
    · rw [List.foldl_cons, hrest, hgas, totalGas, totalGas, totalGas, List.map_append, List.sum_append,
        Nat.add_assoc]

end Sweep

section Limit

variable {first : Checkpoint P} {orders : List (Checkpoint P)}

lemma staging_gas {i : ℕ} {x : Checkpoint P} (h : c.historyStaging[i]? = some x) :
    c.cumulativeGasUsed = x.cumulativeGasUsed + ((c.historyStaging.drop (i + 1)).map Checkpoint.gasUsed).sum := by
  obtain ⟨m, hm⟩ : ∃ m, c.historyStaging = c.history.drop m := ⟨_, rfl⟩
  rw [hm, List.getElem?_drop] at h
  rw [hm, List.drop_drop, cumulativeGasUsed, cumulativeGasUsed, history_at h, ← List.sum_append, ← List.map_append,
    Nat.add_assoc, List.take_append_drop]

lemma Staged.gas (h : Staged c first orders) :
    c.cumulativeGasUsed = first.cumulativeGasUsed + (orders.map Checkpoint.gasUsed).sum := by
  have hfirst : c.historyStaging[0]? = some first := by rw [h.staging, List.getElem?_cons_zero]
  rw [staging_gas hfirst, h.staging, List.drop_succ_cons, List.drop_zero]

/-- The sorted orders, executed on the last barrier, use no more than the staged orders did and what was left. -/
def SortedFits (first : Checkpoint P) (orders sorted : List (Checkpoint P)) (room : ℕ) : Prop :=
  sorted.length = orders.length → ∀ results, replay first.block (sources sorted) first.database = .ok results →
    totalGas results ≤ (orders.map Checkpoint.gasUsed).sum + room

/-- What survives of the staged orders from the first failure on uses no more than all of them did and what was
left. -/
def SweptFits (c : Checkpoint P) (room : ℕ) : Prop :=
  ∀ k baseline results, c.historyStaging.findIdx? hasFailures = some (k + 1) →
    c.historyStaging[k]? = some baseline →
    Survivors baseline.block baseline.database (sources (c.historyStaging.drop (k + 1))) results →
    totalGas results ≤ ((c.historyStaging.drop (k + 1)).map Checkpoint.gasUsed).sum + room

lemma ok_of_checkpoint [LinearOrder Score] {score : Checkpoint P → Except ε Score}
    {visit : MapOrder (B256 × Checkpoint P)} {fresh : ℕ → ℕ × ℕ}
    {flow : Pipelines.ControlFlow (Checkpoint P) (OrderByError P ε)}
    (hflow : OrderBy.step score visit fresh c = .ok flow)
    (hp : flow.checkpoint = some p) : OrderBy.step score visit fresh c = .ok (.ok p) := by
  have hnotbrk : ∀ q, OrderBy.step score visit fresh c ≠ .ok (.brk q) := by
    intro q hq
    rw [OrderBy.step] at hq
    dsimp only at hq
    split at hq
    · cases hq
    · split at hq
      · cases hq
      · split at hq
        · cases hq
        · split at hq
          · cases hq
          · split at hq
            · cases hq
            · cases hq
  cases flow with
  | fail e => cases hp
  | brk q => exact absurd hflow (hnotbrk q)
  | ok q =>
    cases hp
    exact hflow

lemma sorted_within_iff [LinearOrder Score] {score : Checkpoint P → Except ε Score}
    {visit : MapOrder (B256 × Checkpoint P)} (h : Staged c first orders) {gasLimit : ℕ}
    (hwithin : c.cumulativeGasUsed ≤ gasLimit) (fresh : ℕ → ℕ × ℕ) :
    (∀ flow p, OrderBy.step score visit fresh c = .ok flow → flow.checkpoint = some p →
      p.cumulativeGasUsed ≤ gasLimit) ↔
    ∀ s, SortedOrders.tryFrom score visit c.historyStaging = .ok s →
      SortedFits first orders s.intoIter (gasLimit - c.cumulativeGasUsed) := by
  have hgas := Staged.gas h
  constructor
  · intro hall s hs hlen results hresults
    obtain ⟨p, hp⟩ := (reapply_replay fresh (SortedOrders.sorted_hashed hs)).2 results hresults
    obtain ⟨results', hresults', hcumulative⟩ := (reapply_replay fresh (SortedOrders.sorted_hashed hs)).1 p hp
    obtain rfl := Except.ok.inj (hresults.symm.trans hresults')
    have hle := hall _ p (step_of_reapply h hs hlen hp) rfl
    omega
  · intro hfits flow p hflow hp
    have hstep := ok_of_checkpoint hflow hp
    cases hs : SortedOrders.tryFrom score visit c.historyStaging with
    | error e =>
      rw [OrderBy.step] at hstep
      simp only [hs] at hstep
      cases hstep
    | ok s =>
      by_cases hne : s.intoIter = []
      · rw [step_empty h visit fresh hs hne] at hstep
        cases hstep
        exact hwithin
      · obtain ⟨hr, hlen, -⟩ := step_rebuilt h hs hne hstep
        obtain ⟨results, hresults, hcumulative⟩ := (reapply_replay fresh (SortedOrders.sorted_hashed hs)).1 p hr
        have hle := hfits s hs hlen results hresults
        omega

lemma swept_within_iff (hb : Built block c) {gasLimit : ℕ} (hwithin : c.cumulativeGasUsed ≤ gasLimit)
    (fresh : ℕ → ℕ × ℕ) (perJob : PerJobCounters) :
    ∃ sweep, RemoveRevertedTransactions.step fresh perJob c = .ok sweep ∧
      (sweep.validPrefix.cumulativeGasUsed ≤ gasLimit ↔ SweptFits c (gasLimit - c.cumulativeGasUsed)) := by
  obtain ⟨first, orders, h⟩ := staged hb
  cases hfind : c.historyStaging.findIdx? hasFailures with
  | none =>
    refine ⟨_, step_clean fresh perJob (List.findIdx?_eq_none_iff.mp hfind), ?_⟩
    refine ⟨fun _ k baseline results hk => ?_, fun _ => hwithin⟩
    cases hfind.symm.trans hk
  | some prefixLen =>
    obtain ⟨hlt, hfails, -⟩ := List.findIdx?_eq_some_iff_getElem.mp hfind
    -- the barrier itself has no failures, so the valid prefix is not empty
    obtain ⟨k, rfl⟩ : ∃ k, prefixLen = k + 1 := by
      cases prefixLen with
      | zero =>
        simp only [h.staging, List.getElem_cons_zero, first_clean h] at hfails
        cases hfails
      | succ k => exact ⟨k, rfl⟩
    have hbaseline : c.historyStaging[k]? = some c.historyStaging[k] := List.getElem?_eq_getElem (by omega)
    have hgas := staging_gas hbaseline
    obtain ⟨results, hresults, hcumulative⟩ := sweep_survivors fresh (c.historyStaging.drop (k + 1))
      { validPrefix := c.historyStaging[k], perJob }
    have hnonempty : ¬ c.isEmpty = true := by
      intro hempty
      have hdepth := h.depth
      rw [isEmpty, beq_iff_eq] at hempty
      rw [h.staging, List.length_cons] at hlt
      omega
    have hlast : (c.historyStaging.take (k + 1)).getLast? = some c.historyStaging[k] := by
      rw [List.getLast?_take]
      simp [hbaseline]
    have hstep : RemoveRevertedTransactions.step fresh perJob c = .ok ((c.historyStaging.drop (k + 1)).foldl
        (extendWith fresh) { validPrefix := c.historyStaging[k], perJob }) := by
      rw [RemoveRevertedTransactions.step, if_neg hnonempty]
      simp only [hfind, hlast]
    refine ⟨_, hstep, ?_⟩
    rw [hcumulative]
    dsimp only
    constructor
    · intro hle k' baseline results' hk hbase hsurvivors
      obtain rfl : k = k' := by
        have := Option.some.inj (hfind.symm.trans hk)
        omega
      obtain rfl := Option.some.inj (hbaseline.symm.trans hbase)
      rw [← hresults.unique hsurvivors]
      omega
    · intro hfits
      have hle := hfits k _ results hfind hbaseline hresults
      omega

theorem gas_within_limit_iff (hb : Built block c) {gasLimit : ℕ} (hwithin : c.cumulativeGasUsed ≤ gasLimit)
    (fresh : ℕ → ℕ × ℕ) : ∃ first orders, Staged c first orders ∧
      (∀ {Score ε : Type} [LinearOrder Score] (score : Checkpoint P → Except ε Score)
        (visit : MapOrder (B256 × Checkpoint P)),
        (∀ flow p, OrderBy.step score visit fresh c = .ok flow → flow.checkpoint = some p →
          p.cumulativeGasUsed ≤ gasLimit) ↔
        ∀ s, SortedOrders.tryFrom score visit c.historyStaging = .ok s →
          SortedFits first orders s.intoIter (gasLimit - c.cumulativeGasUsed)) ∧
      ∀ perJob, ∃ sweep, RemoveRevertedTransactions.step fresh perJob c = .ok sweep ∧
        (sweep.validPrefix.cumulativeGasUsed ≤ gasLimit ↔ SweptFits c (gasLimit - c.cumulativeGasUsed)) := by
  obtain ⟨first, orders, h⟩ := staged hb
  exact ⟨first, orders, h, fun score visit => sorted_within_iff h hwithin fresh, swept_within_iff hb hwithin fresh⟩

end Limit

end Rebuilt

inductive Meternet

instance : PlatformTypes Meternet where
  Transaction := PlainTx
  txHash := PlainTx.hash
  signer := PlainTx.signer
  nonce := PlainTx.nonce
  encoded2718 tx := hashBytes tx.hash
  blobGasUsed _ := none
  TransactionExecutionResult := Bool × ℕ
  isSuccess := Prod.fst
  gasUsed := Prod.snd
  HaltReason := Unit
  haltReason _ := none
  EvmError := String
  EvmState := Address × ℕ
  keccak256 := PlatformTypes.keccak256 Devnet

namespace Meternet

def evm : Evm Meternet where
  transact db commits tx _ :=
    .ok ((PlainTx.hash tx != 1, if PlainTx.signer tx = 8 ∧ Devnet.nonceAt db commits 7 = 0 then 63000 else 21000),
      (PlainTx.signer tx, PlainTx.nonce tx + 1))
  takeBundle := Devnet.evm.takeBundle

def block : BlockContext Meternet := ⟨1, 12, Devnet.block.baseState, evm⟩

def extend (c : Checkpoint Meternet) (tx : PlainTx) : Checkpoint Meternet :=
  match c.apply (.transaction tx) (c.depth + 1) 0 with
  | .ok c' => c'
  | .error _ => c

def payload (tx : PlainTx) : Checkpoint Meternet := extend (extend (.newAtBlock block 0 0) tx) ⟨3, 8, 0⟩

def lastFirst (c : Checkpoint Meternet) : Except Unit B256 := .ok (c.hash.getD 0)

theorem limit_exceeded :
    (payload ⟨2, 7, 0⟩).cumulativeGasUsed = 42000 ∧ (payload ⟨1, 7, 0⟩).cumulativeGasUsed = 42000 ∧
      (OrderBy.step lastFirst default (fun n => (n + 3, n)) (payload ⟨2, 7, 0⟩)).map
        (fun flow => flow.checkpoint.map cumulativeGasUsed) = .ok (some 84000) ∧
      (RemoveRevertedTransactions.step (fun n => (n + 3, n)) {} (payload ⟨1, 7, 0⟩)).map
        (fun sweep => sweep.validPrefix.cumulativeGasUsed) = .ok 63000 := by
  refine ⟨by decide +kernel, by decide +kernel, by decide +kernel, ?_⟩
  rfl

lemma historyStaging_payload : (payload ⟨1, 7, 0⟩).historyStaging =
    [newAtBlock block 0 0, extend (newAtBlock block 0 0) ⟨1, 7, 0⟩, payload ⟨1, 7, 0⟩] := rfl

lemma sorted_replayed : (SortedOrders.tryFrom lastFirst default (payload ⟨1, 7, 0⟩).historyStaging).map (fun s =>
    (replay block (sources s.intoIter) (newAtBlock block 0 0).database).map totalGas) = .ok (.ok 84000) := rfl

lemma reverted_survivors : ∃ r, Survivors block (newAtBlock block 0 0).database
    [.transaction ⟨1, 7, 0⟩, .transaction ⟨3, 8, 0⟩] [r] ∧ totalGas [r] = 63000 :=
  ⟨_, .reverted rfl rfl (.transaction rfl rfl (.nil _)), rfl⟩

theorem revertedPayload_within :
    (∀ flow p, OrderBy.step lastFirst default (fun n => (n + 3, n)) (payload ⟨1, 7, 0⟩) = .ok flow →
      flow.checkpoint = some p → p.cumulativeGasUsed ≤ 84000) ∧
    ∃ sweep, RemoveRevertedTransactions.step (fun n => (n + 3, n)) {} (payload ⟨1, 7, 0⟩) = .ok sweep ∧
      sweep.validPrefix.cumulativeGasUsed ≤ 84000 := by
  have hwf : ∀ tx : PlainTx, (Executable.transaction tx : Executable Meternet).WellFormed := fun _ => trivial
  have hb : Built block (payload ⟨1, 7, 0⟩) :=
    .apply (.apply (.start 0 0) (hwf ⟨1, 7, 0⟩) rfl) (hwf ⟨3, 8, 0⟩) rfl
  have hstagedGas :
      ([extend (newAtBlock block 0 0) ⟨1, 7, 0⟩, payload ⟨1, 7, 0⟩].map Checkpoint.gasUsed).sum = 42000 := rfl
  have hgas : (payload ⟨1, 7, 0⟩).cumulativeGasUsed = 42000 := by decide +kernel
  obtain ⟨first, orders, hstaged, hsorted, hswept⟩ :=
    gas_within_limit_iff hb (hgas.le.trans (by decide : 42000 ≤ 84000))
    fun n => (n + 3, n)
  have hstaging := hstaged.staging
  rw [historyStaging_payload] at hstaging
  obtain ⟨rfl, rfl⟩ := List.cons.inj hstaging
  refine ⟨(hsorted lastFirst default).mpr fun s hs _ results hresults => ?_, ?_⟩
  · have htotal := sorted_replayed
    rw [hs] at htotal
    change Except.ok
      ((replay block (sources s.intoIter) (newAtBlock block 0 0).database).map totalGas) = _ at htotal
    have hresults' : replay block (sources s.intoIter) (newAtBlock block 0 0).database = .ok results := hresults
    rw [hresults'] at htotal
    have heq : totalGas results = 84000 := Except.ok.inj (Except.ok.inj htotal)
    omega
  · obtain ⟨sweep, hstep, hiff⟩ := hswept {}
    refine ⟨sweep, hstep, hiff.mpr fun k baseline results hk hbaseline hsurvivors => ?_⟩
    have hfirst : (payload ⟨1, 7, 0⟩).historyStaging.findIdx? hasFailures = some (0 + 1) := rfl
    obtain rfl : 0 = k := by
      have := Option.some.inj (hfirst.symm.trans hk)
      omega
    obtain rfl : newAtBlock block 0 0 = baseline := Option.some.inj hbaseline
    obtain ⟨r, hr, htotal⟩ := reverted_survivors
    obtain rfl := hr.unique hsurvivors
    rw [historyStaging_payload, List.drop_succ_cons, List.drop_zero]
    omega

end Meternet

end Rblib.Steps
