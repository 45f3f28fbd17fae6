import Rblib.Pool.LimitRuns

namespace Rblib.Pool

open Platform PlatformTypes Payload Payload.Checkpoint Pipelines

variable {P ε : Type} [PlatformTypes P]

inductive Run.Reachable (step : AppendOrders) (ctx : StepContext ε) : Run P → Prop
  | new (payload : Checkpoint P) : Reachable step ctx (Run.new step ctx payload)
  | attempt {run : Run P} (order : Order P) (now : ℕ) (h : Reachable step ctx run)
    (hgoes : run.shouldStop step ctx now = false) : Reachable step ctx (run.emit (.inclusionAttempt order.hash))
  | tryInclude {run : Run P} (order : Order P) (id now : ℕ) (h : Reachable step ctx run)
    (hgoes : run.shouldStop step ctx now = false) :
    Reachable step ctx ((run.emit (.inclusionAttempt order.hash)).tryInclude step ctx order id now)

namespace Run

variable (step : AppendOrders) (ctx : StepContext ε)

def AtTransactionLimit (run : Run P) : Prop := ∃ max ∈ run.maxTransactions, max ≤ run.txsIncluded

def AtBundleLimit (run : Run P) : Prop := ∃ max ∈ step.maxNewBundles, max ≤ run.bundlesIncluded

def OutOfGas (run : Run P) : Prop := ctx.limits.gasLimit - run.payload.cumulativeGasUsed < minTransactionGas

structure Exhausted (now : ℕ) (run : Run P) : Prop where
  stops : run.shouldStop step ctx now = true
  early : ctx.deadlineReached now = false
  orders : ∀ max ∈ step.maxNewOrders, run.ordersIncluded < max

end Run

namespace Order

/-- The order has a transaction, and executing it takes the least gas a transaction can take for each one. -/
structure Substantial (order : Order P) (c : Checkpoint P) : Prop where
  nonempty : order.transactions ≠ []
  gas : ∀ executable result, order.tryIntoExecutable = .ok executable →
    executable.execute c.block c.database = .ok result →
    minTransactionGas * result.source.transactions.length ≤ result.gasUsed

def Vanishes (order : Order P) (c : Checkpoint P) : Prop := ∃ b, order = .bundle b ∧ Emptied b c.block c.database

inductive Refused (ctx : StepContext ε) (order : Order P) (run : Run P) : Prop
  | tooMany {max : ℕ} (hmax : run.maxTransactions = some max)
      (h : max < order.transactions.length + run.txsIncluded)
  | included {tx : Transaction P} (htx : tx ∈ order.transactions) (h : txHash tx ∈ hashesOf run.payload)
  | blobs {params : BlobParams} (hparams : ctx.limits.blobParams = some params)
    (h : maxBlobGasPerBlock params < order.blobGas + run.payload.cumulativeBlobGasUsed)
  | fails {executable : Executable P} {e : ExecutionError P} (h : order.tryIntoExecutable = .ok executable)
    (hfails : executable.execute run.payload.block run.payload.database = .error e)
  | gas {executable : Executable P} {result : ExecutionResult P} (h : order.tryIntoExecutable = .ok executable)
    (hresult : executable.execute run.payload.block run.payload.database = .ok result)
    (hgas : ctx.limits.gasLimit < run.payload.cumulativeGasUsed + result.gasUsed)

/-- The orders that the stop conditions leave out of account. -/
inductive Overlooked (step : AppendOrders) (ctx : StepContext ε) (order : Order P) (run : Run P) : Prop
  | loose (horder : order.isBundle = false) (hbundles : run.AtBundleLimit step) (htxs : ¬ run.AtTransactionLimit)
    (hgas : ¬ run.OutOfGas ctx)
  | vanishing (horder : order.Vanishes run.payload) (hgas : run.OutOfGas ctx) (htxs : ¬ run.AtTransactionLimit)
    (hbundles : ¬ run.AtBundleLimit step)

end Order

section Stop

variable {step : AppendOrders} {ctx : StepContext ε} {run : Run P} {order : Order P}

lemma pull_reachable (call : StepCall P ε) (orders : List (Order P)) (tick : ℕ) (attempted : Finset B256)
    (h : run.Reachable step call.ctx) : (step.pull call orders tick attempted run).2.Reachable step call.ctx := by
  apply AppendOrders.pull_keeps_invariant fun _ r => r.Reachable step call.ctx
  · exact fun order _ tick attempted r hr hgoes => .attempt order _ hr hgoes
  · exact fun order _ tick attempted r hr hgoes => .tryInclude order _ _ hr hgoes
  · exact h

lemma Run.Reachable.existing (h : run.Reachable step ctx) : run.existingTxs = hashesOf run.payload := by
  induction h with
  | new payload => rfl
  | attempt order now h hgoes ih => exact ih
  | @tryInclude run order id now h hgoes ih =>
    obtain ⟨-, hkept⟩ | ⟨-, executable, candidate, -, ha, -, -, hpayload, hexisting⟩ :=
      tryInclude_cases step ctx order id now (run.emit (.inclusionAttempt order.hash))
    · rw [hkept.existingTxs, hkept.payload]
      exact ih
    · rw [hexisting, hpayload, hashesOf_apply ha]
      exact congrArg (· ++ candidate.transactions.map txHash) ih

lemma Run.Exhausted.reason {now : ℕ} (h : run.Exhausted step ctx now) :
    run.AtTransactionLimit ∨ run.AtBundleLimit step ∨ run.OutOfGas ctx := by
  have hstops := h.stops
  have horders : step.maxNewOrders.any (fun maxOrders => run.ordersIncluded ≥ maxOrders) = false := by
    cases hmax : step.maxNewOrders with
    | none => rfl
    | some max => simpa using h.orders max hmax
  simp only [Run.shouldStop, h.early, horders, Bool.or_eq_true, Option.any_eq_true, decide_eq_true_eq,
    Bool.false_eq_true, false_or] at hstops
  obtain (⟨max, hmax, hle⟩ | ⟨max, hmax, hle⟩) | hgas := hstops
  · exact .inl ⟨max, hmax, hle⟩
  · exact .inr (.inl ⟨max, hmax, hle⟩)
  · exact .inr (.inr hgas)

lemma shouldSkip_iff : run.shouldSkip step ctx order = true ↔
    (∃ max ∈ run.maxTransactions, max < order.transactions.length + run.txsIncluded) ∨
      (order.isBundle = true ∧ run.AtBundleLimit step) ∨ (∃ tx ∈ order.transactions, txHash tx ∈ run.existingTxs) ∨
      ∃ params ∈ ctx.limits.blobParams,
        maxBlobGasPerBlock params < order.blobGas + run.payload.cumulativeBlobGasUsed := by
  have hbundle : step.maxNewBundles.any (fun maxBundles =>
    order.isBundle && run.bundlesIncluded ≥ maxBundles) = true ↔
      order.isBundle = true ∧ run.AtBundleLimit step := by
    simp only [Option.any_eq_true, Bool.and_eq_true, decide_eq_true_eq, ge_iff_le]
    constructor
    · rintro ⟨max, hmax, hb, hle⟩
      exact ⟨hb, max, hmax, hle⟩
    · rintro ⟨hb, max, hmax, hle⟩
      exact ⟨max, hmax, hb, hle⟩
  rw [Run.shouldSkip, Bool.or_eq_true, Bool.or_eq_true, Bool.or_eq_true, hbundle, or_assoc, or_assoc]
  simp only [Option.any_eq_true, List.any_eq_true, List.contains_iff_mem, decide_eq_true_eq,
    gt_iff_lt, Option.mem_def]
  rfl

lemma tryInclude_payload_iff (order : Order P) (id now : ℕ) (run : Run P) :
    (run.tryInclude step ctx order id now).payload = run.payload ↔
      Attempt.Rejected step ctx ⟨order, id, now, run, run.tryInclude step ctx order id now⟩ := by
  constructor
  · intro hsame
    by_contra hr
    obtain ⟨data, hpayload, -⟩ := tryInclude_transactions hr
    have hdepth := congrArg (fun c : Checkpoint P => c.iter.length) (hpayload.symm.trans hsame)
    rw [iter, List.length_cons] at hdepth
    omega
  · exact fun hr => (tryInclude_kept hr).payload

lemma rejected_refused (hrun : run.Reachable step ctx) {id now : ℕ}
    (h : Attempt.Rejected step ctx ⟨order, id, now, run, run.tryInclude step ctx order id now⟩) :
    order.Refused ctx run ∨ (order.isBundle = true ∧ run.AtBundleLimit step) := by
  cases h with
  | skipped h =>
    obtain ⟨max, hmax, h⟩ | hbundle | ⟨tx, htx, h⟩ | ⟨params, hparams, h⟩ := shouldSkip_iff.mp h
    · exact .inl (.tooMany hmax h)
    · exact .inr hbundle
    · exact .inl (.included htx (hrun.existing ▸ h))
    · exact .inl (.blobs hparams h)
  | unrecovered h =>
    cases order with
    | transaction tx => cases h
    | bundle b => cases h
  | failed h happly =>
    apply Or.inl
    dsimp only at h happly
    rw [Checkpoint.apply] at happly
    cases hresult : Executable.execute _ run.payload.block run.payload.database with
    | error e => exact .fails h hresult
    | ok result =>
      rw [hresult] at happly
      cases happly
  | overflow h happly hgas =>
    obtain ⟨result, hresult, rfl⟩ := apply_eq happly
    rw [cumulativeGasUsed_applyWith] at hgas
    exact .inl (.gas h hresult hgas)

lemma refused_rejected (hrun : run.Reachable step ctx) (id now : ℕ) (h : order.Refused ctx run) :
    Attempt.Rejected step ctx ⟨order, id, now, run, run.tryInclude step ctx order id now⟩ := by
  cases h with
  | tooMany hmax h => exact .skipped (shouldSkip_iff.mpr (.inl ⟨_, hmax, h⟩))
  | included htx h => exact .skipped (shouldSkip_iff.mpr (.inr (.inr (.inl ⟨_, htx, hrun.existing.symm ▸ h⟩))))
  | blobs hparams h => exact .skipped (shouldSkip_iff.mpr (.inr (.inr (.inr ⟨_, hparams, h⟩))))
  | fails h hfails =>
    apply Attempt.Rejected.failed h
    rw [Checkpoint.apply, hfails]
    rfl
  | @gas executable result h hresult hgas =>
    apply Attempt.Rejected.overflow h
    · rw [Checkpoint.apply, hresult]
      rfl
    · rw [cumulativeGasUsed_applyWith]
      exact hgas

lemma vanishes_of_outOfGas (horder : order.Substantial run.payload) (hgas : run.OutOfGas ctx)
    (h : ¬ order.Refused ctx run) : order.Vanishes run.payload := by
  obtain ⟨executable, hexecutable⟩ : ∃ executable, order.tryIntoExecutable = .ok executable := by
    cases order with
    | transaction tx => exact ⟨_, rfl⟩
    | bundle b => exact ⟨_, rfl⟩
  cases hresult : executable.execute run.payload.block run.payload.database with
  | error e => exact absurd (.fails hexecutable hresult) h
  | ok result =>
    have hleast := horder.gas executable result hexecutable hresult
    have hfits : run.payload.cumulativeGasUsed + result.gasUsed ≤ ctx.limits.gasLimit := by
      by_contra hover
      exact h (.gas hexecutable hresult (by omega))
    have hempty : result.source.transactions = [] := by
      rw [← List.length_eq_zero_iff]
      by_contra hne
      have hone : minTransactionGas * 1 ≤ minTransactionGas * result.source.transactions.length :=
        Nat.mul_le_mul_left _ (Nat.one_le_iff_ne_zero.mpr hne)
      rw [Run.OutOfGas] at hgas
      omega
    cases order with
    | transaction tx =>
      cases hexecutable
      obtain ⟨r, -, rfl⟩ := execute_transaction_ok hresult
      cases hempty
    | bundle b =>
      cases hexecutable
      exact ⟨b, rfl, emptied_of_executes hresult hempty⟩

theorem stop_excludes_iff (hrun : run.Reachable step ctx) {now : ℕ} (hstop : run.Exhausted step ctx now)
    (horder : order.Substantial run.payload) (id : ℕ) :
    (run.tryInclude step ctx order id now).payload = run.payload ↔
      order.Refused ctx run ∨ ¬ order.Overlooked step ctx run := by
  rw [tryInclude_payload_iff]
  constructor
  · intro hr
    refine (rejected_refused hrun hr).imp_right ?_
    rintro ⟨hbundle, hlimit⟩ hover
    cases hover with
    | loose hloose => cases hbundle.symm.trans hloose
    | vanishing _ _ _ hbundles => exact hbundles hlimit
  · rintro (hrefused | hnot)
    · exact refused_rejected hrun id now hrefused
    · by_contra hr
      have hrefused : ¬ order.Refused ctx run := fun h => hr (refused_rejected hrun id now h)
      have htxs : ¬ run.AtTransactionLimit := by
        rintro ⟨max, hmax, hle⟩
        have hpos := List.length_pos_iff.mpr horder.nonempty
        exact hrefused (.tooMany hmax (by omega))
      have hbundle : order.isBundle = true → ¬ run.AtBundleLimit step := fun hb hlimit =>
        hr (.skipped (shouldSkip_iff.mpr (.inr (.inl ⟨hb, hlimit⟩))))
      by_cases hgas : run.OutOfGas ctx
      · have hvanishes := vanishes_of_outOfGas horder hgas hrefused
        have ⟨b, hb, _⟩ := hvanishes
        have hisBundle : order.isBundle = true := by rw [hb, Order.isBundle]
        exact hnot (.vanishing hvanishes hgas htxs (hbundle hisBundle))
      · obtain h | h | h := hstop.reason
        · exact htxs h
        · refine hnot (.loose ?_ h htxs hgas)
          rw [← Bool.not_eq_true]
          exact fun hb => hbundle hb h
        · exact hgas h

end Stop

namespace Devnet

open Payload.Devnet Instance

def plenty : StepContext Unit := ⟨⟨30000000, none, none, none, ()⟩, none⟩

def included (step : AppendOrders) (order : Order Devnet) : Run Devnet :=
  ((Run.new step plenty emptyPayload).emit (.inclusionAttempt order.hash)).tryInclude step plenty order 1 0

lemma substantial_transaction (tx : PlainTx) (c : Checkpoint Devnet) :
    (Order.transaction tx : Order Devnet).Substantial c where
  nonempty := List.cons_ne_nil _ _
  gas executable result h hresult := by
    cases h
    obtain ⟨r, -, rfl⟩ := execute_transaction_ok hresult
    exact le_rfl

def singleNew : AppendOrders := { maxNewTransactions := some 1 }

theorem otherTx_excluded :
    ((included singleNew (.transaction pooledTx)).tryInclude singleNew plenty (.transaction otherTx) 2 1).payload =
      (included singleNew (.transaction pooledTx)).payload := by
  have hstop : (included singleNew (.transaction pooledTx)).Exhausted singleNew plenty 1 := ⟨by decide, rfl, nofun⟩
  apply (stop_excludes_iff (.tryInclude _ 1 0 (.new emptyPayload) (by decide)) hstop
    (substantial_transaction _ _) 2).mpr
  refine .inr fun hover => ?_
  cases hover with
  | loose _ _ htxs _ => exact htxs ⟨1, rfl, by decide⟩
  | vanishing hvanishes =>
    obtain ⟨b, hb, -⟩ := hvanishes
    cases hb

def singleBundle : AppendOrders := { maxNewBundles := some 1 }

def bundled : Order Devnet := .bundle (FlashbotsBundle.default.withTransaction pooledTx)

theorem singleBundle_stops :
    (included singleBundle bundled).Reachable singleBundle plenty ∧
      (included singleBundle bundled).Exhausted singleBundle plenty 1 ∧
      (Order.transaction otherTx : Order Devnet).Substantial (included singleBundle bundled).payload ∧
      ((included singleBundle bundled).tryInclude singleBundle plenty (.transaction otherTx) 2 1).payload ≠
        (included singleBundle bundled).payload ∧
      (singleBundle.step ∅ ⟨emptyPayload, plenty, [bundled, .transaction otherTx], fun tick => tick,
        fun tick => tick + 1⟩).2.considered.length = 1 := by
  refine ⟨.tryInclude _ 1 0 (.new emptyPayload) (by decide), ⟨by decide +kernel, rfl, nofun⟩,
    substantial_transaction _ _, fun hsame => ?_, by decide +kernel⟩
  have hcount := congrArg txCount hsame
  revert hcount
  decide +kernel

end Devnet

end Rblib.Pool
