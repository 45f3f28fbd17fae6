import Rblib.Payload.Checkpoint
import Rblib.Pipelines.Executor

/-! The step that appends orders of the pool to the payload, `pool/step.rs`. The orders a call
pulls, the clock and the identities of new checkpoints are inputs of the call; `pull` is the loop of
`step` with the set of attempted orders, and `considered` is what the metrics of the step count. -/

namespace Rblib.Pool

open Platform PlatformTypes Payload Pipelines

inductive Order (P : Type) [PlatformTypes P]
  | transaction (tx : Transaction P)
  | bundle (bundle : FlashbotsBundle P)

structure RecoveryError where

inductive OrderEvent (P : Type) [PlatformTypes P]
  | inclusionAttempt (hash : B256)
  | inclusionSuccess (hash : B256)
  | inclusionFailure (hash : B256) (error : ExecutionError P)

structure AppendOrders where
  maxNewOrders : Option ℕ := none
  maxNewBundles : Option ℕ := none
  maxNewTransactions : Option ℕ := none
  breakOnLimit : Bool := true

def minTransactionGas : ℕ := 21000

def dataGasPerBlob : ℕ := 131072

variable {P ε : Type} [PlatformTypes P]

namespace Order

def hash : Order P → B256
  | transaction tx => txHash tx
  | bundle b => b.hash

def transactions : Order P → List (Transaction P)
  | transaction tx => [tx]
  | bundle b => b.transactions

def tryIntoExecutable : Order P → Except RecoveryError (Executable P)
  | transaction tx => .ok (.transaction tx)
  | bundle b => .ok (.bundle b)

def isBundle : Order P → Bool
  | transaction _ => false
  | bundle _ => true

end Order

structure StepCall (P ε : Type) [PlatformTypes P] where
  payload : Checkpoint P
  ctx : StepContext ε
  orders : List (Order P)
  clock : ℕ → ℕ
  ids : ℕ → ℕ

structure Run (P : Type) [PlatformTypes P] where
  payload : Checkpoint P
  txsIncluded : ℕ := 0
  bundlesIncluded : ℕ := 0
  ordersIncluded : ℕ := 0
  maxTransactions : Option ℕ
  existingTxs : List B256
  events : List (OrderEvent P) := []
  considered : List (Order P) := []

namespace Run

def new (step : AppendOrders) (ctx : StepContext ε) (payload : Checkpoint P) : Run P where
  payload := payload
  maxTransactions := match step.maxNewTransactions, ctx.limits.maxTransactions with
    | some a, some b => some (min a b)
    | a, b => a.or b
  existingTxs := payload.history.flatMap fun checkpoint => checkpoint.transactions.map txHash

def emit (event : OrderEvent P) (run : Run P) : Run P := { run with events := run.events ++ [event] }

def shouldStop (step : AppendOrders) (ctx : StepContext ε) (now : ℕ) (run : Run P) : Bool :=
  ctx.deadlineReached now ||
  step.maxNewOrders.any (fun maxOrders => run.ordersIncluded ≥ maxOrders) ||
  run.maxTransactions.any (fun maxTransactions => run.txsIncluded ≥ maxTransactions) ||
  step.maxNewBundles.any (fun maxBundles => run.bundlesIncluded ≥ maxBundles) ||
  decide (ctx.limits.gasLimit - run.payload.cumulativeGasUsed < minTransactionGas)

def shouldSkip (step : AppendOrders) (ctx : StepContext ε) (order : Order P) (run : Run P) : Bool :=
  run.maxTransactions.any
    (fun maxTransactions => order.transactions.length + run.txsIncluded > maxTransactions) ||
  step.maxNewBundles.any (fun maxBundles => order.isBundle && run.bundlesIncluded ≥ maxBundles) ||
  order.transactions.any (fun tx => run.existingTxs.contains (txHash tx)) ||
  ctx.limits.blobParams.any (fun blobLimits =>
    (order.transactions.filterMap blobGasUsed).sum + run.payload.cumulativeBlobGasUsed >
      blobLimits.maxBlobCount * dataGasPerBlob)

def tryInclude (step : AppendOrders) (ctx : StepContext ε) (order : Order P) (id now : ℕ) (run : Run P) :
    Run P :=
  let run := { run with considered := run.considered ++ [order] }
  if run.shouldSkip step ctx order then run
  else match order.tryIntoExecutable with
    | .error _ => run.emit (.inclusionFailure order.hash .invalidSignature)
    | .ok executable =>
      match run.payload.apply executable id now with
      | .error err => run.emit (.inclusionFailure order.hash err)
      | .ok candidate =>
        if candidate.cumulativeGasUsed > ctx.limits.gasLimit then run
        else
          { run with
            ordersIncluded := run.ordersIncluded + 1
            txsIncluded := run.txsIncluded + candidate.transactions.length
            bundlesIncluded := run.bundlesIncluded + candidate.isBundle.toNat
            existingTxs := run.existingTxs ++ candidate.transactions.map txHash
            payload := candidate }.emit (.inclusionSuccess order.hash)

def finish (step : AppendOrders) (run : Run P) : ControlFlow (Checkpoint P) (ExecutionError P) :=
  if step.breakOnLimit && run.txsIncluded == 0 then .brk run.payload else .ok run.payload

end Run

structure Outcome (P : Type) [PlatformTypes P] where
  flow : ControlFlow (Checkpoint P) (ExecutionError P)
  events : List (OrderEvent P)
  considered : List (Order P)

namespace AppendOrders

def pull (step : AppendOrders) (call : StepCall P ε) :
    List (Order P) → ℕ → Finset B256 → Run P → Finset B256 × Run P
  | [], _, attempted, run => (attempted, run)
  | order :: orders, tick, attempted, run =>
    if run.shouldStop step call.ctx (call.clock tick) then (attempted, run)
    else
      let run := run.emit (.inclusionAttempt order.hash)
      if order.hash ∈ attempted then pull step call orders (tick + 1) attempted run
      else
        pull step call orders (tick + 1) (insert order.hash attempted)
          (run.tryInclude step call.ctx order (call.ids tick) (call.clock tick))

lemma pull_keeps_invariant {step : AppendOrders} {call : StepCall P ε} (Inv : Finset B256 → Run P → Prop)
    {orders : List (Order P)}
    (hseen : ∀ order ∈ orders, ∀ tick attempted run, Inv attempted run →
      run.shouldStop step call.ctx (call.clock tick) = false →
        Inv attempted (run.emit (.inclusionAttempt order.hash)))
    (htry : ∀ order ∈ orders, ∀ tick attempted run, Inv attempted run →
      run.shouldStop step call.ctx (call.clock tick) = false → Inv (insert order.hash attempted)
        ((run.emit (.inclusionAttempt order.hash)).tryInclude step call.ctx order (call.ids tick)
          (call.clock tick)))
    (tick : ℕ) {attempted : Finset B256} {run : Run P} (h : Inv attempted run) :
    Inv (step.pull call orders tick attempted run).1 (step.pull call orders tick attempted run).2 := by
  induction orders generalizing tick attempted run with
  | nil => exact h
  | cons order orders ih =>
    have hrest := ih (fun o ho => hseen o (List.mem_cons_of_mem _ ho))
      (fun o ho => htry o (List.mem_cons_of_mem _ ho))
    rw [pull]
    by_cases hstop : run.shouldStop step call.ctx (call.clock tick) = true
    · rw [if_pos hstop]
      exact h
    · rw [if_neg hstop]
      rw [Bool.not_eq_true] at hstop
      dsimp only
      split
      · exact hrest _ (hseen order List.mem_cons_self tick attempted run h hstop)
      · exact hrest _ (htry order List.mem_cons_self tick attempted run h hstop)

def beforeJob (_attempted : Finset B256) : Finset B256 := ∅

def step (step : AppendOrders) (attempted : Finset B256) (call : StepCall P ε) :
    Finset B256 × Outcome P :=
  let (attempted, run) := step.pull call call.orders 0 attempted (Run.new step call.ctx call.payload)
  (attempted, ⟨run.finish step, run.events, run.considered⟩)

end AppendOrders

end Rblib.Pool
