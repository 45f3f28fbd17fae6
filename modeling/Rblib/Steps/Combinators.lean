import Rblib.Orderpool2.Step
import Rblib.Pool.AppendOrders
import Rblib.Steps.BlockEnds
import Rblib.Steps.Ordering
import Rblib.Steps.Revert

/-! The combinators of `steps/combinator` and the steps they combine. A step that runs inside a
combinator is a partial function from its payload, undefined where the step does not return; the
clock readings of the deadline checks are inputs. `Returns` says what a step can return, for
whatever it finds in the pools, on the clock and in its own state. -/

namespace Rblib.Steps

open Platform PlatformTypes Payload Pipelines Pool Orderpool2

section Control

variable {Ck Err Err' ε : Type}

def boxError (other : Err' → Err) : ControlFlow Ck Err' → ControlFlow Ck Err
  | .fail error => .fail (other error)
  | .brk checkpoint => .brk checkpoint
  | .ok checkpoint => .ok checkpoint

abbrev Behaviour (Ck Err : Type) := Ck → Option (ControlFlow Ck Err)

def Chain.step (ctx : StepContext ε) (clock : ℕ → ℕ) :
    List (Behaviour Ck Err) → Ck → Option (ControlFlow Ck Err)
  | [], current => some (if ctx.deadlineReached (clock 0) then .brk current else .ok current)
  | step :: steps, current =>
    if ctx.deadlineReached (clock (steps.length + 1)) then some (.brk current)
    else match step current with
      | none => none
      | some (.ok next) => Chain.step ctx clock steps next
      | some (.brk next) => some (.brk next)
      | some (.fail err) => some (.fail err)

def Atomic.run (ctx : StepContext ε) (clock : ℕ → ℕ) (initial : Ck) :
    List (Behaviour Ck Err) → Ck → Option (ControlFlow Ck Err)
  | [], current => some (if ctx.deadlineReached (clock 0) then .ok initial else .ok current)
  | step :: steps, current =>
    if ctx.deadlineReached (clock (steps.length + 1)) then some (.ok initial)
    else match step current with
      | none => none
      | some (.ok next) => Atomic.run ctx clock initial steps next
      | some _ => some (.ok initial)

def Atomic.step (ctx : StepContext ε) (clock : ℕ → ℕ) (steps : List (Behaviour Ck Err)) (payload : Ck) :
    Option (ControlFlow Ck Err) :=
  Atomic.run ctx clock payload steps payload

end Control

inductive BuiltinStep (P ε Err : Type) [PlatformTypes P] : Type 1
  | appendOrders (step : AppendOrders) (other : ExecutionError P → Err)
  | appendOrdersByPriority (Priority : Type) (le : LE Priority)
      (priority : PrioritizedOrderpoolPriority Priority (BundleWithNonces P))
  | orderBy (Score E : Type) (order : LinearOrder Score) (score : Checkpoint P → Except E Score)
      (other : OrderByError P E → Err)
  | removeRevertedTransactions
  | optimismPrologue (τ : Type) (step : OptimismPrologue P τ ε) (other : PrologueError P τ → Err)
  | builderEpilogue (β : Type) (step : BuilderEpilogue P β) (other : EpilogueError P β → Err)
  | atomic (steps : List (BuiltinStep P ε Err))
  | chain (steps : List (BuiltinStep P ε Err))

namespace BuiltinStep

variable {P ε Err : Type} [PlatformTypes P]

mutual

def Returns (ctx : StepContext ε) :
    BuiltinStep P ε Err → Checkpoint P → ControlFlow (Checkpoint P) Err → Prop
  | .appendOrders step other, payload, flow => ∃ attempted orders clock ids,
      flow = boxError other (step.step attempted ⟨payload, ctx, orders, clock, ids⟩).2.flow
  | .appendOrdersByPriority Priority _ _, payload, flow =>
      ∃ (orderpool : PrioritizedOrderpool B256 Priority (BundleWithNonces P)) (call : PriorityCall P Priority)
        (output : Checkpoint P),
        (AppendOrdersByPriority.step orderpool call payload).2 = some (.ok output) ∧ flow = .ok output
  | .orderBy _ _ _ score other, payload, flow => ∃ visit fresh output,
      OrderBy.step score visit fresh payload = .ok output ∧ flow = boxError other output
  | .removeRevertedTransactions, payload, flow => ∃ fresh perJob sweep,
      RemoveRevertedTransactions.step fresh perJob payload = .ok sweep ∧ flow = .ok sweep.validPrefix
  | .optimismPrologue _ step other, payload, flow => ∃ transactions fresh,
      flow = boxError other (step.step transactions ctx fresh payload)
  | .builderEpilogue _ step other, payload, flow => ∃ block id now,
      flow = boxError other (step.step block id now payload)
  | .atomic steps, payload, flow => ∃ clock behaviours,
      Behaves ctx steps behaviours ∧ Atomic.step ctx clock behaviours payload = some flow
  | .chain steps, payload, flow => ∃ clock behaviours,
      Behaves ctx steps behaviours ∧ Chain.step ctx clock behaviours payload = some flow

def Behaves (ctx : StepContext ε) : List (BuiltinStep P ε Err) → List (Behaviour (Checkpoint P) Err) → Prop
  | [], behaviours => behaviours = []
  | step :: steps, behaviours => ∃ behaviour rest, behaviours = behaviour :: rest ∧
      (∀ payload flow, behaviour payload = some flow → Returns ctx step payload flow) ∧ Behaves ctx steps rest

end

end BuiltinStep

end Rblib.Steps
