import Rblib.Pipelines.Navigator
import Rblib.Pipelines.Scope

/-! The executor of `exec/mod.rs` as a state machine. An event is what a poll observes: the end of
the `before_job` calls, the moment a scheduled step is started, the output of the running step, or
the end of the `after_job` calls; clock readings come with the events. A step in progress is its
instance, its input and its context. An event that does not fit the cursor leaves the executor
pending. -/

namespace Rblib.Pipelines

open Platform

inductive ControlFlow (Ck Err : Type)
  | fail (error : Err)
  | brk (checkpoint : Ck)
  | ok (checkpoint : Ck)

def ControlFlow.checkpoint {Ck Err : Type} : ControlFlow Ck Err → Option Ck
  | .fail _ => none
  | .brk checkpoint => some checkpoint
  | .ok checkpoint => some checkpoint

structure StepContext (ε : Type) where
  limits : Limits ε
  startedAt : Option ℕ

def StepContext.deadlineReached {ε : Type} (ctx : StepContext ε) (now : ℕ) : Bool :=
  match ctx.limits.deadline, ctx.startedAt with
  | some deadline, some startedAt => decide (deadline ≤ now - startedAt)
  | _, _ => false

lemma StepContext.deadline_reachable {ε : Type} {ctx : StepContext ε} {startedAt deadline : ℕ}
    (hs : ctx.startedAt = some startedAt) (hd : ctx.limits.deadline = some deadline) :
    ∃ t, ∀ now ≥ t, ctx.deadlineReached now = true := by
  refine ⟨startedAt + deadline, fun now hn => ?_⟩
  simp only [deadlineReached, hd, hs, decide_eq_true_eq]
  omega

/-- What a payload job is about: its pipeline, the platform limits of its block, the initial checkpoint
and the payload that a checkpoint builds. -/
structure Job (σ Ck ε Err Pl : Type) where
  pipeline : PipelineTree σ (ScopedLimits Ck ε)
  platformLimits : Limits ε
  start : Ck
  buildPayload : Ck → Except Err Pl

inductive Cursor (σ Ck ε Err Pl : Type)
  | initializing
  | beforeStep (path : StepPath) (input : Ck)
  | stepInProgress (path : StepPath) (step : σ) (input : Ck) (ctx : StepContext ε)
  | finalizing (output : Except Err Pl)
  | completed (output : Except Err Pl)

structure PipelineExecutor (σ Ck ε Err Pl : Type) where
  cursor : Cursor σ Ck ε Err Pl
  scope : RootScope Ck ε

inductive Event (Ck Err : Type)
  | initialized (result : Except Err Unit) (now : ℕ)
  | started
  | stepReady (output : ControlFlow Ck Err) (now : ℕ)
  | finalized (result : Except Err Unit)

variable {σ Ck ε Err Pl : Type} [LimitExtension ε]

namespace PipelineExecutor

def run (job : Job σ Ck ε Err Pl) : PipelineExecutor σ Ck ε Err Pl :=
  ⟨.initializing, RootScope.new job.pipeline.root job.start job.platformLimits⟩

def firstStep (job : Job σ Ck ε Err Pl) (scope : RootScope Ck ε) (now : ℕ) :
    Except Panic (PipelineExecutor σ Ck ε Err Pl) :=
  match StepNavigator.entrypoint job.pipeline.root with
  | none => .ok ⟨.finalizing (job.buildPayload job.start), scope⟩
  | some navigator => do
    let scope ← scope.enter job.start now
    return ⟨.beforeStep navigator.path job.start, scope⟩

def executeStep (job : Job σ Ck ε Err Pl) (scope : RootScope Ck ε) (path : StepPath) :
    Except Panic (σ × StepContext ε) := do
  match ← scope.limitsOf path with
  | none => throw "Invalid step path. This is a bug in the pipeline executor implementation."
  | some limits => match ← StepPath.navigator path job.pipeline.root with
    | none => throw "Invalid step path. This is a bug in the pipeline executor implementation."
    | some navi => return (← navi.stepInstance, ⟨limits, ← scope.enteredAt path⟩)

def schedule (job : Job σ Ck ε Err Pl) (scope : RootScope Ck ε) (now : ℕ) (input : Ck) :
    Option (StepNavigator σ (ScopedLimits Ck ε)) → Except Panic (PipelineExecutor σ Ck ε Err Pl)
  | none => .ok ⟨.finalizing (job.buildPayload input), scope⟩
  | some step => do
    let scope ← scope.switchContext step.path input now
    return ⟨.beforeStep step.path input, scope⟩

def advanceCursor (job : Job σ Ck ε Err Pl) (scope : RootScope Ck ε) (currentPath : StepPath)
    (output : ControlFlow Ck Err) (now : ℕ) : Except Panic (PipelineExecutor σ Ck ε Err Pl) := do
  match ← StepPath.navigator currentPath job.pipeline.root with
  | none => throw "Step path is unreachable. This is a bug in the pipeline executor implementation."
  | some navigator => match output with
    | .fail error => return ⟨.finalizing (.error error), scope⟩
    | .brk checkpoint => schedule job scope now checkpoint (← navigator.nextBreak)
    | .ok checkpoint => schedule job scope now checkpoint (← navigator.nextOk)

def poll (job : Job σ Ck ε Err Pl) (event : Event Ck Err) (exec : PipelineExecutor σ Ck ε Err Pl) :
    Except Panic (PipelineExecutor σ Ck ε Err Pl) :=
  match event with
  | .initialized result now => match exec.cursor with
    | .initializing => match result with
      | .ok () => firstStep job exec.scope now
      | .error error => .ok ⟨.finalizing (.error error), exec.scope⟩
    | _ => .ok exec
  | .started => match exec.cursor with
    | .beforeStep path input => do
      let (step, ctx) ← executeStep job exec.scope path
      return ⟨.stepInProgress path step input ctx, exec.scope⟩
    | _ => .ok exec
  | .stepReady output now => match exec.cursor with
    | .stepInProgress path _ _ _ => advanceCursor job exec.scope path output now
    | _ => .ok exec
  | .finalized result => match exec.cursor with
    | .finalizing output => match result with
      | .ok () =>
        if exec.scope.isActive then do return ⟨.completed output, ← exec.scope.leave⟩
        else .ok ⟨.completed output, exec.scope⟩
      | .error error => .ok ⟨.completed (.error error), exec.scope⟩
    | _ => .ok exec

inductive Reaches (job : Job σ Ck ε Err Pl) : PipelineExecutor σ Ck ε Err Pl → Prop
  | run : Reaches job (run job)
  | poll {exec exec'} (event : Event Ck Err) : Reaches job exec → poll job event exec = .ok exec' →
      Reaches job exec'

end PipelineExecutor

end Rblib.Pipelines
