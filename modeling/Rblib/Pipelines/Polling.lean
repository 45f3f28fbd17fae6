import Rblib.Pipelines.ExecutorRuns
import Rblib.Pipelines.Iter

/-! The executor as the async runtime polls it. A poll goes through the four phases of
`PipelineExecutor::poll`, and the futures it polls on the way answer as the environment says: the
`before_job` and `after_job` calls one after the other, each pending when there is no answer for it
yet, and the running step. The log records the calls that are made, what they return and what is
published on the events bus. Errors are taken up to the lossy clone that `finalize` makes of them.
-/

namespace Rblib.Pipelines

open Platform

inductive Hook (Err Pl : Type)
  | beforeJob
  | afterJob (output : Except Err Pl)

inductive Act (σ Ck ε Err Pl : Type)
  | jobStarted
  | hook (hook : Hook Err Pl) (path : StepPath) (step : σ) (ctx : StepContext ε)
  | hookDone (hook : Hook Err Pl) (path : StepPath) (result : Except Err Unit)
  | step (path : StepPath) (step : σ) (input : Ck) (ctx : StepContext ε)
  | stepDone (path : StepPath) (output : ControlFlow Ck Err)
  | jobCompleted (payload : Pl)
  | jobFailed (error : Err)

inductive Calls
  | created (paths : List StepPath)
  | waiting (path : StepPath) (rest : List StepPath)

inductive CallsPoll (Err : Type)
  | pending (calls : Calls)
  | ready (result : Except Err Unit)

structure Answers (Ck Err : Type) where
  beforeJob : List (Except Err Unit) := []
  afterJob : List (Except Err Unit) := []
  step : Option (ControlFlow Ck Err) := none
  enteredAt : ℕ := 0
  switchedAt : ℕ := 0

structure PolledExecutor (σ Ck ε Err Pl : Type) where
  exec : PipelineExecutor σ Ck ε Err Pl
  calls : Calls
  log : List (Act σ Ck ε Err Pl)

variable {σ Ck ε Err Pl : Type}

def Act.announce : Except Err Pl → Act σ Ck ε Err Pl
  | .ok payload => jobCompleted payload
  | .error error => jobFailed error

namespace PolledExecutor

def output (p : PolledExecutor σ Ck ε Err Pl) : Option (Except Err Pl) :=
  match p.exec.cursor with
  | .completed output => some output
  | _ => none

def callContext (job : Job σ Ck ε Err Pl) (scope : RootScope Ck ε) (path : StepPath) :
    Except Panic (σ × StepContext ε) := do
  match ← StepPath.navigator path job.pipeline.root with
  | none => throw "Invalid step path. This is a bug in the pipeline executor implementation."
  | some navi => match ← scope.limitsOf path with
    | none => throw "invalid step path"
    | some limits => return (← navi.stepInstance, ⟨limits, none⟩)

def awaitCalls (job : Job σ Ck ε Err Pl) (scope : RootScope Ck ε) (hook : Hook Err Pl) :
    List (Except Err Unit) → StepPath → List StepPath →
      Except Panic (CallsPoll Err × List (Act σ Ck ε Err Pl))
  | [], path, rest => .ok (.pending (.waiting path rest), [])
  | .error e :: _, path, _ => .ok (.ready (.error e), [.hookDone hook path (.error e)])
  | .ok () :: _, path, [] => .ok (.ready (.ok ()), [.hookDone hook path (.ok ())])
  | .ok () :: answers, path, next :: rest => do
    let (step, ctx) ← callContext job scope next
    let (poll, log) ← awaitCalls job scope hook answers next rest
    return (poll, .hookDone hook path (.ok ()) :: .hook hook next step ctx :: log)

def pollCalls (job : Job σ Ck ε Err Pl) (scope : RootScope Ck ε) (hook : Hook Err Pl)
    (answers : List (Except Err Unit)) :
    Calls → Except Panic (CallsPoll Err × List (Act σ Ck ε Err Pl))
  | .created [] => .ok (.ready (.ok ()), [])
  | .created (path :: rest) => do
    let (step, ctx) ← callContext job scope path
    let (poll, log) ← awaitCalls job scope hook answers path rest
    return (poll, .hook hook path step ctx :: log)
  | .waiting path rest => awaitCalls job scope hook answers path rest

variable [LimitExtension ε]

def run (job : Job σ Ck ε Err Pl) : PolledExecutor σ Ck ε Err Pl :=
  ⟨PipelineExecutor.run job, .created job.pipeline.root.iterSteps, [.jobStarted]⟩

def pollInitializing (job : Job σ Ck ε Err Pl) (answers : Answers Ck Err) (p : PolledExecutor σ Ck ε Err Pl) :
    Except Panic (PolledExecutor σ Ck ε Err Pl) :=
  match p.exec.cursor with
  | .initializing => do
    let (poll, log) ← pollCalls job p.exec.scope .beforeJob answers.beforeJob p.calls
    match poll with
    | .pending calls => return { p with calls := calls, log := p.log ++ log }
    | .ready result =>
      let exec ← PipelineExecutor.poll job (.initialized result answers.enteredAt) p.exec
      return ⟨exec, .created job.pipeline.root.iterSteps, p.log ++ log⟩
  | _ => .ok p

def pollFinalizing (job : Job σ Ck ε Err Pl) (answers : Answers Ck Err) (p : PolledExecutor σ Ck ε Err Pl) :
    Except Panic (PolledExecutor σ Ck ε Err Pl) :=
  match p.exec.cursor with
  | .finalizing output => do
    let (poll, log) ← pollCalls job p.exec.scope (.afterJob output) answers.afterJob p.calls
    match poll with
    | .pending calls => return { p with calls := calls, log := p.log ++ log }
    | .ready result =>
      let exec ← PipelineExecutor.poll job (.finalized result) p.exec
      let output := match result with
        | .ok () => output
        | .error error => .error error
      return ⟨exec, p.calls, p.log ++ log ++ [.announce output]⟩
  | _ => .ok p

def pollBeforeStep (job : Job σ Ck ε Err Pl) (p : PolledExecutor σ Ck ε Err Pl) :
    Except Panic (PolledExecutor σ Ck ε Err Pl) :=
  match p.exec.cursor with
  | .beforeStep path input => do
    let (step, ctx) ← PipelineExecutor.executeStep job p.exec.scope path
    return ⟨⟨.stepInProgress path step input ctx, p.exec.scope⟩, p.calls, p.log ++ [.step path step input ctx]⟩
  | _ => .ok p

def pollStepInProgress (job : Job σ Ck ε Err Pl) (answers : Answers Ck Err)
    (p : PolledExecutor σ Ck ε Err Pl) : Except Panic (PolledExecutor σ Ck ε Err Pl) :=
  match p.exec.cursor, answers.step with
  | .stepInProgress path _ _ _, some output => do
    let exec ← PipelineExecutor.poll job (.stepReady output answers.switchedAt) p.exec
    return ⟨exec, p.calls, p.log ++ [.stepDone path output]⟩
  | _, _ => .ok p

def poll (job : Job σ Ck ε Err Pl) (answers : Answers Ck Err) (p : PolledExecutor σ Ck ε Err Pl) :
    Except Panic (PolledExecutor σ Ck ε Err Pl) := do
  let p ← pollInitializing job answers p
  let p ← pollFinalizing job answers p
  let p ← pollBeforeStep job p
  pollStepInProgress job answers p

/-- The states between polls. A future that has resolved is not polled again. -/
inductive Runs (job : Job σ Ck ε Err Pl) : PolledExecutor σ Ck ε Err Pl → Prop
  | run : Runs job (run job)
  | poll {p p'} (answers : Answers Ck Err) : Runs job p → p.output = none → poll job answers p = .ok p' →
      Runs job p'

end PolledExecutor

end Rblib.Pipelines
