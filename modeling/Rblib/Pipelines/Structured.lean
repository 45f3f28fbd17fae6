import Rblib.Library.OracleTrace
import Rblib.Pipelines.Tree

/-! The meaning of a pipeline as a structured program over the outcomes of its steps. `runPipeline`
runs the pipeline that stands at a position and reports the steps it visits: the prologue answers
whether the items are to be run, the items answer `false` when a step of the pipeline itself breaks,
and the epilogue ignores its outcome. -/

namespace Rblib.Pipelines

open Library.OracleTrace Library.OracleTrace.Prog

variable {σ κ Λ : Type}

inductive Outcome
  | ok
  | brk
  deriving DecidableEq, Inhabited

namespace Pipeline

mutual

def hasStep : Pipeline σ κ → Bool
  | mk prologue epilogue steps _ => prologue.isSome || epilogue.isSome || anyStep steps

def anyStep : List (StepOrPipeline σ κ) → Bool
  | [] => false
  | .step _ :: _ => true
  | .pipeline _ p :: rest => hasStep p || anyStep rest

end

def runPrologue (report : StepPath → Λ) (p : Pipeline σ κ) (pos : StepPath) : Prog Λ Outcome Bool :=
  match p.prologue with
  | none => pure true
  | some _ => do return (← visit (report (pos ++ [PROLOGUE_INDEX]))) == .ok

def runEpilogue (report : StepPath → Λ) (p : Pipeline σ κ) (pos : StepPath) : Prog Λ Outcome Unit :=
  match p.epilogue with
  | none => pure ()
  | some _ => do
    let _ ← visit (report (pos ++ [EPILOGUE_INDEX]))
    return ()

/-- Run the items once or until a break. A loop that contains no step has nothing to repeat. -/
def runBody (b : Behavior) (repeats : Bool) (items : Prog Λ Outcome Bool) : Prog Λ Outcome Unit :=
  if b = .loop ∧ repeats then loop items else do
    let _ ← items
    return ()

mutual

def runPipeline (report : StepPath → Λ) : Pipeline σ κ → Behavior → StepPath → Prog Λ Outcome Unit
  | mk prologue epilogue steps limits, b, pos => do
    let proceed ← runPrologue report (mk prologue epilogue steps limits) pos
    let _ ← (if proceed then runBody b (anyStep steps) (runItems report steps 0 pos) else pure ())
    runEpilogue report (mk prologue epilogue steps limits) pos

def runItems (report : StepPath → Λ) :
    List (StepOrPipeline σ κ) → ℕ → StepPath → Prog Λ Outcome Bool
  | [], _, _ => pure true
  | .step _ :: rest, i, pos => do
    match ← visit (report (pos ++ [i + STEP0_INDEX])) with
    | .brk => return false
    | .ok => runItems report rest (i + 1) pos
  | .pipeline b p :: rest, i, pos => do
    runPipeline report p b (pos ++ [i + STEP0_INDEX])
    runItems report rest (i + 1) pos

end

def structuredTrace (p : Pipeline σ κ) (os : List Outcome) : List StepPath :=
  (runPipeline id p .once [] os).1

def structuredVisit (p : Pipeline σ κ) (o : Stream' Outcome) (n : ℕ) : Option StepPath :=
  (structuredTrace p (o.take n))[n]?

end Pipeline

end Rblib.Pipelines
