import Rblib.Pipelines.ExecutorRuns
import Rblib.Steps.Combinators

/-! Pipelines whose items may be chains of steps, run by the executor. -/

namespace Rblib.Steps

open Platform Pipelines PipelineExecutor StepNavigator

inductive ChainStep (σ : Type) where
  | single (s : σ)
  | chain (first : ChainStep σ) (rest : List (ChainStep σ))

variable {σ Ck ε Err Pl : Type}

abbrev Log (σ Ck : Type) := List (σ × Ck)

section Logged

variable {α β : Type}

def logged (log : α) : ControlFlow Ck Err → ControlFlow (Ck × α) (Err × α)
  | .fail error => .fail (error, log)
  | .brk checkpoint => .brk (checkpoint, log)
  | .ok checkpoint => .ok (checkpoint, log)

def plain : ControlFlow (Ck × α) (Err × α) → ControlFlow Ck Err
  | .fail error => .fail error.1
  | .brk checkpoint => .brk checkpoint.1
  | .ok checkpoint => .ok checkpoint.1

def logOf : ControlFlow (Ck × α) (Err × α) → α
  | .fail error => error.2
  | .brk checkpoint => checkpoint.2
  | .ok checkpoint => checkpoint.2

@[simp] lemma plain_logged (log : α) (flow : ControlFlow Ck Err) : plain (logged log flow) = flow := by
  cases flow with
  | fail error => rfl
  | brk checkpoint => rfl
  | ok checkpoint => rfl

@[simp] lemma logOf_logged (log : α) (flow : ControlFlow Ck Err) : logOf (logged log flow) = log := by
  cases flow with
  | fail error => rfl
  | brk checkpoint => rfl
  | ok checkpoint => rfl

end Logged

section Chains

variable (outcome : Log σ Ck → ControlFlow Ck Err) (ctx : StepContext ε)

mutual

/-- A chain reads the clock before each member and at its end; a member reads it as often as it needs. -/
def ChainStep.behaviour : (List ℕ → ℕ) → ChainStep σ → Behaviour (Ck × Log σ Ck) (Err × Log σ Ck)
  | _, .single s => fun input =>
    some (logged (input.2 ++ [(s, input.1)]) (outcome (input.2 ++ [(s, input.1)])))
  | clock, .chain first rest =>
    Chain.step ctx (fun reading => clock [reading])
      (first.behaviour (fun reading => clock ((rest.length + 1) :: reading)) :: ChainStep.behaviours clock rest)

def ChainStep.behaviours : (List ℕ → ℕ) → List (ChainStep σ) →
    List (Behaviour (Ck × Log σ Ck) (Err × Log σ Ck))
  | _, [] => []
  | clock, step :: steps =>
    step.behaviour (fun reading => clock ((steps.length + 1) :: reading)) :: ChainStep.behaviours clock steps

end

mutual

def ChainStep.leaves : ChainStep σ → List σ
  | .single s => [s]
  | .chain first rest => first.leaves ++ ChainStep.leavesAll rest

def ChainStep.leavesAll : List (ChainStep σ) → List σ
  | [] => []
  | step :: steps => step.leaves ++ ChainStep.leavesAll steps

end

def runLeaves : List σ → Ck × Log σ Ck → ControlFlow (Ck × Log σ Ck) (Err × Log σ Ck)
  | [], input => .ok input
  | s :: ss, input =>
    match logged (input.2 ++ [(s, input.1)]) (outcome (input.2 ++ [(s, input.1)])) with
    | .ok next => runLeaves ss next
    | .brk next => .brk next
    | .fail error => .fail error

def andThen (k : Ck → ControlFlow Ck Err) : ControlFlow Ck Err → ControlFlow Ck Err
  | .ok next => k next
  | .brk next => .brk next
  | .fail error => .fail error

lemma runLeaves_cons (s : σ) (ss : List σ) (input : Ck × Log σ Ck) :
    runLeaves outcome (s :: ss) input =
      andThen (runLeaves outcome ss)
        (logged (input.2 ++ [(s, input.1)]) (outcome (input.2 ++ [(s, input.1)]))) := by
  rw [runLeaves]
  cases outcome (input.2 ++ [(s, input.1)]) with
  | fail error => rfl
  | brk next => rfl
  | ok next => rfl

lemma runLeaves_append (ss ts : List σ) (input : Ck × Log σ Ck) :
    runLeaves outcome (ss ++ ts) input = andThen (runLeaves outcome ts) (runLeaves outcome ss input) := by
  induction ss generalizing input with
  | nil => rfl
  | cons s ss ih =>
    rw [List.cons_append, runLeaves_cons, runLeaves_cons]
    cases outcome (input.2 ++ [(s, input.1)]) with
    | fail error => rfl
    | brk next => rfl
    | ok next => exact ih _

lemma log_runLeaves (ss : List σ) (input : Ck × Log σ Ck) :
    input.2 <+: logOf (runLeaves outcome ss input) ∧
      (ss ≠ [] → input.2.length < (logOf (runLeaves outcome ss input)).length) := by
  induction ss generalizing input with
  | nil => exact ⟨List.prefix_rfl, fun h => absurd rfl h⟩
  | cons s ss ih =>
    have hone : input.2 <+: input.2 ++ [(s, input.1)] := List.prefix_append _ _
    have hlt : input.2.length < (input.2 ++ [(s, input.1)]).length := by
      rw [List.length_append, List.length_singleton]
      exact Nat.lt_succ_self _
    rw [runLeaves_cons]
    cases outcome (input.2 ++ [(s, input.1)]) with
    | fail error => exact ⟨hone, fun _ => hlt⟩
    | brk next => exact ⟨hone, fun _ => hlt⟩
    | ok next =>
      have hrest := (ih (next, input.2 ++ [(s, input.1)])).1
      exact ⟨hone.trans hrest, fun _ => hlt.trans_le hrest.length_le⟩

lemma ChainStep.leaves_ne_nil : ∀ s : ChainStep σ, s.leaves ≠ []
  | .single _ => List.cons_ne_nil _ _
  | .chain first _ => fun h => ChainStep.leaves_ne_nil first (List.append_eq_nil_iff.mp h).1

variable {ctx}

mutual

lemma ChainStep.behaviour_eq (clock : List ℕ → ℕ)
    (hclock : ∀ reading, ctx.deadlineReached (clock reading) = false) :
    ∀ (s : ChainStep σ) (input : Ck × Log σ Ck),
      s.behaviour outcome ctx clock input = some (runLeaves outcome s.leaves input)
  | .single s, input => by
    rw [behaviour, leaves, runLeaves_cons]
    dsimp only
    cases outcome (input.2 ++ [(s, input.1)]) with
    | fail error => rfl
    | brk next => rfl
    | ok next => rfl
  | .chain first rest, input => by
    have hfirst := ChainStep.behaviour_eq (fun reading => clock ((rest.length + 1) :: reading))
      (fun reading => hclock _) first input
    rw [behaviour, leaves, runLeaves_append, Chain.step, hclock, if_neg Bool.false_ne_true, hfirst]
    cases runLeaves outcome first.leaves input with
    | fail error => rfl
    | brk next => rfl
    | ok next => exact ChainStep.behaviours_eq clock hclock _ (fun reading => hclock _) rest next

lemma ChainStep.behaviours_eq (clock : List ℕ → ℕ)
    (hclock : ∀ reading, ctx.deadlineReached (clock reading) = false)
    (readings : ℕ → ℕ) (hreadings : ∀ reading, ctx.deadlineReached (readings reading) = false) :
    ∀ (ss : List (ChainStep σ)) (input : Ck × Log σ Ck),
      Chain.step ctx readings (ChainStep.behaviours outcome ctx clock ss) input =
        some (runLeaves outcome (ChainStep.leavesAll ss) input)
  | [], input => by
    rw [behaviours, Chain.step, hreadings, if_neg Bool.false_ne_true]
    rfl
  | s :: ss, input => by
    have hs := ChainStep.behaviour_eq (fun reading => clock ((ss.length + 1) :: reading)) (fun reading => hclock _)
      s input
    rw [behaviours, leavesAll, runLeaves_append, Chain.step, hreadings, if_neg Bool.false_ne_true, hs]
    cases runLeaves outcome s.leaves input with
    | fail error => rfl
    | brk next => rfl
    | ok next => exact ChainStep.behaviours_eq clock hclock readings hreadings ss next

end

end Chains

section Rounds

variable [LimitExtension ε] (job : Job (ChainStep σ) Ck ε Err Pl) (outcome : Log σ Ck → ControlFlow Ck Err)

structure Round (σ Ck ε Err Pl : Type) where
  exec : PipelineExecutor (ChainStep σ) Ck ε Err Pl
  log : Log σ Ck

def Round.output (r : Round σ Ck ε Err Pl) : Option (Except Err Pl) :=
  match r.exec.cursor with
  | .finalizing output => some output
  | .completed output => some output
  | _ => none

def runStep (clock : List ℕ → ℕ) (now : ℕ) (r : Round σ Ck ε Err Pl) : Except Panic (Round σ Ck ε Err Pl) :=
  match r.exec.cursor with
  | .beforeStep _ input => do
    let exec ← poll job .started r.exec
    match exec.cursor with
    | .stepInProgress _ step _ ctx =>
      match step.behaviour outcome ctx clock (input, r.log) with
      | none => return ⟨exec, r.log⟩
      | some flow => return ⟨← poll job (.stepReady (plain flow) now) exec, logOf flow⟩
    | _ => return ⟨exec, r.log⟩
  | _ => .ok r

def rounds (clock : ℕ → List ℕ → ℕ) (now : ℕ → ℕ) : ℕ → Except Panic (Round σ Ck ε Err Pl)
  | 0 => do return ⟨← poll job (.initialized (.ok ()) (now 0)) (run job), []⟩
  | n + 1 => do runStep job outcome (clock n) (now (n + 1)) (← rounds clock now n)

/-- No clock reading of the step that is scheduled is past the deadline of its scope. -/
def AheadOfDeadline (clock : List ℕ → ℕ) (r : Round σ Ck ε Err Pl) : Prop :=
  ∀ exec path step input ctx, poll job .started r.exec = .ok exec →
    exec.cursor = .stepInProgress path step input ctx → ∀ reading, ctx.deadlineReached (clock reading) = false

def BeforeDeadline (clock : ℕ → List ℕ → ℕ) (now : ℕ → ℕ) (n : ℕ) : Prop :=
  ∀ k < n, ∀ r, rounds job outcome clock now k = .ok r → AheadOfDeadline job (clock k) r

variable {job}

def Lands (job : Job (ChainStep σ) Ck ε Err Pl) (checkpoint : Ck)
    (target : Except Panic (Option (StepNavigator (ChainStep σ) (ScopedLimits Ck ε))))
    (cursor : Cursor (ChainStep σ) Ck ε Err Pl) : Prop :=
  ∃ nav, target = .ok nav ∧ cursor = match nav with
    | none => .finalizing (job.buildPayload checkpoint)
    | some nav => .beforeStep nav.path checkpoint

def LandsAfter (job : Job (ChainStep σ) Ck ε Err Pl)
    (nextOk nextBreak : Except Panic (Option (StepNavigator (ChainStep σ) (ScopedLimits Ck ε)))) :
    ControlFlow (Ck × Log σ Ck) (Err × Log σ Ck) → Cursor (ChainStep σ) Ck ε Err Pl → Prop
  | .fail error, cursor => cursor = .finalizing (.error error.1)
  | .brk checkpoint, cursor => Lands job checkpoint.1 nextBreak cursor
  | .ok checkpoint, cursor => Lands job checkpoint.1 nextOk cursor

lemma schedule_lands {scope : RootScope Ck ε} {now : ℕ} {checkpoint : Ck}
    {target : Option (StepNavigator (ChainStep σ) (ScopedLimits Ck ε))}
    {exec : PipelineExecutor (ChainStep σ) Ck ε Err Pl} (h : schedule job scope now checkpoint target = .ok exec) :
    Lands job checkpoint (.ok target) exec.cursor := by
  refine ⟨target, rfl, ?_⟩
  cases target with
  | none =>
    cases h
    rfl
  | some nav =>
    rw [schedule] at h
    cases hs : scope.switchContext nav.path checkpoint now with
    | error e =>
      rw [hs] at h
      cases h
    | ok scope' =>
      rw [hs] at h
      cases h
      rfl

lemma advanceCursor_lands {scope : RootScope Ck ε} {nav : StepNavigator (ChainStep σ) (ScopedLimits Ck ε)}
    (hx : Executable job.pipeline.root nav) (flow : ControlFlow (Ck × Log σ Ck) (Err × Log σ Ck)) {now : ℕ}
    {exec : PipelineExecutor (ChainStep σ) Ck ε Err Pl}
    (h : advanceCursor job scope nav.path (plain flow) now = .ok exec) :
    LandsAfter job nav.nextOk nav.nextBreak flow exec.cursor := by
  rw [advanceCursor, navigator_executable job.pipeline.fits hx] at h
  simp only [bind, Except.bind] at h
  cases flow with
  | fail error =>
    cases h
    rfl
  | brk checkpoint =>
    obtain ⟨target, ht, -⟩ := nextBreak_moves job.pipeline.fits hx
    rw [LandsAfter, ht]
    simp only [plain, ht] at h
    exact schedule_lands h
  | ok checkpoint =>
    obtain ⟨target, ht, -⟩ := nextOk_moves job.pipeline.fits hx
    rw [LandsAfter, ht]
    simp only [plain, ht] at h
    exact schedule_lands h

omit [LimitExtension ε] in
lemma executeStep_instance {scope : RootScope Ck ε} {nav : StepNavigator (ChainStep σ) (ScopedLimits Ck ε)}
    (hx : Executable job.pipeline.root nav) {s step : ChainStep σ} (hs : nav.stepInstance = .ok s)
    {ctx : StepContext ε} (h : executeStep job scope nav.path = .ok (step, ctx)) : step = s := by
  rw [executeStep, navigator_executable job.pipeline.fits hx] at h
  simp only [bind, Except.bind, hs] at h
  split at h
  · cases h
  · split at h
    · cases h
    · split at h
      · cases h
      · cases h
        rfl

theorem runStep_spec {r : Round σ Ck ε Err Pl} {nav : StepNavigator (ChainStep σ) (ScopedLimits Ck ε)} {input : Ck}
    {s : ChainStep σ} {clock : List ℕ → ℕ} (now : ℕ) (hinv : Invariant job r.exec)
    (hcursor : r.exec.cursor = .beforeStep nav.path input) (hx : Executable job.pipeline.root nav)
    (hs : nav.stepInstance = .ok s) (hahead : AheadOfDeadline job clock r) :
    ∃ r', runStep job outcome clock now r = .ok r' ∧ Invariant job r'.exec ∧
      r'.log = logOf (runLeaves outcome s.leaves (input, r.log)) ∧
      LandsAfter job nav.nextOk nav.nextBreak (runLeaves outcome s.leaves (input, r.log)) r'.exec.cursor := by
  obtain ⟨⟨cursor, scope⟩, log⟩ := r
  cases hcursor
  obtain ⟨exec, hstart, hstarted⟩ := poll_invariant .started hinv
  have hscheduled : Scheduled job scope nav.path := hinv
  obtain ⟨step, ctx, hexecute, -⟩ := executeStep_ok hscheduled
  cases executeStep_instance hx hs hexecute
  have hexec : exec = ⟨.stepInProgress nav.path s input ctx, scope⟩ := by
    rw [poll] at hstart
    simp only [hexecute, bind, Except.bind] at hstart
    exact (Except.ok.inj hstart).symm
  subst hexec
  have hbehaviour := s.behaviour_eq outcome clock (hahead _ _ _ _ _ hstart rfl) (input, log)
  obtain ⟨exec', hready, hinv'⟩ := poll_invariant
    (.stepReady (plain (runLeaves outcome s.leaves (input, log))) now) hstarted
  refine ⟨⟨exec', logOf (runLeaves outcome s.leaves (input, log))⟩, ?_, hinv', rfl,
    advanceCursor_lands hx _ hready⟩
  rw [runStep]
  simp only [hstart, hbehaviour, hready, bind, Except.bind]
  rfl

end Rounds

end Rblib.Steps
