import Rblib.Pipelines.ExecutorRuns
import Rblib.Pipelines.Iter
import Rblib.Pipelines.Iterations
import Rblib.Pipelines.PollingRuns
import Rblib.Pipelines.Refinement
import Rblib.Library.HiddenSteps

namespace Rblib.Pipelines

open Library Library.OracleTrace Library.OracleTrace.Prog StepNavigator

namespace Pipeline

variable {σ κ : Type} (guard : σ → Bool)

def isGuard : StepOrPipeline σ κ → Bool
  | .step s => guard s
  | .pipeline _ _ => false

mutual

/-- The loops of a pipeline that stands at the given path: the place of the guard and how many steps it repeats. -/
def loops : Pipeline σ κ → Behavior → StepPath → List (StepPath × ℕ)
  | mk _ _ steps _, b, pos =>
    (if b = .loop ∧ anyStep steps = true then
      [(pos ++ [steps.findIdx (isGuard guard) + STEP0_INDEX], (depthFirstItems pos 0 steps).length)]
    else []) ++ itemLoops steps 0 pos

def itemLoops : List (StepOrPipeline σ κ) → ℕ → StepPath → List (StepPath × ℕ)
  | [], _, _ => []
  | .step _ :: rest, i, pos => itemLoops rest (i + 1) pos
  | .pipeline b p :: rest, i, pos => loops p b (pos ++ [i + STEP0_INDEX]) ++ itemLoops rest (i + 1) pos

end

/-- Every loop that has a step to repeat has a guard among its own steps. -/
def Guarded (p : Pipeline σ κ) : Prop :=
  p.Everywhere fun q => ∀ r, .pipeline .loop r ∈ q.steps → anyStep r.steps = true →
    r.steps.any (isGuard guard) = true

variable {guard}

lemma exists_guard {items : List (StepOrPipeline σ κ)} (h : items.any (isGuard guard) = true) :
    ∃ s, items[items.findIdx (isGuard guard)]? = some (.step s) ∧ guard s = true := by
  have hlt := List.findIdx_lt_length.mpr (List.any_eq_true.mp h)
  have hguard := List.findIdx_getElem (w := hlt)
  rw [List.getElem?_eq_getElem hlt]
  cases hitem : items[items.findIdx (isGuard guard)] with
  | step s =>
    rw [hitem] at hguard
    exact ⟨s, rfl, hguard⟩
  | pipeline b q =>
    rw [hitem] at hguard
    cases hguard

lemma costs_prologue (p : Pipeline σ κ) (pos : StepPath) :
    Costs Outcome.ok (runPrologue id p pos) p.prologue.toList.length [] := by
  unfold runPrologue
  cases p.prologue with
  | none => exact costs_pure true
  | some s => exact (costs_visit _).bind (exact_visit _) fun _ => costs_pure _

lemma costs_epilogue (p : Pipeline σ κ) (pos : StepPath) :
    Costs Outcome.ok (runEpilogue id p pos) p.epilogue.toList.length [] := by
  unfold runEpilogue
  cases p.epilogue with
  | none => exact costs_pure ()
  | some s => exact (costs_visit _).bind (exact_visit _) fun _ => costs_pure ()

lemma costs_body {b : Behavior} {steps : List (StepOrPipeline σ κ)} {pos : StepPath} {c : ℕ}
    {inner : List (StepPath × ℕ)} (h : Costs .ok (runItems id steps 0 pos) c inner)
    (hguard : b = .loop → anyStep steps = true → steps.any (isGuard guard) = true) :
    Costs .ok (runBody b (anyStep steps) (runItems id steps 0 pos)) c
      ((if b = .loop ∧ anyStep steps = true then [(pos ++ [steps.findIdx (isGuard guard) + STEP0_INDEX], c)]
        else []) ++ inner) := by
  unfold runBody
  split
  · next hloop =>
    obtain ⟨s, hs, -⟩ := exists_guard (hguard hloop.1 hloop.2)
    apply h.loop (exact_items id steps 0 pos)
    intro os rest hrest
    have hanswer := ok_mem_answers hs 0 pos hrest
    rwa [Nat.zero_add] at hanswer
  · next hloop =>
    simpa using h.bind (exact_items id steps 0 pos) fun _ => costs_pure ()

mutual

theorem costs_run : ∀ (p : Pipeline σ κ) (b : Behavior) (pos : StepPath), Guarded guard p →
    (b = .loop → anyStep p.steps = true → p.steps.any (isGuard guard) = true) →
    Costs .ok (runPipeline id p b pos) (depthFirst pos p).length (loops guard p b pos)
  | mk prologue epilogue steps limits, b, pos, h, hguard => by
    have hitems := costs_items steps 0 pos fun b q hq => ⟨h.nested hq, fun hb => h.here q (hb ▸ hq)⟩
    have hbody : ∀ proceed, Costs .ok
        (if proceed = true then runBody b (anyStep steps) (runItems id steps 0 pos) else pure ())
        (depthFirstItems pos 0 steps).length (loops guard (mk prologue epilogue steps limits) b pos) := by
      intro proceed
      rw [loops]
      cases proceed with
      | false => simpa using (costs_pure ()).weaken (Nat.zero_le _) [] _
      | true => exact costs_body hitems hguard
    have hexact : ∀ proceed, Exact
        (if proceed = true then runBody b (anyStep steps) (runItems id steps 0 pos) else pure ()) := by
      intro proceed
      cases proceed with
      | false => exact exact_pure ()
      | true => exact exact_body (exact_items id steps 0 pos)
    have hepilogue := costs_epilogue (mk prologue epilogue steps limits) pos
    have hrun := (costs_prologue (mk prologue epilogue steps limits) pos).bind (exact_prologue id _ pos)
      fun proceed => (hbody proceed).bind (hexact proceed) fun _ => hepilogue
    rw [runPipeline, depthFirst]
    simpa [Nat.add_assoc] using hrun

theorem costs_items : ∀ (items : List (StepOrPipeline σ κ)) (i : ℕ) (pos : StepPath),
    (∀ b q, .pipeline b q ∈ items → Guarded guard q ∧
      (b = .loop → anyStep q.steps = true → q.steps.any (isGuard guard) = true)) →
    Costs .ok (runItems id items i pos) (depthFirstItems pos i items).length (itemLoops guard items i pos)
  | [], _, _, _ => costs_pure true
  | .step s :: later, i, pos, h => by
    have hlater := costs_items later (i + 1) pos fun b q hq => h b q (List.mem_cons_of_mem _ hq)
    rw [runItems, depthFirstItems, itemLoops, List.length_cons, Nat.add_comm (List.length _) 1]
    refine (costs_visit _).bind (exact_visit _) fun o => ?_
    cases o with
    | brk => simpa using (costs_pure false).weaken (Nat.zero_le _) [] _
    | ok => exact hlater
  | .pipeline b p :: later, i, pos, h => by
    have hlater := costs_items later (i + 1) pos fun b q hq => h b q (List.mem_cons_of_mem _ hq)
    obtain ⟨hp, hguard⟩ := h b p List.mem_cons_self
    rw [runItems, depthFirstItems, itemLoops, List.length_append]
    exact (costs_run p b _ hp hguard).bind (exact_run id p b _) fun _ => hlater

end

mutual

lemma loops_guarded : ∀ (p : Pipeline σ κ) (b : Behavior) (pos : StepPath), Guarded guard p →
    (b = .loop → anyStep p.steps = true → p.steps.any (isGuard guard) = true) →
    ∀ e ∈ loops guard p b pos, ∃ s, (e.1, s) ∈ depthFirst pos p ∧ guard s = true
  | mk prologue epilogue steps limits, b, pos, h, hguard, e, he => by
    have hitems : ∀ s, (e.1, s) ∈ depthFirstItems pos 0 steps →
        (e.1, s) ∈ depthFirst pos (mk prologue epilogue steps limits) := by
      intro s hs
      rw [depthFirst]
      exact List.mem_append_left _ (List.mem_append_right _ hs)
    rw [loops, List.mem_append] at he
    obtain he | he := he
    · split at he
      · next hloop =>
        obtain rfl := List.mem_singleton.mp he
        obtain ⟨s, hs, hg⟩ := exists_guard (hguard hloop.1 hloop.2)
        have hstep := depthFirstItems_step pos 0 hs
        rw [Nat.zero_add] at hstep
        exact ⟨s, hitems s hstep, hg⟩
      · cases he
    · obtain ⟨s, hs, hg⟩ := itemLoops_guarded steps 0 pos
        (fun b q hq => ⟨h.nested hq, fun hb => h.here q (hb ▸ hq)⟩) e he
      exact ⟨s, hitems s hs, hg⟩

lemma itemLoops_guarded : ∀ (items : List (StepOrPipeline σ κ)) (i : ℕ) (pos : StepPath),
    (∀ b q, .pipeline b q ∈ items → Guarded guard q ∧
      (b = .loop → anyStep q.steps = true → q.steps.any (isGuard guard) = true)) →
    ∀ e ∈ itemLoops guard items i pos, ∃ s, (e.1, s) ∈ depthFirstItems pos i items ∧ guard s = true
  | [], _, _, _, e, he => by cases he
  | .step s :: later, i, pos, h, e, he => by
    rw [itemLoops] at he
    obtain ⟨t, ht, hg⟩ :=
      itemLoops_guarded later (i + 1) pos (fun b q hq => h b q (List.mem_cons_of_mem _ hq)) e he
    exact ⟨t, List.mem_cons_of_mem _ ht, hg⟩
  | .pipeline b p :: later, i, pos, h, e, he => by
    obtain ⟨hp, hguard⟩ := h b p List.mem_cons_self
    rw [itemLoops, List.mem_append] at he
    rw [depthFirstItems]
    obtain he | he := he
    · obtain ⟨t, ht, hg⟩ := loops_guarded p b _ hp hguard e he
      exact ⟨t, List.mem_append_left _ ht, hg⟩
    · obtain ⟨t, ht, hg⟩ :=
        itemLoops_guarded later (i + 1) pos (fun b q hq => h b q (List.mem_cons_of_mem _ hq)) e he
      exact ⟨t, List.mem_append_right _ ht, hg⟩

end

end Pipeline

variable {σ Ck ε Err Pl : Type}

def ControlFlow.outcome : ControlFlow Ck Err → Option Outcome
  | .fail _ => none
  | .brk _ => some .brk
  | .ok _ => some .ok

namespace PipelineExecutor

open Platform Pipeline

def answered (cursor : Cursor σ Ck ε Err Pl) (event : Event Ck Err) : List (StepPath × Outcome) :=
  match cursor, event with
  | .stepInProgress path _ _ _, .stepReady output _ => (output.outcome.map (path, ·)).toList
  | _, _ => []

def advances (cursor : Cursor σ Ck ε Err Pl) (event : Event Ck Err) : Bool :=
  match cursor, event with
  | .initializing, .initialized _ _ => true
  | .beforeStep _ _, .started => true
  | .stepInProgress _ _ _ _, .stepReady _ _ => true
  | .finalizing _, .finalized _ => true
  | _, _ => false

def Visited (job : Job σ Ck ε Err Pl) (log : List (StepPath × Outcome))
    (target : Option (StepNavigator σ (ScopedLimits Ck ε))) : Prop :=
  Path (Takes StepNavigator.path StepNavigator.next) (entrypoint job.pipeline.root) log target ∧
    ∀ nav, target = some nav → Executable job.pipeline.root nav

def Course (job : Job σ Ck ε Err Pl) (log : List (StepPath × Outcome)) (polls : ℕ) : Cursor σ Ck ε Err Pl → Prop
  | .initializing => log = [] ∧ polls = 0
  | .beforeStep path _ => (∃ nav, nav.path = path ∧ Visited job log (some nav)) ∧ polls = 2 * log.length + 1
  | .stepInProgress path step _ _ => (∃ nav, nav.path = path ∧ Visited job log (some nav)) ∧
      (path, step) ∈ job.pipeline.root.stepsOf ∧ polls = 2 * log.length + 2
  | .finalizing _ => (∃ target, Visited job log target) ∧ polls ≤ 2 * log.length + 3
  | .completed _ => (∃ target, Visited job log target) ∧ polls ≤ 2 * log.length + 4

variable [LimitExtension ε] {job : Job σ Ck ε Err Pl} {exec exec' : PipelineExecutor σ Ck ε Err Pl}
  {log : List (StepPath × Outcome)} {polls : ℕ}

omit [LimitExtension ε] in
lemma visited_entrypoint (job : Job σ Ck ε Err Pl) : Visited job [] (entrypoint job.pipeline.root) :=
  ⟨.nil _, fun _ h => entrypoint_executable h⟩

omit [LimitExtension ε] in
lemma Visited.next {nav : StepNavigator σ (ScopedLimits Ck ε)} (h : Visited job log (some nav)) (o : Outcome) :
    ∃ target, nav.next o = .ok target ∧ Visited job (log ++ [(nav.path, o)]) target := by
  obtain ⟨hpath, hx⟩ := h
  have hmoves : Moves job.pipeline.root (nav.next o) := by
    cases o with
    | ok => exact nextOk_moves job.pipeline.fits (hx nav rfl)
    | brk => exact nextBreak_moves job.pipeline.fits (hx nav rfl)
  obtain ⟨target, hnext, htarget⟩ := hmoves
  exact ⟨target, hnext, hpath.append (.cons ⟨nav, rfl, rfl, hnext⟩ (.nil _)), htarget⟩

lemma course_first {scope : RootScope Ck ε} {now : ℕ} (h : firstStep job scope now = .ok exec') :
    Course job [] 1 exec'.cursor := by
  obtain ⟨hnone, rfl⟩ | ⟨nav, scope', hsome, rfl⟩ := firstStep_cases h
  · exact ⟨⟨_, visited_entrypoint job⟩, by omega⟩
  · exact ⟨⟨nav, rfl, hsome ▸ visited_entrypoint job⟩, rfl⟩

lemma course_schedule {scope : RootScope Ck ε} {now : ℕ} {input : Ck}
    {target : Option (StepNavigator σ (ScopedLimits Ck ε))} (hv : Visited job log target)
    (hpolls : polls = 2 * log.length + 1) (h : schedule job scope now input target = .ok exec') :
    Course job log polls exec'.cursor := by
  cases target with
  | none =>
    cases h
    exact ⟨⟨none, hv⟩, by omega⟩
  | some nav =>
    obtain ⟨scope', -, h⟩ := bind_eq_ok.mp h
    cases h
    exact ⟨⟨nav, rfl, hv⟩, hpolls⟩

lemma course_advance {scope : RootScope Ck ε} {nav : StepNavigator σ (ScopedLimits Ck ε)}
    {output : ControlFlow Ck Err} {now : ℕ} (hv : Visited job log (some nav)) (hpolls : polls = 2 * log.length + 2)
    (h : advanceCursor job scope nav.path output now = .ok exec') :
    Course job (log ++ (output.outcome.map (nav.path, ·)).toList) (polls + 1) exec'.cursor := by
  simp only [advanceCursor, navigator_executable job.pipeline.fits (hv.2 nav rfl), bind, Except.bind] at h
  have hlength : ∀ o, polls + 1 = 2 * (log ++ [(nav.path, o)]).length + 1 := by
    intro o
    rw [List.length_append, List.length_singleton]
    omega
  cases output with
  | fail e =>
    cases h
    refine ⟨⟨some nav, ?_⟩, ?_⟩
    · simpa [ControlFlow.outcome] using hv
    · simp [ControlFlow.outcome, hpolls]
  | brk c =>
    obtain ⟨target, hnext, hvisited⟩ := hv.next .brk
    change nav.nextBreak = .ok target at hnext
    rw [hnext] at h
    exact course_schedule hvisited (hlength _) h
  | ok c =>
    obtain ⟨target, hnext, hvisited⟩ := hv.next .ok
    change nav.nextOk = .ok target at hnext
    rw [hnext] at h
    exact course_schedule hvisited (hlength _) h

omit [LimitExtension ε] in
lemma executeStep_mem {scope : RootScope Ck ε} {nav : StepNavigator σ (ScopedLimits Ck ε)} {step : σ}
    {ctx : StepContext ε} (hx : Executable job.pipeline.root nav)
    (h : executeStep job scope nav.path = .ok (step, ctx)) : (nav.path, step) ∈ job.pipeline.root.stepsOf := by
  rw [executeStep] at h
  obtain ⟨limits, -, h⟩ := bind_eq_ok.mp h
  cases limits with
  | none => cases h
  | some limits =>
    obtain ⟨found, hfound, h⟩ := bind_eq_ok.mp h
    rw [navigator_executable job.pipeline.fits hx] at hfound
    obtain rfl := Except.ok.inj hfound
    obtain ⟨inst, hinst, h⟩ := bind_eq_ok.mp h
    obtain ⟨startedAt, -, h⟩ := bind_eq_ok.mp h
    cases h
    exact (mem_stepsOf_iff job.pipeline.fits _).mpr ⟨nav, hx, rfl, hinst⟩

lemma course_poll {event : Event Ck Err} (hc : Course job log polls exec.cursor)
    (h : poll job event exec = .ok exec') :
    Course job (log ++ answered exec.cursor event) (polls + (advances exec.cursor event).toNat) exec'.cursor := by
  obtain ⟨cursor, scope⟩ := exec
  have hidle : (Except.ok ⟨cursor, scope⟩ : Except Panic _) = .ok exec' →
      Course job (log ++ []) (polls + 0) exec'.cursor := by
    rintro ⟨⟩
    rwa [List.append_nil]
  cases cursor with
  | initializing =>
    obtain ⟨rfl, rfl⟩ := hc
    cases event with
    | initialized result now =>
      cases result with
      | error e =>
        cases h
        exact ⟨⟨_, visited_entrypoint job⟩, by simp [advances]⟩
      | ok u => exact course_first h
    | _ => exact hidle h
  | beforeStep path input =>
    cases event with
    | started =>
      obtain ⟨⟨step, ctx⟩, hs, h⟩ := bind_eq_ok.mp h
      cases h
      obtain ⟨⟨nav, rfl, hv⟩, rfl⟩ := hc
      have hmem := executeStep_mem (hv.2 nav rfl) hs
      change Course job (log ++ []) _ _
      rw [List.append_nil]
      exact ⟨⟨nav, rfl, hv⟩, hmem, rfl⟩
    | _ => exact hidle h
  | stepInProgress path step input ctx =>
    cases event with
    | stepReady output now =>
      obtain ⟨⟨nav, rfl, hv⟩, -, hpolls⟩ := hc
      exact course_advance hv hpolls h
    | _ => exact hidle h
  | finalizing output =>
    cases event with
    | finalized result =>
      obtain ⟨⟨target, hv⟩, hpolls⟩ := hc
      have hdone : ∀ output : Except Err Pl, Course job (log ++ []) (polls + 1) (.completed output) := by
        intro output
        rw [List.append_nil]
        exact ⟨⟨target, hv⟩, Nat.succ_le_succ hpolls⟩
      obtain ⟨e, -, rfl⟩ | ⟨-, -, rfl⟩ | ⟨scope', -, -, rfl⟩ := finalized_cases h
      · exact hdone _
      · exact hdone _
      · exact hdone _
    | _ => exact hidle h
  | completed output => cases event <;> exact hidle h

end PipelineExecutor

end Rblib.Pipelines
