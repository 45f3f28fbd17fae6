import Rblib.Pipelines.PollingRuns

namespace Rblib.Pipelines

open Platform StepNavigator PolledExecutor

variable {σ Ck ε Err Pl : Type} [LimitExtension ε]

section Paths

/-- The iterator, the navigator and the scopes agree on the paths of the steps, and no run leaves them. -/
structure PathsAgree (job : Job σ Ck ε Err Pl) : Prop where
  depth_first : job.pipeline.root.iterSteps = job.pipeline.root.stepsOf.map Prod.fst
  once : job.pipeline.root.iterSteps.Nodup
  navigator : ∀ path s, (path, s) ∈ job.pipeline.root.stepsOf → ∃ nav,
    StepPath.navigator path job.pipeline.root = .ok (some nav) ∧ nav.path = path ∧ nav.stepInstance = .ok s
  limits : ∀ exec, PipelineExecutor.Reaches job exec → ∀ path ∈ job.pipeline.root.iterSteps,
    ∃ limits, exec.scope.limitsOf path = .ok (some limits)
  entrypoint : ∀ nav, entrypoint job.pipeline.root = some nav → nav.path ∈ job.pipeline.root.iterSteps
  next : ∀ path ∈ job.pipeline.root.iterSteps, ∀ nav,
    StepPath.navigator path job.pipeline.root = .ok (some nav) → ∃ onOk onBreak, nav.nextOk = .ok onOk ∧
      nav.nextBreak = .ok onBreak ∧ ∀ target, onOk = some target ∨ onBreak = some target →
        target.path ∈ job.pipeline.root.iterSteps
  no_panic : ∀ p answers, Runs job p → p.output = none → ∃ p', poll job answers p = .ok p'

theorem paths_agree (job : Job σ Ck ε Err Pl) : PathsAgree job where
  depth_first := iterSteps_eq _
  once := by
    rw [iterSteps_eq]
    exact depthFirst_nodup _ job.pipeline.fits []
  navigator path s h := by
    obtain ⟨nav, hx, rfl, hi⟩ := (mem_stepsOf_iff job.pipeline.fits _).mp h
    exact ⟨nav, navigator_executable job.pipeline.fits hx, rfl, hi⟩
  limits exec hr path hp := by
    obtain ⟨nav, hx, rfl⟩ := (mem_iterSteps_iff job.pipeline.fits path).mp hp
    exact (PipelineExecutor.reaches_shaped hr).limitsOf hx
  entrypoint nav he := (mem_iterSteps_iff job.pipeline.fits _).mpr ⟨nav, entrypoint_executable he, rfl⟩
  next path hp nav hn := by
    obtain ⟨nav', hx, rfl⟩ := (mem_iterSteps_iff job.pipeline.fits path).mp hp
    rw [navigator_executable job.pipeline.fits hx] at hn
    cases hn
    obtain ⟨onOk, hok, htok⟩ := nextOk_moves job.pipeline.fits hx
    obtain ⟨onBreak, hbrk, htbrk⟩ := nextBreak_moves job.pipeline.fits hx
    refine ⟨onOk, onBreak, hok, hbrk, fun target ht => ?_⟩
    refine (mem_iterSteps_iff job.pipeline.fits _).mpr ⟨target, ?_, rfl⟩
    rcases ht with ht | ht
    · exact htok target ht
    · exact htbrk target ht
  no_panic p answers hr _ := by
    obtain ⟨p', hp, -⟩ := poll_sound (runs_sound hr) answers
    exact ⟨p', hp⟩

end Paths

section Order

structure Orderly (job : Job σ Ck ε Err Pl) (p : PolledExecutor σ Ck ε Err Pl) : Prop where
  beforeJob_order : p.log.filterMap Act.beforeJobCall <+: job.pipeline.root.stepsOf
  beforeJob_all : p.exec.cursor ≠ .initializing → (∀ a ∈ p.log, a.beforeJobFails = false) →
    p.log.filterMap Act.beforeJobCall = job.pipeline.root.stepsOf
  beforeJob_failed : (∃ a ∈ p.log, a.beforeJobFails = true) → ∀ a ∈ p.log, a.isStep = false
  order : p.log.Pairwise Act.Allows
  inputs : Threaded job.start p.log
  resolved_ok : ∀ payload, p.output = some (.ok payload) → (∀ a ∈ p.log, a.fails = false) ∧
    job.buildPayload (handed job.start p.log) = .ok payload
  announced : p.log.filterMap Act.verdict = p.output.toList

variable {job : Job σ Ck ε Err Pl} {p : PolledExecutor σ Ck ε Err Pl}

omit [LimitExtension ε] in
lemma protocol_of_simulates (h : Simulates job p) : ∃ phase, Protocol job phase p.log ∧
    Protocol.announced phase = p.output ∧
      (Protocol.isOpening phase = true → p.exec.cursor = .initializing) := by
  obtain ⟨⟨cursor, scope⟩, calls, log⟩ := p
  cases cursor with
  | initializing =>
    cases calls with
    | created paths =>
      obtain ⟨todo, -, h⟩ := h
      exact ⟨_, h, rfl, fun _ => rfl⟩
    | waiting path rest =>
      obtain ⟨todo, -, h⟩ := h
      exact ⟨_, h, rfl, fun _ => rfl⟩
  | beforeStep path input => exact ⟨_, h.1, rfl, fun ho => by cases ho⟩
  | stepInProgress path step input ctx => exact ⟨_, h.1, rfl, fun ho => by cases ho⟩
  | finalizing output =>
    cases calls with
    | created paths =>
      obtain ⟨todo, -, h⟩ := h
      exact ⟨_, h.1, rfl, fun ho => by cases ho⟩
    | waiting path rest =>
      obtain ⟨todo, -, h⟩ := h
      exact ⟨_, h.1, rfl, fun ho => by cases ho⟩
  | completed output => exact ⟨_, h.1, rfl, fun ho => by cases ho⟩

omit [LimitExtension ε] in
lemma beforeJob_facts {phase : JobPhase σ Ck Err Pl} {log : List (Act σ Ck ε Err Pl)}
    (h : Protocol job phase log) : log.filterMap Act.beforeJobCall <+: job.pipeline.root.stepsOf ∧
      ((∃ a ∈ log, a.beforeJobFails = true) → ∀ a ∈ log, a.isStep = false) ∧
      (Protocol.isOpening phase = false → (∀ a ∈ log, a.beforeJobFails = false) →
        log.filterMap Act.beforeJobCall = job.pipeline.root.stepsOf) := by
  cases hp : Protocol.isOpening phase with
  | true =>
    obtain ⟨hcalls, hno⟩ := h.beforeOpening hp
    exact ⟨hcalls, fun _ a ha => (hno a ha).2, fun ho => by cases ho⟩
  | false =>
    rcases h.beforeEnded hp with ⟨hall, hok⟩ | ⟨hpre, ⟨a, ha, hf⟩, hno⟩
    · refine ⟨by rw [hall], fun ⟨a, ha, hf⟩ => ?_, fun _ _ => hall⟩
      rw [hok a ha] at hf
      cases hf
    · refine ⟨hpre, fun _ => hno, fun _ hok => ?_⟩
      rw [hok a ha] at hf
      cases hf

theorem runs_orderly (h : Runs job p) : Orderly job p := by
  obtain ⟨phase, hprot, hout, hopen⟩ := protocol_of_simulates (runs_sound h).simulates
  obtain ⟨hpre, hfailed, hall⟩ := beforeJob_facts hprot
  refine ⟨hpre, fun hne => hall ?_, hfailed, hprot.ordered, hprot.threaded.1, fun payload hp => ?_, ?_⟩
  · by_contra hp
    exact hne (hopen (by simpa using hp))
  · rw [← hout] at hp
    cases phase with
    | resolved output =>
      cases Option.some.inj hp
      exact ⟨hprot.clean payload rfl, hprot.threaded.2 payload rfl⟩
    | _ => cases hp
  · rw [hprot.verdicts, hout]

def twoStepJob : Job ℕ ℕ Unit String ℕ where
  pipeline :=
    { root := (Pipeline.default.withStep 7).withStep 8
      fits := Pipeline.fits_of_checkAll (by decide) }
  platformLimits := ⟨30000000, none, none, some 12000000000, ()⟩
  start := 0
  buildPayload := .ok

lemma twoStep_iterSteps : twoStepJob.pipeline.root.iterSteps = [[1], [2]] := by
  rw [iterSteps_eq]
  rfl

def twoStepRun (afterJob : List (Except String Unit)) : Except Panic (PolledExecutor ℕ ℕ Unit String ℕ) := do
  let p ← poll twoStepJob { beforeJob := [.ok (), .ok ()], step := some (.ok 5) }
    ⟨PipelineExecutor.run twoStepJob, .created [[1], [2]], [.jobStarted]⟩
  let p ← poll twoStepJob { step := some (.fail "out of gas") } p
  poll twoStepJob { afterJob := afterJob } { p with calls := .created [[1], [2]] }

lemma twoStepRun_runs {afterJob : List (Except String Unit)} {p : PolledExecutor ℕ ℕ Unit String ℕ}
    (h : twoStepRun afterJob = .ok p) : Runs twoStepJob p := by
  have hrun : run twoStepJob = ⟨PipelineExecutor.run twoStepJob, .created [[1], [2]], [.jobStarted]⟩ := by
    rw [run, twoStep_iterSteps]
  obtain ⟨p₁, p₂, h₁, ho₁, h₂, ho₂, hcalls⟩ : ∃ p₁ p₂,
      poll twoStepJob { beforeJob := [.ok (), .ok ()], step := some (.ok 5) }
        ⟨PipelineExecutor.run twoStepJob, .created [[1], [2]], [.jobStarted]⟩ = .ok p₁ ∧ p₁.output = none ∧
      poll twoStepJob { step := some (.fail "out of gas") } p₁ = .ok p₂ ∧ p₂.output = none ∧
      p₂.calls = .created twoStepJob.pipeline.root.iterSteps :=
    ⟨_, _, rfl, rfl, rfl, rfl, rfl⟩
  have hp₂ : { p₂ with calls := .created [[1], [2]] } = p₂ := by
    rw [← twoStep_iterSteps, ← hcalls]
  have h₃ : poll twoStepJob { afterJob := afterJob } p₂ = .ok p := by
    simpa [twoStepRun, h₁, h₂, hp₂, bind, Except.bind] using h
  exact .poll _ (.poll _ (.poll _ (hrun ▸ .run) rfl h₁) ho₁ h₂) ho₂ h₃

theorem twoStep_orderly : ∃ p, Runs twoStepJob p ∧ p.output = some (.error "out of gas") ∧
    p.log.filterMap Act.beforeJobCall = [([1], 7), ([2], 8)] ∧
    p.log.filterMap Act.verdict = [.error "out of gas"] ∧ Orderly twoStepJob p := by
  obtain ⟨p, h, hout, hbefore, hverdict⟩ : ∃ p, twoStepRun [.ok (), .ok ()] = .ok p ∧
      p.output = some (.error "out of gas") ∧ p.log.filterMap Act.beforeJobCall = [([1], 7), ([2], 8)] ∧
      p.log.filterMap Act.verdict = [.error "out of gas"] :=
    ⟨_, rfl, rfl, rfl, rfl⟩
  exact ⟨p, twoStepRun_runs h, hout, hbefore, hverdict, runs_orderly (twoStepRun_runs h)⟩

end Order

section AfterJob

variable {job : Job σ Ck ε Err Pl} {p : PolledExecutor σ Ck ε Err Pl}

omit [LimitExtension ε] in
lemma last_iff {done todo : List (StepPath × σ)} {path : StepPath} {s : σ}
    (hn : ((done ++ (path, s) :: todo).map Prod.fst).Nodup) :
    ((done ++ (path, s) :: todo).map Prod.fst).getLast? = some path ↔ todo = [] := by
  rw [List.map_append, List.map_cons] at hn ⊢
  rw [List.getLast?_append_of_ne_nil _ (List.cons_ne_nil _ _)]
  have hnot := (List.nodup_cons.mp (List.nodup_append.mp hn).2.1).1
  rcases todo.eq_nil_or_concat with rfl | ⟨init, e, rfl⟩
  · simp
  · simp only [List.concat_eq_append, List.map_append, List.map_cons, List.map_nil] at hnot ⊢
    rw [← List.cons_append, List.getLast?_concat]
    simp only [Option.some.injEq, List.append_eq_nil_iff, List.cons_ne_self, and_false, iff_false]
    rintro rfl
    exact hnot (List.mem_append_right _ (List.mem_singleton_self _))

/-- A resolved run has called `after_job` on every step and left the root scope exactly when no `after_job`
failed, up to the last one in a run that never entered the scope. -/
theorem after_job_complete_iff (h : Runs job p) {output : Except Err Pl} (hout : p.output = some output) :
    (p.log.filterMap Act.afterJobCall = job.pipeline.root.stepsOf ∧ p.exec.scope.isActive = false) ↔
      ∀ path ∈ p.log.filterMap Act.afterJobFails,
        job.pipeline.root.iterSteps.getLast? = some path ∧ ¬ Entered job p.log := by
  have hs := (runs_sound h).simulates
  obtain ⟨⟨cursor, scope⟩, calls, log⟩ := p
  cases cursor with
  | completed out =>
    obtain ⟨hprot, hscope⟩ := hs
    have hinactive : scope.isActive = false ↔ ¬ (Entered job log ∧ log.filterMap Act.afterJobFails ≠ []) := by
      rw [← hscope]
      simp
    rw [hinactive]
    rcases hprot.afterCalls with ⟨hall, hok⟩ | ⟨done, path, s, todo, hcalls, hall, hfails⟩
    · simp [hall, hok]
    · have hnodup := depthFirst_nodup job.pipeline.root job.pipeline.fits []
      have hlast : job.pipeline.root.iterSteps.getLast? = some path ↔ todo = [] := by
        rw [iterSteps_eq, ← hall]
        exact last_iff (hall ▸ hnodup)
      have hmade : log.filterMap Act.afterJobCall = job.pipeline.root.stepsOf ↔ todo = [] := by
        rw [hcalls, ← hall]
        simp [eq_comm]
      rw [hmade, hfails]
      simp [hlast]
  | _ => cases hout

theorem twoStep_notified : ∃ p, Runs twoStepJob p ∧ p.output = some (.error "out of gas") ∧
    p.log.filterMap Act.afterJobFails = [] ∧
    p.log.filterMap Act.afterJobCall = twoStepJob.pipeline.root.stepsOf ∧ p.exec.scope.isActive = false := by
  obtain ⟨p, h, hout, hfails⟩ : ∃ p, twoStepRun [.ok (), .ok ()] = .ok p ∧
      p.output = some (.error "out of gas") ∧ p.log.filterMap Act.afterJobFails = [] :=
    ⟨_, rfl, rfl, rfl⟩
  have hcomplete := (after_job_complete_iff (twoStepRun_runs h) hout).mpr (by simp [hfails])
  exact ⟨p, twoStepRun_runs h, hout, hfails, hcomplete⟩

theorem twoStep_unnotified : ∃ p, Runs twoStepJob p ∧ p.output = some (.error "database") ∧
    twoStepJob.pipeline.root.stepsOf = [([1], 7), ([2], 8)] ∧
    p.log.filterMap Act.afterJobCall = [([1], 7)] ∧ p.exec.scope.isActive = true := by
  obtain ⟨p, h, hrest⟩ : ∃ p, twoStepRun [.error "database"] = .ok p ∧
      p.output = some (.error "database") ∧ twoStepJob.pipeline.root.stepsOf = [([1], 7), ([2], 8)] ∧
      p.log.filterMap Act.afterJobCall = [([1], 7)] ∧ p.exec.scope.isActive = true :=
    ⟨_, rfl, rfl, rfl, rfl, rfl⟩
  exact ⟨p, twoStepRun_runs h, hrest⟩

end AfterJob

end Rblib.Pipelines
