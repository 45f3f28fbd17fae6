import Rblib.Pipelines.ScopeRuns

namespace Rblib.Pipelines

open Platform StepNavigator Scope

variable {σ Ck ε Err Pl : Type} [LimitExtension ε]

namespace PipelineExecutor

def First (job : Job σ Ck ε Err Pl) (scope : RootScope Ck ε) (nav : StepNavigator σ (ScopedLimits Ck ε)) :
    Prop :=
  entrypoint job.pipeline.root = some nav ∧
    ∃ now, (RootScope.new job.pipeline.root job.start job.platformLimits).enter job.start now = .ok scope

structure Scheduled (job : Job σ Ck ε Err Pl) (scope : RootScope Ck ε) (path : StepPath) : Prop where
  tracks : Tracks job.pipeline.root job.start
    (rootLimits job.pipeline.root job.start job.platformLimits) scope.root.view scope.current
  executable : ∃ nav, Executable job.pipeline.root nav ∧ nav.path = path ∧
    (scopeOf path = .ok scope.current ∨ First job scope nav)

def Invariant (job : Job σ Ck ε Err Pl) (exec : PipelineExecutor σ Ck ε Err Pl) : Prop :=
  match exec.cursor with
  | .initializing =>
    exec.scope = RootScope.new job.pipeline.root job.start job.platformLimits
  | .beforeStep path _ => Scheduled job exec.scope path
  | .stepInProgress path _ _ ctx => Scheduled job exec.scope path ∧
    exec.scope.limitsOf path = .ok (some ctx.limits) ∧ exec.scope.enteredAt path = .ok ctx.startedAt
  | .finalizing _ => True
  | .completed _ => True

variable {job : Job σ Ck ε Err Pl} {scope : RootScope Ck ε}

lemma firstStep_invariant (now : ℕ) :
    ∃ exec, firstStep job (RootScope.new job.pipeline.root job.start job.platformLimits) now = .ok exec ∧
      Invariant job exec := by
  rw [firstStep]
  cases he : entrypoint job.pipeline.root with
  | none => exact ⟨_, rfl, trivial⟩
  | some nav =>
    obtain ⟨scope, hs, hc, _⟩ := enter_root job.pipeline.root job.start job.platformLimits now
    obtain ⟨_, ht⟩ := enter_root_tracks job.pipeline.root job.start job.platformLimits hs
    refine ⟨⟨.beforeStep nav.path job.start, scope⟩, ?_, ?_, ?_⟩
    · simp only [hs]
      rfl
    · change Tracks _ _ _ scope.root.view scope.current
      rw [hc]
      exact ht
    · exact ⟨nav, entrypoint_executable he, rfl, Or.inr ⟨he, now, hs⟩⟩

lemma executeStep_ok {path : StepPath} (h : Scheduled job scope path) :
    ∃ step ctx, executeStep job scope path = .ok (step, ctx) ∧
      scope.limitsOf path = .ok (some ctx.limits) ∧ scope.enteredAt path = .ok ctx.startedAt := by
  obtain ⟨nav, hx, rfl, _⟩ := h.executable
  have hnav := navigator_executable job.pipeline.fits hx
  obtain ⟨step, hstep⟩ := stepInstance_executable job.pipeline.fits hx
  obtain ⟨ctx, p, b, x, hloc, _, rfl⟩ := hx
  obtain ⟨d, hd, _⟩ := h.tracks.shape ctx p b hloc
  obtain ⟨inner, hg, hi⟩ := Option.map_eq_some_iff.mp hd
  have hl : scope.limitsOf (at_ ctx p x).path = .ok (some inner.limits) := by
    simp [RootScope.limitsOf, scopeOf_at, hg, bind, Except.bind, pure, Except.pure]
  have he : scope.enteredAt (at_ ctx p x).path = .ok inner.startedAt := by
    simp [RootScope.enteredAt, scopeOf_at, hg, bind, Except.bind, pure, Except.pure]
  refine ⟨step, ⟨inner.limits, inner.startedAt⟩, ?_, hl, he⟩
  simp [executeStep, hl, hnav, hstep, he, bind, Except.bind, pure, Except.pure]

lemma schedule_invariant {path : StepPath} (h : Scheduled job scope path) (now : ℕ) (input : Ck)
    {target : Option (StepNavigator σ (ScopedLimits Ck ε))}
    (ht : ∀ nav, target = some nav → Executable job.pipeline.root nav) :
    ∃ exec, schedule job scope now input target = .ok exec ∧ Invariant job exec := by
  cases target with
  | none => exact ⟨_, rfl, trivial⟩
  | some nav =>
    have hx := ht nav rfl
    obtain ⟨ctx, p, b, x, hloc, hp, rfl⟩ := hx
    obtain ⟨scope', hs, hc, htracks⟩ := h.tracks.switchContext hloc x input now
    refine ⟨⟨.beforeStep (at_ ctx p x).path input, scope'⟩, ?_, ?_, ?_⟩
    · rw [schedule, hs]
      rfl
    · change Tracks _ _ _ scope'.root.view scope'.current
      rw [hc]
      exact htracks
    · refine ⟨at_ ctx p x, ⟨ctx, p, b, x, hloc, hp, rfl⟩, rfl, Or.inl ?_⟩
      change scopeOf _ = .ok scope'.current
      rw [scopeOf_at, hc]

lemma advanceCursor_ok {path : StepPath} {nav : StepNavigator σ (ScopedLimits Ck ε)}
    {next : Option (StepNavigator σ (ScopedLimits Ck ε))}
    (hnav : StepPath.navigator path job.pipeline.root = .ok (some nav)) (hnext : nav.nextOk = .ok next)
    (input : Ck) (now : ℕ) :
    advanceCursor job scope path (.ok input) now = schedule job scope now input next := by
  simp only [advanceCursor, hnav, bind, Except.bind, hnext]

/-- An item of the root is entered without a change of scope. -/
lemma schedule_root (hscope : scope.current = []) (i : ℕ) (input : Ck) (now : ℕ) :
    schedule job scope now input (some (at_ [] job.pipeline.root i)) = .ok ⟨.beforeStep [i] input, scope⟩ := by
  obtain ⟨root, current⟩ := scope
  cases hscope
  rfl

lemma advanceCursor_invariant {path : StepPath} (h : Scheduled job scope path)
    (output : ControlFlow Ck Err) (now : ℕ) :
    ∃ exec, advanceCursor job scope path output now = .ok exec ∧ Invariant job exec := by
  obtain ⟨nav, hx, rfl, _⟩ := h.executable
  have hnav := navigator_executable job.pipeline.fits hx
  simp only [advanceCursor, hnav, bind, Except.bind]
  cases output with
  | fail error => exact ⟨_, rfl, trivial⟩
  | brk checkpoint =>
    obtain ⟨target, hn, ht⟩ := nextBreak_moves job.pipeline.fits hx
    simp only [hn]
    exact schedule_invariant h now checkpoint ht
  | ok checkpoint =>
    obtain ⟨target, hn, ht⟩ := nextOk_moves job.pipeline.fits hx
    simp only [hn]
    exact schedule_invariant h now checkpoint ht

theorem poll_invariant (event : Event Ck Err) {exec : PipelineExecutor σ Ck ε Err Pl}
    (h : Invariant job exec) : ∃ exec', poll job event exec = .ok exec' ∧ Invariant job exec' := by
  obtain ⟨cursor, scope⟩ := exec
  cases cursor with
  | initializing =>
    change scope = _ at h
    subst h
    cases event with
    | initialized result now =>
      cases result with
      | ok u => exact firstStep_invariant now
      | error e => exact ⟨_, rfl, trivial⟩
    | _ => exact ⟨_, rfl, rfl⟩
  | beforeStep path input =>
    change Scheduled job scope path at h
    cases event with
    | started =>
      obtain ⟨step, ctx, he, hl, ha⟩ := executeStep_ok h
      refine ⟨⟨.stepInProgress path step input ctx, scope⟩, ?_, h, hl, ha⟩
      simp only [poll, he]
      rfl
    | _ => exact ⟨_, rfl, h⟩
  | stepInProgress path step input ctx =>
    cases event with
    | stepReady output now => exact advanceCursor_invariant h.1 output now
    | _ => exact ⟨_, rfl, h⟩
  | finalizing output =>
    cases event with
    | finalized result =>
      cases result with
      | error e => exact ⟨_, rfl, trivial⟩
      | ok u =>
        cases ha : scope.root.isActive with
        | false =>
          refine ⟨⟨.completed output, scope⟩, ?_, trivial⟩
          simp [poll, RootScope.isActive, ha]
        | true =>
          refine ⟨⟨.completed output, { scope with root := scope.root.deactivate }⟩, ?_, trivial⟩
          simp [poll, RootScope.isActive, RootScope.leave, Scope.leave, ha, bind, Except.bind, pure,
            Except.pure]
    | _ => exact ⟨_, rfl, trivial⟩
  | completed output => cases event <;> exact ⟨_, rfl, trivial⟩

theorem reaches_invariant {exec : PipelineExecutor σ Ck ε Err Pl} (h : Reaches job exec) :
    Invariant job exec := by
  induction h with
  | run => rfl
  | poll event _ hp ih =>
    obtain ⟨exec', he, hi⟩ := poll_invariant event ih
    rw [hp] at he
    cases he
    exact hi

theorem poll_total {exec : PipelineExecutor σ Ck ε Err Pl} (h : Reaches job exec)
    (event : Event Ck Err) : ∃ exec', poll job event exec = .ok exec' := by
  obtain ⟨exec', he, _⟩ := poll_invariant event (reaches_invariant h)
  exact ⟨exec', he⟩

/-- While the step at `path` runs, the active scopes are the root scope and those of the nested
pipelines around the step, and the context knows when its scope was entered. -/
structure InScope (scope : RootScope Ck ε) (path : StepPath) (ctx : StepContext ε) : Prop where
  active : ∀ s, (∃ d, scope.root.view s = some d ∧ d.isActive = true) ↔ s <+: path.dropLast
  started : ctx.startedAt.isSome = true
  deadline : ∀ deadline, ctx.limits.deadline = some deadline →
    ∃ t, ∀ now ≥ t, ctx.deadlineReached now = true

lemma scopeOf_dropLast {path s : StepPath} (h : scopeOf path = .ok s) : s = path.dropLast := by
  unfold scopeOf StepPath.removeLeaf at h
  split at h
  · rename_i ht
    cases h
    obtain ⟨i, rfl⟩ := List.length_eq_one_iff.mp (by simpa [StepPath.isToplevel, StepPath.depth] using ht)
    rfl
  · split at h
    · cases h
    · cases h
      rfl

lemma inScope_of_current {path : StepPath} {ctx : StepContext ε} (h : Scheduled job scope path)
    (hc : scopeOf path = .ok scope.current) (he : scope.enteredAt path = .ok ctx.startedAt) :
    InScope scope path ctx := by
  have hcur := scopeOf_dropLast hc
  obtain ⟨d, hd⟩ := h.tracks.exists_data List.prefix_rfl
  have hact := (h.tracks.active _ d hd).mpr List.prefix_rfl
  have hstart : ctx.startedAt = d.enteredAt := by
    obtain ⟨inner, hg, rfl⟩ := Option.map_eq_some_iff.mp hd
    simpa [RootScope.enteredAt, hc, hg, bind, Except.bind, pure, Except.pure, Scope.startedAt,
      eq_comm] using he
  refine ⟨?_, by rw [hstart]; exact hact, ?_⟩
  · intro s
    rw [← hcur]
    constructor
    · rintro ⟨e, hv, ha⟩
      exact (h.tracks.active s e hv).mp ha
    · intro hs
      obtain ⟨e, hv⟩ := h.tracks.exists_data hs
      exact ⟨e, hv, (h.tracks.active s e hv).mpr hs⟩
  · intro deadline hdl
    obtain ⟨t, ht⟩ := Option.isSome_iff_exists.mp (by rw [hstart]; exact hact : ctx.startedAt.isSome)
    exact StepContext.deadline_reachable ht hdl

lemma scheduled_current {path : StepPath} (h : Scheduled job scope path)
    (htop : ∀ nav, entrypoint job.pipeline.root = some nav → StepPath.isToplevel nav.path = true) :
    scopeOf path = .ok scope.current := by
  obtain ⟨nav, _, rfl, hc | ⟨he, now, hs⟩⟩ := h.executable
  · exact hc
  · have ht := htop nav he
    rw [(enter_root_tracks _ _ _ hs).1, scopeOf, StepPath.removeLeaf, if_pos ht]
    rfl

lemma first_reaches {nav : StepNavigator σ (ScopedLimits Ck ε)}
    (he : entrypoint job.pipeline.root = some nav) :
    ∃ exec step ctx, Reaches job exec ∧
      exec.cursor = .stepInProgress nav.path step job.start ctx ∧ First job exec.scope nav := by
  obtain ⟨scope, hs, _, _⟩ := enter_root job.pipeline.root job.start job.platformLimits 0
  have h₁ : poll job (.initialized (.ok ()) 0) (run job) =
      .ok ⟨.beforeStep nav.path job.start, scope⟩ := by
    simp only [poll, run, firstStep, he, hs]
    rfl
  have hr := Reaches.poll _ .run h₁
  obtain ⟨step, ctx, hx, _, _⟩ := executeStep_ok (reaches_invariant hr)
  have h₂ : poll job .started ⟨.beforeStep nav.path job.start, scope⟩ =
      .ok ⟨.stepInProgress nav.path step job.start ctx, scope⟩ := by
    simp only [poll, hx]
    rfl
  exact ⟨_, step, ctx, .poll _ hr h₂, rfl, he, 0, hs⟩

lemma First.toplevel_of_active {nav : StepNavigator σ (ScopedLimits Ck ε)}
    (h : First job scope nav) {d : ScopeData Ck ε} (hd : scope.root.view nav.path.dropLast = some d)
    (ha : d.isActive = true) : StepPath.isToplevel nav.path = true := by
  obtain ⟨he, now, hs⟩ := h
  obtain ⟨_, ht⟩ := enter_root_tracks _ _ _ hs
  have hnil := List.prefix_nil.mp ((ht.active _ d hd).mp ha)
  have hlen := congrArg List.length hnil
  obtain ⟨c, p, b, x, _, _, rfl⟩ := entrypoint_executable he
  simpa [StepPath.isToplevel, StepPath.depth, at_] using hlen

theorem steps_in_scope_iff (job : Job σ Ck ε Err Pl) :
    (∀ exec event, Reaches job exec → ∃ exec', poll job event exec = .ok exec') ∧
    ((∀ exec path step input ctx, Reaches job exec →
        exec.cursor = .stepInProgress path step input ctx → InScope exec.scope path ctx) ↔
      ∀ nav, entrypoint job.pipeline.root = some nav → StepPath.isToplevel nav.path = true) := by
  refine ⟨fun exec event h => poll_total h event, ?_, ?_⟩
  · intro h nav he
    obtain ⟨exec, step, ctx, hr, hcur, hf⟩ := first_reaches he
    have hin := h exec nav.path step job.start ctx hr hcur
    obtain ⟨d, hd, ha⟩ := (hin.active nav.path.dropLast).mpr List.prefix_rfl
    exact hf.toplevel_of_active hd ha
  · intro htop exec path step input ctx hr hcur
    have hi := reaches_invariant hr
    rw [Invariant, hcur] at hi
    exact inScope_of_current hi.1 (scheduled_current hi.1 htop) hi.2.2

def nestedFirstJob : Job ℕ ℕ Unit Unit ℕ where
  pipeline :=
    { root := Pipeline.default.withPipeline .loop (Pipeline.default.withStep 7)
      fits := Pipeline.fits_of_checkAll (by decide) }
  platformLimits := ⟨30000000, none, none, some 12000000000, ()⟩
  start := 0
  buildPayload := .ok

theorem nestedFirst_not_in_scope :
    ∃ exec ctx, Reaches nestedFirstJob exec ∧ exec.cursor = .stepInProgress [1, 1] 7 0 ctx ∧
      ctx.limits.deadline = some 12000000000 ∧ ctx.startedAt = none ∧
      (∀ now, ctx.deadlineReached now = false) ∧ ¬ InScope exec.scope [1, 1] ctx := by
  obtain ⟨scope, h₁, h₂⟩ : ∃ scope,
      poll nestedFirstJob (.initialized (.ok ()) 0) (run nestedFirstJob) =
        .ok ⟨.beforeStep [1, 1] 0, scope⟩ ∧
      poll nestedFirstJob .started ⟨.beforeStep [1, 1] 0, scope⟩ =
        .ok ⟨.stepInProgress [1, 1] 7 0 ⟨nestedFirstJob.platformLimits, none⟩, scope⟩ :=
    ⟨_, rfl, rfl⟩
  refine ⟨_, ⟨nestedFirstJob.platformLimits, none⟩, .poll _ (.poll _ .run h₁) h₂, rfl, rfl, rfl,
    fun _ => rfl, ?_⟩
  intro h
  exact absurd h.started (by decide)

end PipelineExecutor

end Rblib.Pipelines
