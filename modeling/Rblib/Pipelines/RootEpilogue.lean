import Rblib.Pipelines.JobRuns
import Rblib.Pipelines.ScopeLimits

namespace Rblib.Pipelines

open Platform StepNavigator Scope

variable {σ Ck ε Err Pl : Type} [LimitExtension ε]

section Gas

variable {root p : Pipeline σ (ScopedLimits Ck ε)} {V : StepPath → Option (ScopeData Ck ε)} {d : ScopeData Ck ε}
  {s : StepPath}

lemma refreshed_gas_le (factory : Option (ScopedLimits Ck ε)) (checkpoint : Ck) (enclosing : Limits ε) :
    (refreshed factory checkpoint enclosing).gasLimit ≤ enclosing.gasLimit := min_le_right _ _

lemma applied_gas_le (factory : Option (ScopedLimits Ck ε)) (checkpoint : Ck) (enclosing : Limits ε) :
    (applied factory checkpoint enclosing).gasLimit ≤ enclosing.gasLimit := by
  cases factory with
  | none => exact le_rfl
  | some create => exact min_le_right _ _

lemma Composed.gas_le {platformLimits limits : Limits ε} (h : Composed root platformLimits V s p limits)
    (hd : V [] = some d) : limits.gasLimit ≤ (applied root.limits d.refreshedWith platformLimits).gasLimit := by
  induction h with
  | root hd' =>
    rw [hd] at hd'
    cases hd'
    exact le_rfl
  | nested _ _ _ ih => exact (applied_gas_le _ _ _).trans ih

lemma Tracks.gas_le {start : Ck} {rootLimits : Limits ε} {current : StepPath}
    (h : Tracks root start rootLimits V current) (hs : s <+: current) (hd : V s = some d) :
    d.limits.gasLimit ≤ rootLimits.gasLimit := by
  induction s using List.reverseRecOn generalizing d with
  | nil => rw [(h.top d hd).1]
  | append_singleton s i ih =>
    have hparent : s <+: current := (List.prefix_append s [i]).trans hs
    obtain ⟨ctx, q, b, hloc, rfl⟩ := h.located
    obtain ⟨ctx', q', b', hloc', rfl⟩ := hloc.ancestor hparent
    obtain ⟨e, he, -⟩ := h.shape ctx' q' b' hloc'
    rw [h.limits _ i e d hs he hd]
    exact (refreshed_gas_le _ _ _).trans (ih hparent he)

end Gas

namespace PipelineExecutor

variable {job : Job σ Ck ε Err Pl} {exec exec' : PipelineExecutor σ Ck ε Err Pl} {scope : RootScope Ck ε}

section Gas

variable [LawfulExtension ε]

lemma scheduled_gas_le {path : StepPath} (h : Scheduled job scope path) {limits : Limits ε}
    (hl : scope.limitsOf path = .ok (some limits)) :
    limits.gasLimit ≤ (applied job.pipeline.root.limits job.start job.platformLimits).gasLimit := by
  obtain ⟨nav, ⟨ctx, p, b, x, hloc, hx, rfl⟩, rfl, hc⟩ := h.executable
  by_cases hcur : ctx.path = scope.current
  · obtain ⟨d, hd, -⟩ := h.tracks.shape ctx p b hloc
    rw [RootScope.limitsOf_view hl hd]
    refine (h.tracks.gas_le (hcur ▸ List.prefix_rfl) hd).trans ?_
    rw [rootLimits_eq]
    exact applied_gas_le _ _ _
  · rcases hc with hc | hf
    · rw [scopeOf_at] at hc
      exact absurd (Except.ok.inj hc) hcur
    · -- the first step may stand in a nested scope that was never entered
      have hne : ctx.path ≠ [] := by
        intro hnil
        obtain ⟨_, now, hs⟩ := hf
        exact hcur (hnil.trans (enter_root_tracks _ _ _ hs).1.symm)
      obtain ⟨d, hd⟩ := h.tracks.exists_data List.nil_prefix
      have hcomp := (composed_first hloc hne hf hl).gas_le hd
      rwa [(h.tracks.top d hd).2] at hcomp

theorem gas_within_root (hr : Reaches job exec) {path : StepPath} {step : σ} {input : Ck} {ctx : StepContext ε}
    (hc : exec.cursor = .stepInProgress path step input ctx) :
    ctx.limits.gasLimit ≤ (applied job.pipeline.root.limits job.start job.platformLimits).gasLimit := by
  have hi := reaches_invariant hr
  rw [Invariant, hc] at hi
  exact scheduled_gas_le hi.1 hi.2.1

end Gas

section Epilogue

lemma executeStep_stands {path : StepPath} (h : Scheduled job scope path) {step : σ} {ctx : StepContext ε}
    (he : executeStep job scope path = .ok (step, ctx)) : StandsAt job.pipeline.root (path, step) := by
  obtain ⟨nav, hx, rfl, -⟩ := h.executable
  refine ⟨nav, hx, rfl, ?_⟩
  rw [executeStep] at he
  obtain ⟨limits, -, he⟩ := Library.bind_eq_ok.mp he
  cases limits with
  | none => cases he
  | some limits =>
    obtain ⟨target, hnav, he⟩ := Library.bind_eq_ok.mp he
    rw [navigator_executable job.pipeline.fits hx] at hnav
    cases hnav
    obtain ⟨found, hfound, he⟩ := Library.bind_eq_ok.mp he
    obtain ⟨startedAt, -, he⟩ := Library.bind_eq_ok.mp he
    cases he
    exact hfound

lemma reaches_stands (hr : Reaches job exec) {path : StepPath} {step : σ} {input : Ck} {ctx : StepContext ε}
    (hc : exec.cursor = .stepInProgress path step input ctx) : StandsAt job.pipeline.root (path, step) := by
  induction hr generalizing path step input ctx with
  | run => cases hc
  | @poll exec exec' event hr hp ih =>
    cases poll_turn hp with
    | idle => exact ih hc
    | aborted e scope now => cases hc
    | first hx =>
      obtain ⟨-, rfl⟩ | ⟨nav, scope', -, rfl⟩ := firstStep_cases hx <;>
      cases hc
    | started hx =>
      cases hc
      exact executeStep_stands (reaches_invariant hr) hx
    | ready hx =>
      obtain ⟨e, -, rfl⟩ | ⟨ck, -, rfl | ⟨path', scope', rfl⟩⟩ := advanceCursor_cases hx <;>
      cases hc
    | finalized hx =>
      obtain ⟨e, -, rfl⟩ | ⟨-, -, rfl⟩ | ⟨scope', -, -, rfl⟩ := finalized_cases hx <;>
      cases hc

omit [LimitExtension ε] in
lemma stands_epilogue {step : σ} (h : StandsAt job.pipeline.root (StepPath.epilogue, step)) :
    StepPath.navigator StepPath.epilogue job.pipeline.root = .ok (some (at_ [] job.pipeline.root EPILOGUE_INDEX)) ∧
      job.pipeline.root.epilogue = some step := by
  obtain ⟨nav, hx, hpath, hi⟩ := h
  have hnav := navigator_executable job.pipeline.fits hx
  obtain ⟨ctx, p, b, x, hloc, hx, rfl⟩ := hx
  have hends : ctx.path ++ [x] = [] ++ [EPILOGUE_INDEX] := hpath
  obtain ⟨hctx, hx'⟩ := List.append_inj' hends rfl
  cases hx'
  cases hloc with
  | nested _ _ =>
    rw [Context.path_concat] at hctx
    simp at hctx
  | root =>
    refine ⟨hnav, ?_⟩
    generalize hindex : EPILOGUE_INDEX = x at hx
    cases hx with
    | prologue _ => exact absurd hindex epilogue_ne_prologue
    | epilogue hs =>
      rw [stepInstance_epilogue [] hs] at hi
      rw [hs, Except.ok.inj hi]
    | step hs =>
      have hfit := (Located.root.everywhere job.pipeline.fits).here
      exact absurd hindex.symm (index_ne_epilogue hfit (List.getElem?_eq_some_iff.mp hs).1)

lemma advanceCursor_epilogue {step : σ} (hstands : StandsAt job.pipeline.root (StepPath.epilogue, step))
    {output : ControlFlow Ck Err} {now : ℕ}
    (h : advanceCursor job scope StepPath.epilogue output now = .ok exec') :
    exec'.cursor.payload = none := by
  obtain ⟨hnav, -⟩ := stands_epilogue hstands
  obtain ⟨target, htarget, h⟩ := Library.bind_eq_ok.mp h
  rw [hnav] at htarget
  cases htarget
  cases output with
  | fail e =>
    cases h
    rfl
  | brk c =>
    obtain ⟨next, hnext, h⟩ := Library.bind_eq_ok.mp h
    rw [nextBreak_epilogue, nextInParent_root] at hnext
    cases hnext
    cases h
    rfl
  | ok c =>
    obtain ⟨next, hnext, h⟩ := Library.bind_eq_ok.mp h
    rw [nextOk_epilogue, nextInParent_root] at hnext
    cases hnext
    cases h
    rfl

/-- `q` of the payload that is passed on, `last` of the one that the result is built from. -/
structure EndsWith (job : Job σ Ck ε Err Pl) (q last : Ck → Prop) (cursor : Cursor σ Ck ε Err Pl) : Prop where
  payload : ∀ ck, cursor.payload = some ck → q ck
  built : ∀ pl, cursor.output = some (.ok pl) → ∃ ck, last ck ∧ job.buildPayload ck = .ok pl

variable {returns : σ → StepContext ε → Ck → ControlFlow Ck Err → Prop} {q last : Ck → Prop}

omit [LimitExtension ε] in
lemma endsWith_scheduled {path : StepPath} {ck : Ck} (h : q ck) : EndsWith job q last (.beforeStep path ck) :=
  ⟨fun _ hp => Option.some.inj hp ▸ h, fun _ hb => by cases hb⟩

omit [LimitExtension ε] in
lemma endsWith_built {ck : Ck} (h : last ck) : EndsWith job q last (.finalizing (job.buildPayload ck)) :=
  ⟨fun _ hp => (by cases hp), fun _ hb => ⟨ck, h, Option.some.inj hb⟩⟩

omit [LimitExtension ε] in
lemma endsWith_failed {cursor : Cursor σ Ck ε Err Pl} {e : Err} (h : cursor.output = some (.error e)) :
    EndsWith job q last cursor := by
  cases cursor with
  | finalizing output => exact ⟨fun _ hp => (by cases hp), fun _ hb => by cases h.symm.trans hb⟩
  | completed output => exact ⟨fun _ hp => (by cases hp), fun _ hb => by cases h.symm.trans hb⟩
  | _ => cases h

lemma JobRun.until_epilogue (hstart : q job.start) (hlast : ∀ ck, q ck → last ck)
    (hq : ∀ path step ctx input output ck, StandsAt job.pipeline.root (path, step) → path ≠ StepPath.epilogue →
      returns step ctx input output → output.checkpoint = some ck → q input → q ck)
    (hepilogue : ∀ step ctx input output ck, job.pipeline.root.epilogue = some step →
      returns step ctx input output →
      output.checkpoint = some ck → q input → last ck)
    (h : JobRun returns job exec) : EndsWith job q last exec.cursor := by
  induction h with
  | refl => exact ⟨fun _ hp => (by cases hp), fun _ hb => by cases hb⟩
  | @tail exec exec' hrun hstep ih =>
    obtain ⟨event, hp, hreturns⟩ := hstep
    cases poll_turn hp with
    | idle => exact ih
    | aborted e scope now => exact endsWith_failed rfl
    | first hx =>
      obtain ⟨-, rfl⟩ | ⟨nav, scope', -, rfl⟩ := firstStep_cases hx
      · exact endsWith_built (hlast _ hstart)
      · exact endsWith_scheduled hstart
    | started hx => exact ⟨ih.payload, fun _ hb => by cases hb⟩
    | @ready path step input ctx scope output now exec' hx =>
      have hstands := reaches_stands (JobRun.reaches hrun) rfl
      have hinput := ih.payload input rfl
      have hreturned := hreturns output now path step input ctx rfl rfl
      by_cases hpath : path = StepPath.epilogue
      · subst hpath
        have hnone := advanceCursor_epilogue hstands hx
        obtain ⟨e, -, rfl⟩ | ⟨ck, hck, rfl | ⟨path', scope', rfl⟩⟩ := advanceCursor_cases hx
        · exact endsWith_failed rfl
        · exact endsWith_built (hepilogue step ctx input output ck (stands_epilogue hstands).2
            hreturned hck hinput)
        · cases hnone
      · obtain ⟨e, -, rfl⟩ | ⟨ck, hck, hnext⟩ := advanceCursor_cases hx
        · exact endsWith_failed rfl
        · have hkept := hq path step ctx input output ck hstands hpath hreturned hck hinput
          obtain rfl | ⟨path', scope', rfl⟩ := hnext
          · exact endsWith_built (hlast ck hkept)
          · exact endsWith_scheduled hkept
    | finalized hx =>
      obtain ⟨e, -, rfl⟩ | ⟨-, -, rfl⟩ | ⟨scope', -, -, rfl⟩ := finalized_cases hx
      · exact endsWith_failed rfl
      · exact ⟨fun _ hp => (by cases hp), ih.built⟩
      · exact ⟨fun _ hp => (by cases hp), ih.built⟩

end Epilogue

end PipelineExecutor

end Rblib.Pipelines
