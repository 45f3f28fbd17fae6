import Rblib.Pipelines.PayloadRuns

/-! Runs of a whole job. -/

namespace Rblib.Pipelines.PipelineExecutor

open Platform

variable {σ Ck ε Err Pl : Type} [LimitExtension ε] {job : Job σ Ck ε Err Pl}
  {exec exec' : PipelineExecutor σ Ck ε Err Pl} {returns : σ → StepContext ε → Ck → ControlFlow Ck Err → Prop}

def JobRun (returns : σ → StepContext ε → Ck → ControlFlow Ck Err → Prop) (job : Job σ Ck ε Err Pl)
    (exec : PipelineExecutor σ Ck ε Err Pl) : Prop :=
  Relation.ReflTransGen (Follows returns job) (run job) exec

lemma JobRun.reaches (h : JobRun returns job exec) : Reaches job exec := by
  induction h with
  | refl => exact .run
  | tail _ hstep ih =>
    obtain ⟨event, hp, -⟩ := hstep
    exact .poll event ih hp

lemma carries_first {q : Ck → Prop} (hstart : q job.start) (h : exec.cursor = .initializing)
    (hf : Follows returns job exec exec') : exec'.cursor = .initializing ∨ Carries job q exec'.cursor := by
  obtain ⟨event, hp, -⟩ := hf
  cases poll_turn hp with
  | idle => exact .inl h
  | aborted e scope now => exact .inr (carries_failed q rfl)
  | first hp =>
    right
    obtain ⟨-, rfl⟩ | ⟨nav, scope', -, rfl⟩ := firstStep_cases hp
    · exact carries_output rfl fun pl hpl => ⟨job.start, hstart, hpl⟩
    · exact carries_payload rfl hstart
  | started hp => cases h
  | ready hp => cases h
  | finalized hp => cases h

lemma JobRun.carries {q : Ck → Prop} (hstart : q job.start)
    (hq : ∀ step ctx input output ck, returns step ctx input output → output.checkpoint = some ck →
      q input → q ck)
    (h : JobRun returns job exec) : exec.cursor = .initializing ∨ Carries job q exec.cursor := by
  induction h with
  | refl => exact .inl rfl
  | tail _ hstep ih =>
    obtain hinit | hcarries := ih
    · exact carries_first hstart hinit hstep
    · exact .inr (carries_poll hq hstep hcarries)

lemma JobRun.payload {q : Ck → Prop} (hstart : q job.start)
    (hq : ∀ step ctx input output ck, returns step ctx input output → output.checkpoint = some ck →
      q input → q ck)
    (h : JobRun returns job exec) {ck : Ck} (hck : exec.cursor.payload = some ck) : q ck := by
  obtain hinit | hcarries := h.carries hstart hq
  · rw [hinit] at hck
    cases hck
  · exact hcarries.payload ck hck

lemma JobRun.built {q : Ck → Prop} (hstart : q job.start)
    (hq : ∀ step ctx input output ck, returns step ctx input output → output.checkpoint = some ck →
      q input → q ck)
    (h : JobRun returns job exec) {pl : Pl} (hpl : exec.cursor.output = some (.ok pl)) :
    ∃ ck, q ck ∧ job.buildPayload ck = .ok pl := by
  obtain hinit | hcarries := h.carries hstart hq
  · rw [hinit] at hpl
    cases hpl
  · exact hcarries.built pl hpl

lemma JobRun.strengthen {good : σ → StepContext ε → Prop}
    (hgood : ∀ exec path step input ctx, Reaches job exec → exec.cursor = .stepInProgress path step input ctx →
      good step ctx)
    (h : JobRun returns job exec) :
    JobRun (fun step ctx input output => returns step ctx input output ∧ good step ctx) job exec := by
  induction h with
  | refl => exact .refl
  | @tail exec exec' hrun hstep ih =>
    refine ih.tail ?_
    obtain ⟨event, hp, hreturns⟩ := hstep
    refine ⟨event, hp, fun output now path step input ctx he hc =>
      ⟨hreturns output now path step input ctx he hc, ?_⟩⟩
    exact hgood exec path step input ctx (JobRun.reaches hrun) hc

/-- The job has not got past the prologue of its pipeline. -/
inductive Opening (job : Job σ Ck ε Err Pl) (first : σ) : Cursor σ Ck ε Err Pl → Prop
  | initializing : Opening job first .initializing
  | beforeStep : Opening job first (.beforeStep StepPath.prologue job.start)
  | stepInProgress (ctx : StepContext ε) :
      Opening job first (.stepInProgress StepPath.prologue first job.start ctx)

section Prologue

variable {first : σ} (hprologue : job.pipeline.root.prologue = some first)

include hprologue

omit [LimitExtension ε] in
lemma entrypoint_prologue :
    ∃ ancestors, StepNavigator.entrypoint job.pipeline.root = some ⟨StepPath.prologue, ancestors⟩ := by
  cases hroot : job.pipeline.root with
  | mk prologue epilogue steps limits =>
    rw [hroot, Pipeline.prologue_mk] at hprologue
    subst hprologue
    refine ⟨[.mk (some first) epilogue steps limits], ?_⟩
    rw [StepNavigator.entrypoint.eq_def]
    rfl

omit [LimitExtension ε] in
lemma executeStep_prologue {scope : RootScope Ck ε} {step : σ} {ctx : StepContext ε}
    (h : executeStep job scope StepPath.prologue = .ok (step, ctx)) : step = first := by
  rw [executeStep] at h
  obtain ⟨limits, -, h⟩ := Library.bind_eq_ok.mp h
  cases limits with
  | none => cases h
  | some limits =>
    obtain ⟨navi, hnavi, h⟩ := Library.bind_eq_ok.mp h
    have hpath : StepPath.navigator StepPath.prologue job.pipeline.root =
        .ok (some ⟨StepPath.prologue, [job.pipeline.root]⟩) := by
      cases hroot : job.pipeline.root with
      | mk prologue epilogue steps limits =>
        rw [hroot, Pipeline.prologue_mk] at hprologue
        subst hprologue
        rfl
    obtain rfl := Except.ok.inj (hpath.symm.trans hnavi)
    obtain ⟨found, hfound, h⟩ := Library.bind_eq_ok.mp h
    have hfirst : StepNavigator.stepInstance ⟨StepPath.prologue, [job.pipeline.root]⟩ = .ok first := by
      cases hroot : job.pipeline.root with
      | mk prologue epilogue steps limits =>
        rw [hroot, Pipeline.prologue_mk] at hprologue
        subst hprologue
        rfl
    obtain rfl := Except.ok.inj (hfirst.symm.trans hfound)
    obtain ⟨startedAt, -, h⟩ := Library.bind_eq_ok.mp h
    cases h
    rfl

lemma opening_poll {q : Ck → Prop}
    (hfirst : ∀ ctx output ck, returns first ctx job.start output → output.checkpoint = some ck → q ck)
    (hf : Follows returns job exec exec') (h : Opening job first exec.cursor) :
    Opening job first exec'.cursor ∨ Carries job q exec'.cursor := by
  obtain ⟨event, hp, hreturns⟩ := hf
  cases poll_turn hp with
  | idle => exact .inl h
  | aborted e scope now => exact .inr (carries_failed q rfl)
  | first hx =>
    obtain ⟨ancestors, hentry⟩ := entrypoint_prologue hprologue
    obtain ⟨hnone, -⟩ | ⟨nav, scope', hsome, rfl⟩ := firstStep_cases hx
    · rw [hentry] at hnone
      cases hnone
    · obtain rfl := Option.some.inj (hentry.symm.trans hsome)
      exact .inl .beforeStep
  | started hx =>
    cases h
    rw [executeStep_prologue hprologue hx]
    exact .inl (.stepInProgress _)
  | @ready path step input ctx scope output now exec' hx =>
    right
    cases h
    obtain ⟨e, -, rfl⟩ | ⟨ck, hck, hnext⟩ := advanceCursor_cases hx
    · exact carries_failed q rfl
    · have hq := hfirst ctx output ck (hreturns _ _ _ _ _ _ rfl rfl) hck
      obtain rfl | ⟨path', scope', rfl⟩ := hnext
      · exact carries_output rfl fun pl hpl => ⟨ck, hq, hpl⟩
      · exact carries_payload rfl hq
  | finalized hx => cases h

lemma JobRun.after_prologue {q : Ck → Prop}
    (hfirst : ∀ ctx output ck, returns first ctx job.start output → output.checkpoint = some ck → q ck)
    (hq : ∀ step ctx input output ck, returns step ctx input output → output.checkpoint = some ck →
      q input → q ck)
    (h : JobRun returns job exec) : Opening job first exec.cursor ∨ Carries job q exec.cursor := by
  induction h with
  | refl => exact .inl .initializing
  | tail _ hstep ih =>
    obtain hopening | hcarries := ih
    · exact opening_poll hprologue hfirst hstep hopening
    · exact .inr (carries_poll hq hstep hcarries)

end Prologue

end Rblib.Pipelines.PipelineExecutor
