import Rblib.Pipelines.Simulation

/-! A pipeline without empty nested pipelines is executed as the structured program it stands for.
-/

namespace Rblib.Pipelines

open Library.OracleTrace Library.OracleTrace.Prog StepNavigator Pipeline

variable {σ κ Λ : Type}

lemma relocate_nil (nav : StepNavigator σ κ) : relocate [] nav = nav := rfl

lemma entryAt_nil (p : Pipeline σ κ) : entryAt [] p = entrypoint p := by
  simp only [entryAt, funext relocate_nil, Option.map_id']

theorem resume_entrypoint (report : StepPath → Λ) (t : PipelineTree σ κ)
    (h : unobstructed false .once t.root = true) (os : List Outcome) :
    resume report (.ok (entrypoint t.root)) os =
      .ok (runPipeline report t.root .once [] os).1 := by
  cases hs : t.root.hasStep with
  | false =>
    rw [entrypoint_stepless _ hs, run_stepless report _ _ _ hs, resume_none]
    rfl
  | true =>
    have hroot := simulated report t.fits t.root [] .once false .root hs h
      (fun _ => nextInParent_root t.root 0) os
    rw [entryAt_nil] at hroot
    have hend : ∀ rest, resume report (at_ [] t.root 0).nextInParent rest = .ok [] := by
      intro rest
      rw [nextInParent_root, resume_none]
    calc resume report (.ok (entrypoint t.root)) os
        = _ := hroot
      _ = (runPipeline report t.root .once []).andThen (fun _ _ => .ok []) os :=
        andThen_congr _ fun _ rest _ => hend rest
      _ = _ := andThen_nil _ os

lemma stateAt_label {S L M O ε : Type} (next : O → S → Except ε (Option S)) (f : S → L) (g : L → M)
    (start : Except ε (Option S)) (o : Stream' O) (n : ℕ) :
    ((stateAt next start o n).map (Option.map f)).map (Option.map g) =
      (stateAt next start o n).map (Option.map (g ∘ f)) := by
  rcases stateAt next start o n with e | s
  · rfl
  · simp [Except.map]

theorem navigatorVisit_report (report : StepPath → Λ) (t : PipelineTree σ κ)
    (h : unobstructed false .once t.root = true) (o : Stream' Outcome) (n : ℕ) :
    (navigatorVisit t.root o n).map (Option.map report) =
      .ok (runPipeline report t.root .once [] (o.take n)).1[n]? := by
  rw [navigatorVisit, stateAt_label]
  exact stateAt_of_drive _ _ n _ o _ (resume_entrypoint report t h (o.take n))

namespace Pipeline

lemma NoEmptyNested.nested {p q : Pipeline σ κ} {b : Behavior} (h : p.NoEmptyNested)
    (hq : .pipeline b q ∈ p.steps) : q.NoEmptyNested :=
  Everywhere.nested h hq

lemma NoEmptyNested.hasStep {p : Pipeline σ κ} (h : p.NoEmptyNested) (he : p.isEmpty = false) :
    p.hasStep = true := by
  induction p using nesting_induction with
  | h p ih =>
    cases p with
    | mk prologue epilogue steps limits =>
      rcases steps with _ | ⟨_ | ⟨b, q⟩, later⟩
      · cases prologue <;> cases epilogue <;> simp_all [Pipeline.isEmpty, Pipeline.hasStep]
      · simp [Pipeline.hasStep, anyStep]
      · have hm : .pipeline b q ∈ (mk prologue epilogue (.pipeline b q :: later) limits).steps := by
          simp
        have hs := ih b q hm (h.nested hm) (Everywhere.here h b q hm)
        simp [Pipeline.hasStep, anyStep, hs]

lemma unobstructedItems_of_nested {items : List (StepOrPipeline σ κ)} (rest : Bool)
    (h : ∀ b q, .pipeline b q ∈ items →
      q.hasStep = true ∧ ∀ rest, unobstructed rest b q = true) :
    unobstructedItems rest items = true := by
  induction items with
  | nil => rfl
  | cons item later ih =>
    have hl := ih fun b q hq => h b q (List.mem_cons_of_mem _ hq)
    cases item with
    | step s => simpa [unobstructedItems] using hl
    | pipeline b q =>
      obtain ⟨hs, hu⟩ := h b q List.mem_cons_self
      simp [unobstructedItems, hs, hu, hl]

lemma NoEmptyNested.unobstructed {p : Pipeline σ κ} (h : p.NoEmptyNested) (rest : Bool)
    (b : Behavior) : unobstructed rest b p = true := by
  induction p using nesting_induction generalizing rest b with
  | h p ih =>
    have hi : ∀ b q, .pipeline b q ∈ p.steps →
        q.hasStep = true ∧ ∀ rest, Pipeline.unobstructed rest b q = true := by
      intro b q hq
      exact ⟨(h.nested hq).hasStep (Everywhere.here h b q hq), fun r => ih b q hq (h.nested hq) r b⟩
    cases p with
    | mk prologue epilogue steps limits => exact unobstructedItems_of_nested _ hi

end Pipeline

theorem navigator_refines_structured (t : PipelineTree σ κ) (h : t.root.NoEmptyNested)
    (o : Stream' Outcome) (n : ℕ) :
    navigatorVisit t.root o n = .ok (structuredVisit t.root o n) := by
  have hv := navigatorVisit_report id t (h.unobstructed false .once) o n
  simpa [structuredVisit, structuredTrace, Except.map_id] using hv

def controlFlowTree : PipelineTree ℕ Unit where
  root := (default.withStep 0).withStep 1
    |>.withPipeline .loop ((((default.withPrologue 2).withStep 3).withPipeline .loop
        ((((default.withPrologue 4).withStep 5).withStep 6).withStep 7 |>.withEpilogue 8)).withStep 9
      |>.withPipeline .once ((((default.withStep 10).withStep 11).withStep 12).withEpilogue 13))
    |>.withStep 14 |>.withEpilogue 15
  fits := fits_of_checkAll (by decide)

def controlFlowOutcomes : Stream' Outcome :=
  [.ok, .ok, .ok, .ok, .ok, .ok, .ok, .ok, .ok, .brk, .ok, .ok, .ok, .brk, .ok, .ok, .brk, .ok,
    .brk, .ok, .ok] ++ₛ Stream'.const .ok

theorem navigator_refines_controlFlow :
    controlFlowTree.root.NoEmptyNested ∧
      navigatorVisit controlFlowTree.root controlFlowOutcomes 18 = .ok (some [3, 3]) ∧
      navigatorVisit controlFlowTree.root controlFlowOutcomes 21 = .ok none := by
  have hne : controlFlowTree.root.NoEmptyNested := noEmptyNested_of_checkAll (by decide)
  refine ⟨hne, ?_, ?_⟩
  · rw [navigator_refines_structured controlFlowTree hne]
    decide +kernel
  · rw [navigator_refines_structured controlFlowTree hne]
    decide +kernel

end Rblib.Pipelines
