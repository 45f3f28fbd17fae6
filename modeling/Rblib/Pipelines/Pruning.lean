import Rblib.Pipelines.Refinement

/-! Removing the nested pipelines that contain no step. -/

namespace Rblib.Pipelines

open Library.OracleTrace Library.OracleTrace.Prog StepNavigator

variable {σ κ Λ : Type}

namespace Pipeline

mutual

def prune : Pipeline σ κ → Pipeline σ κ
  | mk prologue epilogue steps limits => mk prologue epilogue (pruneItems steps) limits

def pruneItems : List (StepOrPipeline σ κ) → List (StepOrPipeline σ κ)
  | [] => []
  | .step s :: later => .step s :: pruneItems later
  | .pipeline b p :: later =>
    if hasStep p then .pipeline b (prune p) :: pruneItems later else pruneItems later

end

def kept (items : List (StepOrPipeline σ κ)) (i : ℕ) : ℕ := (pruneItems (items.take i)).length

def renumber : Pipeline σ κ → StepPath → StepPath
  | _, [] => []
  | p, i :: rest =>
    if i = PROLOGUE_INDEX ∨ i = EPILOGUE_INDEX then i :: rest
    else (kept p.steps (i - STEP0_INDEX) + STEP0_INDEX) ::
      match p.steps[i - STEP0_INDEX]? with
      | some (.pipeline _ q) => renumber q rest
      | _ => rest

lemma pruneItems_append (l m : List (StepOrPipeline σ κ)) :
    pruneItems (l ++ m) = pruneItems l ++ pruneItems m := by
  induction l with
  | nil => rfl
  | cons item l ih =>
    cases item with
    | step s => simp [pruneItems, ih]
    | pipeline b p => by_cases hp : p.hasStep <;> simp [pruneItems, hp, ih]

lemma kept_zero (items : List (StepOrPipeline σ κ)) : kept items 0 = 0 := rfl

lemma kept_succ {items : List (StepOrPipeline σ κ)} {i : ℕ} {item : StepOrPipeline σ κ}
    (h : items[i]? = some item) :
    kept items (i + 1) = kept items i + (pruneItems [item]).length := by
  simp [kept, List.take_add_one, h, pruneItems_append]

lemma pruneItems_length_le (items : List (StepOrPipeline σ κ)) :
    (pruneItems items).length ≤ items.length := by
  induction items with
  | nil => exact le_rfl
  | cons item later ih =>
    cases item with
    | step s => simpa [pruneItems] using ih
    | pipeline b p =>
      by_cases hp : p.hasStep
      · simpa [pruneItems, hp] using ih
      · simp only [pruneItems, hp, Bool.false_eq_true, if_false, List.length_cons]
        omega

mutual

lemma hasStep_prune : ∀ p : Pipeline σ κ, (prune p).hasStep = p.hasStep
  | mk prologue epilogue steps limits => by
    simp only [prune, hasStep, anyStep_pruneItems steps]

lemma anyStep_pruneItems : ∀ items : List (StepOrPipeline σ κ),
    anyStep (pruneItems items) = anyStep items
  | [] => rfl
  | .step s :: later => rfl
  | .pipeline b p :: later => by
    cases hp : p.hasStep with
    | true => simp only [pruneItems, hp, if_true, anyStep, hasStep_prune p, Bool.true_or]
    | false =>
      simp only [pruneItems, hp, Bool.false_eq_true, if_false, anyStep, Bool.false_or]
      exact anyStep_pruneItems later

end

lemma mem_pruneItems {items : List (StepOrPipeline σ κ)} {b : Behavior} {r : Pipeline σ κ}
    (h : .pipeline b r ∈ pruneItems items) :
    ∃ q, .pipeline b q ∈ items ∧ q.hasStep = true ∧ r = prune q := by
  induction items with
  | nil => cases h
  | cons item later ih =>
    cases item with
    | step s =>
      obtain ⟨q, hq, hs, rfl⟩ := ih (by simpa [pruneItems] using h)
      exact ⟨q, List.mem_cons_of_mem _ hq, hs, rfl⟩
    | pipeline b' p =>
      by_cases hp : p.hasStep = true
      · rw [pruneItems, if_pos hp] at h
        rcases List.mem_cons.mp h with he | hm
        · cases he
          exact ⟨p, List.mem_cons_self, hp, rfl⟩
        · obtain ⟨q, hq, hs, rfl⟩ := ih hm
          exact ⟨q, List.mem_cons_of_mem _ hq, hs, rfl⟩
      · rw [pruneItems, if_neg hp] at h
        obtain ⟨q, hq, hs, rfl⟩ := ih h
        exact ⟨q, List.mem_cons_of_mem _ hq, hs, rfl⟩

lemma steps_prune (p : Pipeline σ κ) : (prune p).steps = pruneItems p.steps := by
  cases p
  rfl

lemma prune_fits {p : Pipeline σ κ} (h : p.Everywhere FitsVec) : (prune p).Everywhere FitsVec := by
  induction p using nesting_induction with
  | h p ih =>
    refine .intro ?_ ?_
    · have hl := pruneItems_length_le p.steps
      rw [FitsVec, steps_prune]
      exact hl.trans h.here
    · intro b r hr
      rw [steps_prune] at hr
      obtain ⟨q, hq, _, rfl⟩ := mem_pruneItems hr
      exact ih b q hq (h.nested hq)

lemma isEmpty_of_hasStep {p : Pipeline σ κ} (h : p.hasStep = true) : p.isEmpty = false := by
  cases p with
  | mk prologue epilogue steps limits =>
    cases prologue <;> cases epilogue <;> cases steps <;>
      simp_all [hasStep, Pipeline.isEmpty, anyStep]

lemma prune_noEmptyNested (p : Pipeline σ κ) : (prune p).NoEmptyNested := by
  induction p using nesting_induction with
  | h p ih =>
    refine .intro ?_ ?_
    · intro b r hr
      rw [steps_prune] at hr
      obtain ⟨q, hq, hs, rfl⟩ := mem_pruneItems hr
      exact isEmpty_of_hasStep (by rw [hasStep_prune, hs])
    · intro b r hr
      rw [steps_prune] at hr
      obtain ⟨q, hq, _, rfl⟩ := mem_pruneItems hr
      exact ih b q hq

lemma renumber_prologue (p : Pipeline σ κ) : renumber p [PROLOGUE_INDEX] = [PROLOGUE_INDEX] := by
  simp [renumber]

lemma renumber_epilogue (p : Pipeline σ κ) : renumber p [EPILOGUE_INDEX] = [EPILOGUE_INDEX] := by
  simp [renumber]

lemma renumber_item {p : Pipeline σ κ} (hfit : FitsVec p) {i : ℕ} (hi : i < p.steps.length)
    (rest : StepPath) :
    renumber p ((i + STEP0_INDEX) :: rest) = (kept p.steps i + STEP0_INDEX) ::
      match p.steps[i]? with
      | some (.pipeline _ q) => renumber q rest
      | _ => rest := by
  have he : i + STEP0_INDEX ≠ EPILOGUE_INDEX := index_ne_epilogue hfit hi
  have hp : i + STEP0_INDEX ≠ PROLOGUE_INDEX := Nat.succ_ne_zero i
  rw [renumber, if_neg (not_or.mpr ⟨hp, he⟩), Nat.add_sub_cancel]

section Run

variable {report report' : StepPath → Λ}

def Renumbers (report report' : StepPath → Λ) (p : Pipeline σ κ) (pos pos' : StepPath) : Prop :=
  ∀ r, report (pos ++ r) = report' (pos' ++ renumber p r)

lemma Renumbers.nested {p q : Pipeline σ κ} {pos pos' : StepPath}
    (h : Renumbers report report' p pos pos') (hfit : FitsVec p) {i : ℕ} {b : Behavior}
    (hi : p.steps[i]? = some (.pipeline b q)) :
    Renumbers report report' q (pos ++ [i + STEP0_INDEX])
      (pos' ++ [kept p.steps i + STEP0_INDEX]) := by
  intro r
  have hr := h ((i + STEP0_INDEX) :: r)
  rw [renumber_item hfit (List.getElem?_eq_some_iff.mp hi).1, hi] at hr
  simpa only [List.append_assoc, List.singleton_append] using hr

lemma Renumbers.step {p : Pipeline σ κ} {pos pos' : StepPath}
    (h : Renumbers report report' p pos pos') (hfit : FitsVec p) {i : ℕ} {s : σ}
    (hi : p.steps[i]? = some (.step s)) :
    report (pos ++ [i + STEP0_INDEX]) = report' (pos' ++ [kept p.steps i + STEP0_INDEX]) := by
  have hr := h [i + STEP0_INDEX]
  rwa [renumber_item hfit (List.getElem?_eq_some_iff.mp hi).1, hi] at hr

lemma items_prune {p : Pipeline σ κ} {pos pos' : StepPath} (hfit : FitsVec p)
    (h : Renumbers report report' p pos pos')
    (ih : ∀ b q, .pipeline b q ∈ p.steps → ∀ pos pos', Renumbers report report' q pos pos' →
      runPipeline report q b pos = runPipeline report' (prune q) b pos')
    (items : List (StepOrPipeline σ κ)) (i : ℕ) (hd : p.steps.drop i = items) :
    runItems report items i pos = runItems report' (pruneItems items) (kept p.steps i) pos' := by
  induction items generalizing i with
  | nil => rfl
  | cons item later hl =>
    obtain ⟨hi, hd'⟩ := drop_eq_cons hd
    have hk := kept_succ hi
    have hlater := hl (i + 1) hd'
    cases item with
    | step s =>
      change _ = kept p.steps i + 1 at hk
      simp only [runItems, pruneItems, h.step hfit hi, hlater, hk]
    | pipeline b q =>
      by_cases hs : q.hasStep = true
      · have hq := ih b q (List.mem_of_getElem? hi) _ _ (h.nested hfit hi)
        simp only [pruneItems, hs, if_true, List.length_singleton] at hk
        simp only [runItems, pruneItems, hs, if_true, hlater, hk, hq]
      · simp only [pruneItems, hs, Bool.false_eq_true, if_false, List.length_nil, add_zero] at hk
        simp only [runItems, pruneItems, hs, Bool.false_eq_true, if_false, hlater, hk,
          run_stepless report q b _ (by simpa using hs), bind_of_pure]

theorem run_prune {p : Pipeline σ κ} (hfit : p.Everywhere FitsVec) (b : Behavior)
    (pos pos' : StepPath) (h : Renumbers report report' p pos pos') :
    runPipeline report p b pos = runPipeline report' (prune p) b pos' := by
  induction p using nesting_induction generalizing b pos pos' with
  | h p ih =>
    have hitems := items_prune hfit.here h
      (fun b q hq pos pos' hr => ih b q hq (hfit.nested hq) b pos pos' hr) p.steps 0 rfl
    have hpro := h [PROLOGUE_INDEX]
    have hepi := h [EPILOGUE_INDEX]
    rw [renumber_prologue] at hpro
    rw [renumber_epilogue] at hepi
    cases p with
    | mk prologue epilogue steps limits =>
      rw [prune, runPipeline, runPipeline, anyStep_pruneItems]
      simp only [steps_mk, kept_zero] at hitems
      simp only [hitems, runPrologue, runEpilogue, prologue_mk, epilogue_mk, hpro, hepi]

end Run

def pruned (t : PipelineTree σ κ) : PipelineTree σ κ := ⟨prune t.root, prune_fits t.fits⟩

theorem run_renumber (t : PipelineTree σ κ) :
    runPipeline (renumber t.root) t.root .once [] = runPipeline id (prune t.root) .once [] :=
  run_prune t.fits .once [] [] fun _ => rfl

end Pipeline

end Rblib.Pipelines
