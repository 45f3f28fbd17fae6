import Rblib.Pipelines.Structured

/-! Which parts of a pipeline a run can get past. A nested pipeline without any step obstructs the
navigator unless nothing is left to run after it; `unobstructed rest b p` checks this for everything
a run of `p` can reach, where `rest` says whether a step is left to run once `p` is over. -/

namespace Rblib.Pipelines

open Library.OracleTrace Library.OracleTrace.Prog

variable {σ κ Λ : Type}

namespace Pipeline

mutual

def canExit : Behavior → Pipeline σ κ → Bool
  | b, mk prologue _ steps _ => prologue.isSome || itemsExit (b == .loop && anyStep steps) steps

def itemsExit (repeats : Bool) : List (StepOrPipeline σ κ) → Bool
  | [] => !repeats
  | .step _ :: _ => true
  | .pipeline b p :: later => canExit b p && itemsExit repeats later

end

mutual

def unobstructed (rest : Bool) (b : Behavior) : Pipeline σ κ → Bool
  | mk _ epilogue steps _ =>
    unobstructedItems (rest || epilogue.isSome || (b == .loop && anyStep steps)) steps

def unobstructedItems (rest : Bool) : List (StepOrPipeline σ κ) → Bool
  | [] => true
  | .step _ :: later => unobstructedItems rest later
  | .pipeline b p :: later =>
    (hasStep p || !(rest || anyStep later)) && unobstructed (rest || anyStep later) b p &&
      (!canExit b p || unobstructedItems rest later)

end

variable (report : StepPath → Λ)

lemma run_without_prologue (epilogue : Option σ) (steps : List (StepOrPipeline σ κ))
    (limits : Option κ) (b : Behavior) (pos : StepPath) :
    runPipeline report (mk none epilogue steps limits) b pos =
      runBody b (anyStep steps) (runItems report steps 0 pos) >>= fun _ =>
        runEpilogue report (mk none epilogue steps limits) pos := by
  rw [runPipeline]
  rfl

mutual

lemma run_stepless : ∀ (p : Pipeline σ κ) (b : Behavior) (pos : StepPath), p.hasStep = false →
    runPipeline report p b pos = pure ()
  | mk prologue epilogue steps _, b, pos, h => by
    simp only [hasStep, Bool.or_eq_false_iff, Option.isSome_eq_false_iff, Option.isNone_iff_eq_none] at h
    obtain ⟨⟨rfl, rfl⟩, hs⟩ := h
    simp only [runPipeline, runPrologue, runEpilogue, runBody, prologue_mk, epilogue_mk, hs,
      items_stepless steps 0 pos hs, Bool.false_eq_true, and_false, if_false, bind_of_pure, if_true]

lemma items_stepless : ∀ (items : List (StepOrPipeline σ κ)) (i : ℕ) (pos : StepPath),
    anyStep items = false → runItems report items i pos = pure true
  | [], _, _, _ => rfl
  | .pipeline b p :: later, i, pos, h => by
    simp only [anyStep, Bool.or_eq_false_iff] at h
    simp only [runItems, run_stepless p b _ h.1, items_stepless later (i + 1) pos h.2]
    rfl

end

lemma consuming_prologue (p : Pipeline σ κ) (pos : StepPath) :
    Consuming (runPrologue report p pos) := by
  unfold runPrologue
  cases p.prologue with
  | none => exact consuming_pure true
  | some s => exact (productive_visit _).consuming.bind fun _ => consuming_pure _

lemma consuming_epilogue (p : Pipeline σ κ) (pos : StepPath) :
    Consuming (runEpilogue report p pos) := by
  unfold runEpilogue
  cases p.epilogue with
  | none => exact consuming_pure ()
  | some s => exact (productive_visit _).consuming.bind fun _ => consuming_pure ()

lemma consuming_body {b : Behavior} {repeats : Bool} {items : Prog Λ Outcome Bool}
    (h : Consuming items) : Consuming (runBody b repeats items) := by
  unfold runBody
  split
  · exact h.loop
  · exact h.bind fun _ => consuming_pure ()

mutual

lemma consuming_run : ∀ (p : Pipeline σ κ) (b : Behavior) (pos : StepPath),
    Consuming (runPipeline report p b pos)
  | mk prologue epilogue steps limits, b, pos => by
    rw [runPipeline]
    refine (consuming_prologue report _ pos).bind fun proceed => Consuming.bind ?_ fun _ =>
      consuming_epilogue report _ pos
    cases proceed with
    | false => exact consuming_pure ()
    | true => exact consuming_body (consuming_items steps 0 pos)

lemma consuming_items : ∀ (items : List (StepOrPipeline σ κ)) (i : ℕ) (pos : StepPath),
    Consuming (runItems report items i pos)
  | [], _, _ => consuming_pure true
  | .step _ :: later, i, pos => by
    rw [runItems]
    refine (productive_visit _).consuming.bind fun o => ?_
    cases o with
    | brk => exact consuming_pure false
    | ok => exact consuming_items later (i + 1) pos
  | .pipeline b p :: later, i, pos => by
    rw [runItems]
    exact (consuming_run p b _).bind fun _ => consuming_items later (i + 1) pos

end

lemma productive_body {b : Behavior} {repeats : Bool} {items : Prog Λ Outcome Bool}
    (h : Productive items) : Productive (runBody b repeats items) := by
  unfold runBody
  split
  · exact h.loop
  · exact h.bind_left fun _ => consuming_pure ()

mutual

lemma productive_run : ∀ (p : Pipeline σ κ) (b : Behavior) (pos : StepPath), p.hasStep = true →
    Productive (runPipeline report p b pos)
  | mk prologue epilogue steps limits, b, pos, h => by
    have hb : Consuming (runBody b (anyStep steps) (runItems report steps 0 pos)) :=
      consuming_body (consuming_items report steps 0 pos)
    cases prologue with
    | some s =>
      rw [runPipeline]
      refine Productive.bind_left ?_ fun proceed => Consuming.bind ?_ fun _ =>
        consuming_epilogue report _ pos
      · exact (productive_visit _).bind_left fun _ => consuming_pure _
      · cases proceed with
        | false => exact consuming_pure ()
        | true => exact hb
    | none =>
      rw [run_without_prologue]
      cases epilogue with
      | some s =>
        exact Productive.bind_right hb fun _ =>
          (productive_visit _).bind_left fun _ => consuming_pure ()
      | none =>
        have hs : anyStep steps = true := by simpa [hasStep] using h
        exact (productive_body (productive_items steps 0 pos hs)).bind_left fun _ =>
          consuming_pure ()

lemma productive_items : ∀ (items : List (StepOrPipeline σ κ)) (i : ℕ) (pos : StepPath),
    anyStep items = true → Productive (runItems report items i pos)
  | .step _ :: later, i, pos, _ => by
    rw [runItems]
    refine (productive_visit _).bind_left fun o => ?_
    cases o with
    | brk => exact consuming_pure false
    | ok => exact consuming_items report later (i + 1) pos
  | .pipeline b p :: later, i, pos, h => by
    rw [runItems]
    simp only [anyStep, Bool.or_eq_true] at h
    rcases h with hp | hl
    · exact (productive_run p b _ hp).bind_left fun _ => consuming_items report later (i + 1) pos
    · exact Productive.bind_right (consuming_run report p b _) fun _ =>
        productive_items later (i + 1) pos hl

end

mutual

lemma starts_run : ∀ (p : Pipeline σ κ) (b : Behavior) (pos : StepPath), p.hasStep = true →
    Starts (runPipeline report p b pos)
  | mk prologue epilogue steps limits, b, pos, h => by
    cases prologue with
    | some s =>
      rw [runPipeline]
      exact Starts.bind_left _ (Starts.bind_left _ (starts_visit _))
    | none =>
      rw [run_without_prologue]
      cases hs : anyStep steps with
      | true =>
        refine Starts.bind_left _ ?_
        have hi := starts_items steps 0 pos hs
        unfold runBody
        split
        · exact hi.loop
        · exact hi.bind_left _
      | false =>
        have he : epilogue.isSome = true := by simpa [hasStep, hs] using h
        obtain ⟨s, rfl⟩ := Option.isSome_iff_exists.mp he
        simp only [runBody, items_stepless report steps 0 pos hs, Bool.false_eq_true, and_false,
          if_false, bind_of_pure]
        exact Starts.bind_left _ (starts_visit _)

lemma starts_items : ∀ (items : List (StepOrPipeline σ κ)) (i : ℕ) (pos : StepPath),
    anyStep items = true → Starts (runItems report items i pos)
  | .step _ :: later, i, pos, _ => by
    rw [runItems]
    exact Starts.bind_left _ (starts_visit _)
  | .pipeline b p :: later, i, pos, h => by
    rw [runItems]
    cases hp : p.hasStep with
    | true => exact Starts.bind_left _ (starts_run p b _ hp)
    | false =>
      rw [run_stepless report p b _ hp]
      exact starts_items later (i + 1) pos (by simpa [anyStep, hp] using h)

end

mutual

lemma exits_run : ∀ (p : Pipeline σ κ) (b : Behavior) (pos : StepPath), canExit b p = true →
    Exits (runPipeline report p b pos) ()
  | mk prologue epilogue steps limits, b, pos, h => by
    have he : Exits (runEpilogue report (mk prologue epilogue steps limits) pos) () := by
      cases epilogue with
      | none => exact exits_pure ()
      | some s => exact (exits_visit _ .ok).bind (exits_pure ())
    rw [runPipeline]
    cases prologue with
    | some s =>
      have hp : Exits (runPrologue report (mk (some s) epilogue steps limits) pos) false :=
        (exits_visit _ .brk).bind (exits_pure false)
      exact hp.bind ((exits_pure ()).bind he)
    | none =>
      obtain ⟨fell, hf, hi⟩ := exits_items steps 0 pos (b == .loop && anyStep steps)
        (by simpa [canExit] using h)
      have hb : Exits (runBody b (anyStep steps) (runItems report steps 0 pos)) () := by
        unfold runBody
        split
        · rename_i hl
          cases fell with
          | false => exact hi.loop
          | true => simp [hl.1, hl.2] at hf
        · exact hi.bind (exits_pure ())
      exact (exits_pure true).bind (hb.bind he)

lemma exits_items : ∀ (items : List (StepOrPipeline σ κ)) (i : ℕ) (pos : StepPath) (repeats : Bool),
    itemsExit repeats items = true →
    ∃ fell, (fell = true → repeats = false) ∧ Exits (runItems report items i pos) fell
  | [], _, _, repeats, h => ⟨true, by simpa [itemsExit] using h, exits_pure true⟩
  | .step _ :: later, i, pos, repeats, _ => by
    refine ⟨false, by simp, ?_⟩
    rw [runItems]
    exact (exits_visit _ Outcome.brk).bind (exits_pure false)
  | .pipeline b p :: later, i, pos, repeats, h => by
    simp only [itemsExit, Bool.and_eq_true] at h
    obtain ⟨fell, hf, hl⟩ := exits_items later (i + 1) pos repeats h.2
    refine ⟨fell, hf, ?_⟩
    rw [runItems]
    exact (exits_run p b _ h.1).bind hl

end

mutual

lemma never_run : ∀ (p : Pipeline σ κ) (b : Behavior) (pos : StepPath) (os : List Outcome),
    canExit b p = false → (runPipeline report p b pos os).2 = none
  | mk prologue epilogue steps limits, b, pos, os, h => by
    simp only [canExit, Bool.or_eq_false_iff, Option.isSome_eq_false_iff,
      Option.isNone_iff_eq_none] at h
    obtain ⟨rfl, hi⟩ := h
    by_contra hn
    obtain ⟨⟨u, rest⟩, hn⟩ := Option.ne_none_iff_exists'.mp hn
    rw [runPipeline] at hn
    obtain ⟨v, mid, hb, _⟩ := bind_finished (r := runBody b (anyStep steps) _) hn
    have hk := fun os => never_items steps 0 pos os (b == .loop && anyStep steps) hi
    simp only [runBody] at hb
    split at hb
    · rw [loop_never fun os fell tail hf => (hk os fell tail hf).2] at hb
      cases hb
    · rename_i hl
      obtain ⟨fell, tail, hf, _⟩ := bind_finished hb
      have hr := (hk os fell tail hf).1
      simp only [Bool.and_eq_true, beq_iff_eq] at hr
      exact hl hr

lemma never_items : ∀ (items : List (StepOrPipeline σ κ)) (i : ℕ) (pos : StepPath)
    (os : List Outcome) (repeats : Bool), itemsExit repeats items = false →
    ∀ fell rest, (runItems report items i pos os).2 = some (fell, rest) →
      repeats = true ∧ fell = true
  | [], _, _, _, repeats, h, fell, rest, hr => by
    cases hr
    exact ⟨by simpa [itemsExit] using h, rfl⟩
  | .pipeline b p :: later, i, pos, os, repeats, h, fell, rest, hr => by
    rw [runItems] at hr
    obtain ⟨u, mid, hp, hl⟩ := bind_finished hr
    simp only [itemsExit, Bool.and_eq_false_iff] at h
    rcases h with h | h
    · rw [never_run p b _ os h] at hp
      cases hp
    · exact never_items later (i + 1) pos mid repeats h fell rest hl

end

mutual

lemma unobstructed_stepless : ∀ (b : Behavior) (p : Pipeline σ κ), p.hasStep = false →
    unobstructed false b p = true
  | b, mk prologue epilogue steps limits, h => by
    simp only [hasStep, Bool.or_eq_false_iff] at h
    simp [unobstructed, h.1.2, h.2, unobstructedItems_stepless steps h.2]

lemma unobstructedItems_stepless : ∀ items : List (StepOrPipeline σ κ), anyStep items = false →
    unobstructedItems false items = true
  | [], _ => rfl
  | .pipeline b p :: later, h => by
    simp only [anyStep, Bool.or_eq_false_iff] at h
    simp [unobstructedItems, h.2, unobstructed_stepless b p h.1,
      unobstructedItems_stepless later h.2]

end

end Pipeline

end Rblib.Pipelines
