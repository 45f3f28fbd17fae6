import Rblib.Pipelines.Location

namespace Rblib.Pipelines

open StepNavigator

variable {σ κ : Type}

inductive PointsAtStep (p : Pipeline σ κ) : ℕ → Prop
  | prologue {s} : p.prologue = some s → PointsAtStep p PROLOGUE_INDEX
  | epilogue {s} : p.epilogue = some s → PointsAtStep p EPILOGUE_INDEX
  | step {i s} : p.steps[i]? = some (.step s) → PointsAtStep p (i + 1)

def Executable (root : Pipeline σ κ) (nav : StepNavigator σ κ) : Prop :=
  ∃ ctx p b x, Located root ctx p b ∧ PointsAtStep p x ∧ nav = at_ ctx p x

def Moves (root : Pipeline σ κ) (r : Except Panic (Option (StepNavigator σ κ))) : Prop :=
  ∃ target, r = .ok target ∧ ∀ nav, target = some nav → Executable root nav

section

variable {root : Pipeline σ κ}

lemma moves_none : Moves root (.ok none) := ⟨none, rfl, fun _ h => by cases h⟩

lemma moves_some {nav : StepNavigator σ κ} (h : Executable root nav) : Moves root (.ok (some nav)) :=
  ⟨some nav, rfl, fun _ hn => Option.some.inj hn ▸ h⟩

lemma entryAt_mk (ctx : Context σ κ) (epi : Option σ) (steps : List (StepOrPipeline σ κ))
    (lim : Option κ) :
    entryAt ctx (.mk none epi steps lim) = match steps with
      | [] => if epi.isSome then some (at_ ctx (.mk none epi [] lim) EPILOGUE_INDEX) else none
      | .step _ :: _ => some (at_ ctx (.mk none epi steps lim) 1)
      | .pipeline _ q :: _ => entryAt (ctx ++ [(.mk none epi steps lim, 0)]) q := by
  rcases steps with _ | ⟨_ | ⟨b, q⟩, later⟩
  · exact entryAt_epilogue ctx rfl rfl
  · cases epi <;> rfl
  · simp only [entryAt, entrypoint, Pipeline.isEmpty]
    cases entrypoint q with
    | none => cases epi <;> rfl
    | some nav => simp [relocate_join]

theorem entryAt_executable (p : Pipeline σ κ) {ctx : Context σ κ} {b : Behavior}
    (hloc : Located root ctx p b) {nav : StepNavigator σ κ} (h : entryAt ctx p = some nav) :
    Executable root nav := by
  induction p using Pipeline.nesting_induction generalizing ctx b with
  | h p ih =>
    cases p with
    | mk pro epi steps lim =>
      cases pro with
      | some s =>
        rw [entryAt_prologue ctx rfl] at h
        cases h
        exact ⟨ctx, _, b, _, hloc, .prologue rfl, rfl⟩
      | none =>
        rw [entryAt_mk] at h
        rcases steps with _ | ⟨s | ⟨b', q⟩, later⟩
        · cases epi with
          | none => cases h
          | some s =>
            cases h
            exact ⟨ctx, _, b, _, hloc, .epilogue rfl, rfl⟩
        · cases h
          exact ⟨ctx, _, b, 1, hloc, .step (i := 0) rfl, rfl⟩
        · exact ih b' q List.mem_cons_self (.nested hloc (i := 0) rfl) h

lemma entrypoint_executable {nav : StepNavigator σ κ} (h : entrypoint root = some nav) :
    Executable root nav := by
  apply entryAt_executable root .root
  rw [entryAt, h]
  rfl

lemma enter_moves {p : Pipeline σ κ} {ctx : Context σ κ} {b : Behavior}
    (hloc : Located root ctx p b) (hfit : p.steps.length ≤ isizeMax) {i : ℕ}
    (hi : i < p.steps.length) : Moves root (enter (at_ ctx p (i + 1))) := by
  have hget := List.getElem?_eq_getElem hi
  cases hitem : p.steps[i] with
  | step s =>
    rw [hitem] at hget
    rw [enter_step ctx hfit hget]
    exact moves_some ⟨ctx, p, b, i + 1, hloc, .step hget, rfl⟩
  | pipeline b' q =>
    rw [hitem] at hget
    rw [enter_nested ctx hfit hget]
    exact ⟨_, rfl, fun nav h => entryAt_executable q (.nested hloc hget) h⟩

variable (hroot : root.Everywhere fun q => q.steps.length ≤ isizeMax)

include hroot

theorem nextInParent_moves {p : Pipeline σ κ} {ctx : Context σ κ} {b : Behavior}
    (hloc : Located root ctx p b) (x : ℕ) : Moves root (at_ ctx p x).nextInParent := by
  induction hloc generalizing x with
  | root =>
    rw [nextInParent_root]
    exact moves_none
  | @nested ctx q b i b' p hq hi ih =>
    have hlt := (List.getElem?_eq_some_iff.mp hi).1
    have hfit := (hq.everywhere hroot).here
    rw [nextInParent_nested hq p hlt]
    split
    · cases b with
      | loop => exact enter_moves hq hfit (i := 0) (by omega)
      | once =>
        rw [wrap, afterLoop_at]
        split
        · rename_i he
          obtain ⟨s, hs⟩ := Option.isSome_iff_exists.mp he
          exact moves_some ⟨ctx, q, .once, _, hq, .epilogue hs, rfl⟩
        · exact ih _
    · exact enter_moves hq hfit (i := i + 1) (by omega)

lemma afterLoop_moves {p : Pipeline σ κ} {ctx : Context σ κ} {b : Behavior}
    (hloc : Located root ctx p b) (x : ℕ) : Moves root (at_ ctx p x).afterLoop := by
  rw [afterLoop_at]
  split
  · rename_i he
    obtain ⟨s, hs⟩ := Option.isSome_iff_exists.mp he
    exact moves_some ⟨ctx, p, b, _, hloc, .epilogue hs, rfl⟩
  · exact nextInParent_moves hroot hloc x

lemma afterPrologue_moves {p : Pipeline σ κ} {ctx : Context σ κ} {b : Behavior}
    (hloc : Located root ctx p b) (x : ℕ) : Moves root (at_ ctx p x).afterPrologue := by
  rw [afterPrologue_at]
  split
  · exact afterLoop_moves hroot hloc x
  · rename_i hne
    have hlt : 0 < p.steps.length := List.length_pos_iff.mpr (by simpa using hne)
    exact enter_moves hloc (hloc.everywhere hroot).here hlt

theorem nextOk_moves {nav : StepNavigator σ κ} (h : Executable root nav) : Moves root nav.nextOk := by
  obtain ⟨ctx, p, b, x, hloc, hx, rfl⟩ := h
  have hfit := (hloc.everywhere hroot).here
  cases hx with
  | prologue _ =>
    rw [nextOk_prologue]
    exact afterPrologue_moves hroot hloc _
  | epilogue _ =>
    rw [nextOk_epilogue]
    exact nextInParent_moves hroot hloc _
  | @step i s hi =>
    have hlt := (List.getElem?_eq_some_iff.mp hi).1
    rw [nextOk_step hloc hfit hlt]
    split
    · cases b with
      | loop => exact enter_moves hloc hfit (i := 0) (by omega)
      | once => exact afterLoop_moves hroot hloc _
    · exact enter_moves hloc hfit (i := i + 1) (by omega)

theorem nextBreak_moves {nav : StepNavigator σ κ} (h : Executable root nav) :
    Moves root nav.nextBreak := by
  obtain ⟨ctx, p, b, x, hloc, _, rfl⟩ := h
  by_cases hx : x = EPILOGUE_INDEX
  · rw [hx, nextBreak_epilogue]
    exact nextInParent_moves hroot hloc _
  · rw [nextBreak_of_ne ctx p hx]
    exact afterLoop_moves hroot hloc _

end

lemma walk_located {root p : Pipeline σ κ} {ctx : Context σ κ} {b : Behavior}
    (hloc : Located root ctx p b) {rest : StepPath} (hr : rest ≠ []) :
    StepPath.walk (ctx.path ++ rest) [root] = StepPath.walk rest (ctx.pipelines ++ [p]) := by
  induction hloc generalizing rest with
  | root => rfl
  | @nested ctx q b i b' p hq hi ih =>
    obtain ⟨j, tail, rfl⟩ := List.exists_cons_of_ne_nil hr
    rw [Context.path_concat, List.append_assoc, ih (by simp), List.singleton_append, StepPath.walk]
    have hs := checkedSub_step0 i
    simp [hs, hi, Context.pipelines_concat]

theorem navigator_executable {root : Pipeline σ κ}
    (hroot : root.Everywhere fun q => q.steps.length ≤ isizeMax) {nav : StepNavigator σ κ}
    (h : Executable root nav) : StepPath.navigator nav.path root = .ok (some nav) := by
  obtain ⟨ctx, p, b, x, hloc, hx, rfl⟩ := h
  have hfit := (hloc.everywhere hroot).here
  have hw : StepPath.walk (at_ ctx p x).path [root] = some (at_ ctx p x).ancestors :=
    walk_located hloc (List.cons_ne_nil x [])
  have he : enter (at_ ctx p x) = .ok (some (at_ ctx p x)) := by
    cases hx with
    | prologue hs => simp [enter, hs, bind, Except.bind, pure, Except.pure]
    | epilogue hs => simp [enter, hs, bind, Except.bind, pure, Except.pure]
    | step hi => exact enter_step ctx hfit hi
  have hr : ∃ r, StepPath.root (at_ ctx p x).path = .ok r := by
    have hne : (at_ ctx p x).path ≠ [] := by simp [at_]
    obtain ⟨i, tail, hp⟩ := List.exists_cons_of_ne_nil hne
    exact ⟨[i], by rw [hp]; rfl⟩
  obtain ⟨r, hr⟩ := hr
  rw [StepPath.navigator, hr]
  simp only [bind, Except.bind, hw]
  exact he

lemma stepInstance_prologue (ctx : Context σ κ) {p : Pipeline σ κ} {s : σ} (h : p.prologue = some s) :
    (at_ ctx p PROLOGUE_INDEX).stepInstance = .ok s := by
  simp [stepInstance, h, bind, Except.bind, pure, Except.pure]

lemma stepInstance_epilogue (ctx : Context σ κ) {p : Pipeline σ κ} {s : σ} (h : p.epilogue = some s) :
    (at_ ctx p EPILOGUE_INDEX).stepInstance = .ok s := by
  simp [stepInstance, h, epilogue_ne_prologue, bind, Except.bind, pure, Except.pure]

lemma stepInstance_step (ctx : Context σ κ) {p : Pipeline σ κ} (hfit : p.steps.length ≤ isizeMax) {i : ℕ}
    {s : σ} (h : p.steps[i]? = some (.step s)) : (at_ ctx p (i + 1)).stepInstance = .ok s := by
  have he := index_ne_epilogue hfit (List.getElem?_eq_some_iff.mp h).1
  simp [stepInstance, h, he, PROLOGUE_INDEX, STEP0_INDEX, bind, Except.bind, pure, Except.pure]

theorem stepInstance_executable {root : Pipeline σ κ}
    (hroot : root.Everywhere fun q => q.steps.length ≤ isizeMax) {nav : StepNavigator σ κ}
    (h : Executable root nav) : ∃ s, nav.stepInstance = .ok s := by
  obtain ⟨ctx, p, b, x, hloc, hx, rfl⟩ := h
  cases hx with
  | @prologue s hs => exact ⟨s, stepInstance_prologue ctx hs⟩
  | @epilogue s hs => exact ⟨s, stepInstance_epilogue ctx hs⟩
  | @step i s hi => exact ⟨s, stepInstance_step ctx (hloc.everywhere hroot).here hi⟩

end Rblib.Pipelines
