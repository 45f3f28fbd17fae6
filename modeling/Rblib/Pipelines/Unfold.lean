import Rblib.Pipelines.Reachable
import Rblib.Pipelines.Simulation

/-! Trees in which items are replaced by several consecutive ones. -/

namespace Rblib.Pipelines

open StepNavigator

variable {σ κ : Type}

/-- Steps at any positions, also inside nested pipelines, are replaced by what may stand for them. -/
inductive ItemsUnfold (R : σ → List σ → Prop) :
    List (StepOrPipeline σ κ) → List (StepOrPipeline σ κ) → Prop
  | nil : ItemsUnfold R [] []
  | step {s ss is js} : R s ss → ItemsUnfold R is js → ItemsUnfold R (.step s :: is) (ss.map .step ++ js)
  | pipeline {b prologue epilogue limits inner inner' is js} : ItemsUnfold R inner inner' → ItemsUnfold R is js →
      ItemsUnfold R (.pipeline b (.mk prologue epilogue inner limits) :: is)
        (.pipeline b (.mk prologue epilogue inner' limits) :: js)

structure Pipeline.Unfolds (R : σ → List σ → Prop) (p q : Pipeline σ κ) : Prop where
  prologue : q.prologue = p.prologue
  epilogue : q.epilogue = p.epilogue
  limits : q.limits = p.limits
  steps : ItemsUnfold R p.steps q.steps

variable {R : σ → List σ → Prop}

lemma ItemsUnfold.step_cons {s : σ} {is js : List (StepOrPipeline σ κ)} (h : ItemsUnfold R (.step s :: is) js) :
    ∃ ss js', R s ss ∧ ItemsUnfold R is js' ∧ js = ss.map .step ++ js' := by
  cases h with
  | step hs his => exact ⟨_, _, hs, his, rfl⟩

lemma ItemsUnfold.pipeline_cons {b : Behavior} {p : Pipeline σ κ} {is js : List (StepOrPipeline σ κ)}
    (h : ItemsUnfold R (.pipeline b p :: is) js) :
    ∃ q js', p.Unfolds R q ∧ ItemsUnfold R is js' ∧ js = .pipeline b q :: js' := by
  cases h with
  | @pipeline _ prologue epilogue limits _ inner' _ js' hp his =>
    exact ⟨.mk prologue epilogue inner' limits, js', ⟨rfl, rfl, rfl, hp⟩, his, rfl⟩

inductive Paired (R : σ → List σ → Prop) (root root' : Pipeline σ κ) :
    Context σ κ → Context σ κ → Pipeline σ κ → Pipeline σ κ → Behavior → Prop
  | root : Paired R root root' [] [] root root' .once
  | nested {ctx ctx' p p' q q' b b' i j} : Paired R root root' ctx ctx' p p' b →
      p.steps[i]? = some (.pipeline b' q) → p'.steps[j]? = some (.pipeline b' q') →
      ItemsUnfold R (p.steps.drop (i + 1)) (p'.steps.drop (j + 1)) → q.Unfolds R q' →
      Paired R root root' (ctx ++ [(p, i)]) (ctx' ++ [(p', j)]) q q' b'

inductive PointsAlike (R : σ → List σ → Prop) (p p' : Pipeline σ κ) : ℕ → ℕ → Prop
  | prologue {s} : p.prologue = some s → PointsAlike R p p' PROLOGUE_INDEX PROLOGUE_INDEX
  | epilogue {s} : p.epilogue = some s → PointsAlike R p p' EPILOGUE_INDEX EPILOGUE_INDEX
  | item {i j s ss is js} : p.steps.drop i = .step s :: is → p'.steps.drop j = ss.map .step ++ js →
      R s ss → ItemsUnfold R is js → PointsAlike R p p' (i + 1) (j + 1)

def Twins (R : σ → List σ → Prop) (root root' : Pipeline σ κ) (nav nav' : StepNavigator σ κ) : Prop :=
  ∃ ctx ctx' p p' b x x', Paired R root root' ctx ctx' p p' b ∧ PointsAlike R p p' x x' ∧
    nav = at_ ctx p x ∧ nav' = at_ ctx' p' x'

inductive Matched (R : σ → List σ → Prop) (root root' : Pipeline σ κ) :
    Except Panic (Option (StepNavigator σ κ)) → Except Panic (Option (StepNavigator σ κ)) → Prop
  | ended : Matched R root root' (.ok none) (.ok none)
  | scheduled {nav nav'} : Twins R root root' nav nav' → Matched R root root' (.ok (some nav)) (.ok (some nav'))

namespace Paired

variable {root root' p p' : Pipeline σ κ} {ctx ctx' : Context σ κ} {b : Behavior}

lemma located (h : Paired R root root' ctx ctx' p p' b) : Located root ctx p b := by
  induction h with
  | root => exact .root
  | nested _ hi _ _ _ ih => exact .nested ih hi

lemma located' (h : Paired R root root' ctx ctx' p p' b) : Located root' ctx' p' b := by
  induction h with
  | root => exact .root
  | nested _ _ hj _ _ ih => exact .nested ih hj

lemma unfolds (hroot : root.Unfolds R root') (h : Paired R root root' ctx ctx' p p' b) : p.Unfolds R p' := by
  cases h with
  | root => exact hroot
  | nested _ _ _ _ hq => exact hq

end Paired

section Corresponding

variable {root root' : Pipeline σ κ} (hR : ∀ s ss, R s ss → ss ≠ []) (hroot : root.Unfolds R root')
  (hfit : root.Everywhere FitsVec) (hfit' : root'.Everywhere FitsVec)

include hR in
lemma ItemsUnfold.eq_nil_iff {is js : List (StepOrPipeline σ κ)} (h : ItemsUnfold R is js) :
    is = [] ↔ js = [] := by
  cases h with
  | nil => exact Iff.rfl
  | step hs _ =>
    refine ⟨nofun, fun h => ?_⟩
    exact absurd (List.map_eq_nil_iff.mp (List.append_eq_nil_iff.mp h).1) (hR _ _ hs)
  | pipeline => exact ⟨nofun, nofun⟩

lemma drop_append {α : Type} {l xs ys : List α} {i : ℕ} (h : l.drop i = xs ++ ys) :
    l.drop (i + xs.length) = ys := by
  rw [← List.drop_drop, h, List.drop_left]

def EntersAlike (R : σ → List σ → Prop) (root root' q : Pipeline σ κ) : Prop :=
  ∀ ctx ctx' q' b, Paired R root root' ctx ctx' q q' b →
    Matched R root root' (.ok (entryAt ctx q)) (.ok (entryAt ctx' q'))

include hR hfit hfit' in
lemma enter_matched_of {p p' : Pipeline σ κ} {ctx ctx' : Context σ κ} {b : Behavior}
    (h : Paired R root root' ctx ctx' p p' b) (ih : ∀ b q, .pipeline b q ∈ p.steps → EntersAlike R root root' q)
    {i j : ℕ} (hi : i < p.steps.length) (hitems : ItemsUnfold R (p.steps.drop i) (p'.steps.drop j)) :
    Matched R root root' (enter (at_ ctx p (i + 1))) (enter (at_ ctx' p' (j + 1))) := by
  have hp : FitsVec p := (h.located.everywhere hfit).here
  have hp' : FitsVec p' := (h.located'.everywhere hfit').here
  rcases hd : p.steps.drop i with _ | ⟨s | ⟨b', q⟩, is⟩
  · exact absurd (List.drop_eq_nil_iff.mp hd) (by omega)
  · rw [hd] at hitems
    obtain ⟨ss, js, hs, his, hd'⟩ := hitems.step_cons
    obtain ⟨t, ts, rfl⟩ := List.exists_cons_of_ne_nil (hR _ _ hs)
    have hj : p'.steps[j]? = some (.step t) := (drop_eq_cons hd').1
    rw [enter_step ctx hp (drop_eq_cons hd).1, enter_step ctx' hp' hj]
    exact .scheduled ⟨ctx, ctx', p, p', b, _, _, h, .item hd hd' hs his, rfl, rfl⟩
  · rw [hd] at hitems
    obtain ⟨q', js, hq, his, hd'⟩ := hitems.pipeline_cons
    obtain ⟨hget, hrest⟩ := drop_eq_cons hd
    obtain ⟨hget', hrest'⟩ := drop_eq_cons hd'
    rw [enter_nested ctx hp hget, enter_nested ctx' hp' hget']
    refine ih b' q (List.mem_of_getElem? hget) _ _ q' b' (.nested h hget hget' ?_ hq)
    rw [hrest, hrest']
    exact his

include hR hroot hfit hfit' in
theorem entryAt_matched (q : Pipeline σ κ) : EntersAlike R root root' q := by
  induction q using Pipeline.nesting_induction with
  | h p ih =>
    intro ctx ctx' p' b h
    have hp := h.unfolds hroot
    cases hpro : p.prologue with
    | some s =>
      rw [entryAt_prologue ctx (by rw [hpro]; rfl), entryAt_prologue ctx' (by rw [hp.prologue, hpro]; rfl)]
      exact .scheduled ⟨ctx, ctx', p, p', b, _, _, h, .prologue hpro, rfl, rfl⟩
    | none =>
      have hpro' : p'.prologue = none := hp.prologue.trans hpro
      by_cases hs : p.steps = []
      · rw [entryAt_epilogue ctx hpro hs, entryAt_epilogue ctx' hpro' ((hp.steps.eq_nil_iff hR).mp hs),
          hp.epilogue]
        cases hepi : p.epilogue with
        | none => exact .ended
        | some s => exact .scheduled ⟨ctx, ctx', p, p', b, _, _, h, .epilogue hepi, rfl, rfl⟩
      · have hs' : p'.steps ≠ [] := fun hnil => hs ((hp.steps.eq_nil_iff hR).mpr hnil)
        rw [← enter_step0 ctx (h.located.everywhere hfit).here hpro hs,
          ← enter_step0 ctx' (h.located'.everywhere hfit').here hpro' hs']
        exact enter_matched_of hR hfit hfit' h ih (List.length_pos_of_ne_nil hs) (i := 0) (j := 0) hp.steps

variable {p p' : Pipeline σ κ} {ctx ctx' : Context σ κ} {b : Behavior}

include hR hroot hfit hfit' in
lemma enter_matched (h : Paired R root root' ctx ctx' p p' b) {i j : ℕ} (hi : i < p.steps.length)
    (hitems : ItemsUnfold R (p.steps.drop i) (p'.steps.drop j)) :
    Matched R root root' (enter (at_ ctx p (i + 1))) (enter (at_ ctx' p' (j + 1))) :=
  enter_matched_of hR hfit hfit' h (fun _ q _ => entryAt_matched hR hroot hfit hfit' q) hi hitems

include hroot in
lemma afterLoop_matched_of (h : Paired R root root' ctx ctx' p p' b) {x x' : ℕ}
    (hn : Matched R root root' (at_ ctx p x).nextInParent (at_ ctx' p' x').nextInParent) :
    Matched R root root' (at_ ctx p x).afterLoop (at_ ctx' p' x').afterLoop := by
  rw [afterLoop_at, afterLoop_at, (h.unfolds hroot).epilogue]
  cases hepi : p.epilogue with
  | none => exact hn
  | some s => exact .scheduled ⟨ctx, ctx', p, p', b, _, _, h, .epilogue hepi, rfl, rfl⟩

include hR hroot hfit hfit' in
lemma wrap_matched_of (h : Paired R root root' ctx ctx' p p' b) (hne : p.steps ≠ []) {x x' : ℕ}
    (hn : Matched R root root' (at_ ctx p x).nextInParent (at_ ctx' p' x').nextInParent) :
    Matched R root root' (wrap b ctx p x) (wrap b ctx' p' x') := by
  cases b with
  | once => exact afterLoop_matched_of hroot h hn
  | loop =>
    exact enter_matched hR hroot hfit hfit' h (List.length_pos_of_ne_nil hne) (i := 0) (j := 0)
      (h.unfolds hroot).steps

include hR hroot hfit hfit' in
lemma following_matched (h : Paired R root root' ctx ctx' p p' b) {i j x x' : ℕ} (hi : i < p.steps.length)
    (hitems : ItemsUnfold R (p.steps.drop (i + 1)) (p'.steps.drop (j + 1)))
    (hn : Matched R root root' (at_ ctx p x).nextInParent (at_ ctx' p' x').nextInParent) :
    Matched R root root' (if i + 1 ≥ p.steps.length then wrap b ctx p x else enter (at_ ctx p (i + 2)))
      (if j + 1 ≥ p'.steps.length then wrap b ctx' p' x' else enter (at_ ctx' p' (j + 2))) := by
  have hlast : i + 1 ≥ p.steps.length ↔ j + 1 ≥ p'.steps.length := by
    rw [ge_iff_le, ge_iff_le, ← List.drop_eq_nil_iff, ← List.drop_eq_nil_iff]
    exact hitems.eq_nil_iff hR
  by_cases hge : i + 1 ≥ p.steps.length
  · rw [if_pos hge, if_pos (hlast.mp hge)]
    exact wrap_matched_of hR hroot hfit hfit' h (List.ne_nil_of_length_pos (by omega)) hn
  · rw [if_neg hge, if_neg (fun hge' => hge (hlast.mpr hge'))]
    exact enter_matched hR hroot hfit hfit' h (i := i + 1) (j := j + 1) (by omega) hitems

include hR hroot hfit hfit' in
theorem nextInParent_matched (h : Paired R root root' ctx ctx' p p' b) (x x' : ℕ) :
    Matched R root root' (at_ ctx p x).nextInParent (at_ ctx' p' x').nextInParent := by
  induction h generalizing x x' with
  | root =>
    rw [nextInParent_root, nextInParent_root]
    exact .ended
  | @nested ctx ctx' p p' q q' b b' i j h hi hj hitems hq ih =>
    have hlt := (List.getElem?_eq_some_iff.mp hi).1
    rw [nextInParent_nested h.located q hlt, nextInParent_nested h.located' q' (List.getElem?_eq_some_iff.mp hj).1]
    exact following_matched hR hroot hfit hfit' h hlt hitems (ih _ _)

include hR hroot hfit hfit' in
lemma afterLoop_matched (h : Paired R root root' ctx ctx' p p' b) (x x' : ℕ) :
    Matched R root root' (at_ ctx p x).afterLoop (at_ ctx' p' x').afterLoop :=
  afterLoop_matched_of hroot h (nextInParent_matched hR hroot hfit hfit' h x x')

include hR hroot hfit hfit' in
theorem nextOk_prologue_matched (h : Paired R root root' ctx ctx' p p' b) :
    Matched R root root' (at_ ctx p PROLOGUE_INDEX).nextOk (at_ ctx' p' PROLOGUE_INDEX).nextOk := by
  have hsteps := (h.unfolds hroot).steps
  rw [nextOk_prologue, nextOk_prologue, afterPrologue_at, afterPrologue_at]
  by_cases hs : p.steps = []
  · rw [if_pos (by rw [hs]; rfl), if_pos (by rw [(hsteps.eq_nil_iff hR).mp hs]; rfl)]
    exact afterLoop_matched hR hroot hfit hfit' h _ _
  · have hs' : p'.steps ≠ [] := fun hnil => hs ((hsteps.eq_nil_iff hR).mpr hnil)
    rw [if_neg (by simpa using hs), if_neg (by simpa using hs')]
    exact enter_matched hR hroot hfit hfit' h (List.length_pos_of_ne_nil hs) (i := 0) (j := 0) hsteps

include hR hroot hfit hfit' in
theorem nextOk_item_matched (h : Paired R root root' ctx ctx' p p' b) {i j : ℕ} {s : σ} {ss : List σ}
    {is js : List (StepOrPipeline σ κ)} (hd : p.steps.drop i = .step s :: is)
    (hd' : p'.steps.drop j = ss.map .step ++ js) (hs : R s ss) (hitems : ItemsUnfold R is js) :
    Matched R root root' (at_ ctx p (i + 1)).nextOk (at_ ctx' p' (j + ss.length)).nextOk := by
  obtain ⟨k, hk⟩ : ∃ k, ss.length = k + 1 := Nat.exists_eq_add_one.mpr (List.length_pos_of_ne_nil (hR _ _ hs))
  have hlt : i < p.steps.length := (drop_last hd).1
  have hlt' : j + k < p'.steps.length := by
    have hlen := congrArg List.length hd'
    rw [List.length_drop, List.length_append, List.length_map] at hlen
    omega
  have hrest' : p'.steps.drop (j + k + 1) = js := by
    rw [← drop_append hd', List.length_map, hk, add_assoc]
  rw [hk, ← add_assoc, nextOk_step h.located (h.located.everywhere hfit).here hlt,
    nextOk_step h.located' (h.located'.everywhere hfit').here hlt']
  apply following_matched hR hroot hfit hfit' h hlt
  · rw [(drop_eq_cons hd).2, hrest']
    exact hitems
  · exact nextInParent_matched hR hroot hfit hfit' h _ _

lemma nextBreak_item {root : Pipeline σ κ} (hloc : Located root ctx p b) (hp : FitsVec p) {i : ℕ} {s : σ}
    {later : List (StepOrPipeline σ κ)} (hd : p.steps.drop i = .step s :: later) :
    (at_ ctx p (i + 1)).nextBreak = (at_ ctx p 0).afterLoop := by
  rw [nextBreak_of_ne ctx p (index_ne_epilogue hp (drop_last hd).1)]
  exact afterLoop_leaf hloc _ _

include hfit' in
lemma nextOk_inside (h : Located root' ctx' p' b) {j : ℕ} {s t : σ} {js : List (StepOrPipeline σ κ)}
    (hd : p'.steps.drop j = .step s :: .step t :: js) :
    (at_ ctx' p' (j + 1)).nextOk = .ok (some (at_ ctx' p' (j + 2))) := by
  have hp : FitsVec p' := (h.everywhere hfit').here
  rw [nextOk_item h hp hd, if_neg (List.cons_ne_nil _ _)]
  exact enter_step ctx' hp (drop_eq_cons (drop_eq_cons hd).2).1

include hR hroot hfit hfit' in
theorem nextBreak_matched (h : Paired R root root' ctx ctx' p p' b) {x x' : ℕ} (hx : x ≠ EPILOGUE_INDEX)
    (hx' : x' ≠ EPILOGUE_INDEX) : Matched R root root' (at_ ctx p x).nextBreak (at_ ctx' p' x').nextBreak := by
  rw [nextBreak_of_ne ctx p hx, nextBreak_of_ne ctx' p' hx']
  exact afterLoop_matched hR hroot hfit hfit' h x x'

include hR hroot hfit hfit' in
theorem epilogue_matched (h : Paired R root root' ctx ctx' p p' b) :
    Matched R root root' (at_ ctx p EPILOGUE_INDEX).nextOk (at_ ctx' p' EPILOGUE_INDEX).nextOk ∧
      Matched R root root' (at_ ctx p EPILOGUE_INDEX).nextBreak (at_ ctx' p' EPILOGUE_INDEX).nextBreak := by
  rw [nextOk_epilogue, nextOk_epilogue, nextBreak_epilogue, nextBreak_epilogue]
  exact ⟨nextInParent_matched hR hroot hfit hfit' h _ _, nextInParent_matched hR hroot hfit hfit' h _ _⟩

end Corresponding

end Rblib.Pipelines
