import Rblib.Pipelines.Location
import Rblib.Pipelines.Obstruction

namespace Rblib.Pipelines

open Library.OracleTrace Library.OracleTrace.Prog StepNavigator Pipeline

variable {σ κ Λ : Type}

def StepNavigator.next (o : Outcome) (nav : StepNavigator σ κ) :
    Except Panic (Option (StepNavigator σ κ)) :=
  match o with
  | .ok => nav.nextOk
  | .brk => nav.nextBreak

def navigatorVisit (p : Pipeline σ κ) (o : Stream' Outcome) (n : ℕ) : Except Panic (Option StepPath) :=
  (stateAt StepNavigator.next (.ok (entrypoint p)) o n).map (Option.map StepNavigator.path)

def resume (report : StepPath → Λ) (nav : Except Panic (Option (StepNavigator σ κ)))
    (os : List Outcome) : Except Panic (List Λ) :=
  nav.bind fun s => drive (report ∘ StepNavigator.path) StepNavigator.next s os

def FitsVec (p : Pipeline σ κ) : Prop := p.steps.length ≤ isizeMax

lemma drop_eq_cons {α : Type} {l later : List α} {i : ℕ} {a : α} (h : l.drop i = a :: later) :
    l[i]? = some a ∧ l.drop (i + 1) = later := by
  constructor
  · rw [← Nat.add_zero i, ← List.getElem?_drop, h]
    rfl
  · rw [← List.tail_drop, h]
    rfl

lemma entrypoint_stepless : ∀ p : Pipeline σ κ, p.hasStep = false → entrypoint p = none
  | .mk prologue epilogue steps limits, h => by
    simp only [hasStep, Bool.or_eq_false_iff, Option.isSome_eq_false_iff,
      Option.isNone_iff_eq_none] at h
    obtain ⟨⟨rfl, rfl⟩, hs⟩ := h
    rcases steps with _ | ⟨_ | ⟨b, q⟩, later⟩
    · rfl
    · simp [anyStep] at hs
    · simp only [anyStep, Bool.or_eq_false_iff] at hs
      simp [entrypoint, Pipeline.isEmpty, entrypoint_stepless q hs.1]

lemma entryAt_stepless (ctx : Context σ κ) {p : Pipeline σ κ} (h : p.hasStep = false) :
    entryAt ctx p = none := by
  simp [entryAt, entrypoint_stepless p h]

variable (report : StepPath → Λ)

@[simp] lemma resume_none (os : List Outcome) :
    resume report (.ok none : Except Panic (Option (StepNavigator σ κ))) os = .ok [] :=
  drive_none _ _ os

@[simp] lemma resume_cons (nav : StepNavigator σ κ) (o : Outcome) (os : List Outcome) :
    resume report (.ok (some nav)) (o :: os) =
      (resume report (StepNavigator.next o nav) os).map (report nav.path :: ·) :=
  bind_map _ _ _

section Located

variable {report} {root p : Pipeline σ κ} {ctx : Context σ κ} {b : Behavior}

lemma afterLoop_leaf (h : Located root ctx p b) (x y : ℕ) :
    (at_ ctx p x).afterLoop = (at_ ctx p y).afterLoop := by
  rw [afterLoop_at, afterLoop_at, nextInParent_leaf ctx p x y h]

lemma resume_afterLoop (h : Located root ctx p b) (x : ℕ) (os : List Outcome) :
    resume report (at_ ctx p x).afterLoop os =
      (runEpilogue report p ctx.path).andThen
        (fun _ => resume report (at_ ctx p 0).nextInParent) os := by
  rw [afterLoop_at, runEpilogue]
  cases he : p.epilogue with
  | none => simp [nextInParent_leaf ctx p x 0 h]
  | some s =>
    have hn : ∀ o, StepNavigator.next o (at_ ctx p EPILOGUE_INDEX) =
        (at_ ctx p 0).nextInParent := by
      intro o
      cases o with
      | ok => exact (nextOk_epilogue ctx p).trans (nextInParent_leaf ctx p _ 0 h)
      | brk => exact (nextBreak_epilogue ctx p).trans (nextInParent_leaf ctx p _ 0 h)
    cases os with
    | nil => rfl
    | cons o os =>
      simp only [Option.isSome_some, if_true, resume_cons, hn, andThen_bind, andThen_visit_cons,
        andThen_pure]
      rfl

end Located

def Simulated (report : StepPath → Λ) (root q : Pipeline σ κ) : Prop :=
  ∀ ctx b rest, Located root ctx q b → q.hasStep = true → unobstructed rest b q = true →
    (rest = false → (at_ ctx q 0).nextInParent = .ok none) → ∀ os,
      resume report (.ok (entryAt ctx q)) os =
        (runPipeline report q b ctx.path).andThen
          (fun _ => resume report (at_ ctx q 0).nextInParent) os

def Halts (ctx : Context σ κ) (p : Pipeline σ κ) (b : Behavior) : Prop :=
  (at_ ctx p 0).afterLoop = .ok none ∧ (b = .loop → anyStep p.steps = false)

lemma enter_stepless (ctx : Context σ κ) {p : Pipeline σ κ} (hfit : FitsVec p) {i : ℕ}
    (hlt : i < p.steps.length) (hs : anyStep (p.steps.drop i) = false) :
    enter (at_ ctx p (i + 1)) = .ok none := by
  rcases hd : p.steps.drop i with _ | ⟨_ | ⟨b, q⟩, later⟩
  · exact absurd (List.drop_eq_nil_iff.mp hd) (by omega)
  · simp [hd, anyStep] at hs
  · simp only [hd, anyStep, Bool.or_eq_false_iff] at hs
    rw [enter_nested ctx hfit (drop_eq_cons hd).1, entryAt_stepless _ hs.1]

lemma Halts.wrap_eq {ctx : Context σ κ} {p : Pipeline σ κ} {b : Behavior} (h : Halts ctx p b)
    (hfit : FitsVec p) (hne : p.steps ≠ []) : wrap b ctx p 0 = .ok none := by
  cases b with
  | once => exact h.1
  | loop => exact enter_stepless ctx hfit (List.length_pos_of_ne_nil hne) (h.2 rfl)

section Items

variable {root p : Pipeline σ κ} {ctx : Context σ κ} {b : Behavior} {i : ℕ}
  {later : List (StepOrPipeline σ κ)}

lemma wrap_leaf (hloc : Located root ctx p b) (x : ℕ) : wrap b ctx p x = wrap b ctx p 0 := by
  cases b with
  | loop => rfl
  | once => exact afterLoop_leaf hloc x 0

lemma drop_last {item : StepOrPipeline σ κ} (hd : p.steps.drop i = item :: later) :
    i < p.steps.length ∧ (i + 1 ≥ p.steps.length ↔ later = []) := by
  obtain ⟨hi, hd'⟩ := drop_eq_cons hd
  refine ⟨(List.getElem?_eq_some_iff.mp hi).1, ?_⟩
  rw [← hd', List.drop_eq_nil_iff]

lemma nextOk_item (hloc : Located root ctx p b) (hfit : FitsVec p) {s : σ}
    (hd : p.steps.drop i = .step s :: later) :
    (at_ ctx p (i + 1)).nextOk =
      if later = [] then wrap b ctx p 0 else enter (at_ ctx p (i + 2)) := by
  obtain ⟨hlt, hlast⟩ := drop_last hd
  simp only [nextOk_step hloc hfit hlt, hlast, wrap_leaf hloc (i + 1)]

lemma nextInParent_item (hloc : Located root ctx p b) {b' : Behavior} {q : Pipeline σ κ}
    (hd : p.steps.drop i = .pipeline b' q :: later) :
    (at_ (ctx ++ [(p, i)]) q 0).nextInParent =
      if later = [] then wrap b ctx p 0 else enter (at_ ctx p (i + 2)) := by
  obtain ⟨hlt, hlast⟩ := drop_last hd
  simp only [nextInParent_nested hloc q hlt, hlast, wrap_leaf hloc (i + 1)]

lemma Halts.nextInParent_item (h : Halts ctx p b) (hloc : Located root ctx p b) (hfit : FitsVec p)
    {b' : Behavior} {q : Pipeline σ κ} (hd : p.steps.drop i = .pipeline b' q :: later)
    (hs : anyStep later = false) : (at_ (ctx ++ [(p, i)]) q 0).nextInParent = .ok none := by
  obtain ⟨hi, hd'⟩ := drop_eq_cons hd
  rw [Pipelines.nextInParent_item hloc hd]
  by_cases hnil : later = []
  · rw [if_pos hnil]
    exact h.wrap_eq hfit (List.ne_nil_of_mem (List.mem_of_getElem? hi))
  · rw [if_neg hnil]
    refine enter_stepless ctx hfit ?_ (hd' ▸ hs)
    by_contra hge
    exact hnil (hd' ▸ List.drop_eq_nil_iff.mpr (by omega))

end Items

lemma resume_items {root p : Pipeline σ κ} (hfit : FitsVec p)
    (ih : ∀ b q, .pipeline b q ∈ p.steps → Simulated report root q) {ctx : Context σ κ}
    {b : Behavior} (hloc : Located root ctx p b) {rest : Bool}
    (hend : rest = false → Halts ctx p b)
    (items : List (StepOrPipeline σ κ)) (i : ℕ) (hd : p.steps.drop i = items) (hne : items ≠ [])
    (hu : unobstructedItems rest items = true) (os : List Outcome) :
    resume report (enter (at_ ctx p (i + 1))) os =
      (runItems report items i ctx.path).andThen
        (fun fell => resume report (if fell then wrap b ctx p 0 else (at_ ctx p 0).afterLoop)) os := by
  induction items generalizing i os with
  | nil => exact absurd rfl hne
  | cons item later hl =>
    obtain ⟨hi, hd'⟩ := drop_eq_cons hd
    have hlt : i < p.steps.length := (drop_last hd).1
    have hcont (hu' : unobstructedItems rest later = true) (tail : List Outcome) :
        resume report (if later = [] then wrap b ctx p 0 else enter (at_ ctx p (i + 2))) tail =
          (runItems report later (i + 1) ctx.path).andThen (fun fell =>
            resume report (if fell then wrap b ctx p 0 else (at_ ctx p 0).afterLoop)) tail := by
      by_cases hnil : later = []
      · simp [hnil, runItems]
      · rw [if_neg hnil]
        exact hl (i + 1) hd' hnil hu' tail
    cases item with
    | step s =>
      rw [enter_step ctx hfit hi, runItems]
      cases os with
      | nil => rfl
      | cons o os =>
        simp only [resume_cons, andThen_bind, andThen_visit_cons]
        congr 1
        cases o with
        | brk =>
          have he := index_ne_epilogue hfit hlt
          simp only [StepNavigator.next, nextBreak_of_ne ctx p he, afterLoop_leaf hloc (i + 1) 0,
            andThen_pure, Bool.false_eq_true, if_false]
        | ok =>
          rw [StepNavigator.next, nextOk_item hloc hfit hd]
          exact hcont hu os
    | pipeline b' q =>
      simp only [unobstructedItems, Bool.and_eq_true, Bool.or_eq_true, Bool.not_eq_true'] at hu
      obtain ⟨⟨hq, huq⟩, hlater⟩ := hu
      rw [enter_nested ctx hfit hi, runItems]
      by_cases hs : q.hasStep = true
      · have hmem : .pipeline b' q ∈ p.steps := List.mem_of_getElem? hi
        have hhalt : (rest || anyStep later) = false →
            (at_ (ctx ++ [(p, i)]) q 0).nextInParent = .ok none := by
          intro hr
          rw [Bool.or_eq_false_iff] at hr
          exact (hend hr.1).nextInParent_item hloc hfit hd hr.2
        rw [ih b' q hmem (ctx ++ [(p, i)]) b' _ (.nested hloc hi) hs huq hhalt, andThen_bind,
          Context.path_concat]
        apply andThen_congr
        rintro ⟨⟩ tail hfin
        have hexit : canExit b' q = true := by
          by_contra hc
          rw [never_run report q b' _ os (by simpa using hc)] at hfin
          cases hfin
        rw [nextInParent_item hloc hd]
        exact hcont (by simpa [hexit] using hlater) tail
      · -- the navigator ends here, so nothing may be left for the program either
        have hs' : q.hasStep = false := by simpa using hs
        have hr : (rest || anyStep later) = false := by simpa [hs'] using hq
        rw [Bool.or_eq_false_iff] at hr
        have hw := (hend hr.1).wrap_eq hfit (List.ne_nil_of_mem (List.mem_of_getElem? hi))
        rw [entryAt_stepless _ hs', resume_none, run_stepless report q b' _ hs', bind_of_pure,
          items_stepless report later _ _ hr.2, andThen_pure, if_pos rfl, hw, resume_none]

lemma resume_afterPrologue {root p : Pipeline σ κ} (hfit : FitsVec p)
    (ih : ∀ b q, .pipeline b q ∈ p.steps → Simulated report root q) {ctx : Context σ κ}
    {b : Behavior} (hloc : Located root ctx p b) {rest : Bool}
    (hend : rest = false → Halts ctx p b) (hu : unobstructedItems rest p.steps = true) (os : List Outcome) :
    resume report (at_ ctx p 0).afterPrologue os =
      (runBody b (anyStep p.steps) (runItems report p.steps 0 ctx.path)).andThen
        (fun _ => resume report (at_ ctx p 0).afterLoop) os := by
  rw [afterPrologue_at]
  by_cases hs : p.steps = []
  · simp [hs, anyStep, runBody, runItems]
  · rw [if_neg (by simpa using hs), runBody]
    have hitems := resume_items report hfit ih hloc hend p.steps 0 rfl hs hu
    split
    · rename_i hl
      -- every iteration consumes an outcome
      induction hn : os.length using Nat.strong_induction_on generalizing os with
      | _ n ihn =>
        have hp := productive_items report p.steps 0 ctx.path hl.2
        rw [hitems, loop_unroll hp, andThen_bind]
        apply andThen_congr
        intro fell tail hfin
        have hlt := hp os fell tail hfin
        cases fell with
        | false => simp
        | true =>
          simp only [if_true, wrap, hl.1]
          exact ihn tail.length (by omega) tail rfl
    · rename_i hl
      cases hany : anyStep p.steps with
      | true =>
        have hb : b = .once := by
          cases b with
          | once => rfl
          | loop => exact absurd ⟨rfl, hany⟩ hl
        rw [hitems, andThen_bind]
        apply andThen_congr
        intro fell tail _
        cases fell <;> simp [wrap, hb]
      | false =>
        have hr : rest = false := by
          rcases hp : p.steps with _ | ⟨_ | ⟨b₁, q₁⟩, more⟩
          · exact absurd hp hs
          · simp [hp, anyStep] at hany
          · simp only [hp, anyStep, Bool.or_eq_false_iff] at hany
            simp only [hp, unobstructedItems, hany.1, hany.2, Bool.false_or, Bool.or_false,
              Bool.and_eq_true, Bool.not_eq_true'] at hu
            exact hu.1.1
        rw [items_stepless report p.steps 0 _ hany, bind_of_pure, andThen_pure, (hend hr).1,
          enter_stepless ctx hfit (List.length_pos_of_ne_nil hs) hany]

lemma entry_afterPrologue {p : Pipeline σ κ} (hfit : FitsVec p) (ctx : Context σ κ)
    (hp : p.prologue = none) (hs : p.hasStep = true) :
    (.ok (entryAt ctx p) : Except Panic _) = (at_ ctx p 0).afterPrologue := by
  rw [afterPrologue_at]
  by_cases hne : p.steps = []
  · have he : p.epilogue.isSome = true := by
      cases p with
      | mk pro epi steps lim =>
        cases hp
        cases hne
        simpa [hasStep, anyStep] using hs
    simp [entryAt_epilogue ctx hp hne, afterLoop_at, hne, he]
  · rw [if_neg (by simpa using hne), enter_step0 ctx hfit hp hne]

theorem simulated {root : Pipeline σ κ} (hfit : root.Everywhere FitsVec) (p : Pipeline σ κ) :
    Simulated report root p := by
  induction p using nesting_induction with
  | h p ih =>
    intro ctx b rest hloc hs hu hhalt os
    have hp : FitsVec p := (hloc.everywhere hfit).here
    have hu' : unobstructedItems (rest || p.epilogue.isSome || (b == .loop && anyStep p.steps))
        p.steps = true := by
      cases p with
      | mk pro epi steps lim => simpa only [unobstructed, epilogue_mk, steps_mk] using hu
    have hend : (rest || p.epilogue.isSome || (b == .loop && anyStep p.steps)) = false →
        Halts ctx p b := by
      intro h
      simp only [Bool.or_eq_false_iff] at h
      refine ⟨by rw [afterLoop_at, h.1.2]; exact hhalt h.1.1, ?_⟩
      rintro rfl
      simpa using h.2
    have hbody := resume_afterPrologue report hp ih hloc hend hu'
    cases hpro : p.prologue with
    | none =>
      rw [entry_afterPrologue hp ctx hpro hs, hbody]
      cases p with
      | mk pro epi steps lim =>
        cases hpro
        rw [run_without_prologue, andThen_bind]
        apply andThen_congr
        intro _ tail _
        exact resume_afterLoop hloc 0 tail
    | some s =>
      rw [entryAt_prologue ctx (by simp [hpro])]
      cases p with
      | mk pro epi steps lim =>
        cases hpro
        rw [runPipeline, andThen_bind, runPrologue]
        cases os with
        | nil => rfl
        | cons o os =>
          simp only [resume_cons, prologue_mk, andThen_bind, andThen_visit_cons, andThen_pure]
          congr 1
          cases o with
          | ok =>
            rw [StepNavigator.next, nextOk_prologue]
            change resume report (at_ ctx _ 0).afterPrologue os = _
            rw [hbody]
            apply andThen_congr
            intro _ tail _
            exact resume_afterLoop hloc 0 tail
          | brk =>
            rw [StepNavigator.next, nextBreak_of_ne ctx _ epilogue_ne_prologue.symm,
              if_neg (by decide), andThen_pure]
            exact resume_afterLoop hloc _ os

end Rblib.Pipelines
