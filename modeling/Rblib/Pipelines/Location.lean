import Rblib.Pipelines.Navigator
import Rblib.Pipelines.Structured

/-! Navigators that point into a pipeline: `at_ ctx p x` points at the item `x` of a pipeline `p`
reached through the nested items listed in `ctx`, outermost first. -/

namespace Rblib.Pipelines

variable {σ κ : Type}

abbrev Context (σ κ : Type) := List (Pipeline σ κ × ℕ)

def Context.path (ctx : Context σ κ) : StepPath := ctx.map fun f => f.2 + STEP0_INDEX

def Context.pipelines (ctx : Context σ κ) : List (Pipeline σ κ) := ctx.map Prod.fst

lemma Context.path_concat (ctx : Context σ κ) (p : Pipeline σ κ) (i : ℕ) :
    Context.path (ctx ++ [(p, i)]) = ctx.path ++ [i + 1] := by
  simp [Context.path, STEP0_INDEX, PROLOGUE_INDEX]

lemma Context.pipelines_concat (ctx : Context σ κ) (p : Pipeline σ κ) (i : ℕ) :
    Context.pipelines (ctx ++ [(p, i)]) = ctx.pipelines ++ [p] := by
  simp [Context.pipelines]

inductive Located (root : Pipeline σ κ) : Context σ κ → Pipeline σ κ → Behavior → Prop
  | root : Located root [] root .once
  | nested {ctx q b i b' p} : Located root ctx q b → q.steps[i]? = some (.pipeline b' p) →
      Located root (ctx ++ [(q, i)]) p b'

lemma Located.everywhere {root p : Pipeline σ κ} {ctx : Context σ κ} {b : Behavior}
    {Q : Pipeline σ κ → Prop} (h : Located root ctx p b) (hr : root.Everywhere Q) :
    p.Everywhere Q := by
  induction h with
  | root => exact hr
  | nested _ hi ih => exact ih.nested (List.mem_of_getElem? hi)

lemma epilogue_ne_prologue : EPILOGUE_INDEX ≠ PROLOGUE_INDEX := by decide

lemma index_ne_epilogue {n i : ℕ} (hn : n ≤ isizeMax) (hi : i < n) : i + 1 ≠ EPILOGUE_INDEX := by
  simp only [isizeMax, EPILOGUE_INDEX, usizeMax] at *
  omega

namespace StepNavigator

def at_ (ctx : Context σ κ) (p : Pipeline σ κ) (x : ℕ) : StepNavigator σ κ :=
  ⟨ctx.path ++ [x], ctx.pipelines ++ [p]⟩

def relocate (ctx : Context σ κ) (nav : StepNavigator σ κ) : StepNavigator σ κ :=
  ⟨ctx.path ++ nav.path, ctx.pipelines ++ nav.ancestors⟩

def entryAt (ctx : Context σ κ) (p : Pipeline σ κ) : Option (StepNavigator σ κ) :=
  (entrypoint p).map (relocate ctx)

@[simp] lemma pipeline_at (ctx : Context σ κ) (p : Pipeline σ κ) (x : ℕ) :
    (at_ ctx p x).pipeline = .ok p := by
  simp [pipeline, at_]

@[simp] lemma isPrologue_at (ctx : Context σ κ) (p : Pipeline σ κ) (x : ℕ) :
    (at_ ctx p x).isPrologue = .ok (x == PROLOGUE_INDEX) := by
  simp [isPrologue, at_]

@[simp] lemma isEpilogue_at (ctx : Context σ κ) (p : Pipeline σ κ) (x : ℕ) :
    (at_ ctx p x).isEpilogue = .ok (x == EPILOGUE_INDEX) := by
  simp [isEpilogue, at_]

@[simp] lemma leaf_at (ctx : Context σ κ) (p : Pipeline σ κ) (x : ℕ) :
    StepPath.leaf (at_ ctx p x).path = .ok x := by
  simp [at_]

lemma replaceLeaf_at (ctx : Context σ κ) (p : Pipeline σ κ) (x y : ℕ) :
    StepPath.replaceLeaf (at_ ctx p x).path y = .ok (at_ ctx p y).path := by
  simp [at_]

lemma ancestors_at (ctx : Context σ κ) (p : Pipeline σ κ) (x : ℕ) :
    (at_ ctx p x).ancestors = ctx.pipelines ++ [p] := rfl

lemma incrementLeaf_at (ctx : Context σ κ) (p : Pipeline σ κ) (x : ℕ) :
    (⟨StepPath.incrementLeaf (at_ ctx p x).path, (at_ ctx p x).ancestors⟩ : StepNavigator σ κ) =
      at_ ctx p (x + 1) := by
  simp [at_]

lemma join_at (ctx : Context σ κ) (p : Pipeline σ κ) (i : ℕ) (nav : StepNavigator σ κ) :
    join (at_ ctx p (i + 1)) nav = relocate (ctx ++ [(p, i)]) nav := by
  simp only [join, at_, relocate, StepPath.concat, Context.path_concat, Context.pipelines_concat]

lemma relocate_join (ctx : Context σ κ) (p : Pipeline σ κ) (nav : StepNavigator σ κ) :
    relocate ctx (join ⟨StepPath.step0, [p]⟩ nav) = relocate (ctx ++ [(p, 0)]) nav := by
  simp only [join, relocate, StepPath.concat, Context.path_concat, Context.pipelines_concat,
    List.append_assoc]
  rfl

lemma entryAt_prologue (ctx : Context σ κ) {p : Pipeline σ κ} (h : p.prologue.isSome) :
    entryAt ctx p = some (at_ ctx p PROLOGUE_INDEX) := by
  cases p with
  | mk pro epi steps lim =>
    obtain ⟨s, rfl⟩ := Option.isSome_iff_exists.mp h
    rcases steps with _ | ⟨_ | _, rest⟩ <;> rfl

lemma entryAt_epilogue (ctx : Context σ κ) {p : Pipeline σ κ} (hp : p.prologue = none)
    (hs : p.steps = []) :
    entryAt ctx p = if p.epilogue.isSome then some (at_ ctx p EPILOGUE_INDEX) else none := by
  cases p with
  | mk pro epi steps lim =>
    cases hp
    cases hs
    cases epi <;> rfl

lemma enter_step (ctx : Context σ κ) {p : Pipeline σ κ} {i : ℕ} {s : σ}
    (hl : p.steps.length ≤ isizeMax) (hi : p.steps[i]? = some (.step s)) :
    enter (at_ ctx p (i + 1)) = .ok (some (at_ ctx p (i + 1))) := by
  have he := index_ne_epilogue hl (List.getElem?_eq_some_iff.mp hi).1
  simp [enter, hi, he, PROLOGUE_INDEX, bind, Except.bind, pure, Except.pure]

lemma enter_nested (ctx : Context σ κ) {p q : Pipeline σ κ} {i : ℕ} {b : Behavior}
    (hl : p.steps.length ≤ isizeMax) (hi : p.steps[i]? = some (.pipeline b q)) :
    enter (at_ ctx p (i + 1)) = .ok (entryAt (ctx ++ [(p, i)]) q) := by
  have he := index_ne_epilogue hl (List.getElem?_eq_some_iff.mp hi).1
  have hj : join (at_ ctx p (i + 1)) = relocate (ctx ++ [(p, i)]) := funext (join_at ctx p i)
  simp [enter, hi, he, hj, entryAt, PROLOGUE_INDEX, bind, Except.bind, pure, Except.pure]

lemma enter_step0 (ctx : Context σ κ) {p : Pipeline σ κ} (hl : p.steps.length ≤ isizeMax)
    (hp : p.prologue = none) (hs : p.steps ≠ []) :
    enter (at_ ctx p 1) = .ok (entryAt ctx p) := by
  cases p with
  | mk pro epi steps lim =>
    cases hp
    cases steps with
    | nil => exact absurd rfl hs
    | cons item rest =>
      cases item with
      | step s =>
        rw [enter_step ctx (i := 0) hl rfl]
        cases epi <;> rfl
      | pipeline b q =>
        rw [enter_nested ctx (i := 0) hl rfl]
        simp only [entryAt, entrypoint, Pipeline.isEmpty]
        cases entrypoint q with
        | none => cases epi <;> rfl
        | some nav => simp [relocate_join]

lemma behavior_at {root p : Pipeline σ κ} {ctx : Context σ κ} {b : Behavior}
    (h : Located root ctx p b) (x : ℕ) : (at_ ctx p x).behavior = .ok b := by
  cases h with
  | root => rfl
  | @nested ctx q b₀ i _ _ hq hi =>
    have ht : StepPath.isToplevel (at_ (ctx ++ [(q, i)]) p x).path = false := by
      simp [at_, StepPath.isToplevel, StepPath.depth, Context.path]
    have hr : StepPath.removeLeaf (at_ (ctx ++ [(q, i)]) p x).path =
        .ok (some (ctx.path ++ [i + 1])) := by
      simp only [at_, Context.path_concat, StepPath.removeLeaf_append]
    have ha : (at_ (ctx ++ [(q, i)]) p x).ancestors.reverse[1]? = some q := by
      simp [at_, Context.pipelines_concat]
    simp [behavior, ht, hr, ha, hi, bind, Except.bind, pure, Except.pure]

lemma ancestor_root (p : Pipeline σ κ) (x : ℕ) : (at_ [] p x).ancestor = .ok none := rfl

lemma ancestor_nested (ctx : Context σ κ) (p q : Pipeline σ κ) (i x : ℕ) :
    (at_ (ctx ++ [(q, i)]) p x).ancestor = .ok (some (at_ ctx q (i + 1))) := by
  have hr : StepPath.removeLeaf (at_ (ctx ++ [(q, i)]) p x).path =
      .ok (some (ctx.path ++ [i + 1])) := by
    simp only [at_, Context.path_concat, StepPath.removeLeaf_append]
  simp only [ancestor, hr]
  rw [if_neg (by simp [at_])]
  simp [at_, Context.pipelines_concat]

lemma afterLoop_at (ctx : Context σ κ) (p : Pipeline σ κ) (x : ℕ) :
    (at_ ctx p x).afterLoop =
      if p.epilogue.isSome then .ok (some (at_ ctx p EPILOGUE_INDEX))
      else (at_ ctx p x).nextInParent := by
  rw [afterLoop, pipeline_at]
  simp only [replaceLeaf_at, ancestors_at]
  rfl

lemma afterPrologue_at (ctx : Context σ κ) (p : Pipeline σ κ) (x : ℕ) :
    (at_ ctx p x).afterPrologue =
      if p.steps.isEmpty then (at_ ctx p x).afterLoop else enter (at_ ctx p 1) := by
  rw [afterPrologue, pipeline_at]
  simp only [replaceLeaf_at, ancestors_at]
  rfl

lemma nextInParent_root (p : Pipeline σ κ) (x : ℕ) : (at_ [] p x).nextInParent = .ok none := by
  rw [nextInParent]
  split
  · rename_i e h
    rw [ancestor_root] at h
    cases h
  · rfl
  · rename_i anc h
    rw [ancestor_root] at h
    cases h

def wrap (b : Behavior) (ctx : Context σ κ) (p : Pipeline σ κ) (x : ℕ) :
    Except Panic (Option (StepNavigator σ κ)) :=
  match b with
  | .loop => enter (at_ ctx p 1)
  | .once => (at_ ctx p x).afterLoop

lemma isEmpty_of_lt {l : List (StepOrPipeline σ κ)} {i : ℕ} (h : i < l.length) :
    l.isEmpty = false := by
  cases l with
  | nil => simp at h
  | cons item rest => rfl

lemma nextInParent_nested {root q : Pipeline σ κ} {ctx : Context σ κ} {b : Behavior}
    (h : Located root ctx q b) (p : Pipeline σ κ) {i : ℕ} (hi : i < q.steps.length) (x : ℕ) :
    (at_ (ctx ++ [(q, i)]) p x).nextInParent =
      if i + 1 ≥ q.steps.length then wrap b ctx q (i + 1) else enter (at_ ctx q (i + 2)) := by
  have ha := ancestor_nested ctx p q i x
  rw [nextInParent]
  split
  · rename_i e he
    rw [ha] at he
    cases he
  · rename_i he
    rw [ha] at he
    cases he
  · rename_i anc he
    rw [ha] at he
    cases he
    simp only [leaf_at, checkedSub_step0, pipeline_at, behavior_at h, incrementLeaf_at, bind,
      Except.bind, afterPrologue_at, isEmpty_of_lt hi]
    cases b <;> rfl

lemma nextInParent_leaf (ctx : Context σ κ) (p : Pipeline σ κ) (x y : ℕ)
    {root : Pipeline σ κ} {b : Behavior} (h : Located root ctx p b) :
    (at_ ctx p x).nextInParent = (at_ ctx p y).nextInParent := by
  cases h with
  | root => rw [nextInParent_root, nextInParent_root]
  | nested hq hi =>
    have hlt := (List.getElem?_eq_some_iff.mp hi).1
    rw [nextInParent_nested hq p hlt, nextInParent_nested hq p hlt]

lemma nextOk_epilogue (ctx : Context σ κ) (p : Pipeline σ κ) :
    (at_ ctx p EPILOGUE_INDEX).nextOk = (at_ ctx p EPILOGUE_INDEX).nextInParent := by
  simp [nextOk, bind, Except.bind]

lemma nextBreak_epilogue (ctx : Context σ κ) (p : Pipeline σ κ) :
    (at_ ctx p EPILOGUE_INDEX).nextBreak = (at_ ctx p EPILOGUE_INDEX).nextInParent := by
  simp [nextBreak, bind, Except.bind]

lemma nextOk_prologue (ctx : Context σ κ) (p : Pipeline σ κ) :
    (at_ ctx p PROLOGUE_INDEX).nextOk = (at_ ctx p PROLOGUE_INDEX).afterPrologue := by
  simp [nextOk, epilogue_ne_prologue.symm, bind, Except.bind]

lemma nextBreak_of_ne (ctx : Context σ κ) (p : Pipeline σ κ) {x : ℕ} (hx : x ≠ EPILOGUE_INDEX) :
    (at_ ctx p x).nextBreak = (at_ ctx p x).afterLoop := by
  simp [nextBreak, hx, bind, Except.bind]

lemma nextOk_step {root p : Pipeline σ κ} {ctx : Context σ κ} {b : Behavior}
    (h : Located root ctx p b) (hl : p.steps.length ≤ isizeMax) {i : ℕ} (hi : i < p.steps.length) :
    (at_ ctx p (i + 1)).nextOk =
      if i + 1 ≥ p.steps.length then wrap b ctx p (i + 1) else enter (at_ ctx p (i + 2)) := by
  have he := index_ne_epilogue hl hi
  have hs := isEmpty_of_lt hi
  have hr : StepPath.replaceLeaf (at_ ctx p (i + 1)).path STEP0_INDEX = .ok (at_ ctx p 1).path :=
    replaceLeaf_at ctx p (i + 1) 1
  simp only [nextOk, isEpilogue_at, isPrologue_at, pipeline_at, leaf_at, checkedSub_step0,
    behavior_at h, hs, hr, incrementLeaf_at, bind, Except.bind]
  by_cases hlast : i + 1 ≥ p.steps.length
  · cases b <;> simp [he, hlast, wrap, PROLOGUE_INDEX, at_]
  · cases b <;> simp [he, hlast, PROLOGUE_INDEX]

end StepNavigator

end Rblib.Pipelines
