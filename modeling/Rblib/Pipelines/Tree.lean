import Mathlib.Tactic

/-! Pipelines over step instances `σ` and limits factories `κ`, and the step paths of `navi.rs` that
address their items. `Everywhere Q` says that `Q` holds of a pipeline and of everything nested in
it; `descend` lists the paths met when a path is extended by the given indices one at a time. -/

namespace Rblib.Pipelines

/-- The message of a failed `expect`, `assert!` or `unreachable!`. -/
abbrev Panic := String

inductive Behavior
  | once
  | loop
  deriving DecidableEq

mutual

inductive Pipeline (σ κ : Type) where
  | mk (prologue epilogue : Option σ) (steps : List (StepOrPipeline σ κ)) (limits : Option κ)

inductive StepOrPipeline (σ κ : Type) where
  | step (s : σ)
  | pipeline (b : Behavior) (p : Pipeline σ κ)

end

variable {σ κ : Type}

namespace Pipeline

def prologue : Pipeline σ κ → Option σ
  | mk p _ _ _ => p

def epilogue : Pipeline σ κ → Option σ
  | mk _ e _ _ => e

def steps : Pipeline σ κ → List (StepOrPipeline σ κ)
  | mk _ _ s _ => s

def limits : Pipeline σ κ → Option κ
  | mk _ _ _ l => l

@[simp] lemma prologue_mk (p e : Option σ) (s : List (StepOrPipeline σ κ)) (l : Option κ) :
    (mk p e s l).prologue = p := rfl

@[simp] lemma epilogue_mk (p e : Option σ) (s : List (StepOrPipeline σ κ)) (l : Option κ) :
    (mk p e s l).epilogue = e := rfl

@[simp] lemma steps_mk (p e : Option σ) (s : List (StepOrPipeline σ κ)) (l : Option κ) :
    (mk p e s l).steps = s := rfl

@[simp] lemma limits_mk (p e : Option σ) (s : List (StepOrPipeline σ κ)) (l : Option κ) :
    (mk p e s l).limits = l := rfl

def isEmpty (p : Pipeline σ κ) : Bool :=
  p.prologue.isNone && p.epilogue.isNone && p.steps.isEmpty

def default : Pipeline σ κ := mk none none [] none

def withPrologue (p : Pipeline σ κ) (s : σ) : Pipeline σ κ := mk (some s) p.epilogue p.steps p.limits

def withEpilogue (p : Pipeline σ κ) (s : σ) : Pipeline σ κ := mk p.prologue (some s) p.steps p.limits

def withStep (p : Pipeline σ κ) (s : σ) : Pipeline σ κ :=
  mk p.prologue p.epilogue (p.steps ++ [.step s]) p.limits

def withPipeline (p : Pipeline σ κ) (b : Behavior) (nested : Pipeline σ κ) : Pipeline σ κ :=
  mk p.prologue p.epilogue (p.steps ++ [.pipeline b nested]) p.limits

def withLimits (p : Pipeline σ κ) (l : κ) : Pipeline σ κ := mk p.prologue p.epilogue p.steps (some l)

lemma sizeOf_nested {p q : Pipeline σ κ} {b : Behavior} (h : .pipeline b q ∈ p.steps) :
    sizeOf q < sizeOf p := by
  cases p with
  | mk pro epi steps lim =>
    have hs := List.sizeOf_lt_of_mem (show .pipeline b q ∈ steps from h)
    simp only [StepOrPipeline.pipeline.sizeOf_spec, mk.sizeOf_spec] at hs ⊢
    omega

theorem nesting_induction {P : Pipeline σ κ → Prop}
    (h : ∀ p, (∀ b q, .pipeline b q ∈ p.steps → P q) → P p) (p : Pipeline σ κ) : P p :=
  h p fun _ q _ => nesting_induction h q
termination_by sizeOf p
decreasing_by exact sizeOf_nested (by assumption)

inductive Everywhere (Q : Pipeline σ κ → Prop) : Pipeline σ κ → Prop
  | intro {p} : Q p → (∀ b q, .pipeline b q ∈ p.steps → Everywhere Q q) → Everywhere Q p

lemma Everywhere.here {Q : Pipeline σ κ → Prop} {p : Pipeline σ κ} (h : Everywhere Q p) : Q p := by
  cases h
  assumption

lemma Everywhere.nested {Q : Pipeline σ κ → Prop} {p q : Pipeline σ κ} {b : Behavior}
    (h : Everywhere Q p) (hq : .pipeline b q ∈ p.steps) : Everywhere Q q := by
  cases h with
  | intro _ hn => exact hn b q hq

def NoEmptyNested (p : Pipeline σ κ) : Prop :=
  Everywhere (fun q => ∀ b r, .pipeline b r ∈ q.steps → r.isEmpty = false) p

mutual

def checkAll (check : Pipeline σ κ → Bool) : Pipeline σ κ → Bool
  | mk prologue epilogue steps limits =>
    check (mk prologue epilogue steps limits) && checkItems check steps

def checkItems (check : Pipeline σ κ → Bool) : List (StepOrPipeline σ κ) → Bool
  | [] => true
  | .step _ :: later => checkItems check later
  | .pipeline _ p :: later => checkAll check p && checkItems check later

end

lemma checkAll_of_mem {check : Pipeline σ κ → Bool} {items : List (StepOrPipeline σ κ)}
    (h : checkItems check items = true) {b : Behavior} {q : Pipeline σ κ}
    (hq : .pipeline b q ∈ items) : checkAll check q = true := by
  induction items with
  | nil => cases hq
  | cons item later ih =>
    cases item with
    | step s => exact ih h (by simpa using hq)
    | pipeline b' p =>
      rw [checkItems, Bool.and_eq_true] at h
      rcases List.mem_cons.mp hq with he | hm
      · cases he
        exact h.1
      · exact ih h.2 hm

lemma everywhere_of_checkAll {check : Pipeline σ κ → Bool} {Q : Pipeline σ κ → Prop}
    (hc : ∀ q, check q = true → Q q) {p : Pipeline σ κ} (h : checkAll check p = true) :
    Everywhere Q p := by
  induction p using nesting_induction with
  | h p ih =>
    cases p with
    | mk prologue epilogue steps limits =>
      rw [checkAll, Bool.and_eq_true] at h
      exact .intro (hc _ h.1) fun b q hq => ih b q hq (checkAll_of_mem h.2 hq)

def nestedNonempty (p : Pipeline σ κ) : Bool :=
  p.steps.all fun item => match item with
    | .step _ => true
    | .pipeline _ q => !q.isEmpty

lemma noEmptyNested_of_checkAll {p : Pipeline σ κ} (h : checkAll nestedNonempty p = true) :
    p.NoEmptyNested := by
  refine everywhere_of_checkAll (fun q hq b r hr => ?_) h
  simpa using List.all_eq_true.mp hq _ hr

end Pipeline

def usizeMax : ℕ := 2 ^ 64 - 1

def isizeMax : ℕ := 2 ^ 63 - 1

structure PipelineTree (σ κ : Type) where
  root : Pipeline σ κ
  fits : root.Everywhere fun q => q.steps.length ≤ isizeMax

lemma Pipeline.fits_of_checkAll {p : Pipeline σ κ}
    (h : p.checkAll (fun q => decide (q.steps.length ≤ isizeMax)) = true) :
    p.Everywhere fun q => q.steps.length ≤ isizeMax :=
  everywhere_of_checkAll (fun _ hq => of_decide_eq_true hq) h

def PROLOGUE_INDEX : ℕ := 0
def EPILOGUE_INDEX : ℕ := usizeMax
def STEP0_INDEX : ℕ := PROLOGUE_INDEX + 1

abbrev StepPath := List ℕ

def checkedSub (a b : ℕ) : Option ℕ := if b ≤ a then some (a - b) else none

@[simp] lemma checkedSub_step0 (i : ℕ) : checkedSub (i + 1) STEP0_INDEX = some i := by
  simp [checkedSub, STEP0_INDEX, PROLOGUE_INDEX]

namespace StepPath

def depth (p : StepPath) : ℕ := p.length

def isToplevel (p : StepPath) : Bool := depth p == 1

def leaf (p : StepPath) : Except Panic ℕ :=
  match p.getLast? with
  | some i => .ok i
  | none => .error "StepPath cannot be empty"

def isPrologue (p : StepPath) : Except Panic Bool := do return (← leaf p) == PROLOGUE_INDEX

def isEpilogue (p : StepPath) : Except Panic Bool := do return (← leaf p) == EPILOGUE_INDEX

def root : StepPath → Except Panic StepPath
  | [] => .error "range end index 1 out of range for slice of length 0"
  | i :: _ => .ok [i]

def removeRoot : StepPath → Except Panic (Option StepPath)
  | [] => .error "range start index 1 out of range for slice of length 0"
  | [_] => .ok none
  | _ :: tail => .ok (some tail)

def removeLeaf (p : StepPath) : Except Panic (Option StepPath) :=
  if isToplevel p then .ok none
  else if p = [] then .error "attempt to subtract with overflow"
  else .ok (some p.dropLast)

def incrementLeaf (p : StepPath) : StepPath :=
  match p.getLast? with
  | some i => p.dropLast ++ [i + 1]
  | none => p

def replaceLeaf (p : StepPath) (newLeaf : ℕ) : Except Panic StepPath :=
  if p = [] then .error "StepPath cannot be empty" else .ok (p.dropLast ++ [newLeaf])

def isAncestorOf (p other : StepPath) : Bool := p.isPrefixOf other

def commonAncestor : StepPath → StepPath → StepPath
  | i :: p, j :: q => if i = j then i :: commonAncestor p q else []
  | _, _ => []

def descend (current : StepPath) : List ℕ → List StepPath
  | [] => []
  | i :: rest => (current ++ [i]) :: descend (current ++ [i]) rest

def between (p other : StepPath) : List StepPath :=
  if !isAncestorOf p other && !isAncestorOf other p then []
  else
    let ancestor := commonAncestor p other
    if ancestor = p then descend p (other.drop p.length)
    else if ancestor = other then (descend other (p.drop other.length)).reverse
    else []

def prologue : StepPath := [PROLOGUE_INDEX]

def epilogue : StepPath := [EPILOGUE_INDEX]

def step (stepIndex : ℕ) : StepPath := [stepIndex + STEP0_INDEX]

def step0 : StepPath := step 0

def concat (p other : StepPath) : StepPath := p ++ other

def empty : StepPath := []

@[simp] lemma leaf_append (p : StepPath) (i : ℕ) : leaf (p ++ [i]) = .ok i := by
  simp [leaf]

@[simp] lemma isPrologue_append (p : StepPath) (i : ℕ) :
    isPrologue (p ++ [i]) = .ok (i == PROLOGUE_INDEX) := by
  simp [isPrologue, bind, Except.bind, pure, Except.pure]

@[simp] lemma isEpilogue_append (p : StepPath) (i : ℕ) :
    isEpilogue (p ++ [i]) = .ok (i == EPILOGUE_INDEX) := by
  simp [isEpilogue, bind, Except.bind, pure, Except.pure]

@[simp] lemma removeLeaf_single (i : ℕ) : removeLeaf [i] = .ok none := rfl

@[simp] lemma removeLeaf_append (p : StepPath) (i j : ℕ) :
    removeLeaf (p ++ [i] ++ [j]) = .ok (some (p ++ [i])) := by
  simp only [removeLeaf, isToplevel, depth, List.length_append, List.length_singleton,
    List.dropLast_concat, beq_iff_eq]
  rw [if_neg (by omega), if_neg (by simp)]

@[simp] lemma incrementLeaf_append (p : StepPath) (i : ℕ) :
    incrementLeaf (p ++ [i]) = p ++ [i + 1] := by
  simp [incrementLeaf]

@[simp] lemma replaceLeaf_append (p : StepPath) (i j : ℕ) :
    replaceLeaf (p ++ [i]) j = .ok (p ++ [j]) := by
  simp [replaceLeaf]

end StepPath

end Rblib.Pipelines
