import Rblib.Pipelines.Tree

/-! The navigator of `navi.rs`: a step path bound to the pipelines that enclose it. The source's
`entrypoint` calls `enter` on the first item; here the call is unfolded, and `enter_step0` recovers
that equation. -/

namespace Rblib.Pipelines

variable {σ κ : Type}

structure StepNavigator (σ κ : Type) where
  path : StepPath
  ancestors : List (Pipeline σ κ)

namespace StepNavigator

def pipeline (nav : StepNavigator σ κ) : Except Panic (Pipeline σ κ) :=
  match nav.ancestors.getLast? with
  | some p => .ok p
  | none => .error "StepNavigator should always have at least one enclosing pipeline"

def isPrologue (nav : StepNavigator σ κ) : Except Panic Bool := StepPath.isPrologue nav.path

def isEpilogue (nav : StepNavigator σ κ) : Except Panic Bool := StepPath.isEpilogue nav.path

def join (nav other : StepNavigator σ κ) : StepNavigator σ κ :=
  ⟨StepPath.concat nav.path other.path, nav.ancestors ++ other.ancestors⟩

def entrypoint : Pipeline σ κ → Option (StepNavigator σ κ)
  | .mk prologue epilogue steps limits =>
    let p := .mk prologue epilogue steps limits
    if p.isEmpty then none
    else if prologue.isSome then some ⟨StepPath.prologue, [p]⟩
    else match steps with
      | [] => if epilogue.isSome then some ⟨StepPath.epilogue, [p]⟩ else none
      | .step _ :: _ => some ⟨StepPath.step0, [p]⟩
      | .pipeline _ nested :: _ => (entrypoint nested).map (join ⟨StepPath.step0, [p]⟩)

def enter (nav : StepNavigator σ κ) : Except Panic (Option (StepNavigator σ κ)) := do
  let enclosing ← nav.pipeline
  if (← nav.isPrologue) || (← nav.isEpilogue) then
    if enclosing.prologue.isSome || enclosing.epilogue.isSome then return some nav
    else throw "path is prologue or epilogue, but enclosing pipeline has none"
  else match checkedSub (← StepPath.leaf nav.path) STEP0_INDEX with
    | none => throw "path is not prologue or epilogue"
    | some stepIndex => match enclosing.steps[stepIndex]? with
      | none => return none
      | some (.step _) => return some nav
      | some (.pipeline _ nested) => return (entrypoint nested).map (join nav)

def stepInstance (nav : StepNavigator σ κ) : Except Panic σ := do
  let enclosing ← nav.pipeline
  if ← nav.isPrologue then match enclosing.prologue with
    | some s => return s
    | none => throw "Step path points to a non-existing prologue"
  else if ← nav.isEpilogue then match enclosing.epilogue with
    | some s => return s
    | none => throw "Step path points to a non-existing epilogue"
  else match enclosing.steps[(← StepPath.leaf nav.path) - STEP0_INDEX]? with
    | some (.step s) => return s
    | some (.pipeline _ _) =>
      throw "StepNavigator should not point to a pipeline, only to steps"
    | none => throw "Step path points to a non-existing step"

def behavior (nav : StepNavigator σ κ) : Except Panic Behavior := do
  if StepPath.isToplevel nav.path then return .once
  else match ← StepPath.removeLeaf nav.path with
    | none => throw "non-top-level"
    | some parentPath => match (nav.ancestors.reverse[1]? : Option (Pipeline σ κ)) with
      | none => throw "non-top-level"
      | some grandparent => match checkedSub (← StepPath.leaf parentPath) STEP0_INDEX with
        | none => throw "step ancestors may not be prologues or epilogues"
        | some parentIndex => match grandparent.steps[parentIndex]? with
          | none => throw "the parent pipeline should contain the current step"
          | some (.step _) => throw "all ancestors of a step must be pipelines"
          | some (.pipeline b _) => return b

def ancestor (nav : StepNavigator σ κ) : Except Panic (Option (StepNavigator σ κ)) :=
  match StepPath.removeLeaf nav.path with
  | .error e => .error e
  | .ok none => .ok none
  | .ok (some path) =>
    if nav.ancestors = [] then .error "attempt to subtract with overflow"
    else .ok (some ⟨path, nav.ancestors.dropLast⟩)

lemma ancestor_shorter {nav anc : StepNavigator σ κ} (h : nav.ancestor = .ok (some anc)) :
    anc.path.length < nav.path.length := by
  unfold ancestor StepPath.removeLeaf at h
  by_cases ht : StepPath.isToplevel nav.path
  · simp [ht] at h
  · by_cases hp : nav.path = []
    · simp [hp, StepPath.isToplevel, StepPath.depth] at h
    · by_cases ha : nav.ancestors = []
      · simp [ht, hp, ha] at h
      · simp only [ht, hp, ha, if_false, Bool.false_eq_true, Except.ok.injEq,
          Option.some.injEq] at h
        have hl := List.length_pos_iff.mpr hp
        rw [← h, List.length_dropLast]
        omega

mutual

def afterLoop (nav : StepNavigator σ κ) : Except Panic (Option (StepNavigator σ κ)) :=
  match nav.pipeline with
  | .error e => .error e
  | .ok enclosing =>
    if enclosing.epilogue.isSome then do
      return some ⟨← StepPath.replaceLeaf nav.path EPILOGUE_INDEX, nav.ancestors⟩
    else nextInParent nav
termination_by (nav.path.length, 1)

def afterPrologue (nav : StepNavigator σ κ) : Except Panic (Option (StepNavigator σ κ)) :=
  match nav.pipeline with
  | .error e => .error e
  | .ok enclosing =>
    if enclosing.steps.isEmpty then afterLoop nav
    else do enter ⟨← StepPath.replaceLeaf nav.path STEP0_INDEX, nav.ancestors⟩
termination_by (nav.path.length, 2)

def nextInParent (nav : StepNavigator σ κ) : Except Panic (Option (StepNavigator σ κ)) :=
  match _h : nav.ancestor with
  | .error e => .error e
  | .ok none => .ok none
  | .ok (some anc) => do
    match checkedSub (← StepPath.leaf anc.path) STEP0_INDEX with
    | none => return none
    | some stepIndex =>
      let enclosing ← anc.pipeline
      if stepIndex + 1 ≥ enclosing.steps.length then
        match ← anc.behavior with
        | .loop => afterPrologue anc
        | .once => afterLoop anc
      else enter ⟨StepPath.incrementLeaf anc.path, anc.ancestors⟩
termination_by (nav.path.length, 0)
decreasing_by all_goals exact Prod.Lex.left _ _ (ancestor_shorter (by assumption))

end

def nextOk (nav : StepNavigator σ κ) : Except Panic (Option (StepNavigator σ κ)) := do
  if ← nav.isEpilogue then nav.nextInParent
  else if ← nav.isPrologue then nav.afterPrologue
  else
    let enclosing ← nav.pipeline
    if enclosing.steps.isEmpty then throw "invalid navigator state"
    else match checkedSub (← StepPath.leaf nav.path) STEP0_INDEX with
      | none => throw "invalid step index in the step path"
      | some position =>
        let isLast := decide (position + 1 ≥ enclosing.steps.length)
        match ← nav.behavior, isLast with
        | .loop, true => enter ⟨← StepPath.replaceLeaf nav.path STEP0_INDEX, nav.ancestors⟩
        | .once, true => nav.afterLoop
        | _, false => enter ⟨StepPath.incrementLeaf nav.path, nav.ancestors⟩

def nextBreak (nav : StepNavigator σ κ) : Except Panic (Option (StepNavigator σ κ)) := do
  if ← nav.isEpilogue then nav.nextInParent else nav.afterLoop

end StepNavigator

def StepPath.walk : StepPath → List (Pipeline σ κ) → Option (List (Pipeline σ κ))
  | i :: j :: rest, ancestors => do
    let enclosing ← ancestors.getLast?
    let stepIndex ← checkedSub i STEP0_INDEX
    match ← enclosing.steps[stepIndex]? with
    | .step _ => none
    | .pipeline _ nested => walk (j :: rest) (ancestors ++ [nested])
  | _, ancestors => some ancestors

def StepPath.navigator (p : StepPath) (root : Pipeline σ κ) :
    Except Panic (Option (StepNavigator σ κ)) := do
  let _ ← StepPath.root p
  match StepPath.walk p [root] with
  | none => return none
  | some ancestors => StepNavigator.enter ⟨p, ancestors⟩

end Rblib.Pipelines
