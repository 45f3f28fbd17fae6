import Rblib.Pipelines.Limits
import Rblib.Pipelines.Tree

/-! The execution scopes of `scope.rs`. A scope stands for a pipeline and holds the scopes of its
nested pipelines under their item indices; metrics are left out. `refreshedWith` is not a field of
the source: it remembers the checkpoint from which the limits of the scope were last computed. -/

namespace Rblib.Pipelines

open Platform

structure ScopeData (Ck ε : Type) where
  limits : Limits ε
  limitsFactory : Option (ScopedLimits Ck ε)
  enteredAt : Option ℕ
  enterCounter : ℕ
  refreshedWith : Ck

inductive Scope (Ck ε : Type) where
  | mk (data : ScopeData Ck ε) (nested : ℕ → Option (Scope Ck ε))

variable {σ Ck ε : Type}

def ScopeData.isActive (d : ScopeData Ck ε) : Bool := d.enteredAt.isSome

namespace Scope

def data : Scope Ck ε → ScopeData Ck ε
  | mk d _ => d

def nested : Scope Ck ε → ℕ → Option (Scope Ck ε)
  | mk _ n => n

def isActive (scope : Scope Ck ε) : Bool := scope.data.isActive

def startedAt (scope : Scope Ck ε) : Option ℕ := scope.data.enteredAt

def limits (scope : Scope Ck ε) : Limits ε := scope.data.limits

def get : StepPath → Scope Ck ε → Option (Scope Ck ε)
  | [], scope => some scope
  | next :: suffix, mk _ nested => (nested next).bind (get suffix)

lemma get_of_ne {path : StepPath} (h : path ≠ []) (scope : Scope Ck ε) :
    ∃ root next suffix, path.root = .ok root ∧ root.leaf = .ok next ∧ path.removeRoot = .ok suffix ∧
      scope.get path = (scope.nested next).bind fun inner => inner.get (suffix.getD []) := by
  cases path with
  | nil => exact absurd rfl h
  | cons next suffix =>
    obtain ⟨data, nested⟩ := scope
    cases suffix with
    | nil => exact ⟨[next], next, none, rfl, rfl, rfl, rfl⟩
    | cons i suffix => exact ⟨[next], next, some (i :: suffix), rfl, rfl, rfl, rfl⟩

def modify (op : Scope Ck ε → Except Panic (Scope Ck ε)) :
    StepPath → Scope Ck ε → Except Panic (Scope Ck ε)
  | [], scope => op scope
  | next :: suffix, mk d nested => match nested next with
    | none => .error "scope should exist"
    | some inner => (modify op suffix inner).map fun inner' =>
        mk d (Function.update nested next (some inner'))

mutual

def deactivate : Scope Ck ε → Scope Ck ε
  | mk d nested => mk { d with enteredAt := none } fun i => leaveNested (nested i)

def leaveNested : Option (Scope Ck ε) → Option (Scope Ck ε)
  | none => none
  | some (mk d nested) => if d.isActive then some (deactivate (mk d nested)) else some (mk d nested)

end

def leave (scope : Scope Ck ε) : Except Panic (Scope Ck ε) :=
  if scope.isActive then .ok scope.deactivate else .error "Scope is not active"

section Limits

variable [LimitExtension ε]

def refreshed (factory : Option (ScopedLimits Ck ε)) (checkpoint : Ck) (enclosing : Limits ε) :
    Limits ε :=
  (match factory with
    | none => enclosing
    | some limitsFactory => limitsFactory checkpoint enclosing).clamp enclosing

def fresh (factory : Option (ScopedLimits Ck ε)) (checkpoint : Ck) (enclosing : Limits ε) :
    ScopeData Ck ε where
  limits := refreshed factory checkpoint enclosing
  limitsFactory := factory
  enteredAt := none
  enterCounter := 0
  refreshedWith := checkpoint

mutual

def inner (checkpoint : Ck) : Pipeline σ (ScopedLimits Ck ε) → Limits ε → Scope Ck ε
  | .mk _ _ steps limitsFactory, enclosing =>
    mk (fresh limitsFactory checkpoint enclosing)
      (innerItems checkpoint steps (refreshed limitsFactory checkpoint enclosing) STEP0_INDEX)

def innerItems (checkpoint : Ck) :
    List (StepOrPipeline σ (ScopedLimits Ck ε)) → Limits ε → ℕ → ℕ → Option (Scope Ck ε)
  | [], _, _ => fun _ => none
  | .step _ :: later, limits, leaf => innerItems checkpoint later limits (leaf + 1)
  | .pipeline _ p :: later, limits, leaf =>
    Function.update (innerItems checkpoint later limits (leaf + 1)) leaf
      (some (inner checkpoint p limits))

end

def rootedAt (root : Pipeline σ (ScopedLimits Ck ε)) (checkpoint : Ck) (platformLimits : Limits ε) :
    Scope Ck ε :=
  inner checkpoint root platformLimits

def entered (d : ScopeData Ck ε) (checkpoint : Ck) (enclosing : Limits ε) (now : ℕ) :
    ScopeData Ck ε where
  limits := refreshed d.limitsFactory checkpoint enclosing
  limitsFactory := d.limitsFactory
  enteredAt := some now
  enterCounter := min (d.enterCounter + 1) (2 ^ 32 - 1)
  refreshedWith := checkpoint

def enter (checkpoint : Ck) (enclosing : Limits ε) (now : ℕ) :
    Scope Ck ε → Except Panic (Scope Ck ε)
  | mk d nested =>
    if d.isActive then .error "Scope is already active"
    else .ok (mk (entered d checkpoint enclosing now) nested)

end Limits

end Scope

structure RootScope (Ck ε : Type) where
  root : Scope Ck ε
  current : StepPath

def scopeOf (step : StepPath) : Except Panic StepPath := do
  return (← StepPath.removeLeaf step).getD StepPath.empty

namespace RootScope

def limitsOf (scope : RootScope Ck ε) (stepPath : StepPath) : Except Panic (Option (Limits ε)) := do
  return (scope.root.get (← scopeOf stepPath)).map Scope.limits

def enteredAt (scope : RootScope Ck ε) (stepPath : StepPath) : Except Panic (Option ℕ) := do
  return (scope.root.get (← scopeOf stepPath)).bind Scope.startedAt

def leaveAll : List StepPath → Scope Ck ε → Except Panic (Scope Ck ε)
  | [], root => .ok root
  | s :: rest, root => do leaveAll rest (← root.modify Scope.leave s)

def leave (scope : RootScope Ck ε) : Except Panic (RootScope Ck ε) := do
  return { scope with root := ← scope.root.leave }

def isActive (scope : RootScope Ck ε) : Bool := scope.root.isActive

variable [LimitExtension ε]

def new (pipeline : Pipeline σ (ScopedLimits Ck ε)) (initCheckpoint : Ck)
    (platformLimits : Limits ε) : RootScope Ck ε :=
  ⟨Scope.rootedAt pipeline initCheckpoint platformLimits, StepPath.empty⟩

def enterAll (checkpoint : Ck) (now : ℕ) :
    List StepPath → Limits ε → Scope Ck ε → Except Panic (Scope Ck ε)
  | [], _, root => .ok root
  | s :: rest, enclosing, root => do
    let root ← root.modify (Scope.enter checkpoint enclosing now) s
    match root.get s with
    | none => throw "scope should exist"
    | some scope => enterAll checkpoint now rest scope.limits root

def switchContext (scope : RootScope Ck ε) (nextStep : StepPath) (checkpoint : Ck) (now : ℕ) :
    Except Panic (RootScope Ck ε) := do
  let next ← scopeOf nextStep
  let prev := scope.current
  if prev = next then return ⟨scope.root, next⟩
  else
    let common := StepPath.commonAncestor prev next
    let root ← leaveAll (StepPath.between prev common) scope.root
    match root.get common with
    | none => throw "scope should exist"
    | some ancestor =>
      return ⟨← enterAll checkpoint now (StepPath.between common next) ancestor.limits root, next⟩

def enter (scope : RootScope Ck ε) (checkpoint : Ck) (now : ℕ) : Except Panic (RootScope Ck ε) := do
  let limits := scope.root.limits
  return { scope with root := ← scope.root.enter checkpoint limits now }

end RootScope

end Rblib.Pipelines
