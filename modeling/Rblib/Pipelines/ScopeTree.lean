import Rblib.Pipelines.Scope
import Rblib.Pipelines.Location

/-! The scope tree seen as a map from paths to scope data. -/

namespace Rblib.Pipelines

open Platform

variable {σ Ck ε : Type}

namespace StepPath

lemma commonAncestor_left (p q : StepPath) : commonAncestor p q <+: p := by
  induction p generalizing q with
  | nil => cases q <;> exact List.nil_prefix
  | cons i p ih =>
    cases q with
    | nil => exact List.nil_prefix
    | cons j q =>
      rw [commonAncestor]
      split
      · exact List.cons_prefix_cons.mpr ⟨rfl, ih q⟩
      · exact List.nil_prefix

lemma commonAncestor_right (p q : StepPath) : commonAncestor p q <+: q := by
  induction p generalizing q with
  | nil => cases q <;> exact List.nil_prefix
  | cons i p ih =>
    cases q with
    | nil => exact List.nil_prefix
    | cons j q =>
      rw [commonAncestor]
      split
      · rename_i h
        exact List.cons_prefix_cons.mpr ⟨h, ih q⟩
      · exact List.nil_prefix

lemma commonAncestor_append (c r : StepPath) : commonAncestor c (c ++ r) = c := by
  induction c with
  | nil => cases r <;> rfl
  | cons i c ih => simp [commonAncestor, ih]

lemma append_commonAncestor (c r : StepPath) : commonAncestor (c ++ r) c = c := by
  induction c with
  | nil => cases r <;> rfl
  | cons i c ih => simp [commonAncestor, ih]

lemma between_down (c r : StepPath) : between c (c ++ r) = descend c r := by
  simp [between, isAncestorOf, commonAncestor_append]

lemma between_up (c r : StepPath) : between (c ++ r) c = (descend c r).reverse := by
  cases r with
  | nil => simp [between, isAncestorOf, descend]
  | cons i r => simp [between, isAncestorOf, append_commonAncestor]

lemma descend_concat (c r : StepPath) (i : ℕ) :
    descend c (r ++ [i]) = descend c r ++ [c ++ r ++ [i]] := by
  induction r generalizing c with
  | nil => simp [descend]
  | cons j r ih => simp [descend, ih]

lemma prefix_concat_iff {s c : StepPath} {i : ℕ} : s <+: c ++ [i] ↔ s = c ++ [i] ∨ s <+: c :=
  List.prefix_concat_iff

end StepPath

namespace Scope

def view (scope : Scope Ck ε) (s : StepPath) : Option (ScopeData Ck ε) := (scope.get s).map data

lemma get_append (s t : StepPath) (scope : Scope Ck ε) :
    scope.get (s ++ t) = (scope.get s).bind (get t) := by
  induction s generalizing scope with
  | nil => rfl
  | cons i s ih =>
    cases scope with
    | mk d nested =>
      simp only [List.cons_append, get]
      cases nested i with
      | none => rfl
      | some inner => exact ih inner

lemma view_nil (scope : Scope Ck ε) : scope.view [] = some scope.data := rfl

lemma view_cons (d : ScopeData Ck ε) (nested : ℕ → Option (Scope Ck ε)) (i : ℕ) (s : StepPath) :
    (mk d nested).view (i :: s) = (nested i).bind fun inner => inner.view s := by
  rw [view, get]
  cases nested i <;> rfl

theorem modify_view {op : Scope Ck ε → Except Panic (Scope Ck ε)} {s : StepPath}
    {scope inner inner' : Scope Ck ε} (hg : scope.get s = some inner) (ho : op inner = .ok inner')
    {d : ScopeData Ck ε} (hv : inner'.view = Function.update inner.view [] (some d)) :
    ∃ scope', scope.modify op s = .ok scope' ∧
      scope'.view = Function.update scope.view s (some d) := by
  induction s generalizing scope with
  | nil =>
    cases hg
    exact ⟨inner', ho, hv⟩
  | cons i s ih =>
    cases scope with
    | mk e nested =>
      rw [get] at hg
      obtain ⟨child, hc, hg⟩ := Option.bind_eq_some_iff.mp hg
      obtain ⟨child', hm, hcv⟩ := ih hg
      refine ⟨mk e (Function.update nested i (some child')), ?_, ?_⟩
      · simp only [modify, hc, hm]
        rfl
      · funext t
        cases t with
        | nil => simp [view_nil, data]
        | cons j t =>
          rw [view_cons, Function.update_apply]
          by_cases hj : j = i
          · subst hj
            rw [if_pos rfl, Option.bind_some, hcv, Function.update_apply, Function.update_apply,
              view_cons, hc]
            simp
          · rw [if_neg hj, Function.update_apply, if_neg (by simp [hj]), view_cons]

lemma view_mk_update (d e : ScopeData Ck ε) (nested : ℕ → Option (Scope Ck ε)) :
    (mk e nested).view = Function.update (mk d nested).view [] (some e) := by
  funext t
  cases t with
  | nil => rfl
  | cons i t => simp [view_cons]

lemma get_of_view {scope : Scope Ck ε} {s : StepPath} {d : ScopeData Ck ε}
    (h : scope.view s = some d) : ∃ nested, scope.get s = some (mk d nested) := by
  obtain ⟨inner, hi, hd⟩ := Option.map_eq_some_iff.mp h
  cases inner with
  | mk e nested =>
    cases hd
    exact ⟨nested, hi⟩

theorem enter_view [LimitExtension ε] {scope : Scope Ck ε} {s : StepPath} {d : ScopeData Ck ε}
    (h : scope.view s = some d) (hi : d.isActive = false) (checkpoint : Ck) (enclosing : Limits ε)
    (now : ℕ) :
    ∃ scope', scope.modify (enter checkpoint enclosing now) s = .ok scope' ∧
      scope'.view = Function.update scope.view s (some (entered d checkpoint enclosing now)) := by
  obtain ⟨nested, hg⟩ := get_of_view h
  have ho : enter checkpoint enclosing now (mk d nested) =
      .ok (mk (entered d checkpoint enclosing now) nested) := by
    rw [enter, if_neg (by simp [hi])]
  exact modify_view hg ho (view_mk_update d _ nested)

lemma leaveNested_inactive {nested : Option (Scope Ck ε)}
    (h : ∀ inner, nested = some inner → inner.isActive = false) : leaveNested nested = nested := by
  cases nested with
  | none => rfl
  | some inner =>
    have hi := h inner rfl
    cases inner with
    | mk d nested =>
      change d.isActive = false at hi
      simp [leaveNested, hi]

theorem leave_view {scope : Scope Ck ε} {s : StepPath} {d : ScopeData Ck ε}
    (h : scope.view s = some d) (ha : d.isActive = true)
    (hn : ∀ i e, scope.view (s ++ [i]) = some e → e.isActive = false) :
    ∃ scope', scope.modify leave s = .ok scope' ∧
      scope'.view = Function.update scope.view s (some { d with enteredAt := none }) := by
  obtain ⟨nested, hg⟩ := get_of_view h
  have hnested : ∀ i, leaveNested (nested i) = nested i := by
    intro i
    apply leaveNested_inactive
    intro inner hi
    apply hn i inner.data
    rw [view, get_append, hg]
    simp [get, hi]
  have ho : leave (mk d nested) = .ok (mk { d with enteredAt := none } nested) := by
    have hactive : (mk d nested).isActive = true := ha
    simp only [leave, hactive, if_true, deactivate, hnested]
  exact modify_view hg ho (view_mk_update d _ nested)

section Construction

variable [LimitExtension ε]

lemma innerItems_below (checkpoint : Ck) (items : List (StepOrPipeline σ (ScopedLimits Ck ε)))
    (limits : Limits ε) {leaf i : ℕ} (h : i < leaf) :
    innerItems checkpoint items limits leaf i = none := by
  induction items generalizing leaf with
  | nil => rfl
  | cons item later ih =>
    have hl : innerItems checkpoint later limits (leaf + 1) i = none := ih (by omega)
    cases item with
    | step s => exact hl
    | pipeline b p => rwa [innerItems, Function.update_of_ne (by omega)]

lemma innerItems_get (checkpoint : Ck) (items : List (StepOrPipeline σ (ScopedLimits Ck ε)))
    (limits : Limits ε) (leaf i : ℕ) :
    innerItems checkpoint items limits leaf (leaf + i) = match items[i]? with
      | some (.pipeline _ p) => some (inner checkpoint p limits)
      | _ => none := by
  induction items generalizing leaf i with
  | nil => rfl
  | cons item later ih =>
    cases i with
    | zero =>
      cases item with
      | step s => exact innerItems_below checkpoint later limits (by omega)
      | pipeline b p => simp [innerItems]
    | succ i =>
      have hl := ih (leaf + 1) i
      rw [show leaf + 1 + i = leaf + (i + 1) by omega] at hl
      cases item with
      | step s => exact hl
      | pipeline b p =>
        rw [innerItems, Function.update_of_ne (by omega)]
        exact hl

lemma inner_data (checkpoint : Ck) (p : Pipeline σ (ScopedLimits Ck ε)) (enclosing : Limits ε) :
    (inner checkpoint p enclosing).data = fresh p.limits checkpoint enclosing := by
  cases p
  rfl

lemma inner_nested (checkpoint : Ck) {p q : Pipeline σ (ScopedLimits Ck ε)} (enclosing : Limits ε)
    {i : ℕ} {b : Behavior} (h : p.steps[i]? = some (.pipeline b q)) :
    (inner checkpoint p enclosing).get [i + 1] =
      some (inner checkpoint q (refreshed p.limits checkpoint enclosing)) := by
  cases p with
  | mk pro epi steps lim =>
    have hi := innerItems_get checkpoint steps (refreshed lim checkpoint enclosing) STEP0_INDEX i
    rw [show steps[i]? = _ from h, Nat.add_comm] at hi
    rw [inner]
    exact congrArg (fun o => Option.bind o (get [])) hi

end Construction

end Scope

open StepNavigator

lemma scopeOf_at {κ : Type} (ctx : Context σ κ) (p : Pipeline σ κ) (x : ℕ) :
    scopeOf (at_ ctx p x).path = .ok ctx.path := by
  rcases ctx.eq_nil_or_concat with rfl | ⟨ctx, ⟨q, i⟩, rfl⟩
  · rfl
  · simp only [scopeOf, at_, List.concat_eq_append, Context.path_concat, StepPath.removeLeaf_append]
    rfl

lemma dropLast_at {κ : Type} (ctx : Context σ κ) (p : Pipeline σ κ) (x : ℕ) :
    (at_ ctx p x).path.dropLast = ctx.path := by
  simp [at_]

lemma RootScope.limitsOf_view {scope : RootScope Ck ε} {ctx : Context σ (ScopedLimits Ck ε)}
    {p : Pipeline σ (ScopedLimits Ck ε)} {x : ℕ} {limits : Limits ε}
    (h : scope.limitsOf (at_ ctx p x).path = .ok (some limits))
    {d : ScopeData Ck ε} (hd : scope.root.view ctx.path = some d) : limits = d.limits := by
  obtain ⟨inner, hg, rfl⟩ := Option.map_eq_some_iff.mp hd
  simpa [RootScope.limitsOf, scopeOf_at, hg, bind, Except.bind, pure, Except.pure, Scope.limits,
    eq_comm] using h

end Rblib.Pipelines
