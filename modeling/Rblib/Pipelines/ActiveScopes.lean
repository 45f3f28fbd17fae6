import Rblib.Pipelines.ScopeRuns

namespace Rblib.Pipelines

open Platform StepNavigator Scope

variable {σ Ck ε : Type}

def Scope.Nested (scope : Scope Ck ε) : Prop :=
  ∀ s t d e, scope.view s = some d → scope.view (s ++ t) = some e → e.isActive = true → d.isActive = true

namespace Scope

lemma Nested.child {d : ScopeData Ck ε} {nested : ℕ → Option (Scope Ck ε)} (h : (mk d nested).Nested) {i : ℕ}
    {child : Scope Ck ε} (hi : nested i = some child) : child.Nested := by
  have hview : ∀ s, (mk d nested).view (i :: s) = child.view s := by
    intro s
    rw [view_cons, hi, Option.bind_some]
  intro s t e f he hf
  rw [← hview] at he hf
  exact h (i :: s) t e f he hf

lemma Nested.inactive {scope : Scope Ck ε} (h : scope.Nested) (hscope : scope.isActive = false) {s : StepPath}
    {inner : Scope Ck ε} (hs : scope.get s = some inner) : inner.isActive = false := by
  have hview : scope.view s = some inner.data := by rw [view, hs, Option.map_some]
  rw [← Bool.not_eq_true]
  intro hactive
  have htop := h [] s _ _ scope.view_nil hview hactive
  rw [show scope.data.isActive = scope.isActive from rfl, hscope] at htop
  cases htop

lemma Nested.deactivate {scope : Scope Ck ε} (h : scope.Nested) {s : StepPath} {inner : Scope Ck ε}
    (hs : scope.deactivate.get s = some inner) : inner.isActive = false := by
  induction s generalizing scope with
  | nil =>
    cases scope with
    | mk d nested =>
      cases hs
      rfl
  | cons i s ih =>
    cases scope with
    | mk d nested =>
      rw [Scope.deactivate, get] at hs
      obtain ⟨left, hleft, hs⟩ := Option.bind_eq_some_iff.mp hs
      cases hi : nested i with
      | none =>
        rw [hi, leaveNested] at hleft
        cases hleft
      | some child =>
        have hchild := h.child hi
        cases child with
        | mk e inside =>
          rw [hi, leaveNested] at hleft
          split_ifs at hleft with he
          · cases hleft
            exact ih hchild hs
          · cases hleft
            exact hchild.inactive (Bool.not_eq_true _ ▸ he) hs

end Scope

section Runs

variable [LimitExtension ε]

structure SwitchContext (Ck : Type) where
  nextStep : StepPath
  checkpoint : Ck
  now : ℕ

def RootScope.switchContexts (scope : RootScope Ck ε) : List (SwitchContext Ck) → Except Panic (RootScope Ck ε)
  | [] => .ok scope
  | call :: calls => do
    (← scope.switchContext call.nextStep call.checkpoint call.now).switchContexts calls

def StepOf (root : Pipeline σ (ScopedLimits Ck ε)) (path : StepPath) : Prop :=
  ∃ ctx p b x, Located root ctx p b ∧ path = (at_ ctx p x).path

variable {root : Pipeline σ (ScopedLimits Ck ε)} {start : Ck} {rootLimits : Limits ε}

namespace Tracks

lemma active_iff {scope : Scope Ck ε} {c : StepPath} (h : Tracks root start rootLimits scope.view c)
    (s : StepPath) :
    (∃ inner, scope.get s = some inner ∧ inner.isActive = true) ↔ s <+: c := by
  constructor
  · rintro ⟨inner, hinner, hactive⟩
    apply (h.active s inner.data _).mp hactive
    rw [view, hinner, Option.map_some]
  · intro hs
    obtain ⟨d, hd⟩ := h.exists_data hs
    have hactive := (h.active s d hd).mpr hs
    obtain ⟨inner, hinner, rfl⟩ := Option.map_eq_some_iff.mp hd
    exact ⟨inner, hinner, hactive⟩

lemma nested {scope : Scope Ck ε} {c : StepPath} (h : Tracks root start rootLimits scope.view c) :
    scope.Nested := by
  intro s t d e hd he hactive
  exact (h.active s d hd).mpr ((List.prefix_append s t).trans ((h.active _ e he).mp hactive))

lemma leave {scope : RootScope Ck ε} (h : Tracks root start rootLimits scope.root.view scope.current) :
    ∃ left, scope.leave = .ok left ∧ ∀ s inner, left.root.get s = some inner → inner.isActive = false := by
  have hactive : scope.root.isActive = true := (h.active [] _ scope.root.view_nil).mpr List.nil_prefix
  refine ⟨{ scope with root := scope.root.deactivate }, ?_, fun s inner hs => h.nested.deactivate hs⟩
  rw [RootScope.leave, Scope.leave, if_pos hactive]
  rfl

lemma switchContexts {scope : RootScope Ck ε} (h : Tracks root start rootLimits scope.root.view scope.current)
    (calls : List (SwitchContext Ck)) (hvalid : ∀ call ∈ calls, StepOf root call.nextStep) :
    ∃ scope', scope.switchContexts calls = .ok scope' ∧
      (∀ call, calls.getLast? = some call → scopeOf call.nextStep = .ok scope'.current) ∧
      (calls = [] → scope'.current = scope.current) ∧
      Tracks root start rootLimits scope'.root.view scope'.current := by
  induction calls generalizing scope with
  | nil => exact ⟨scope, rfl, by simp, fun _ => rfl, h⟩
  | cons call calls ih =>
    obtain ⟨hcall, hcalls⟩ := List.forall_mem_cons.mp hvalid
    obtain ⟨ctx, p, b, x, hloc, hpath⟩ := hcall
    obtain ⟨mid, hmid, hcurrent, ht⟩ := h.switchContext hloc x call.checkpoint call.now
    rw [← hcurrent] at ht
    obtain ⟨scope', hrun, hlast, hnil, ht'⟩ := ih ht hcalls
    refine ⟨scope', ?_, fun last hl => ?_, by simp, ht'⟩
    · rw [RootScope.switchContexts, hpath, hmid]
      exact hrun
    · cases calls with
      | nil =>
        rw [List.getLast?_singleton, Option.some_inj] at hl
        rw [← hl, hpath, scopeOf_at, hnil rfl, hcurrent]
      | cons next calls => exact hlast last (by rwa [List.getLast?_cons_cons] at hl)

end Tracks

/-- After any switches between steps of the pipeline the active scopes are those around the current step. -/
theorem active_scopes_iff (root : Pipeline σ (ScopedLimits Ck ε)) (init : Ck) (platformLimits : Limits ε)
    (checkpoint : Ck)
    (now : ℕ) (calls : List (SwitchContext Ck)) (hvalid : ∀ call ∈ calls, StepOf root call.nextStep) :
    ∃ entered scope left,
      (RootScope.new root init platformLimits).enter checkpoint now = .ok entered ∧
      entered.switchContexts calls = .ok scope ∧
      (calls = [] → scope.current = StepPath.empty) ∧
      (∀ call, calls.getLast? = some call → scopeOf call.nextStep = .ok scope.current) ∧
      (∀ s, (∃ inner, scope.root.get s = some inner ∧ inner.isActive = true) ↔ s <+: scope.current) ∧
      scope.leave = .ok left ∧
      ∀ s inner, left.root.get s = some inner → inner.isActive = false := by
  obtain ⟨entered, henter, -, -⟩ := enter_with root init platformLimits checkpoint now
  obtain ⟨hcurrent, ht⟩ := enter_with_tracks root init platformLimits henter
  rw [← hcurrent] at ht
  obtain ⟨scope, hrun, hlast, hnil, ht'⟩ := ht.switchContexts calls hvalid
  obtain ⟨left, hleave, hinactive⟩ := ht'.leave
  exact ⟨entered, scope, left, henter, hrun, fun h => (hnil h).trans hcurrent, hlast, ht'.active_iff,
    hleave, hinactive⟩

end Runs

def forked : Pipeline ℕ (ScopedLimits ℕ Unit) :=
  (Pipeline.default.withPipeline .loop
    ((Pipeline.default.withStep 1).withPipeline .once (Pipeline.default.withStep 2))).withPipeline .once
      (Pipeline.default.withStep 3)

theorem forked_switched : ∃ entered scope left,
    (RootScope.new forked 0 (⟨30000000, none, none, none, ()⟩ : Limits Unit)).enter 0 5 = .ok entered ∧
      entered.switchContexts [⟨[1, 2, 1], 1, 6⟩, ⟨[2, 1], 2, 7⟩] = .ok scope ∧
      (∀ s, (∃ inner, scope.root.get s = some inner ∧ inner.isActive = true) ↔ s <+: [2]) ∧
      scope.leave = .ok left ∧
      ∀ s inner, left.root.get s = some inner → inner.isActive = false := by
  have hinner : StepOf forked [1, 2, 1] := ⟨_, _, _, 1, .nested (i := 1) (.nested (i := 0) .root rfl) rfl, rfl⟩
  have hlater : StepOf forked [2, 1] := ⟨_, _, _, 1, .nested (i := 1) .root rfl, rfl⟩
  obtain ⟨entered, scope, left, henter, hrun, -, hlast, hactive, hleave, hinactive⟩ :=
    active_scopes_iff forked 0 ⟨30000000, none, none, none, ()⟩ 0 5 [⟨[1, 2, 1], 1, 6⟩, ⟨[2, 1], 2, 7⟩]
      (by simp [hinner, hlater])
  have hcurrent : scope.current = [2] := (Except.ok.inj (hlast _ rfl)).symm
  rw [hcurrent] at hactive
  exact ⟨entered, scope, left, henter, hrun, hactive, hleave, hinactive⟩

end Rblib.Pipelines
