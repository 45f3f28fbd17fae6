import Rblib.Pipelines.Executor
import Rblib.Pipelines.Reachable
import Rblib.Pipelines.ScopeTree

/-! Which scopes are active while a step runs. -/

namespace Rblib.Pipelines

open Platform StepNavigator Scope

variable {σ Ck ε Err Pl : Type} [LimitExtension ε]

structure Tracks (root : Pipeline σ (ScopedLimits Ck ε)) (start : Ck) (rootLimits : Limits ε)
    (V : StepPath → Option (ScopeData Ck ε)) (current : StepPath) : Prop where
  shape : ∀ ctx p b, Located root ctx p b → ∃ d, V ctx.path = some d ∧ d.limitsFactory = p.limits
  active : ∀ s d, V s = some d → (d.isActive = true ↔ s <+: current)
  located : ∃ ctx p b, Located root ctx p b ∧ ctx.path = current
  limits : ∀ s i d e, s ++ [i] <+: current → V s = some d → V (s ++ [i]) = some e →
    e.limits = refreshed e.limitsFactory e.refreshedWith d.limits
  top : ∀ d, V [] = some d → d.limits = rootLimits ∧ d.refreshedWith = start

section Context

variable {κ : Type} {root : Pipeline σ κ}

lemma Located.ancestor {ctx : Context σ κ} {p : Pipeline σ κ} {b : Behavior}
    (h : Located root ctx p b) {s : StepPath} (hs : s <+: ctx.path) :
    ∃ ctx' p' b', Located root ctx' p' b' ∧ ctx'.path = s := by
  induction h with
  | root => exact ⟨[], root, .once, .root, (List.prefix_nil.mp hs).symm⟩
  | @nested ctx q b i b' p hq hi ih =>
    rw [Context.path_concat, StepPath.prefix_concat_iff] at hs
    rcases hs with rfl | hs
    · exact ⟨ctx ++ [(q, i)], p, b', .nested hq hi, Context.path_concat ctx q i⟩
    · exact ih hs

lemma not_prefix_of_concat (s : StepPath) (i : ℕ) : ¬ s ++ [i] <+: s := by
  intro h
  have hl := h.length_le
  simp at hl

end Context

namespace Tracks

variable {root : Pipeline σ (ScopedLimits Ck ε)} {start : Ck} {rootLimits : Limits ε}
  {scope : Scope Ck ε} {c : StepPath}

lemma exists_data (h : Tracks root start rootLimits scope.view c) {s : StepPath} (hs : s <+: c) :
    ∃ d, scope.view s = some d := by
  obtain ⟨ctx, p, b, hloc, rfl⟩ := h.located
  obtain ⟨ctx', p', b', hloc', rfl⟩ := hloc.ancestor hs
  obtain ⟨d, hd, _⟩ := h.shape ctx' p' b' hloc'
  exact ⟨d, hd⟩

section Update

variable {V : StepPath → Option (ScopeData Ck ε)} {i : ℕ} {d d' : ScopeData Ck ε}

omit [LimitExtension ε] in
lemma update_below (V : StepPath → Option (ScopeData Ck ε)) (d' : ScopeData Ck ε) {s : StepPath}
    (hs : s <+: c) : Function.update V (c ++ [i]) (some d') s = V s := by
  apply Function.update_of_ne
  rintro rfl
  exact not_prefix_of_concat c i hs

lemma shape_update (h : Tracks root start rootLimits V c) {t : StepPath} (hd : V t = some d)
    (hf : d'.limitsFactory = d.limitsFactory) (ctx : Context σ (ScopedLimits Ck ε))
    (p : Pipeline σ (ScopedLimits Ck ε)) (b : Behavior) (hloc : Located root ctx p b) :
    ∃ e, Function.update V t (some d') ctx.path = some e ∧ e.limitsFactory = p.limits := by
  obtain ⟨e, he, hfe⟩ := h.shape ctx p b hloc
  by_cases hp : ctx.path = t
  · rw [hp, hd] at he
    cases he
    exact ⟨d', by rw [hp, Function.update_self], hf.trans hfe⟩
  · exact ⟨e, by rw [Function.update_of_ne hp, he], hfe⟩

lemma limits_update {c' : StepPath} (h : Tracks root start rootLimits V c') (hc : c <+: c')
    {s : StepPath} {j : ℕ} {e f : ScopeData Ck ε} (hs : s ++ [j] <+: c)
    (he : Function.update V (c ++ [i]) (some d') s = some e)
    (hf : Function.update V (c ++ [i]) (some d') (s ++ [j]) = some f) :
    f.limits = refreshed f.limitsFactory f.refreshedWith e.limits := by
  rw [update_below V d' ((List.prefix_append s [j]).trans hs)] at he
  rw [update_below V d' hs] at hf
  exact h.limits s j e f (hs.trans hc) he hf

lemma top_update {c' : StepPath} (h : Tracks root start rootLimits V c') {e : ScopeData Ck ε}
    (he : Function.update V (c ++ [i]) (some d') [] = some e) :
    e.limits = rootLimits ∧ e.refreshedWith = start := by
  rw [update_below V d' List.nil_prefix] at he
  exact h.top e he

lemma leave_update (h : Tracks root start rootLimits V (c ++ [i])) (hd : V (c ++ [i]) = some d) :
    Tracks root start rootLimits
      (Function.update V (c ++ [i]) (some { d with enteredAt := none })) c where
  shape := h.shape_update hd rfl
  active := by
    intro s e he
    by_cases hs : s = c ++ [i]
    · rw [hs, Function.update_self] at he
      cases he
      rw [hs]
      exact iff_of_false (by simp [ScopeData.isActive]) (not_prefix_of_concat c i)
    · rw [Function.update_of_ne hs] at he
      rw [h.active s e he, StepPath.prefix_concat_iff]
      simp [hs]
  located := by
    obtain ⟨ctx, p, b, hloc, hp⟩ := h.located
    exact hloc.ancestor (hp ▸ List.prefix_append c [i])
  limits := fun _ _ _ _ hs he hf => h.limits_update (List.prefix_append c [i]) hs he hf
  top := fun _ he => h.top_update he

lemma enter_update (h : Tracks root start rootLimits V c)
    (hloc : ∃ ctx p b, Located root ctx p b ∧ ctx.path = c ++ [i]) (hd : V (c ++ [i]) = some d)
    {enclosing : ScopeData Ck ε} (he : V c = some enclosing) (checkpoint : Ck) (now : ℕ) :
    Tracks root start rootLimits
      (Function.update V (c ++ [i]) (some (entered d checkpoint enclosing.limits now)))
      (c ++ [i]) where
  shape := h.shape_update hd rfl
  active := by
    intro s e he'
    by_cases hs : s = c ++ [i]
    · rw [hs, Function.update_self] at he'
      cases he'
      rw [hs]
      exact iff_of_true rfl List.prefix_rfl
    · rw [Function.update_of_ne hs] at he'
      rw [h.active s e he', StepPath.prefix_concat_iff]
      simp [hs]
  located := hloc
  limits := by
    intro s j e f hs hse hsf
    rcases StepPath.prefix_concat_iff.mp hs with heq | hs
    · obtain ⟨rfl, hj⟩ := List.append_inj' heq rfl
      cases hj
      rw [update_below V _ List.prefix_rfl, he] at hse
      rw [Function.update_self] at hsf
      cases hse
      cases hsf
      rfl
    · exact h.limits_update List.prefix_rfl hs hse hsf
  top := fun _ hr => h.top_update hr

end Update

theorem leave_step {i : ℕ} (h : Tracks root start rootLimits scope.view (c ++ [i])) :
    ∃ scope', scope.modify Scope.leave (c ++ [i]) = .ok scope' ∧
      Tracks root start rootLimits scope'.view c := by
  obtain ⟨d, hd⟩ := h.exists_data List.prefix_rfl
  have hn : ∀ j e, scope.view (c ++ [i] ++ [j]) = some e → e.isActive = false := by
    intro j e he
    by_contra ha
    exact not_prefix_of_concat _ j ((h.active _ e he).mp (by simpa using ha))
  obtain ⟨scope', hm, hv⟩ := leave_view hd ((h.active _ d hd).mpr List.prefix_rfl) hn
  exact ⟨scope', hm, hv ▸ h.leave_update hd⟩

theorem enter_step {i : ℕ} (h : Tracks root start rootLimits scope.view c)
    (hloc : ∃ ctx p b, Located root ctx p b ∧ ctx.path = c ++ [i]) {enclosing : ScopeData Ck ε}
    (he : scope.view c = some enclosing) (checkpoint : Ck) (now : ℕ) :
    ∃ scope' inner, scope.modify (Scope.enter checkpoint enclosing.limits now) (c ++ [i]) = .ok scope' ∧
      scope'.get (c ++ [i]) = some inner ∧
      Tracks root start rootLimits scope'.view (c ++ [i]) := by
  obtain ⟨ctx, p, b, hlc, hpath⟩ := hloc
  obtain ⟨d, hd, -⟩ := h.shape ctx p b hlc
  rw [hpath] at hd
  have hi : d.isActive = false := by
    by_contra ha
    exact not_prefix_of_concat c i ((h.active _ d hd).mp (by simpa using ha))
  obtain ⟨scope', hm, hv⟩ := enter_view hd hi checkpoint enclosing.limits now
  have ht := h.enter_update ⟨ctx, p, b, hlc, hpath⟩ hd he checkpoint now
  rw [← hv] at ht
  obtain ⟨e, he'⟩ := ht.exists_data List.prefix_rfl
  obtain ⟨inner, hget, -⟩ := Option.map_eq_some_iff.mp he'
  exact ⟨scope', inner, hm, hget, ht⟩

theorem leaveAll (r : StepPath) (h : Tracks root start rootLimits scope.view (c ++ r)) :
    ∃ scope', RootScope.leaveAll (StepPath.descend c r).reverse scope = .ok scope' ∧
      Tracks root start rootLimits scope'.view c := by
  induction r using List.reverseRecOn generalizing scope with
  | nil => exact ⟨scope, rfl, by simpa using h⟩
  | append_singleton r i ih =>
    rw [← List.append_assoc] at h
    obtain ⟨left, hm, hl⟩ := h.leave_step
    obtain ⟨scope', hs, ht⟩ := ih hl
    refine ⟨scope', ?_, ht⟩
    rw [StepPath.descend_concat, List.reverse_concat, RootScope.leaveAll, hm]
    exact hs

theorem enterAll (r : StepPath) (h : Tracks root start rootLimits scope.view c)
    (hloc : ∃ ctx p b, Located root ctx p b ∧ ctx.path = c ++ r) {ancestor : Scope Ck ε}
    (ha : scope.get c = some ancestor) (checkpoint : Ck) (now : ℕ) :
    ∃ scope', RootScope.enterAll checkpoint now (StepPath.descend c r) ancestor.limits scope =
        .ok scope' ∧ Tracks root start rootLimits scope'.view (c ++ r) := by
  induction r generalizing scope c ancestor with
  | nil => exact ⟨scope, rfl, by simpa using h⟩
  | cons i r ih =>
    obtain ⟨ctx, p, b, hl, hp⟩ := hloc
    have hi : ∃ ctx p b, Located root ctx p b ∧ ctx.path = c ++ [i] := by
      apply hl.ancestor
      rw [hp]
      exact List.prefix_append_right_inj c |>.mpr (List.cons_prefix_cons.mpr ⟨rfl, List.nil_prefix⟩)
    have hview : scope.view c = some ancestor.data := by rw [Scope.view, ha]; rfl
    obtain ⟨mid, inner, hm, hg, hmid⟩ := h.enter_step hi hview checkpoint now
    have happ : c ++ [i] ++ r = c ++ i :: r := by simp
    obtain ⟨scope', hs, ht⟩ := ih hmid ⟨ctx, p, b, hl, by rw [hp, happ]⟩ hg
    refine ⟨scope', ?_, happ ▸ ht⟩
    have hm' : scope.modify (Scope.enter checkpoint ancestor.limits now) (c ++ [i]) = .ok mid := hm
    rw [StepPath.descend, RootScope.enterAll, hm']
    simp only [bind, Except.bind, hg]
    exact hs

theorem switchContext {scope : RootScope Ck ε}
    (h : Tracks root start rootLimits scope.root.view scope.current)
    {ctx : Context σ (ScopedLimits Ck ε)} {p : Pipeline σ (ScopedLimits Ck ε)} {b : Behavior}
    (hloc : Located root ctx p b) (x : ℕ) (checkpoint : Ck) (now : ℕ) :
    ∃ scope', scope.switchContext (at_ ctx p x).path checkpoint now = .ok scope' ∧
      scope'.current = ctx.path ∧ Tracks root start rootLimits scope'.root.view ctx.path := by
  by_cases heq : scope.current = ctx.path
  · refine ⟨⟨scope.root, ctx.path⟩, ?_, rfl, heq ▸ h⟩
    simp [RootScope.switchContext, scopeOf_at, heq, bind, Except.bind, pure, Except.pure]
  · obtain ⟨r₁, hr₁⟩ := StepPath.commonAncestor_left scope.current ctx.path
    obtain ⟨r₂, hr₂⟩ := StepPath.commonAncestor_right scope.current ctx.path
    have hleft := h
    rw [← hr₁] at hleft
    obtain ⟨left, hl, hlt⟩ := hleft.leaveAll r₁
    obtain ⟨d, hd⟩ := hlt.exists_data List.prefix_rfl
    obtain ⟨ancestor, hg, _⟩ := Option.map_eq_some_iff.mp hd
    obtain ⟨root', he, het⟩ := hlt.enterAll r₂ ⟨ctx, p, b, hloc, hr₂.symm⟩ hg checkpoint now
    refine ⟨⟨root', ctx.path⟩, ?_, rfl, hr₂ ▸ het⟩
    have hup : StepPath.between scope.current (StepPath.commonAncestor scope.current ctx.path) =
        (StepPath.descend (StepPath.commonAncestor scope.current ctx.path) r₁).reverse := by
      rw [← StepPath.between_up, hr₁]
    have hdown : StepPath.between (StepPath.commonAncestor scope.current ctx.path) ctx.path =
        StepPath.descend (StepPath.commonAncestor scope.current ctx.path) r₂ := by
      rw [← StepPath.between_down, hr₂]
    simp only [RootScope.switchContext, scopeOf_at, heq, if_false, bind, Except.bind, hup, hl, hg,
      hdown, he]
    rfl

end Tracks

section Start

variable (root : Pipeline σ (ScopedLimits Ck ε)) (start : Ck) (platformLimits : Limits ε)

lemma inner_inactive (p : Pipeline σ (ScopedLimits Ck ε)) (enclosing : Limits ε) (s : StepPath)
    (d : ScopeData Ck ε) (h : (inner start p enclosing).view s = some d) : d.isActive = false := by
  induction s generalizing p enclosing with
  | nil =>
    rw [view_nil, inner_data] at h
    cases h
    rfl
  | cons i s ih =>
    cases p with
    | mk pro epi steps lim =>
      rw [Scope.inner, view_cons] at h
      obtain ⟨child, hc, hs⟩ := Option.bind_eq_some_iff.mp h
      cases i with
      | zero =>
        rw [innerItems_below start steps _ (by decide)] at hc
        cases hc
      | succ i =>
        rw [Nat.add_comm, show 1 + i = STEP0_INDEX + i from rfl, innerItems_get] at hc
        rcases hi : steps[i]? with _ | _ | ⟨b, q⟩
        · simp [hi] at hc
        · simp [hi] at hc
        · simp only [hi, Option.some.injEq] at hc
          exact ih q _ (hc ▸ hs)

lemma rootedAt_get {ctx : Context σ (ScopedLimits Ck ε)} {p : Pipeline σ (ScopedLimits Ck ε)}
    {b : Behavior} (h : Located root ctx p b) :
    ∃ enclosing, (rootedAt root start platformLimits).get ctx.path = some (inner start p enclosing) := by
  induction h with
  | root => exact ⟨platformLimits, rfl⟩
  | @nested ctx q b i b' p hq hi ih =>
    obtain ⟨enclosing, hg⟩ := ih
    refine ⟨refreshed q.limits start enclosing, ?_⟩
    rw [Context.path_concat, get_append, hg]
    exact inner_nested start enclosing hi

def rootLimits : Limits ε :=
  refreshed root.limits start (refreshed root.limits start platformLimits)

lemma enter_with (checkpoint : Ck) (now : ℕ) :
    ∃ scope, (RootScope.new root start platformLimits).enter checkpoint now = .ok scope ∧
      scope.current = [] ∧
      scope.root.view = Function.update (rootedAt root start platformLimits).view []
        (some (entered (fresh root.limits start platformLimits) checkpoint
          (refreshed root.limits start platformLimits) now)) := by
  cases root with
  | mk pro epi steps lim => exact ⟨_, rfl, rfl, view_mk_update _ _ _⟩

lemma enter_root (now : ℕ) :
    ∃ scope, (RootScope.new root start platformLimits).enter start now = .ok scope ∧
      scope.current = [] ∧
      scope.root.view = Function.update (rootedAt root start platformLimits).view []
        (some (entered (fresh root.limits start platformLimits) start
          (refreshed root.limits start platformLimits) now)) :=
  enter_with root start platformLimits start now

theorem enter_with_tracks {scope : RootScope Ck ε} {checkpoint : Ck} {now : ℕ}
    (h : (RootScope.new root start platformLimits).enter checkpoint now = .ok scope) :
    scope.current = [] ∧
      Tracks root checkpoint (refreshed root.limits checkpoint (refreshed root.limits start platformLimits))
        scope.root.view [] := by
  obtain ⟨scope', hs, hc, hv⟩ := enter_with root start platformLimits checkpoint now
  rw [h] at hs
  cases hs
  have hother : ∀ s, s ≠ [] → scope.root.view s = (rootedAt root start platformLimits).view s := by
    intro s hs
    rw [hv, Function.update_of_ne hs]
  have htop : scope.root.view [] = some (entered (fresh root.limits start platformLimits) checkpoint
      (refreshed root.limits start platformLimits) now) := by
    rw [hv, Function.update_self]
  refine ⟨hc, ?_, ?_, ⟨[], root, .once, .root, rfl⟩, ?_, ?_⟩
  · intro ctx p b hloc
    cases hloc with
    | root => exact ⟨_, htop, rfl⟩
    | @nested ctx q b i b' p hq hi =>
      obtain ⟨enclosing, hg⟩ := rootedAt_get root start platformLimits (.nested hq hi)
      refine ⟨fresh p.limits start enclosing, ?_, rfl⟩
      rw [hother _ (by simp [Context.path]), Scope.view, hg, ← inner_data]
      rfl
  · intro s d hd
    by_cases hs : s = []
    · subst hs
      rw [htop] at hd
      cases hd
      exact iff_of_true rfl List.prefix_rfl
    · rw [hother s hs] at hd
      have hi := inner_inactive start root platformLimits s d hd
      simp [hi, List.prefix_nil, hs]
  · intro s i d e hs
    simp [List.prefix_nil] at hs
  · intro d hd
    rw [htop] at hd
    cases hd
    exact ⟨rfl, rfl⟩

theorem enter_root_tracks {scope : RootScope Ck ε} {now : ℕ}
    (h : (RootScope.new root start platformLimits).enter start now = .ok scope) :
    scope.current = [] ∧ Tracks root start (rootLimits root start platformLimits) scope.root.view [] :=
  enter_with_tracks root start platformLimits h

end Start

end Rblib.Pipelines
