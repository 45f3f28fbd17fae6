import Rblib.Pipelines.ExecutorRuns

/-! The limits a running step sees are composed along its enclosing pipelines, each factory applied
once to the limits around its pipeline at the checkpoint with which the scope was entered, provided
that the root factory does not notice being applied twice: `enter` passes to it the limits that
`rooted_at` already computed with it. -/

namespace Rblib.Pipelines

open Platform StepNavigator Scope

variable {σ Ck ε Err Pl : Type} [LimitExtension ε]

def applied (factory : Option (ScopedLimits Ck ε)) (checkpoint : Ck) (enclosing : Limits ε) : Limits ε :=
  match factory with
  | none => enclosing
  | some create => (create checkpoint enclosing).clamp enclosing

/-- Composition of the limits from the root inwards; `V` tells with which checkpoint the scope of each
pipeline was entered last. -/
inductive Composed (root : Pipeline σ (ScopedLimits Ck ε)) (platformLimits : Limits ε)
    (V : StepPath → Option (ScopeData Ck ε)) :
    StepPath → Pipeline σ (ScopedLimits Ck ε) → Limits ε → Prop
  | root {d} : V [] = some d →
      Composed root platformLimits V [] root (applied root.limits d.refreshedWith platformLimits)
  | nested {s q l i b p d} : Composed root platformLimits V s q l →
      q.steps[i]? = some (.pipeline b p) → V (s ++ [i + 1]) = some d →
      Composed root platformLimits V (s ++ [i + 1]) p (applied p.limits d.refreshedWith l)

def ComposedLimits (job : Job σ Ck ε Err Pl) (scope : RootScope Ck ε) (path : StepPath)
    (limits : Limits ε) : Prop :=
  ∃ p, Composed job.pipeline.root job.platformLimits scope.root.view path.dropLast p limits

lemma Composed.unique {root : Pipeline σ (ScopedLimits Ck ε)} {platformLimits : Limits ε}
    {V : StepPath → Option (ScopeData Ck ε)} {s : StepPath} {p p' : Pipeline σ (ScopedLimits Ck ε)}
    {l l' : Limits ε} (h : Composed root platformLimits V s p l)
    (h' : Composed root platformLimits V s p' l') : p = p' ∧ l = l' := by
  induction h generalizing p' l' with
  | @root d hd =>
    generalize hs : ([] : StepPath) = s at h'
    cases h' with
    | @root d' hd' =>
      rw [hd] at hd'
      cases hd'
      exact ⟨rfl, rfl⟩
    | nested _ _ _ => simp at hs
  | @nested s q l i b p d _ hi hd ih =>
    generalize hs : s ++ [i + 1] = t at h'
    cases h' with
    | root _ => simp at hs
    | @nested s' q' m i' b' _ d' hc hi' hd' =>
      obtain ⟨rfl, hij⟩ := List.append_inj' hs rfl
      cases hij
      obtain ⟨rfl, rfl⟩ := ih hc
      rw [hi] at hi'
      rw [hd] at hd'
      cases hi'
      cases hd'
      exact ⟨rfl, rfl⟩

variable [LawfulExtension ε]

lemma refreshed_eq_applied (factory : Option (ScopedLimits Ck ε)) (checkpoint : Ck)
    (enclosing : Limits ε) : refreshed factory checkpoint enclosing = applied factory checkpoint enclosing := by
  cases factory with
  | none => exact Limits.clamp_self enclosing
  | some create => rfl

theorem Tracks.composed {root : Pipeline σ (ScopedLimits Ck ε)} {start : Ck}
    {platformLimits : Limits ε} {V : StepPath → Option (ScopeData Ck ε)} {current : StepPath}
    (h : Tracks root start (applied root.limits start platformLimits) V current)
    {ctx : Context σ (ScopedLimits Ck ε)} {p : Pipeline σ (ScopedLimits Ck ε)} {b : Behavior}
    (hloc : Located root ctx p b) (hp : ctx.path <+: current) :
    ∃ d, V ctx.path = some d ∧ d.limitsFactory = p.limits ∧
      Composed root platformLimits V ctx.path p d.limits := by
  induction hloc with
  | root =>
    obtain ⟨d, hd, hf⟩ := h.shape _ _ _ .root
    obtain ⟨hl, hw⟩ := h.top d hd
    have hc : Composed root platformLimits V [] root (applied root.limits d.refreshedWith platformLimits) :=
      .root hd
    rw [hw, ← hl] at hc
    exact ⟨d, hd, hf, hc⟩
  | @nested ctx q b i b' p hq hi ih =>
    obtain ⟨e, he, hf⟩ := h.shape _ _ _ (.nested hq hi)
    rw [Context.path_concat] at hp he ⊢
    obtain ⟨d, hd, _, hc⟩ := ih ((List.prefix_append _ _).trans hp)
    have hl := h.limits ctx.path (i + 1) d e hp hd he
    refine ⟨e, he, hf, ?_⟩
    rw [hl, refreshed_eq_applied, hf]
    exact .nested hc hi he

lemma rootedAt_composed (root : Pipeline σ (ScopedLimits Ck ε)) (start : Ck) (platformLimits : Limits ε)
    {V : StepPath → Option (ScopeData Ck ε)} {top : ScopeData Ck ε} (htop : top.refreshedWith = start)
    (hV : V = Function.update (rootedAt root start platformLimits).view [] (some top))
    {ctx : Context σ (ScopedLimits Ck ε)} {p : Pipeline σ (ScopedLimits Ck ε)} {b : Behavior}
    (hloc : Located root ctx p b) :
    ∃ enclosing, (rootedAt root start platformLimits).get ctx.path = some (inner start p enclosing) ∧
      Composed root platformLimits V ctx.path p (refreshed p.limits start enclosing) := by
  induction hloc with
  | root =>
    refine ⟨platformLimits, rfl, ?_⟩
    rw [refreshed_eq_applied, ← htop]
    exact .root (by rw [hV, Function.update_self])
  | @nested ctx q b i b' p hq hi ih =>
    obtain ⟨enclosing, hg, hc⟩ := ih
    have hget : (rootedAt root start platformLimits).get (ctx.path ++ [i + 1]) =
        some (inner start p (refreshed q.limits start enclosing)) := by
      rw [get_append, hg]
      exact inner_nested start enclosing hi
    have hv : V (ctx.path ++ [i + 1]) =
        some (fresh p.limits start (refreshed q.limits start enclosing)) := by
      rw [hV, Function.update_of_ne (by simp), Scope.view, hget, ← inner_data]
      rfl
    rw [Context.path_concat]
    refine ⟨refreshed q.limits start enclosing, hget, ?_⟩
    rw [refreshed_eq_applied p.limits]
    exact .nested hc hi hv

namespace PipelineExecutor

variable {job : Job σ Ck ε Err Pl} {scope : RootScope Ck ε}

def RootIdempotent (job : Job σ Ck ε Err Pl) : Prop :=
  let limits := applied job.pipeline.root.limits job.start job.platformLimits
  applied job.pipeline.root.limits job.start limits = limits

lemma rootLimits_eq (job : Job σ Ck ε Err Pl) :
    rootLimits job.pipeline.root job.start job.platformLimits =
      applied job.pipeline.root.limits job.start
        (applied job.pipeline.root.limits job.start job.platformLimits) := by
  rw [rootLimits, refreshed_eq_applied, refreshed_eq_applied]

lemma composed_first {ctx : Context σ (ScopedLimits Ck ε)} {p : Pipeline σ (ScopedLimits Ck ε)}
    {b : Behavior} {x : ℕ} (hloc : Located job.pipeline.root ctx p b) (hne : ctx.path ≠ [])
    (hf : First job scope (at_ ctx p x)) {limits : Limits ε}
    (hl : scope.limitsOf (at_ ctx p x).path = .ok (some limits)) :
    Composed job.pipeline.root job.platformLimits scope.root.view ctx.path p limits := by
  obtain ⟨_, now, hs⟩ := hf
  obtain ⟨scope', hs', _, hv⟩ := enter_root job.pipeline.root job.start job.platformLimits now
  rw [hs] at hs'
  cases hs'
  obtain ⟨enclosing, hg, hc⟩ := rootedAt_composed job.pipeline.root job.start job.platformLimits rfl hv hloc
  have hd : scope.root.view ctx.path = some (fresh p.limits job.start enclosing) := by
    rw [hv, Function.update_of_ne hne, Scope.view, hg, ← inner_data]
    rfl
  rw [RootScope.limitsOf_view hl hd]
  exact hc

lemma composed_scheduled {path : StepPath} (hroot : RootIdempotent job) (h : Scheduled job scope path)
    {limits : Limits ε} (hl : scope.limitsOf path = .ok (some limits)) :
    ComposedLimits job scope path limits := by
  obtain ⟨nav, ⟨ctx, p, b, x, hloc, hx, rfl⟩, rfl, hc⟩ := h.executable
  refine ⟨p, ?_⟩
  rw [dropLast_at]
  by_cases hcur : ctx.path = scope.current
  · have ht := h.tracks
    rw [rootLimits_eq, hroot] at ht
    obtain ⟨d, hd, _, hcomp⟩ := ht.composed hloc (hcur ▸ List.prefix_rfl)
    rw [RootScope.limitsOf_view hl hd]
    exact hcomp
  · rcases hc with hc | hf
    · rw [scopeOf_at] at hc
      exact absurd (Except.ok.inj hc) hcur
    · have hne : ctx.path ≠ [] := by
        intro hnil
        obtain ⟨_, now, hs⟩ := hf
        exact hcur (hnil.trans (enter_root_tracks _ _ _ hs).1.symm)
      exact composed_first hloc hne hf hl

lemma first_idempotent {nav : StepNavigator σ (ScopedLimits Ck ε)}
    (htop : StepPath.isToplevel nav.path = true) (hf : First job scope nav) {limits : Limits ε}
    (hl : scope.limitsOf nav.path = .ok (some limits))
    (hc : ComposedLimits job scope nav.path limits) : RootIdempotent job := by
  obtain ⟨he, now, hs⟩ := hf
  obtain ⟨_, ht⟩ := enter_root_tracks _ _ _ hs
  obtain ⟨ctx, p, b, x, _, _, rfl⟩ := entrypoint_executable he
  obtain ⟨q, hq⟩ := hc
  have hnil : ctx.path = [] := by
    simpa [StepPath.isToplevel, StepPath.depth, at_] using htop
  rw [dropLast_at, hnil] at hq
  obtain ⟨d, hd⟩ := ht.exists_data List.prefix_rfl
  obtain ⟨hdl, hdw⟩ := ht.top d hd
  have hview := RootScope.limitsOf_view hl (hnil.symm ▸ hd)
  have hcomp := (hq.unique (.root hd)).2
  rw [hview, hdl, rootLimits_eq, hdw] at hcomp
  exact hcomp

theorem limits_composed_of_rootIdempotent (job : Job σ Ck ε Err Pl) :
    (RootIdempotent job → ∀ exec path step input ctx, Reaches job exec →
      exec.cursor = .stepInProgress path step input ctx →
        ComposedLimits job exec.scope path ctx.limits) ∧
    (∀ nav, entrypoint job.pipeline.root = some nav → StepPath.isToplevel nav.path = true →
      (∀ exec path step input ctx, Reaches job exec →
        exec.cursor = .stepInProgress path step input ctx →
          ComposedLimits job exec.scope path ctx.limits) → RootIdempotent job) := by
  constructor
  · intro hroot exec path step input ctx hr hcur
    have hi := reaches_invariant hr
    rw [Invariant, hcur] at hi
    exact composed_scheduled hroot hi.1 hi.2.1
  · intro nav he htop h
    obtain ⟨exec, step, ctx, hr, hcur, hf⟩ := first_reaches he
    have hi := reaches_invariant hr
    rw [Invariant, hcur] at hi
    exact first_idempotent htop hf hi.2.1 (h exec nav.path step job.start ctx hr hcur)

def fixedRootJob : Job ℕ ℕ Unit Unit ℕ where
  pipeline :=
    { root := ((Pipeline.default.withStep 1).withPipeline .loop
          ((Pipeline.default.withStep 2).withLimits
            (Scaled.create { gas := some (.fraction 1 2) }))).withLimits
        (fixedLimits ⟨20000000, none, none, some 2000000000, ()⟩)
      fits := Pipeline.fits_of_checkAll (by decide) }
  platformLimits := ⟨30000000, none, none, some 12000000000, ()⟩
  start := 0
  buildPayload := .ok

theorem limits_composed_fixedRoot :
    RootIdempotent fixedRootJob ∧ ∃ exec ctx, Reaches fixedRootJob exec ∧
      exec.cursor = .stepInProgress [2, 1] 2 5 ctx ∧ ctx.limits.gasLimit = 10000000 ∧
      ComposedLimits fixedRootJob exec.scope [2, 1] ctx.limits := by
  have hroot : RootIdempotent fixedRootJob := rfl
  obtain ⟨scope₁, scope₂, ctx₁, ctx₂, h₁, h₂, h₃, h₄, hg⟩ : ∃ scope₁ scope₂ ctx₁ ctx₂,
      poll fixedRootJob (.initialized (.ok ()) 0) (run fixedRootJob) =
        .ok ⟨.beforeStep [1] 0, scope₁⟩ ∧
      poll fixedRootJob .started ⟨.beforeStep [1] 0, scope₁⟩ =
        .ok ⟨.stepInProgress [1] 1 0 ctx₁, scope₁⟩ ∧
      poll fixedRootJob (.stepReady (.ok 5) 3) ⟨.stepInProgress [1] 1 0 ctx₁, scope₁⟩ =
        .ok ⟨.beforeStep [2, 1] 5, scope₂⟩ ∧
      poll fixedRootJob .started ⟨.beforeStep [2, 1] 5, scope₂⟩ =
        .ok ⟨.stepInProgress [2, 1] 2 5 ctx₂, scope₂⟩ ∧ ctx₂.limits.gasLimit = 10000000 :=
    ⟨_, _, _, _, rfl, rfl, rfl, rfl, rfl⟩
  have hr := Reaches.poll _ (Reaches.poll _ (Reaches.poll _ (Reaches.poll _ .run h₁) h₂) h₃) h₄
  exact ⟨hroot, _, ctx₂, hr, rfl, hg,
    (limits_composed_of_rootIdempotent fixedRootJob).1 hroot _ _ _ _ _ hr rfl⟩

def scaledRootJob : Job ℕ ℕ Unit Unit ℕ where
  pipeline :=
    { root := (Pipeline.default.withStep 1).withLimits (Scaled.create { gas := some (.fraction 1 2) })
      fits := Pipeline.fits_of_checkAll (by decide) }
  platformLimits := ⟨30000000, none, none, some 12000000000, ()⟩
  start := 0
  buildPayload := .ok

theorem scaledRoot_applied_twice :
    ∃ exec ctx, Reaches scaledRootJob exec ∧ exec.cursor = .stepInProgress [1] 1 0 ctx ∧
      ctx.limits.gasLimit = 7500000 ∧ ¬ ComposedLimits scaledRootJob exec.scope [1] ctx.limits := by
  obtain ⟨scope, ctx, h₁, h₂, hg⟩ : ∃ scope ctx,
      poll scaledRootJob (.initialized (.ok ()) 0) (run scaledRootJob) =
        .ok ⟨.beforeStep [1] 0, scope⟩ ∧
      poll scaledRootJob .started ⟨.beforeStep [1] 0, scope⟩ =
        .ok ⟨.stepInProgress [1] 1 0 ctx, scope⟩ ∧ ctx.limits.gasLimit = 7500000 :=
    ⟨_, _, rfl, rfl, rfl⟩
  refine ⟨_, ctx, .poll _ (.poll _ .run h₁) h₂, rfl, hg, ?_⟩
  rintro ⟨p, hc⟩
  have hd : scope.root.view [] = some scope.root.data := rfl
  have hl := (hc.unique (.root hd)).2
  rw [hl] at hg
  have hhalf : (15000000 : ℕ) = 7500000 := hg
  omega

end PipelineExecutor

end Rblib.Pipelines
