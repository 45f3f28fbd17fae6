import Rblib.Pipelines.Entries
import Rblib.Pipelines.ExecutorRuns

namespace Rblib.Pipelines

open Platform StepNavigator Scope

variable {σ Ck ε Err Pl : Type} [LimitExtension ε]

section Switch

lemma prefix_commonAncestor {s p q : StepPath} (hp : s <+: p) (hq : s <+: q) :
    s <+: StepPath.commonAncestor p q := by
  induction s generalizing p q with
  | nil => exact List.nil_prefix
  | cons i s ih =>
    obtain ⟨p', rfl⟩ := hp
    obtain ⟨q', rfl⟩ := hq
    rw [List.cons_append, List.cons_append, StepPath.commonAncestor, if_pos rfl]
    exact List.cons_prefix_cons.mpr ⟨rfl, ih (List.prefix_append _ _) (List.prefix_append _ _)⟩

lemma mem_descend_of_prefix {c r s : StepPath} (h : s <+: c ++ r) (hc : ¬ s <+: c) :
    s ∈ StepPath.descend c r := by
  induction r generalizing c with
  | nil =>
    rw [List.append_nil] at h
    exact absurd h hc
  | cons i r ih =>
    by_cases hs : s <+: c ++ [i]
    · rcases StepPath.prefix_concat_iff.mp hs with rfl | hs
      · exact List.mem_cons_self
      · exact absurd hs hc
    · refine List.mem_cons_of_mem _ (ih ?_ hs)
      rwa [List.append_assoc]

lemma not_prefix_of_mem_descend {c r s t : StepPath} (ht : t ∈ StepPath.descend c r) (hs : s <+: c) :
    ¬ t <+: s := by
  intro hp
  have := (mem_descend ht).2
  have := (hp.trans hs).length_le
  omega

theorem switchContext_view {scope scope' : RootScope Ck ε} {path next : StepPath} {checkpoint : Ck} {now : ℕ}
    (h : scope.switchContext path checkpoint now = .ok scope') (hnext : scopeOf path = .ok next)
    {s : StepPath} (hs : s <+: next) :
    (s <+: scope.current → scope'.root.view s = scope.root.view s) ∧
      (¬ s <+: scope.current → FreshAt scope'.root.view s checkpoint now) := by
  rw [RootScope.switchContext, hnext] at h
  simp only [bind, Except.bind] at h
  split at h
  · next heq =>
    cases h
    exact ⟨fun _ => rfl, fun hn => absurd (heq ▸ hs) hn⟩
  · obtain ⟨r₁, hr₁⟩ := StepPath.commonAncestor_left scope.current next
    obtain ⟨r₂, hr₂⟩ := StepPath.commonAncestor_right scope.current next
    have hcommon := fun hp => prefix_commonAncestor (s := s) (p := scope.current) hp hs
    generalize StepPath.commonAncestor scope.current next = common at *
    obtain ⟨left, hl, h⟩ := Library.bind_eq_ok.mp h
    cases hg : left.get common with
    | none =>
      rw [hg] at h
      cases h
    | some ancestor =>
      rw [hg] at h
      obtain ⟨entered, he, h⟩ := Library.bind_eq_ok.mp h
      cases h
      have hup : StepPath.between scope.current common = (StepPath.descend common r₁).reverse := by
        rw [← StepPath.between_up, hr₁]
      have hdown : StepPath.between common next = StepPath.descend common r₂ := by
        rw [← StepPath.between_down, hr₂]
      rw [hup] at hl
      rw [hdown] at he
      constructor
      · intro hp
        rw [enterAll_frame he fun t ht => not_prefix_of_mem_descend ht (hcommon hp)]
        apply leaveAll_frame hl
        exact fun t ht => not_prefix_of_mem_descend (List.mem_reverse.mp ht) (hcommon hp)
      · intro hn
        apply enterAll_fresh hg he
        apply mem_descend_of_prefix (hr₂ ▸ hs)
        exact fun hc => hn (hr₁ ▸ hc.trans (List.prefix_append _ _))

end Switch

namespace PipelineExecutor

def itemAfter (output : ControlFlow Ck Err) (nav : StepNavigator σ (ScopedLimits Ck ε)) :
    Except Panic (Option (StepNavigator σ (ScopedLimits Ck ε))) :=
  match output with
  | .fail _ => .ok none
  | .brk _ => nav.itemBreak
  | .ok _ => nav.itemOk

/-- The event leads to a step in the nested pipeline at `s` because the pipeline around it has reached it. -/
inductive Enters (job : Job σ Ck ε Err Pl) :
    PipelineExecutor σ Ck ε Err Pl → Event Ck Err → StepPath → Ck → ℕ → Prop
  | first {exec nav s} (now : ℕ) : exec.cursor = .initializing →
      entrypoint job.pipeline.root = some nav → s ≠ [] → s <+: nav.path.dropLast →
      Enters job exec (.initialized (.ok ()) now) s job.start now
  | next {exec path step input ctx nav item target s c} (output : ControlFlow Ck Err) (now : ℕ) :
      exec.cursor = .stepInProgress path step input ctx →
      StepPath.navigator path job.pipeline.root = .ok (some nav) → output.checkpoint = some c →
      itemAfter output nav = .ok (some item) → item.enter = .ok (some target) → item.path <+: s →
      s <+: target.path.dropLast → Enters job exec (.stepReady output now) s c now

variable {job : Job σ Ck ε Err Pl} {exec exec' : PipelineExecutor σ Ck ε Err Pl}

lemma running_executable (h : Reaches job exec) {path : StepPath} {step : σ} {input : Ck}
    {ctx : StepContext ε} (hc : exec.cursor = .stepInProgress path step input ctx)
    {nav : StepNavigator σ (ScopedLimits Ck ε)}
    (hn : StepPath.navigator path job.pipeline.root = .ok (some nav)) :
    Executable job.pipeline.root nav ∧ nav.path = path ∧ Scheduled job exec.scope path := by
  have hi := reaches_invariant h
  rw [Invariant, hc] at hi
  obtain ⟨nav', hx, rfl, -⟩ := hi.1.executable
  rw [navigator_executable job.pipeline.fits hx] at hn
  cases hn
  exact ⟨hx, rfl, hi.1⟩

lemma advanceCursor_schedule (scope : RootScope Ck ε) (now : ℕ)
    {nav item target : StepNavigator σ (ScopedLimits Ck ε)} {path : StepPath} {output : ControlFlow Ck Err}
    {c : Ck} (hx : Executable job.pipeline.root nav)
    (hn : StepPath.navigator path job.pipeline.root = .ok (some nav)) (hc : output.checkpoint = some c)
    (hi : itemAfter output nav = .ok (some item)) (he : item.enter = .ok (some target)) :
    advanceCursor job scope path output now = schedule job scope now c (some target) ∧
      Executable job.pipeline.root target := by
  cases output with
  | fail e => cases hc
  | brk c' =>
    cases hc
    have hnext : nav.nextBreak = .ok (some target) := by
      rw [nextBreak_eq_item hx, show nav.itemBreak = .ok (some item) from hi]
      exact he
    obtain ⟨t, ht, hall⟩ := nextBreak_moves job.pipeline.fits hx
    rw [hnext] at ht
    cases ht
    refine ⟨?_, hall target rfl⟩
    simp only [advanceCursor, hn, hnext, bind, Except.bind]
  | ok c' =>
    cases hc
    have hnext : nav.nextOk = .ok (some target) := by
      rw [nextOk_eq_item job.pipeline.fits hx, show nav.itemOk = .ok (some item) from hi]
      exact he
    obtain ⟨t, ht, hall⟩ := nextOk_moves job.pipeline.fits hx
    rw [hnext] at ht
    cases ht
    refine ⟨?_, hall target rfl⟩
    simp only [advanceCursor, hn, hnext, bind, Except.bind]

lemma schedule_view {scope : RootScope Ck ε} {now : ℕ} {c : Ck} {target : StepNavigator σ (ScopedLimits Ck ε)}
    (hx : Executable job.pipeline.root target) (h : schedule job scope now c (some target) = .ok exec')
    {s : StepPath} (hs : s <+: target.path.dropLast) :
    (s <+: scope.current → exec'.scope.root.view s = scope.root.view s) ∧
      (¬ s <+: scope.current → FreshAt exec'.scope.root.view s c now) := by
  obtain ⟨ctx, p, b, x, hloc, -, rfl⟩ := hx
  obtain ⟨scope', hsw, h⟩ := Library.bind_eq_ok.mp h
  cases h
  rw [dropLast_at] at hs
  exact switchContext_view hsw (scopeOf_at ctx p x) hs

lemma firstStep_view {scope : RootScope Ck ε} {now : ℕ}
    (hscope : scope = RootScope.new job.pipeline.root job.start job.platformLimits)
    (h : firstStep job scope now = .ok exec') {s : StepPath} (hs : s ≠ []) :
    exec'.scope.root.view s = scope.root.view s := by
  subst hscope
  rw [firstStep] at h
  split at h
  · cases h
    rfl
  · obtain ⟨scope', he, h⟩ := Library.bind_eq_ok.mp h
    cases h
    obtain ⟨scope'', he', -, hv⟩ := enter_root job.pipeline.root job.start job.platformLimits now
    rw [he] at he'
    cases he'
    rw [hv, Function.update_of_ne hs]
    rfl

def StillCurrent (exec : PipelineExecutor σ Ck ε Err Pl) (s : StepPath) : Prop :=
  exec.cursor = .initializing ∨ s <+: exec.scope.current

lemma entry_view (h : Reaches job exec) {event : Event Ck Err} (hp : poll job event exec = .ok exec')
    {s : StepPath} {c : Ck} {now : ℕ} (he : Enters job exec event s c now) :
    (StillCurrent exec s → exec'.scope.root.view s = exec.scope.root.view s) ∧
      (¬ StillCurrent exec s → FreshAt exec'.scope.root.view s c now) := by
  cases he with
  | first _ hc _ hne _ =>
    have hi := reaches_invariant h
    rw [Invariant, hc] at hi
    refine ⟨fun _ => ?_, fun hn => absurd (.inl hc) hn⟩
    simp only [poll, hc] at hp
    exact firstStep_view hi hp hne
  | next output _ hc hn hcp hi hent hs hst =>
    obtain ⟨hx, -, -⟩ := running_executable h hc hn
    obtain ⟨hadv, hxt⟩ := advanceCursor_schedule exec.scope now hx hn hcp hi hent
    simp only [poll, hc] at hp
    rw [hadv] at hp
    have hview := schedule_view hxt hp hst
    refine ⟨fun hcur => ?_, fun hn => hview.2 fun hpre => hn (.inr hpre)⟩
    rcases hcur with hcur | hcur
    · rw [hc] at hcur
      cases hcur
    · exact hview.1 hcur

omit [LimitExtension ε] in
lemma item_nestedAlone {nav item : StepNavigator σ (ScopedLimits Ck ε)} {output : ControlFlow Ck Err}
    (hx : Executable job.pipeline.root nav) (hi : itemAfter output nav = .ok (some item))
    (hpre : item.path <+: nav.path.dropLast) :
    ∃ ctx q, Located job.pipeline.root ctx q .loop ∧ NestedAlone q := by
  obtain ⟨ctx, p, b, x, hloc, hp, rfl⟩ := hx
  have hcases : (∃ y, item = at_ ctx p y) ∨ Outward job.pipeline.root ctx item := by
    cases output with
    | fail e => cases hi
    | brk c => exact itemBreak_cases hloc hi
    | ok c => exact itemOk_cases job.pipeline.fits hloc hp hi
  rw [dropLast_at] at hpre
  rcases hcases with ⟨y, rfl⟩ | hout
  · exact absurd hpre (not_prefix_of_concat _ y)
  · exact hout.nestedAlone hloc job.pipeline.fits hpre

lemma not_stillCurrent (htop : ∀ nav, entrypoint job.pipeline.root = some nav →
      StepPath.isToplevel nav.path = true)
    (hloop : NoLoopAlone job.pipeline.root) (h : Reaches job exec)
    {event : Event Ck Err} {s : StepPath} {c : Ck} {now : ℕ} (he : Enters job exec event s c now) :
    ¬ StillCurrent exec s := by
  intro hcur
  cases he with
  | first _ hc hentry hne hs =>
    obtain ⟨i, hi⟩ := List.length_eq_one_iff.mp
      (by simpa [StepPath.isToplevel, StepPath.depth] using htop _ hentry)
    rw [hi] at hs
    exact hne (List.prefix_nil.mp hs)
  | next output _ hc hn hcp hi hent hs hst =>
    obtain ⟨hx, rfl, hsched⟩ := running_executable h hc hn
    rcases hcur with hcur | hcur
    · rw [hc] at hcur
      cases hcur
    · rw [scopeOf_dropLast (scheduled_current hsched htop)] at hcur
      obtain ⟨ctx', q, hq, halone⟩ := item_nestedAlone hx hi (hs.trans hcur)
      exact located_not_nestedAlone hloop hq halone

/-- In a pipeline that starts with an item of the root and has no loop around a nested pipeline alone, every
entry is fresh. In any pipeline an entry is fresh unless the scope is still current, and then it is left as
it was. -/
theorem nested_entries_fresh (job : Job σ Ck ε Err Pl) :
    ((∀ nav, entrypoint job.pipeline.root = some nav → StepPath.isToplevel nav.path = true) →
      NoLoopAlone job.pipeline.root → ∀ exec exec' event s c now, Reaches job exec →
        poll job event exec = .ok exec' →
        Enters job exec event s c now → FreshAt exec'.scope.root.view s c now) ∧
    ∀ exec exec' event s c now, Reaches job exec → poll job event exec = .ok exec' →
      Enters job exec event s c now →
        (StillCurrent exec s → exec'.scope.root.view s = exec.scope.root.view s) ∧
        (¬ StillCurrent exec s → FreshAt exec'.scope.root.view s c now) := by
  constructor
  · intro htop hloop exec exec' event s c now h hp he
    exact (entry_view h hp he).2 (not_stillCurrent htop hloop h he)
  · intro exec exec' event s c now h hp he
    exact entry_view h hp he

def quartered : Pipeline ℕ (ScopedLimits ℕ Unit) :=
  (Pipeline.default.withStep 2).withLimits (Scaled.create { gas := some (.fraction 1 4) })

def loopJob (nested : Pipeline ℕ (ScopedLimits ℕ Unit))
    (fits : ((Pipeline.default.withStep 1).withPipeline .loop nested).checkAll
      (fun q => decide (q.steps.length ≤ isizeMax)) = true) : Job ℕ ℕ Unit Unit ℕ where
  pipeline := ⟨(Pipeline.default.withStep 1).withPipeline .loop nested, Pipeline.fits_of_checkAll fits⟩
  platformLimits := ⟨30000000, none, none, some 12000000000, ()⟩
  start := 0
  buildPayload := .ok

def loopAlone : Pipeline ℕ (ScopedLimits ℕ Unit) := Pipeline.default.withPipeline .once quartered

def loopStepJob : Job ℕ ℕ Unit Unit ℕ := loopJob quartered (by decide)

def loopAloneJob : Job ℕ ℕ Unit Unit ℕ := loopJob loopAlone (by decide)

theorem loopStep_fresh : ∃ exec exec', Reaches loopStepJob exec ∧
    poll loopStepJob (.stepReady (.ok 5) 3) exec = .ok exec' ∧
    Enters loopStepJob exec (.stepReady (.ok 5) 3) [2] 5 3 ∧ FreshAt exec'.scope.root.view [2] 5 3 := by
  obtain ⟨scope, ctx, h₁, h₂⟩ : ∃ scope ctx,
      poll loopStepJob (.initialized (.ok ()) 0) (run loopStepJob) = .ok ⟨.beforeStep [1] 0, scope⟩ ∧
      poll loopStepJob .started ⟨.beforeStep [1] 0, scope⟩ = .ok ⟨.stepInProgress [1] 1 0 ctx, scope⟩ :=
    ⟨_, _, rfl, rfl⟩
  have h := Reaches.poll _ (Reaches.poll _ .run h₁) h₂
  obtain ⟨exec', hp⟩ := poll_total h (.stepReady (.ok 5) 3)
  have hnav : StepPath.navigator [1] loopStepJob.pipeline.root =
      .ok (some (at_ [] loopStepJob.pipeline.root 1)) := rfl
  have hitem : (at_ [] loopStepJob.pipeline.root 1).itemOk =
      .ok (some (at_ [] loopStepJob.pipeline.root 2)) := rfl
  have htarget : (at_ [] loopStepJob.pipeline.root 2).enter =
      .ok (some (at_ [(loopStepJob.pipeline.root, 1)] quartered 1)) := rfl
  have he : Enters loopStepJob ⟨.stepInProgress [1] 1 0 ctx, scope⟩ (.stepReady (.ok 5) 3) [2] 5 3 :=
    .next (.ok 5) 3 rfl hnav rfl hitem htarget List.prefix_rfl List.prefix_rfl
  have hloop : NoLoopAlone loopStepJob.pipeline.root := noLoopAlone_of_checkAll (by decide)
  refine ⟨_, exec', h, hp, he, (nested_entries_fresh loopStepJob).1 ?_ hloop _ _ _ _ _ _ h hp he⟩
  intro nav hnav
  cases hnav
  rfl

lemma loopAlone_reaches : ∃ exec ctx d, Reaches loopAloneJob exec ∧
    exec.cursor = .stepInProgress [2, 1, 1] 2 5 ctx ∧ exec.scope.current = [2, 1] ∧
    exec.scope.root.view [2, 1] = some d ∧ d.enteredAt = some 3 ∧ d.refreshedWith = 5 := by
  obtain ⟨scope₁, scope₂, ctx₁, ctx₂, d, h₁, h₂, h₃, h₄, hrest⟩ : ∃ scope₁ scope₂ ctx₁ ctx₂ d,
      poll loopAloneJob (.initialized (.ok ()) 0) (run loopAloneJob) = .ok ⟨.beforeStep [1] 0, scope₁⟩ ∧
      poll loopAloneJob .started ⟨.beforeStep [1] 0, scope₁⟩ =
        .ok ⟨.stepInProgress [1] 1 0 ctx₁, scope₁⟩ ∧
      poll loopAloneJob (.stepReady (.ok 5) 3) ⟨.stepInProgress [1] 1 0 ctx₁, scope₁⟩ =
        .ok ⟨.beforeStep [2, 1, 1] 5, scope₂⟩ ∧
      poll loopAloneJob .started ⟨.beforeStep [2, 1, 1] 5, scope₂⟩ =
        .ok ⟨.stepInProgress [2, 1, 1] 2 5 ctx₂, scope₂⟩ ∧
      scope₂.current = [2, 1] ∧ scope₂.root.view [2, 1] = some d ∧ d.enteredAt = some 3 ∧
      d.refreshedWith = 5 :=
    ⟨_, _, _, _, _, rfl, rfl, rfl, rfl, rfl, rfl, rfl, rfl⟩
  exact ⟨_, ctx₂, d, .poll _ (.poll _ (.poll _ (.poll _ .run h₁) h₂) h₃) h₄, rfl, hrest⟩

lemma loopAlone_enters {exec : PipelineExecutor ℕ ℕ Unit Unit ℕ} {ctx : StepContext Unit}
    (hc : exec.cursor = .stepInProgress [2, 1, 1] 2 5 ctx) :
    Enters loopAloneJob exec (.stepReady (.ok 9) 4) [2, 1] 9 4 := by
  have hloop : Located loopAloneJob.pipeline.root [(loopAloneJob.pipeline.root, 1)] loopAlone .loop :=
    .nested .root rfl
  have honce : Located loopAloneJob.pipeline.root
      [(loopAloneJob.pipeline.root, 1), (loopAlone, 0)] quartered .once := .nested hloop rfl
  have hitem : (at_ [(loopAloneJob.pipeline.root, 1), (loopAlone, 0)] quartered 1).itemOk =
      .ok (some (at_ [(loopAloneJob.pipeline.root, 1)] loopAlone 1)) := by
    rw [itemOk_step honce (by decide) (i := 0) (by decide), if_pos (by decide), wrapItem, itemAfterLoop_at,
      if_neg (by decide)]
    have hin := itemInParent_nested hloop quartered (i := 0) (by decide) (0 + 1)
    rw [if_pos (by decide)] at hin
    exact hin
  have hnav : StepPath.navigator [2, 1, 1] loopAloneJob.pipeline.root =
      .ok (some (at_ [(loopAloneJob.pipeline.root, 1), (loopAlone, 0)] quartered 1)) := rfl
  have htarget : (at_ [(loopAloneJob.pipeline.root, 1)] loopAlone 1).enter =
      .ok (some (at_ [(loopAloneJob.pipeline.root, 1), (loopAlone, 0)] quartered 1)) := rfl
  exact .next (.ok 9) 4 hc hnav rfl hitem htarget List.prefix_rfl List.prefix_rfl

theorem loopAlone_stale : ∃ exec exec', Reaches loopAloneJob exec ∧
    poll loopAloneJob (.stepReady (.ok 9) 4) exec = .ok exec' ∧
    Enters loopAloneJob exec (.stepReady (.ok 9) 4) [2, 1] 9 4 ∧
    (∃ d, exec'.scope.root.view [2, 1] = some d ∧ d.enteredAt = some 3 ∧ d.refreshedWith = 5) ∧
    ¬ FreshAt exec'.scope.root.view [2, 1] 9 4 := by
  obtain ⟨exec, ctx, d, h, hc, hcur, hd, hat, hwith⟩ := loopAlone_reaches
  obtain ⟨exec', hp⟩ := poll_total h (.stepReady (.ok 9) 4)
  have he := loopAlone_enters hc
  have hview := (entry_view h hp he).1 (.inr (hcur ▸ List.prefix_rfl))
  rw [hd] at hview
  refine ⟨exec, exec', h, hp, he, ⟨d, hview, hat, hwith⟩, ?_⟩
  rintro ⟨d', -, hd', -, hnow, -⟩
  rw [hview] at hd'
  cases hd'
  rw [hat] at hnow
  exact absurd hnow (by decide)

end PipelineExecutor

end Rblib.Pipelines
