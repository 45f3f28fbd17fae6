import Rblib.Pipelines.Unfold
import Rblib.Steps.ChainRuns

namespace Rblib.Steps

open Platform Pipelines PipelineExecutor StepNavigator

variable {σ Ck ε Err Pl : Type}

namespace ChainStep

/-- Some chains are replaced by their members, which may be chains that are replaced in turn. -/
inductive Unfolds : List (ChainStep σ) → List (ChainStep σ) → Prop
  | nil : Unfolds [] []
  | keep {s ss ts} : Unfolds ss ts → Unfolds (s :: ss) (s :: ts)
  | members {first rest ss ts} : Unfolds (first :: rest ++ ss) ts → Unfolds (.chain first rest :: ss) ts

def StandsFor (s : ChainStep σ) (ss : List (ChainStep σ)) : Prop := Unfolds [s] ss

lemma leavesAll_append (ss ts : List (ChainStep σ)) : leavesAll (ss ++ ts) = leavesAll ss ++ leavesAll ts := by
  induction ss with
  | nil => rfl
  | cons s ss ih => rw [List.cons_append, leavesAll, ih, leavesAll, List.append_assoc]

lemma Unfolds.leavesAll_eq {ss ts : List (ChainStep σ)} (h : Unfolds ss ts) : leavesAll ts = leavesAll ss := by
  induction h with
  | nil => rfl
  | keep _ ih => rw [leavesAll, leavesAll, ih]
  | members _ ih => rw [ih, leavesAll_append, leavesAll, leavesAll, leaves]

lemma Unfolds.ne_nil {ss ts : List (ChainStep σ)} (h : Unfolds ss ts) (hne : ss ≠ []) : ts ≠ [] := by
  induction h with
  | nil => exact absurd rfl hne
  | keep => exact List.cons_ne_nil _ _
  | members _ ih => exact ih (List.cons_ne_nil _ _)

lemma StandsFor.ne_nil (s : ChainStep σ) (ss : List (ChainStep σ)) (h : StandsFor s ss) : ss ≠ [] :=
  Unfolds.ne_nil h (List.cons_ne_nil _ _)

lemma StandsFor.leaves_eq {s : ChainStep σ} {ss : List (ChainStep σ)} (h : StandsFor s ss) :
    leavesAll ss = s.leaves := by
  rw [h.leavesAll_eq, leavesAll, leavesAll, List.append_nil]

lemma leavesAll_ne_nil {ss : List (ChainStep σ)} (h : ss ≠ []) : leavesAll ss ≠ [] := by
  obtain ⟨s, ss, rfl⟩ := List.exists_cons_of_ne_nil h
  exact fun hnil => s.leaves_ne_nil (List.append_eq_nil_iff.mp hnil).1

end ChainStep

open ChainStep

section Segment

variable [LimitExtension ε] {job : Job (ChainStep σ) Ck ε Err Pl} {outcome : Log σ Ck → ControlFlow Ck Err}
  {clock : ℕ → List ℕ → ℕ} {now : ℕ → ℕ}

lemma rounds_succ {n : ℕ} {r : Round σ Ck ε Err Pl} (h : rounds job outcome clock now n = .ok r) :
    rounds job outcome clock now (n + 1) = runStep job outcome (clock n) (now (n + 1)) r := by
  rw [rounds, h]
  rfl

lemma BeforeDeadline.mono {n m : ℕ} (h : BeforeDeadline job outcome clock now n) (hm : m ≤ n) :
    BeforeDeadline job outcome clock now m := fun k hk => h k (hk.trans_le hm)

def Advances (job : Job (ChainStep σ) Ck ε Err Pl) (outcome : Log σ Ck → ControlFlow Ck Err)
    (clock : ℕ → List ℕ → ℕ)
    (now : ℕ → ℕ) (m k : ℕ)
    (nextOk nextBreak : Except Panic (Option (StepNavigator (ChainStep σ) (ScopedLimits Ck ε))))
    (flow : ControlFlow (Ck × Log σ Ck) (Err × Log σ Ck)) : Prop :=
  ∃ r, rounds job outcome clock now (m + k) = .ok r ∧ m + k ≤ r.log.length ∧ Invariant job r.exec ∧
    r.log = logOf flow ∧ LandsAfter job nextOk nextBreak flow r.exec.cursor

lemma run_step {nav : StepNavigator (ChainStep σ) (ScopedLimits Ck ε)} {s : ChainStep σ} {m : ℕ}
    {r : Round σ Ck ε Err Pl} {input : Ck} (hr : rounds job outcome clock now m = .ok r)
    (hinv : Invariant job r.exec)
    (hcursor : r.exec.cursor = .beforeStep nav.path input) (hx : Executable job.pipeline.root nav)
    (hs : nav.stepInstance = .ok s) (hahead : AheadOfDeadline job (clock m) r) (hm : m ≤ r.log.length) :
    Advances job outcome clock now m 1 nav.nextOk nav.nextBreak (runLeaves outcome s.leaves (input, r.log)) := by
  obtain ⟨r', hr', hinv', hlog, hlands⟩ := runStep_spec outcome (now (m + 1)) hinv hcursor hx hs hahead
  rw [← rounds_succ hr] at hr'
  have hlt := (log_runLeaves outcome s.leaves (input, r.log)).2 s.leaves_ne_nil
  exact ⟨r', hr', hlog ▸ hm.trans_lt hlt, hinv', hlog, hlands⟩

lemma run_segment {p : Pipeline (ChainStep σ) (ScopedLimits Ck ε)}
    {ctx : Context (ChainStep σ) (ScopedLimits Ck ε)}
    {b : Behavior} (hloc : Located job.pipeline.root ctx p b) {j : ℕ} {ss : List (ChainStep σ)}
    {js : List (StepOrPipeline (ChainStep σ) (ScopedLimits Ck ε))} (hd : p.steps.drop j = ss.map .step ++ js)
    (hne : ss ≠ []) {m : ℕ} {r : Round σ Ck ε Err Pl} {input : Ck}
    (hr : rounds job outcome clock now m = .ok r) (hinv : Invariant job r.exec)
    (hcursor : r.exec.cursor = .beforeStep (at_ ctx p (j + 1)).path input) (hm : m ≤ r.log.length)
    (hbefore : BeforeDeadline job outcome clock now
      (logOf (runLeaves outcome (leavesAll ss) (input, r.log))).length) :
    ∃ k, 0 < k ∧ Advances job outcome clock now m k (at_ ctx p (j + ss.length)).nextOk (at_ ctx p 0).afterLoop
      (runLeaves outcome (leavesAll ss) (input, r.log)) := by
  induction ss generalizing j m r input with
  | nil => exact absurd rfl hne
  | cons s ss ih =>
    have hp := (hloc.everywhere job.pipeline.fits).here
    obtain ⟨hget, hrest⟩ := drop_eq_cons hd
    have hx : Executable job.pipeline.root (at_ ctx p (j + 1)) := ⟨ctx, p, b, _, hloc, .step hget, rfl⟩
    have hgrow := log_runLeaves outcome (leavesAll (s :: ss)) (input, r.log)
    have hm' : m < (logOf (runLeaves outcome (leavesAll (s :: ss)) (input, r.log))).length :=
      hm.trans_lt (hgrow.2 (leavesAll_ne_nil hne))
    have hfirst := run_step hr hinv hcursor hx (stepInstance_step ctx hp hget) (hbefore m hm' r hr) hm
    rw [nextBreak_item hloc hp hd] at hfirst
    rw [leavesAll, runLeaves_append] at hbefore ⊢
    cases hflow : runLeaves outcome s.leaves (input, r.log) with
    | fail error =>
      rw [hflow] at hfirst
      exact ⟨1, Nat.one_pos, hfirst⟩
    | brk next =>
      rw [hflow] at hfirst
      exact ⟨1, Nat.one_pos, hfirst⟩
    | ok next =>
      rw [hflow] at hfirst hbefore
      by_cases hss : ss = []
      · subst hss
        exact ⟨1, Nat.one_pos, hfirst⟩
      · obtain ⟨t, ts, rfl⟩ := List.exists_cons_of_ne_nil hss
        obtain ⟨r₁, hr₁, hm₁, hinv₁, hlog₁, nav, hnav, hcursor₁⟩ := hfirst
        rw [nextOk_inside job.pipeline.fits hloc hd] at hnav
        cases hnav
        obtain ⟨next, log⟩ := next
        cases hlog₁
        obtain ⟨k, -, r', hr', hle, hinv', hlog', hlands'⟩ := ih hrest hss hr₁ hinv₁ hcursor₁ hm₁ hbefore
        refine ⟨1 + k, Nat.add_pos_left Nat.one_pos k, r', ?_, ?_, hinv', hlog', ?_⟩
        · rw [← add_assoc]
          exact hr'
        · rw [← add_assoc]
          exact hle
        · rw [List.length_cons, ← add_assoc, add_right_comm]
          exact hlands'

lemma runStep_grows (outcome : Log σ Ck → ControlFlow Ck Err) {r : Round σ Ck ε Err Pl} {reading : List ℕ → ℕ}
    (t : ℕ) (hinv : Invariant job r.exec) (hahead : AheadOfDeadline job reading r) :
    ∃ r', runStep job outcome reading t r = .ok r' ∧ Invariant job r'.exec ∧ r.log <+: r'.log ∧
      (r.output.isSome → r' = r) := by
  obtain ⟨⟨cursor, scope⟩, log⟩ := r
  cases cursor with
  | beforeStep path input =>
    obtain ⟨nav, hx, rfl, -⟩ := Scheduled.executable (show Scheduled job scope path from hinv)
    obtain ⟨s, hs⟩ := stepInstance_executable job.pipeline.fits hx
    obtain ⟨r', hr', hinv', hlog, -⟩ := runStep_spec outcome t hinv rfl hx hs hahead
    exact ⟨r', hr', hinv', hlog ▸ (log_runLeaves outcome s.leaves (input, log)).1, nofun⟩
  | initializing => exact ⟨_, rfl, hinv, List.prefix_rfl, fun _ => rfl⟩
  | stepInProgress => exact ⟨_, rfl, hinv, List.prefix_rfl, fun _ => rfl⟩
  | finalizing => exact ⟨_, rfl, hinv, List.prefix_rfl, fun _ => rfl⟩
  | completed => exact ⟨_, rfl, hinv, List.prefix_rfl, fun _ => rfl⟩

lemma runStep_finished {r : Round σ Ck ε Err Pl} {reading : List ℕ → ℕ} {t : ℕ} (h : r.output.isSome) :
    runStep job outcome reading t r = .ok r := by
  obtain ⟨⟨cursor, scope⟩, log⟩ := r
  cases cursor with
  | beforeStep => cases h
  | initializing => rfl
  | stepInProgress => rfl
  | finalizing => rfl
  | completed => rfl

lemma rounds_finished {m : ℕ} {r : Round σ Ck ε Err Pl} (hr : rounds job outcome clock now m = .ok r)
    (h : r.output.isSome) (k : ℕ) : rounds job outcome clock now (m + k) = .ok r := by
  induction k with
  | zero => exact hr
  | succ k ih => rw [← add_assoc, rounds_succ ih, runStep_finished h]

omit [LimitExtension ε] in
lemma entryAt_root (p : Pipeline (ChainStep σ) (ScopedLimits Ck ε)) : entryAt [] p = entrypoint p := by
  rw [entryAt]
  exact Option.map_id'

lemma firstStep_lands {scope : RootScope Ck ε} {t : ℕ} {exec : PipelineExecutor (ChainStep σ) Ck ε Err Pl}
    (h : firstStep job scope t = .ok exec) :
    Lands job job.start (.ok (entryAt [] job.pipeline.root)) exec.cursor := by
  refine ⟨_, rfl, ?_⟩
  rw [firstStep] at h
  rw [entryAt_root]
  cases he : entrypoint job.pipeline.root with
  | none =>
    rw [he] at h
    cases h
    rfl
  | some nav =>
    simp only [he] at h
    cases hs : scope.enter job.start t with
    | error e =>
      rw [hs] at h
      cases h
    | ok scope' =>
      rw [hs] at h
      cases h
      rfl

lemma rounds_zero (job : Job (ChainStep σ) Ck ε Err Pl) (outcome : Log σ Ck → ControlFlow Ck Err)
    (clock : ℕ → List ℕ → ℕ) (now : ℕ → ℕ) :
    ∃ r, rounds job outcome clock now 0 = .ok r ∧ Invariant job r.exec ∧ r.log = [] ∧
      Lands job job.start (.ok (entryAt [] job.pipeline.root)) r.exec.cursor := by
  have hstart : Invariant job (run job) := reaches_invariant .run
  obtain ⟨exec, hexec, hinv⟩ := poll_invariant (.initialized (.ok ()) (now 0)) hstart
  refine ⟨⟨exec, []⟩, ?_, hinv, rfl, firstStep_lands hexec⟩
  rw [rounds, hexec]
  rfl

lemma rounds_total {n : ℕ} (hbefore : BeforeDeadline job outcome clock now n) :
    ∃ r, rounds job outcome clock now n = .ok r ∧ Invariant job r.exec := by
  induction n with
  | zero =>
    obtain ⟨r, hr, hinv, -⟩ := rounds_zero job outcome clock now
    exact ⟨r, hr, hinv⟩
  | succ n ih =>
    obtain ⟨r, hr, hinv⟩ := ih (hbefore.mono (Nat.le_succ n))
    obtain ⟨r', hr', hinv', -⟩ := runStep_grows outcome (now (n + 1)) hinv
      (hbefore n (Nat.lt_succ_self n) r hr)
    exact ⟨r', (rounds_succ hr).trans hr', hinv'⟩

lemma rounds_grow {n k : ℕ} (hbefore : BeforeDeadline job outcome clock now (n + k)) :
    ∃ r r', rounds job outcome clock now n = .ok r ∧ rounds job outcome clock now (n + k) = .ok r' ∧
      Invariant job r'.exec ∧ r.log <+: r'.log ∧ (r.output.isSome → r' = r) := by
  induction k with
  | zero =>
    obtain ⟨r, hr, hinv⟩ := rounds_total hbefore
    exact ⟨r, r, hr, hr, hinv, List.prefix_rfl, fun _ => rfl⟩
  | succ k ih =>
    obtain ⟨r, r', hr, hr', hinv, hlog, hsame⟩ := ih (hbefore.mono (Nat.le_succ _))
    obtain ⟨r'', hr'', hinv'', hlog', hsame'⟩ := runStep_grows outcome (now (n + k + 1)) hinv
      (hbefore (n + k) (Nat.lt_succ_self _) r' hr')
    refine ⟨r, r'', hr, (rounds_succ hr').trans hr'', hinv'', hlog.trans hlog', fun h => ?_⟩
    obtain rfl := hsame h
    exact hsame' h

end Segment

section Replacement

variable [LimitExtension ε] {job : Job (ChainStep σ) Ck ε Err Pl}
  {pipeline : PipelineTree (ChainStep σ) (ScopedLimits Ck ε)} {outcome : Log σ Ck → ControlFlow Ck Err}
  {clock clock' : ℕ → List ℕ → ℕ} {now now' : ℕ → ℕ}

inductive CursorsAlike (root root' : Pipeline (ChainStep σ) (ScopedLimits Ck ε)) :
    Cursor (ChainStep σ) Ck ε Err Pl → Cursor (ChainStep σ) Ck ε Err Pl → Prop
  | scheduled {nav nav' input} : Twins StandsFor root root' nav nav' →
      CursorsAlike root root' (.beforeStep nav.path input) (.beforeStep nav'.path input)
  | finalizing {output} : CursorsAlike root root' (.finalizing output) (.finalizing output)

structure Alike (job : Job (ChainStep σ) Ck ε Err Pl) (pipeline : PipelineTree (ChainStep σ) (ScopedLimits Ck ε))
    (r r' : Round σ Ck ε Err Pl) : Prop where
  inv : Invariant job r.exec
  inv' : Invariant { job with pipeline := pipeline } r'.exec
  log : r'.log = r.log
  cursor : CursorsAlike job.pipeline.root pipeline.root r.exec.cursor r'.exec.cursor

lemma Alike.output_eq {r r' : Round σ Ck ε Err Pl} (h : Alike job pipeline r r') : r'.output = r.output := by
  obtain ⟨⟨cursor, scope⟩, log⟩ := r
  obtain ⟨⟨cursor', scope'⟩, log'⟩ := r'
  cases h.cursor with
  | scheduled => rfl
  | finalizing => rfl

lemma Alike.scheduled_or {r r' : Round σ Ck ε Err Pl} (h : Alike job pipeline r r') :
    (∃ nav nav' input, Twins StandsFor job.pipeline.root pipeline.root nav nav' ∧
      r.exec.cursor = .beforeStep nav.path input ∧ r'.exec.cursor = .beforeStep nav'.path input ∧
      r.output = none) ∨ r.output.isSome := by
  obtain ⟨⟨cursor, scope⟩, log⟩ := r
  obtain ⟨⟨cursor', scope'⟩, log'⟩ := r'
  cases h.cursor with
  | scheduled htwins => exact .inl ⟨_, _, _, htwins, rfl, rfl, rfl⟩
  | finalizing => exact .inr rfl

omit [LimitExtension ε] in
lemma lands_alike {checkpoint : Ck}
    {target target' : Except Panic (Option (StepNavigator (ChainStep σ) (ScopedLimits Ck ε)))}
    {cursor cursor' : Cursor (ChainStep σ) Ck ε Err Pl}
    (h : Matched StandsFor job.pipeline.root pipeline.root target target')
    (hl : Lands job checkpoint target cursor)
    (hl' : Lands { job with pipeline := pipeline } checkpoint target' cursor') :
    CursorsAlike job.pipeline.root pipeline.root cursor cursor' := by
  obtain ⟨nav, hnav, rfl⟩ := hl
  obtain ⟨nav', hnav', rfl⟩ := hl'
  cases h with
  | ended =>
    cases hnav
    cases hnav'
    exact .finalizing
  | scheduled htwins =>
    cases hnav
    cases hnav'
    exact .scheduled htwins

omit [LimitExtension ε] in
lemma landsAfter_alike {ok ok' brk brk' : Except Panic (Option (StepNavigator (ChainStep σ) (ScopedLimits Ck ε)))}
    {flow : ControlFlow (Ck × Log σ Ck) (Err × Log σ Ck)} {cursor cursor' : Cursor (ChainStep σ) Ck ε Err Pl}
    (hok : Matched StandsFor job.pipeline.root pipeline.root ok ok')
    (hbrk : Matched StandsFor job.pipeline.root pipeline.root brk brk') (hf : LandsAfter job ok brk flow cursor)
    (hf' : LandsAfter { job with pipeline := pipeline } ok' brk' flow cursor') :
    CursorsAlike job.pipeline.root pipeline.root cursor cursor' := by
  cases flow with
  | fail error =>
    cases hf
    cases hf'
    exact .finalizing
  | brk checkpoint => exact lands_alike hbrk hf hf'
  | ok checkpoint => exact lands_alike hok hf hf'

variable (hroot : job.pipeline.root.Unfolds StandsFor pipeline.root)

def RoundMatched (job : Job (ChainStep σ) Ck ε Err Pl) (pipeline : PipelineTree (ChainStep σ) (ScopedLimits Ck ε))
    (outcome : Log σ Ck → ControlFlow Ck Err) (clock clock' : ℕ → List ℕ → ℕ) (now now' : ℕ → ℕ)
    (n m : ℕ) : Prop :=
  ∃ r, rounds job outcome clock now (n + 1) = .ok r ∧ n + 1 ≤ r.log.length ∧
    (BeforeDeadline { job with pipeline := pipeline } outcome clock' now' r.log.length → ∃ k r', 0 < k ∧
      rounds { job with pipeline := pipeline } outcome clock' now' (m + k) = .ok r' ∧ m + k ≤ r'.log.length ∧
      Alike job pipeline r r')

lemma Advances.matched {n m : ℕ}
    {ok ok' brk brk' : Except Panic (Option (StepNavigator (ChainStep σ) (ScopedLimits Ck ε)))}
    {flow : ControlFlow (Ck × Log σ Ck) (Err × Log σ Ck)}
    (hok : Matched StandsFor job.pipeline.root pipeline.root ok ok')
    (hbrk : Matched StandsFor job.pipeline.root pipeline.root brk brk')
    (h : Advances job outcome clock now n 1 ok brk flow)
    (h' : BeforeDeadline { job with pipeline := pipeline } outcome clock' now' (logOf flow).length →
      ∃ k, 0 < k ∧ Advances { job with pipeline := pipeline } outcome clock' now' m k ok' brk' flow) :
    RoundMatched job pipeline outcome clock clock' now now' n m := by
  obtain ⟨r, hr, hn, hinv, hlog, hf⟩ := h
  refine ⟨r, hr, hn, fun hbefore => ?_⟩
  rw [hlog] at hbefore
  obtain ⟨k, hk, r', hr', hm, hinv', hlog', hf'⟩ := h' hbefore
  exact ⟨k, r', hk, hr', hm, hinv, hinv', hlog'.trans hlog.symm, landsAfter_alike hok hbrk hf hf'⟩

section Rounds

variable {r r' : Round σ Ck ε Err Pl} {input : Ck} {n m : ℕ}
  {nav nav' : StepNavigator (ChainStep σ) (ScopedLimits Ck ε)}

lemma Alike.lt_runLeaves (h : Alike job pipeline r r') (hm : m ≤ r'.log.length) {ss : List σ} (hss : ss ≠ []) :
    m < (logOf (runLeaves outcome ss (input, r.log))).length := by
  rw [h.log] at hm
  exact hm.trans_lt ((log_runLeaves outcome ss (input, r.log)).2 hss)

lemma same_matched {s : ChainStep σ}
    (hok : Matched StandsFor job.pipeline.root pipeline.root nav.nextOk nav'.nextOk)
    (hbrk : Matched StandsFor job.pipeline.root pipeline.root nav.nextBreak nav'.nextBreak)
    (hx : Executable job.pipeline.root nav) (hs : nav.stepInstance = .ok s)
    (hx' : Executable pipeline.root nav') (hs' : nav'.stepInstance = .ok s) (h : Alike job pipeline r r')
    (hcursor : r.exec.cursor = .beforeStep nav.path input)
    (hcursor' : r'.exec.cursor = .beforeStep nav'.path input)
    (hr : rounds job outcome clock now n = .ok r) (hn : n ≤ r.log.length)
    (hahead : AheadOfDeadline job (clock n) r)
    (hr' : rounds { job with pipeline := pipeline } outcome clock' now' m = .ok r') (hm : m ≤ r'.log.length) :
    RoundMatched job pipeline outcome clock clock' now now' n m := by
  apply Advances.matched hok hbrk (run_step hr h.inv hcursor hx hs hahead hn)
  intro hbefore
  have hrun := run_step hr' h.inv' hcursor' hx' hs' (hbefore m (h.lt_runLeaves hm s.leaves_ne_nil) r' hr') hm
  rw [h.log] at hrun
  exact ⟨1, Nat.one_pos, hrun⟩

include hroot in
lemma twins_matched (htwins : Twins StandsFor job.pipeline.root pipeline.root nav nav')
    (h : Alike job pipeline r r') (hcursor : r.exec.cursor = .beforeStep nav.path input)
    (hcursor' : r'.exec.cursor = .beforeStep nav'.path input) (hr : rounds job outcome clock now n = .ok r)
    (hn : n ≤ r.log.length) (hahead : AheadOfDeadline job (clock n) r)
    (hr' : rounds { job with pipeline := pipeline } outcome clock' now' m = .ok r') (hm : m ≤ r'.log.length) :
    RoundMatched job pipeline outcome clock clock' now now' n m := by
  have hfit := job.pipeline.fits
  have hfit' := pipeline.fits
  obtain ⟨ctx, ctx', p, p', b, x, x', hp, hx, rfl, rfl⟩ := htwins
  have hunfolds := hp.unfolds hroot
  cases hx with
  | @prologue s hs =>
    have hs' : p'.prologue = some s := hunfolds.prologue.trans hs
    have hne := epilogue_ne_prologue.symm
    exact same_matched (nextOk_prologue_matched StandsFor.ne_nil hroot hfit hfit' hp)
      (nextBreak_matched StandsFor.ne_nil hroot hfit hfit' hp hne hne)
      ⟨ctx, p, b, _, hp.located, .prologue hs, rfl⟩ (stepInstance_prologue ctx hs)
      ⟨ctx', p', b, _, hp.located', .prologue hs', rfl⟩ (stepInstance_prologue ctx' hs')
      h hcursor hcursor' hr hn hahead hr' hm
  | @epilogue s hs =>
    have hs' : p'.epilogue = some s := hunfolds.epilogue.trans hs
    obtain ⟨hok, hbrk⟩ := epilogue_matched StandsFor.ne_nil hroot hfit hfit' hp
    exact same_matched hok hbrk
      ⟨ctx, p, b, _, hp.located, .epilogue hs, rfl⟩ (stepInstance_epilogue ctx hs)
      ⟨ctx', p', b, _, hp.located', .epilogue hs', rfl⟩ (stepInstance_epilogue ctx' hs')
      h hcursor hcursor' hr hn hahead hr' hm
  | @item i j s ss is js hd hd' hs hitems =>
    have hget := (drop_eq_cons hd).1
    have hfits := (hp.located.everywhere hfit).here
    have hfirst := run_step hr h.inv hcursor ⟨ctx, p, b, _, hp.located, .step hget, rfl⟩
      (stepInstance_step ctx hfits hget) hahead hn
    rw [nextBreak_item hp.located hfits hd] at hfirst
    apply Advances.matched (nextOk_item_matched StandsFor.ne_nil hroot hfit hfit' hp hd hd' hs hitems)
      (afterLoop_matched StandsFor.ne_nil hroot hfit hfit' hp 0 0) hfirst
    intro hbefore
    rw [← hs.leaves_eq, ← h.log] at hbefore ⊢
    exact run_segment hp.located' hd' (StandsFor.ne_nil s ss hs) hr' h.inv' hcursor' hm hbefore

end Rounds

include hroot in
lemma rounds_alike {n : ℕ} {r : Round σ Ck ε Err Pl} (hbefore : BeforeDeadline job outcome clock now n)
    (hr : rounds job outcome clock now n = .ok r)
    (hbefore' : BeforeDeadline { job with pipeline := pipeline } outcome clock' now' r.log.length) :
    ∃ m r', rounds { job with pipeline := pipeline } outcome clock' now' m = .ok r' ∧ m ≤ r'.log.length ∧
      Alike job pipeline r r' ∧ (r.output = none → n ≤ m) := by
  induction n generalizing r with
  | zero =>
    obtain ⟨r₀, hr₀, hinv, hlog, hlands⟩ := rounds_zero job outcome clock now
    obtain ⟨r', hr', hinv', hlog', hlands'⟩ := rounds_zero { job with pipeline := pipeline } outcome clock' now'
    cases hr.symm.trans hr₀
    have hentry := entryAt_matched StandsFor.ne_nil hroot job.pipeline.fits pipeline.fits job.pipeline.root
      [] [] pipeline.root .once .root
    exact ⟨0, r', hr', Nat.zero_le _, ⟨hinv, hinv', hlog'.trans hlog.symm, lands_alike hentry hlands hlands'⟩,
      fun _ => Nat.zero_le _⟩
  | succ n ih =>
    obtain ⟨r₀, r₁, hr₀, hr₁, -, hlog, hsame⟩ := rounds_grow hbefore
    cases hr.symm.trans hr₁
    obtain ⟨m, r', hr', hm, halike, hnm⟩ := ih (hbefore.mono (Nat.le_succ n)) hr₀ (hbefore'.mono hlog.length_le)
    obtain ⟨nav, nav', input, htwins, hcursor, hcursor', hrunning⟩ | hdone := halike.scheduled_or
    · have hle : n ≤ m := hnm hrunning
      have hn : n ≤ r₀.log.length := by
        rw [← halike.log]
        omega
      obtain ⟨r₂, hr₂, -, hmatched⟩ := twins_matched hroot htwins halike hcursor hcursor' hr₀ hn
        (hbefore n (Nat.lt_succ_self n) r₀ hr₀) hr' hm
      cases hr.symm.trans hr₂
      obtain ⟨k, r'', hk, hr'', hm', halike'⟩ := hmatched hbefore'
      refine ⟨m + k, r'', hr'', hm', halike', fun _ => ?_⟩
      omega
    · obtain rfl := hsame hdone
      refine ⟨m, r', hr', hm, halike, fun hnone => ?_⟩
      rw [hnone] at hdone
      cases hdone

theorem chain_items_agree (job : Job (ChainStep σ) Ck ε Err Pl)
    (pipeline : PipelineTree (ChainStep σ) (ScopedLimits Ck ε))
    (hroot : job.pipeline.root.Unfolds StandsFor pipeline.root) (outcome : Log σ Ck → ControlFlow Ck Err)
    (clock clock' : ℕ → List ℕ → ℕ) (now now' : ℕ → ℕ) (n : ℕ)
    (hbefore : BeforeDeadline job outcome clock now n) :
    ∃ r, rounds job outcome clock now n = .ok r ∧
      (BeforeDeadline { job with pipeline := pipeline } outcome clock' now' r.log.length →
        (∃ m r', rounds { job with pipeline := pipeline } outcome clock' now' m = .ok r' ∧
          r'.log = r.log ∧ r'.output = r.output) ∧
        ∃ r', rounds { job with pipeline := pipeline } outcome clock' now' n = .ok r' ∧
          r'.log <+: r.log ∧ ∀ output, r'.output = some output → r.output = some output) := by
  obtain ⟨r, hr, -⟩ := rounds_total hbefore
  refine ⟨r, hr, fun hbefore' => ?_⟩
  obtain ⟨m, r', hr', hm, halike, hnm⟩ := rounds_alike hroot hbefore hr hbefore'
  rw [← halike.log] at hbefore'
  refine ⟨⟨m, r', hr', halike.log, halike.output_eq⟩, ?_⟩
  obtain hle | hge := Nat.le_total n m
  · obtain ⟨k, rfl⟩ := Nat.exists_eq_add_of_le hle
    obtain ⟨r₁, r₂, hr₁, hr₂, -, hlog, hsame⟩ := rounds_grow (hbefore'.mono hm)
    cases hr'.symm.trans hr₂
    refine ⟨r₁, hr₁, halike.log ▸ hlog, fun output houtput => ?_⟩
    obtain rfl := hsame (Option.isSome_of_eq_some houtput)
    exact halike.output_eq.symm.trans houtput
  · obtain ⟨k, rfl⟩ := Nat.exists_eq_add_of_le hge
    have hrun : rounds { job with pipeline := pipeline } outcome clock' now' (m + k) = .ok r' := by
      cases houtput : r.output with
      | some output => exact rounds_finished hr' (by rw [halike.output_eq, houtput]; rfl) k
      | none =>
        have hle := hnm houtput
        obtain rfl : k = 0 := by omega
        exact hr'
    exact ⟨r', hrun, halike.log ▸ List.prefix_rfl, fun output houtput => halike.output_eq.symm.trans houtput⟩

end Replacement

section Example

def nestedChain : ChainStep ℕ := .chain (.single 1) [.chain (.single 2) [.single 3]]

def chainJob : Job (ChainStep ℕ) ℕ Unit Unit ℕ where
  pipeline :=
    { root := Pipeline.default.withPipeline .loop (Pipeline.default.withStep nestedChain)
      fits := Pipeline.fits_of_checkAll (by decide) }
  platformLimits := ⟨30000000, none, none, none, ()⟩
  start := 0
  buildPayload := .ok

def memberItems : PipelineTree (ChainStep ℕ) (ScopedLimits ℕ Unit) where
  root := Pipeline.default.withPipeline .loop
    (((Pipeline.default.withStep (.single 1)).withStep (.single 2)).withStep (.single 3))
  fits := Pipeline.fits_of_checkAll (by decide)

def counting (log : Log ℕ ℕ) : ControlFlow ℕ Unit := .ok log.length

lemma memberItems_unfold : chainJob.pipeline.root.Unfolds ChainStep.StandsFor memberItems.root where
  prologue := rfl
  epilogue := rfl
  limits := rfl
  steps := by
    have hmembers : StandsFor nestedChain [.single 1, .single 2, .single 3] :=
      .members (.keep (.members (.keep (.keep .nil))))
    exact .pipeline (.step hmembers .nil) .nil

def unlimited (job : Job (ChainStep ℕ) ℕ Unit Unit ℕ) (k : ℕ) : Bool :=
  match rounds job counting (fun _ _ => 0) (fun _ => 0) k with
  | .error _ => true
  | .ok r => match poll job .started r.exec with
    | .ok ⟨.stepInProgress _ _ _ ctx, _⟩ => ctx.limits.deadline.isNone
    | _ => true

lemma beforeDeadline_of_unlimited {job : Job (ChainStep ℕ) ℕ Unit Unit ℕ} {n : ℕ}
    (h : ∀ k < n, unlimited job k = true) : BeforeDeadline job counting (fun _ _ => 0) (fun _ => 0) n := by
  intro k hk r hr exec path step input ctx hstart hcursor reading
  obtain ⟨cursor, scope⟩ := exec
  cases hcursor
  have hlimits := h k hk
  rw [unlimited, hr] at hlimits
  simp only [hstart, Option.isNone_iff_eq_none] at hlimits
  rw [StepContext.deadlineReached, hlimits]

theorem nestedChain_in_loop : ∃ r m r', rounds chainJob counting (fun _ _ => 0) (fun _ => 0) 2 = .ok r ∧
    r.log = [(1, 0), (2, 1), (3, 2), (1, 3), (2, 4), (3, 5)] ∧
    rounds { chainJob with pipeline := memberItems } counting (fun _ _ => 0) (fun _ => 0) m = .ok r' ∧
    r'.log = r.log := by
  have hchain : BeforeDeadline chainJob counting (fun _ _ => 0) (fun _ => 0) 2 :=
    beforeDeadline_of_unlimited (by decide +kernel)
  have hitems : BeforeDeadline { chainJob with pipeline := memberItems } counting (fun _ _ => 0) (fun _ => 0) 6 :=
    beforeDeadline_of_unlimited (by decide +kernel)
  obtain ⟨r, hr, hagree⟩ := chain_items_agree chainJob memberItems memberItems_unfold counting (fun _ _ => 0)
    (fun _ _ => 0) (fun _ => 0) (fun _ => 0) 2 hchain
  have hlog : r.log = [(1, 0), (2, 1), (3, 2), (1, 3), (2, 4), (3, 5)] := by
    cases hr
    rfl
  obtain ⟨⟨m, r', hr', hsame, -⟩, -⟩ := hagree (by rw [hlog]; exact hitems)
  exact ⟨r, m, r', hr, hlog, hr', hsame⟩

end Example

end Rblib.Steps
