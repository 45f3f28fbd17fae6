import Rblib.Pipelines.Pruning

/-! Nested pipelines without a step are transparent exactly where nothing is left to run after them.
-/

namespace Rblib.Pipelines

open Library.OracleTrace Library.OracleTrace.Prog StepNavigator Pipeline

variable {σ κ Λ : Type}

lemma map_append_injective {ε : Type} (v : List Λ) {x y : Except ε (List Λ)}
    (h : x.map (v ++ ·) = y.map (v ++ ·)) : x = y := by
  cases x with
  | error e =>
    cases y with
    | error e' => exact h
    | ok w => cases h
  | ok u =>
    cases y with
    | error e' => cases h
    | ok w =>
      have huw : v ++ u = v ++ w := Except.ok.inj h
      exact congrArg Except.ok (List.append_cancel_left huw)

variable (report : StepPath → Λ)

def Continues (rest : Bool) (k : List Outcome → Except Panic (List Λ)) : Prop :=
  rest = true → ∃ os, k os ≠ .ok []

lemma continues_items {rest : Bool} {k : Bool → List Outcome → Except Panic (List Λ)}
    (hk : Continues rest (k true)) (items : List (StepOrPipeline σ κ)) (i : ℕ) (pos : StepPath) :
    Continues (rest || anyStep items) ((runItems report items i pos).andThen k) := by
  intro hr
  cases ha : anyStep items with
  | true => exact ⟨[], (starts_items report items i pos ha).andThen_ne k⟩
  | false =>
    obtain ⟨os, hos⟩ := hk (by simpa [ha] using hr)
    refine ⟨os, ?_⟩
    rwa [items_stepless report items i pos ha, andThen_pure]

lemma continues_epilogue {rest : Bool} {k : Unit → List Outcome → Except Panic (List Λ)}
    (hk : Continues rest (k ())) (p : Pipeline σ κ) (pos : StepPath) :
    Continues (rest || p.epilogue.isSome) ((runEpilogue report p pos).andThen k) := by
  intro hr
  rw [runEpilogue]
  cases he : p.epilogue with
  | some s => exact ⟨[], (Starts.bind_left _ (starts_visit _)).andThen_ne k⟩
  | none =>
    obtain ⟨os, hos⟩ := hk (by simpa [he] using hr)
    exact ⟨os, by rwa [andThen_pure]⟩

def Faithful (root q : Pipeline σ κ) : Prop :=
  ∀ ctx b rest k, Located root ctx q b → q.hasStep = true → Continues rest (k ()) →
    (∀ os, resume report (.ok (entryAt ctx q)) os =
      (runPipeline report q b ctx.path).andThen k os) →
    unobstructed rest b q = true

lemma agrees_after_nested {root q : Pipeline σ κ} (hfit : root.Everywhere FitsVec)
    {ctx : Context σ κ} {b : Behavior} {k : Unit → List Outcome → Except Panic (List Λ)}
    (hloc : Located root ctx q b) (hs : q.hasStep = true) (hu : unobstructed true b q = true)
    (hexit : canExit b q = true)
    (hagree : ∀ os, resume report (.ok (entryAt ctx q)) os =
      (runPipeline report q b ctx.path).andThen k os) (os : List Outcome) :
    resume report (at_ ctx q 0).nextInParent os = k () os := by
  obtain ⟨pre, v, hv⟩ := exits_run report q b ctx.path hexit
  have hsim := simulated report hfit q ctx b true hloc hs hu (by simp) (pre ++ os)
  rw [hagree] at hsim
  simp only [andThen, hv] at hsim
  exact (map_append_injective v hsim).symm

lemma faithful_items {root p : Pipeline σ κ} (hroot : root.Everywhere FitsVec) (hfit : FitsVec p)
    (ih : ∀ b q, .pipeline b q ∈ p.steps → Faithful report root q) {ctx : Context σ κ}
    {b : Behavior} (hloc : Located root ctx p b) {rest : Bool}
    {k : Bool → List Outcome → Except Panic (List Λ)} (hk : Continues rest (k true))
    (items : List (StepOrPipeline σ κ)) (i : ℕ) (hd : p.steps.drop i = items)
    (hagree : items ≠ [] → ∀ os, resume report (enter (at_ ctx p (i + 1))) os =
      (runItems report items i ctx.path).andThen k os) :
    unobstructedItems rest items = true := by
  induction items generalizing i with
  | nil => rfl
  | cons item later hl =>
    obtain ⟨hi, hd'⟩ := drop_eq_cons hd
    have hlt : i < p.steps.length := (List.getElem?_eq_some_iff.mp hi).1
    have hlast : i + 1 ≥ p.steps.length ↔ later = [] := by rw [← hd', List.drop_eq_nil_iff]
    have hagree := hagree (List.cons_ne_nil _ _)
    cases item with
    | step s =>
      rw [unobstructedItems]
      refine hl (i + 1) hd' fun hne os => ?_
      have ho := hagree (.ok :: os)
      rw [enter_step ctx hfit hi, runItems] at ho
      simp only [resume_cons, andThen_bind, andThen_visit_cons, StepNavigator.next,
        nextOk_step hloc hfit hlt, hlast, hne, if_false] at ho
      exact map_append_injective [report (ctx.path ++ [i + STEP0_INDEX])] ho
    | pipeline b' q =>
      rw [enter_nested ctx hfit hi, runItems] at hagree
      simp only [andThen_bind] at hagree
      have hcont := continues_items report hk later (i + 1) ctx.path
      cases hs : q.hasStep with
      | false =>
        have hr : (rest || anyStep later) = false := by
          by_contra hr
          obtain ⟨os, hos⟩ := hcont ((Bool.not_eq_false _).mp hr)
          have ho := hagree os
          rw [entryAt_stepless _ hs, resume_none, run_stepless report q b' _ hs, andThen_pure] at ho
          exact hos ho.symm
        obtain ⟨rfl, ha⟩ := Bool.or_eq_false_iff.mp hr
        simp [unobstructedItems, ha, unobstructed_stepless b' q hs, unobstructedItems_stepless later ha]
      | true =>
        have hpath : Context.path (ctx ++ [(p, i)]) = ctx.path ++ [i + STEP0_INDEX] :=
          Context.path_concat ctx p i
        rw [← hpath] at hagree
        have hu := ih b' q (List.mem_of_getElem? hi) (ctx ++ [(p, i)]) b' _ _ (.nested hloc hi) hs
          hcont hagree
        rw [unobstructedItems, hs, hu, Bool.true_or, Bool.true_and, Bool.true_and,
          Bool.or_eq_true, Bool.not_eq_true', or_iff_not_imp_left, Bool.not_eq_false]
        intro hexit
        cases hr : rest || anyStep later with
        | false =>
          obtain ⟨rfl, ha⟩ := Bool.or_eq_false_iff.mp hr
          exact unobstructedItems_stepless later ha
        | true =>
          rw [hr] at hu
          have hafter := agrees_after_nested report hroot (.nested hloc hi) hs hu hexit hagree
          refine hl (i + 1) hd' fun hne os => ?_
          rw [← hafter os, nextInParent_nested hloc q hlt, if_neg (fun h => hne (hlast.mp h))]

lemma agrees_afterPrologue {p : Pipeline σ κ} (hfit : FitsVec p) {ctx : Context σ κ} {b : Behavior}
    {k : Unit → List Outcome → Except Panic (List Λ)} (hs : p.hasStep = true)
    (hagree : ∀ os, resume report (.ok (entryAt ctx p)) os =
      (runPipeline report p b ctx.path).andThen k os) (os : List Outcome) :
    resume report (at_ ctx p 0).afterPrologue os =
      (runBody b (anyStep p.steps) (runItems report p.steps 0 ctx.path)).andThen
        (fun _ => (runEpilogue report p ctx.path).andThen k) os := by
  cases hpro : p.prologue with
  | none =>
    rw [← entry_afterPrologue hfit ctx hpro hs, hagree os]
    cases p with
    | mk pro epi steps lim =>
      cases hpro
      rw [run_without_prologue, andThen_bind]
      rfl
  | some s =>
    have ho := hagree (.ok :: os)
    rw [entryAt_prologue ctx (by simp [hpro])] at ho
    cases p with
    | mk pro epi steps lim =>
      cases hpro
      rw [runPipeline, andThen_bind, runPrologue] at ho
      simp only [resume_cons, prologue_mk, andThen_bind, andThen_visit_cons, andThen_pure,
        StepNavigator.next, nextOk_prologue] at ho
      exact map_append_injective [report (ctx.path ++ [PROLOGUE_INDEX])] ho

lemma continues_body {rest : Bool} {k : Unit → List Outcome → Except Panic (List Λ)}
    (hk : Continues rest (k ())) (b : Behavior) (items : List (StepOrPipeline σ κ)) (pos : StepPath) :
    ∃ l : Bool → List Outcome → Except Panic (List Λ),
      Continues (rest || (b == .loop && anyStep items)) (l true) ∧
      (runBody b (anyStep items) (runItems report items 0 pos)).andThen k =
        (runItems report items 0 pos).andThen l := by
  rw [runBody]
  split
  · rename_i hl
    have hp := productive_items report items 0 pos hl.2
    refine ⟨fun again => Prog.andThen (if again then loop (runItems report items 0 pos) else pure ()) k,
      fun _ => ⟨[], ?_⟩, ?_⟩
    · exact (starts_items report items 0 pos hl.2).loop.andThen_ne k
    · funext os
      conv_lhs => rw [loop_unroll hp]
      rw [andThen_bind]
  · rename_i hl
    refine ⟨fun _ => k (), ?_, ?_⟩
    · have hb : (b == .loop && anyStep items) = false := by
        simpa using hl
      rwa [hb, Bool.or_false]
    · funext os
      rw [andThen_bind]
      exact andThen_congr _ fun _ rest _ => andThen_pure () k rest

theorem faithful {root : Pipeline σ κ} (hroot : root.Everywhere FitsVec) (p : Pipeline σ κ) :
    Faithful report root p := by
  induction p using nesting_induction with
  | h p ih =>
    intro ctx b rest k hloc hs hk hagree
    have hfit : FitsVec p := (hloc.everywhere hroot).here
    have hbody := agrees_afterPrologue report hfit hs hagree
    have hepi := continues_epilogue report hk p ctx.path
    obtain ⟨l, hl, hitems⟩ := continues_body report
      (k := fun _ => (runEpilogue report p ctx.path).andThen k) hepi b p.steps ctx.path
    have hu : unobstructedItems (rest || p.epilogue.isSome || (b == .loop && anyStep p.steps))
        p.steps = true := by
      refine faithful_items report hroot hfit ih hloc hl p.steps 0 rfl fun hne os => ?_
      rw [← hitems, ← hbody os, afterPrologue_at, if_neg (by simpa using hne)]
    cases p with
    | mk pro epi steps lim => exact hu

/-- The steps executed on the tree are those executed once its stepless nested pipelines are removed,
and the navigator halts only when no step is left to run. -/
def Transparent (t : PipelineTree σ κ) : Prop :=
  ∀ o n, (navigatorVisit t.root o n).map (Option.map (renumber t.root)) =
      navigatorVisit (pruned t).root o n ∧
    (navigatorVisit t.root o n = .ok none → structuredVisit t.root o n = none)

lemma navigatorVisit_pruned (t : PipelineTree σ κ) (o : Stream' Outcome) (n : ℕ) :
    navigatorVisit (pruned t).root o n =
      .ok (runPipeline (renumber t.root) t.root .once [] (o.take n)).1[n]? := by
  rw [run_renumber]
  exact navigator_refines_structured (pruned t) (prune_noEmptyNested t.root) o n

lemma resume_entrypoint_pruned (t : PipelineTree σ κ) (os : List Outcome) :
    resume id (.ok (entrypoint (prune t.root))) os =
      .ok (runPipeline (renumber t.root) t.root .once [] os).1 := by
  rw [run_renumber]
  exact resume_entrypoint id (pruned t) ((prune_noEmptyNested t.root).unobstructed false .once) os

lemma resume_eq_of_visits (t : PipelineTree σ κ) (q : Pipeline σ κ) (os : List Outcome)
    (h : ∀ o n, (navigatorVisit t.root o n).map (Option.map (renumber t.root)) =
      navigatorVisit q o n) :
    resume (renumber t.root) (.ok (entrypoint t.root)) os = resume id (.ok (entrypoint q)) os := by
  refine drive_eq_of_stateAt os _ _ fun o n => ?_
  rw [← stateAt_label]
  exact h o n

theorem transparent_iff_unobstructed (t : PipelineTree σ κ) :
    Transparent t ↔ unobstructed false .once t.root = true := by
  constructor
  · intro h
    cases hs : t.root.hasStep with
    | false => exact unobstructed_stepless .once t.root hs
    | true =>
      refine faithful (renumber t.root) t.fits t.root [] .once false (fun _ _ => .ok []) .root hs
        (by simp [Continues]) fun os => ?_
      rw [entryAt_nil]
      calc resume (renumber t.root) (.ok (entrypoint t.root)) os
          = resume id (.ok (entrypoint (prune t.root))) os := resume_eq_of_visits t _ os fun o n => (h o n).1
        _ = .ok (runPipeline (renumber t.root) t.root .once [] os).1 := resume_entrypoint_pruned t os
        _ = _ := (andThen_nil _ os).symm
  · intro hu o n
    refine ⟨?_, ?_⟩
    · rw [navigatorVisit_report _ t hu, navigatorVisit_pruned]
    · intro hv
      have hs := navigatorVisit_report id t hu o n
      rw [hv] at hs
      exact (Except.ok.inj hs).symm

def gapTree : PipelineTree ℕ Unit where
  root := ((default.withStep 0).withPipeline .once default).withStep 1
  fits := fits_of_checkAll (by decide)

theorem gapTree_halts_early :
    navigatorVisit gapTree.root (Stream'.const .ok) 1 = .ok none ∧
      structuredVisit gapTree.root (Stream'.const .ok) 1 = some [3] ∧ ¬ Transparent gapTree := by
  have hn : navigatorVisit gapTree.root (Stream'.const .ok) 1 = .ok none := by decide +kernel
  have hs : structuredVisit gapTree.root (Stream'.const .ok) 1 = some [3] := by decide +kernel
  refine ⟨hn, hs, fun h => ?_⟩
  have hh := (h (Stream'.const .ok) 1).2 hn
  rw [hs] at hh
  cases hh

end Rblib.Pipelines
