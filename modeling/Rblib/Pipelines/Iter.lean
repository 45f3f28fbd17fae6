import Rblib.Pipelines.Reachable

/-! The iterator of `pipelines/iter.rs` over the step paths of a pipeline. Its stack of frames is a
list with the top first. -/

namespace Rblib.Pipelines

open StepNavigator

variable {σ κ : Type}

structure Frame (σ κ : Type) where
  pipeline : Pipeline σ κ
  path : StepPath
  nextIx : ℕ
  yieldedPrologue : Bool
  yieldedEpilogue : Bool

structure StepPathIter (σ κ : Type) where
  stack : List (Frame σ κ)

namespace StepPathIter

def new (pipeline : Pipeline σ κ) : StepPathIter σ κ := ⟨[⟨pipeline, StepPath.empty, 0, false, false⟩]⟩

inductive Round (σ κ : Type)
  | exhausted
  | yield (path : StepPath) (iter : StepPathIter σ κ)
  | again (iter : StepPathIter σ κ)

def closeFrame (frame : Frame σ κ) (parents : List (Frame σ κ)) : Round σ κ :=
  if !frame.yieldedEpilogue && frame.pipeline.epilogue.isSome then
    .yield (StepPath.concat frame.path StepPath.epilogue) ⟨{ frame with yieldedEpilogue := true } :: parents⟩
  else .again ⟨parents⟩

def round (iter : StepPathIter σ κ) : Round σ κ :=
  match iter.stack with
  | [] => .exhausted
  | frame :: parents =>
    if !frame.yieldedPrologue && frame.pipeline.prologue.isSome then
      .yield (StepPath.concat frame.path StepPath.prologue)
        ⟨{ frame with yieldedPrologue := true } :: parents⟩
    else match frame.pipeline.steps[frame.nextIx]? with
      | some (.step _) =>
        .yield (StepPath.concat frame.path (StepPath.step frame.nextIx))
          ⟨{ frame with nextIx := frame.nextIx + 1 } :: parents⟩
      | some (.pipeline _ nested) =>
        .again ⟨⟨nested, StepPath.concat frame.path (StepPath.step frame.nextIx), 0, false, false⟩ ::
          { frame with nextIx := frame.nextIx + 1 } :: parents⟩
      | none => closeFrame frame parents

noncomputable def frameLeft (frame : Frame σ κ) : ℕ :=
  (!frame.yieldedPrologue).toNat + (!frame.yieldedEpilogue).toNat +
    sizeOf (frame.pipeline.steps.drop frame.nextIx)

noncomputable def left (iter : StepPathIter σ κ) : ℕ := (iter.stack.map frameLeft).sum

lemma sizeOf_drop {items : List (StepOrPipeline σ κ)} {i : ℕ} {item : StepOrPipeline σ κ}
    (h : items[i]? = some item) : sizeOf (items.drop i) = 1 + sizeOf item + sizeOf (items.drop (i + 1)) := by
  obtain ⟨hlt, rfl⟩ := List.getElem?_eq_some_iff.mp h
  rw [List.drop_eq_getElem_cons hlt]
  rfl

lemma sizeOf_list_pos (items : List (StepOrPipeline σ κ)) : 0 < sizeOf items := by
  cases items <;> simp

lemma frameLeft_nested {b : Behavior} (nested : Pipeline σ κ) (path : StepPath) :
    frameLeft ⟨nested, path, 0, false, false⟩ < 1 + sizeOf (StepOrPipeline.pipeline b nested) := by
  cases nested with
  | mk pro epi steps lim =>
    have hp : 0 < sizeOf pro := by cases pro <;> simp
    have he : 0 < sizeOf epi := by cases epi <;> simp
    simp only [frameLeft, Pipeline.steps_mk, List.drop_zero, Bool.not_false, Bool.toNat_true,
      StepOrPipeline.pipeline.sizeOf_spec, Pipeline.mk.sizeOf_spec]
    omega

lemma round_left (iter : StepPathIter σ κ) : match iter.round with
    | .exhausted => True
    | .yield _ iter' => iter'.left < iter.left
    | .again iter' => iter'.left < iter.left := by
  obtain ⟨stack⟩ := iter
  cases stack with
  | nil => trivial
  | cons frame parents =>
    have hpos := sizeOf_list_pos (frame.pipeline.steps.drop frame.nextIx)
    simp only [round]
    split_ifs with hp
    · simp only [Bool.and_eq_true, Bool.not_eq_true'] at hp
      simp only [left, List.map_cons, List.sum_cons, frameLeft, hp.1, Bool.not_true, Bool.not_false,
        Bool.toNat_true, Bool.toNat_false]
      omega
    · cases hi : frame.pipeline.steps[frame.nextIx]? with
      | none =>
        simp only [closeFrame]
        split_ifs with he
        · simp only [Bool.and_eq_true, Bool.not_eq_true'] at he
          simp only [left, List.map_cons, List.sum_cons, frameLeft, he.1, Bool.not_true, Bool.not_false,
            Bool.toNat_true, Bool.toNat_false]
          omega
        · simp only [left, List.map_cons, List.sum_cons, frameLeft]
          omega
      | some item =>
        have hs := sizeOf_drop hi
        cases item with
        | step s =>
          simp only [left, List.map_cons, List.sum_cons, frameLeft]
          omega
        | pipeline b nested =>
          have hn := frameLeft_nested (b := b) nested
            (StepPath.concat frame.path (StepPath.step frame.nextIx))
          simp only [left, List.map_cons, List.sum_cons, frameLeft] at hn ⊢
          omega

lemma yield_left {iter iter' : StepPathIter σ κ} {path : StepPath} (h : iter.round = .yield path iter') :
    iter'.left < iter.left := by
  have hl := iter.round_left
  rwa [h] at hl

lemma again_left {iter iter' : StepPathIter σ κ} (h : iter.round = .again iter') : iter'.left < iter.left := by
  have hl := iter.round_left
  rwa [h] at hl

def next (iter : StepPathIter σ κ) : Option (StepPath × StepPathIter σ κ) :=
  match _h : iter.round with
  | .exhausted => none
  | .yield path iter' => some (path, iter')
  | .again iter' => next iter'
termination_by iter.left
decreasing_by exact again_left _h

lemma next_left {iter iter' : StepPathIter σ κ} {path : StepPath} (h : iter.next = some (path, iter')) :
    iter'.left < iter.left := by
  fun_induction next iter with
  | case1 => cases h
  | case2 iter p i hr =>
    cases h
    exact yield_left hr
  | case3 iter i hr ih => exact (ih h).trans (again_left hr)

def collect (iter : StepPathIter σ κ) : List StepPath :=
  match _h : iter.next with
  | none => []
  | some (path, iter') => path :: collect iter'
termination_by iter.left
decreasing_by exact next_left _h

end StepPathIter

def Pipeline.iterSteps (p : Pipeline σ κ) : List StepPath := (StepPathIter.new p).collect

section DepthFirst

mutual

/-- The steps of a pipeline that stands at the given path: its prologue, its items in order, its epilogue. -/
def depthFirst (path : StepPath) : Pipeline σ κ → List (StepPath × σ)
  | .mk prologue epilogue steps _ =>
    prologue.toList.map (fun s => (path ++ StepPath.prologue, s)) ++ depthFirstItems path 0 steps ++
      epilogue.toList.map (fun s => (path ++ StepPath.epilogue, s))

def depthFirstItems (path : StepPath) (index : ℕ) : List (StepOrPipeline σ κ) → List (StepPath × σ)
  | [] => []
  | .step s :: later => (path ++ StepPath.step index, s) :: depthFirstItems path (index + 1) later
  | .pipeline _ p :: later =>
    depthFirst (path ++ StepPath.step index) p ++ depthFirstItems path (index + 1) later

end

def Pipeline.stepsOf (p : Pipeline σ κ) : List (StepPath × σ) := depthFirst [] p

lemma depthFirst_eq (path : StepPath) (p : Pipeline σ κ) :
    depthFirst path p = p.prologue.toList.map (fun s => (path ++ StepPath.prologue, s)) ++
      depthFirstItems path 0 p.steps ++ p.epilogue.toList.map (fun s => (path ++ StepPath.epilogue, s)) := by
  cases p
  rw [depthFirst]
  rfl

namespace StepPathIter

def due (yielded : Bool) (s : Option σ) (path : StepPath) : List StepPath :=
  if !yielded && s.isSome then [path] else []

def frameRest (frame : Frame σ κ) : List StepPath :=
  due frame.yieldedPrologue frame.pipeline.prologue (frame.path ++ StepPath.prologue) ++
  (depthFirstItems frame.path frame.nextIx (frame.pipeline.steps.drop frame.nextIx)).map Prod.fst ++
  due frame.yieldedEpilogue frame.pipeline.epilogue (frame.path ++ StepPath.epilogue)

def rest (iter : StepPathIter σ κ) : List StepPath := iter.stack.flatMap frameRest

lemma due_true (s : Option σ) (path : StepPath) : due true s path = [] := rfl

lemma due_false (s : Option σ) (path : StepPath) : due false s path = s.toList.map fun _ => path := by
  cases s <;> rfl

lemma frameRest_nested (nested : Pipeline σ κ) (path : StepPath) :
    frameRest ⟨nested, path, 0, false, false⟩ = (depthFirst path nested).map Prod.fst := by
  rw [depthFirst_eq]
  simp [frameRest, due_false]

lemma round_rest (iter : StepPathIter σ κ) : match iter.round with
    | .exhausted => iter.rest = []
    | .yield path iter' => iter.rest = path :: iter'.rest
    | .again iter' => iter.rest = iter'.rest := by
  obtain ⟨stack⟩ := iter
  cases stack with
  | nil => rfl
  | cons frame parents =>
    simp only [round]
    split_ifs with hp
    · have hpro : due frame.yieldedPrologue frame.pipeline.prologue (frame.path ++ StepPath.prologue) =
        [frame.path ++ StepPath.prologue] := if_pos hp
      simp [rest, frameRest, hpro, due_true, StepPath.concat]
    · have hpro : due frame.yieldedPrologue frame.pipeline.prologue (frame.path ++ StepPath.prologue) = [] :=
        if_neg hp
      cases hi : frame.pipeline.steps[frame.nextIx]? with
      | none =>
        have hdrop := List.drop_eq_nil_of_le (List.getElem?_eq_none_iff.mp hi)
        simp only [closeFrame]
        split_ifs with he
        · have hepi : due frame.yieldedEpilogue frame.pipeline.epilogue (frame.path ++ StepPath.epilogue) =
            [frame.path ++ StepPath.epilogue] := if_pos he
          simp [rest, frameRest, hpro, hepi, due_true, hdrop, depthFirstItems, StepPath.concat]
        · have hepi : due frame.yieldedEpilogue frame.pipeline.epilogue (frame.path ++ StepPath.epilogue) =
            [] := if_neg he
          simp [rest, frameRest, hpro, hepi, hdrop, depthFirstItems]
      | some item =>
        obtain ⟨hlt, hget⟩ := List.getElem?_eq_some_iff.mp hi
        have hdrop := List.drop_eq_getElem_cons hlt
        rw [hget] at hdrop
        cases item with
        | step s => simp [rest, frameRest, hpro, hdrop, depthFirstItems, StepPath.concat]
        | pipeline b nested =>
          simp only [rest, List.flatMap_cons, frameRest_nested]
          simp [frameRest, hpro, hdrop, depthFirstItems, StepPath.concat]

lemma next_rest (iter : StepPathIter σ κ) : match iter.next with
    | none => iter.rest = []
    | some (path, iter') => iter.rest = path :: iter'.rest := by
  fun_induction next iter with
  | case1 iter hr =>
    have h := iter.round_rest
    rwa [hr] at h
  | case2 iter path iter' hr =>
    have h := iter.round_rest
    rwa [hr] at h
  | case3 iter iter' hr ih =>
    have h := iter.round_rest
    rw [hr] at h
    rwa [h]

lemma collect_eq_rest (iter : StepPathIter σ κ) : iter.collect = iter.rest := by
  fun_induction collect iter with
  | case1 iter hn =>
    have h := iter.next_rest
    rw [hn] at h
    exact h.symm
  | case2 iter path iter' hn ih =>
    have h := iter.next_rest
    rw [hn] at h
    rw [ih, h]

end StepPathIter

theorem iterSteps_eq (p : Pipeline σ κ) : p.iterSteps = p.stepsOf.map Prod.fst := by
  rw [Pipeline.iterSteps, StepPathIter.collect_eq_rest, StepPathIter.rest, StepPathIter.new]
  simp only [List.flatMap_cons, List.flatMap_nil, List.append_nil]
  exact StepPathIter.frameRest_nested p []

end DepthFirst

section Nodup

lemma depthFirstItems_below {path : StepPath} {index : ℕ} {items : List (StepOrPipeline σ κ)}
    (h : ∀ b q, .pipeline b q ∈ items → ∀ path, ∀ e ∈ depthFirst path q, path <+: e.1)
    {e : StepPath × σ} (he : e ∈ depthFirstItems path index items) :
    ∃ i, index ≤ i ∧ i < index + items.length ∧ path ++ [i + 1] <+: e.1 := by
  induction items generalizing index with
  | nil => cases he
  | cons item later ih =>
    have hlater : e ∈ depthFirstItems path (index + 1) later →
        ∃ i, index ≤ i ∧ i < index + (item :: later).length ∧ path ++ [i + 1] <+: e.1 := by
      intro he
      obtain ⟨i, hi, hlt, hp⟩ := ih (fun b q hq => h b q (List.mem_cons_of_mem _ hq)) he
      rw [List.length_cons]
      exact ⟨i, by omega, by omega, hp⟩
    cases item with
    | step s =>
      rcases List.mem_cons.mp he with rfl | he
      · exact ⟨index, le_rfl, by simp, List.prefix_rfl⟩
      · exact hlater he
    | pipeline b q =>
      rcases List.mem_append.mp he with he | he
      · exact ⟨index, le_rfl, by simp, h b q List.mem_cons_self _ e he⟩
      · exact hlater he

lemma depthFirst_below (p : Pipeline σ κ) : ∀ path, ∀ e ∈ depthFirst path p, path <+: e.1 := by
  induction p using Pipeline.nesting_induction with
  | h p ih =>
    intro path e he
    rw [depthFirst_eq, List.mem_append, List.mem_append] at he
    rcases he with (he | he) | he
    · obtain ⟨s, -, rfl⟩ := List.mem_map.mp he
      exact List.prefix_append _ _
    · obtain ⟨i, -, -, hp⟩ := depthFirstItems_below ih he
      exact (List.prefix_append _ _).trans hp
    · obtain ⟨s, -, rfl⟩ := List.mem_map.mp he
      exact List.prefix_append _ _

lemma index_unique {path l : StepPath} {i j : ℕ} (hi : path ++ [i] <+: l) (hj : path ++ [j] <+: l) : i = j := by
  have h := (List.prefix_of_prefix_length_le hi hj (by simp)).eq_of_length (by simp)
  simpa using h

lemma depthFirstItems_nodup (path : StepPath) (index : ℕ) {items : List (StepOrPipeline σ κ)}
    (h : ∀ b q, .pipeline b q ∈ items → ∀ path, ((depthFirst path q).map Prod.fst).Nodup) :
    ((depthFirstItems path index items).map Prod.fst).Nodup := by
  induction items generalizing index with
  | nil => exact List.nodup_nil
  | cons item later ih =>
    have hlater := ih (index + 1) fun b q hq => h b q (List.mem_cons_of_mem _ hq)
    have hapart : ∀ l ∈ (depthFirstItems path (index + 1) later).map Prod.fst, ¬ path ++ [index + 1] <+: l := by
      intro l hl hp
      obtain ⟨e, he, rfl⟩ := List.mem_map.mp hl
      obtain ⟨i, hi, -, hq⟩ := depthFirstItems_below (fun _ q _ => depthFirst_below q) he
      have := index_unique hp hq
      omega
    cases item with
    | step s =>
      refine List.nodup_cons.mpr ⟨fun hm => ?_, hlater⟩
      exact hapart _ hm List.prefix_rfl
    | pipeline b q =>
      rw [depthFirstItems, List.map_append, List.nodup_append]
      refine ⟨h b q List.mem_cons_self _, hlater, ?_⟩
      rintro l hl l' hl' rfl
      obtain ⟨e, he, rfl⟩ := List.mem_map.mp hl
      exact hapart _ hl' (depthFirst_below q _ e he)

theorem depthFirst_nodup (p : Pipeline σ κ) (hfit : p.Everywhere fun q => q.steps.length ≤ isizeMax) :
    ∀ path, ((depthFirst path p).map Prod.fst).Nodup := by
  induction p using Pipeline.nesting_induction with
  | h p ih =>
    intro path
    have hitems := depthFirstItems_nodup path 0 fun b q hq => ih b q hq (hfit.nested hq)
    have hindex : ∀ l ∈ (depthFirstItems path 0 p.steps).map Prod.fst,
        ∃ i < p.steps.length, path ++ [i + 1] <+: l := by
      intro l hl
      obtain ⟨e, he, rfl⟩ := List.mem_map.mp hl
      obtain ⟨i, -, hi, hp⟩ := depthFirstItems_below (fun _ q _ => depthFirst_below q) he
      exact ⟨i, by omega, hp⟩
    have hsingle : ∀ (o : Option σ) l, ((o.toList.map fun s => (l, s)).map Prod.fst : List StepPath).Nodup := by
      intro o l
      cases o <;> simp
    rw [depthFirst_eq, List.map_append, List.map_append, List.nodup_append, List.nodup_append]
    refine ⟨⟨hsingle _ _, hitems, ?_⟩, hsingle _ _, ?_⟩
    · rintro l hl l' hl' rfl
      obtain ⟨i, -, hp⟩ := hindex _ hl'
      simp only [List.map_map, List.mem_map] at hl
      obtain ⟨s, -, rfl⟩ := hl
      have := index_unique List.prefix_rfl hp
      simp [PROLOGUE_INDEX] at this
    · rintro l hl l' hl' rfl
      simp only [List.map_map, List.mem_map] at hl'
      obtain ⟨s, -, rfl⟩ := hl'
      rcases List.mem_append.mp hl with hl | hl
      · simp only [List.map_map, List.mem_map] at hl
        obtain ⟨s', -, heq⟩ := hl
        have hsame : path ++ [PROLOGUE_INDEX] = path ++ [EPILOGUE_INDEX] := heq
        exact epilogue_ne_prologue (by simpa using hsame.symm)
      · obtain ⟨i, hi, hp⟩ := hindex _ hl
        exact index_ne_epilogue hfit.here hi (index_unique hp List.prefix_rfl)

end Nodup

section Members

variable {root : Pipeline σ κ}

def StandsAt (root : Pipeline σ κ) (e : StepPath × σ) : Prop :=
  ∃ nav, Executable root nav ∧ nav.path = e.1 ∧ nav.stepInstance = .ok e.2

lemma depthFirstItems_stands {ctx : Context σ κ} {p : Pipeline σ κ} {b : Behavior}
    (hloc : Located root ctx p b) (hfit : p.steps.length ≤ isizeMax)
    (hnested : ∀ i b q, p.steps[i]? = some (.pipeline b q) →
      ∀ e ∈ depthFirst (ctx.path ++ [i + 1]) q, StandsAt root e)
    {items : List (StepOrPipeline σ κ)} {index : ℕ} (hitems : items = p.steps.drop index)
    {e : StepPath × σ} (he : e ∈ depthFirstItems ctx.path index items) : StandsAt root e := by
  induction items generalizing index with
  | nil => cases he
  | cons item later ih =>
    have hitem : p.steps[index]? = some item := by
      rw [← Nat.add_zero index, ← List.getElem?_drop, ← hitems]
      rfl
    have hlater : later = p.steps.drop (index + 1) := by
      rw [← List.drop_drop, ← hitems]
      rfl
    cases item with
    | step s =>
      rcases List.mem_cons.mp he with rfl | he
      · exact ⟨at_ ctx p (index + 1), ⟨ctx, p, b, _, hloc, .step hitem, rfl⟩, rfl,
          stepInstance_step ctx hfit hitem⟩
      · exact ih hlater he
    | pipeline b' q =>
      rcases List.mem_append.mp he with he | he
      · exact hnested index b' q hitem e he
      · exact ih hlater he

lemma depthFirst_stands (hroot : root.Everywhere fun q => q.steps.length ≤ isizeMax) (p : Pipeline σ κ) :
    ∀ ctx b, Located root ctx p b → ∀ e ∈ depthFirst ctx.path p, StandsAt root e := by
  induction p using Pipeline.nesting_induction with
  | h p ih =>
    intro ctx b hloc e he
    have hfit := (hloc.everywhere hroot).here
    rw [depthFirst_eq, List.mem_append, List.mem_append] at he
    rcases he with (he | he) | he
    · obtain ⟨s, hs, rfl⟩ := List.mem_map.mp he
      have hpro := Option.mem_toList.mp hs
      exact ⟨at_ ctx p PROLOGUE_INDEX, ⟨ctx, p, b, _, hloc, .prologue hpro, rfl⟩, rfl,
        stepInstance_prologue ctx hpro⟩
    · refine depthFirstItems_stands hloc hfit (fun i b' q hi e he => ?_) List.drop_zero.symm he
      apply ih b' q (List.mem_of_getElem? hi) (ctx ++ [(p, i)]) b' (.nested hloc hi)
      rwa [Context.path_concat]
    · obtain ⟨s, hs, rfl⟩ := List.mem_map.mp he
      have hepi := Option.mem_toList.mp hs
      exact ⟨at_ ctx p EPILOGUE_INDEX, ⟨ctx, p, b, _, hloc, .epilogue hepi, rfl⟩, rfl,
        stepInstance_epilogue ctx hepi⟩

lemma depthFirstItems_step (path : StepPath) (index : ℕ) {items : List (StepOrPipeline σ κ)} {i : ℕ} {s : σ}
    (h : items[i]? = some (.step s)) : (path ++ [index + i + 1], s) ∈ depthFirstItems path index items := by
  induction items generalizing index i with
  | nil => simp at h
  | cons item later ih =>
    cases i with
    | zero =>
      cases h
      exact List.mem_cons_self
    | succ i =>
      have hm := ih (index + 1) (i := i) h
      rw [show index + 1 + i = index + (i + 1) by omega] at hm
      cases item with
      | step s' => exact List.mem_cons_of_mem _ hm
      | pipeline b q => exact List.mem_append_right _ hm

lemma depthFirstItems_nested (path : StepPath) (index : ℕ) {items : List (StepOrPipeline σ κ)} {i : ℕ}
    {b : Behavior} {q : Pipeline σ κ} (h : items[i]? = some (.pipeline b q)) :
    depthFirst (path ++ [index + i + 1]) q ⊆ depthFirstItems path index items := by
  induction items generalizing index i with
  | nil => simp at h
  | cons item later ih =>
    cases i with
    | zero =>
      cases h
      exact List.subset_append_left _ _
    | succ i =>
      have hm := ih (index + 1) (i := i) h
      rw [show index + 1 + i = index + (i + 1) by omega] at hm
      cases item with
      | step s => exact fun e he => List.mem_cons_of_mem _ (hm he)
      | pipeline b' q' => exact fun e he => List.mem_append_right _ (hm he)

lemma depthFirst_subset {ctx : Context σ κ} {p : Pipeline σ κ} {b : Behavior} (hloc : Located root ctx p b) :
    depthFirst ctx.path p ⊆ root.stepsOf := by
  induction hloc with
  | root => exact fun e he => he
  | @nested ctx q b i b' p hq hi ih =>
    refine fun e he => ih ?_
    rw [Context.path_concat] at he
    have hitems := depthFirstItems_nested ctx.path 0 hi
    rw [Nat.zero_add] at hitems
    rw [depthFirst_eq]
    exact List.mem_append_left _ (List.mem_append_right _ (hitems he))

theorem mem_stepsOf_iff (hroot : root.Everywhere fun q => q.steps.length ≤ isizeMax) (e : StepPath × σ) :
    e ∈ root.stepsOf ↔ StandsAt root e := by
  constructor
  · exact depthFirst_stands hroot root [] .once .root e
  · rintro ⟨nav, ⟨ctx, p, b, x, hloc, hx, rfl⟩, hpath, hinst⟩
    apply depthFirst_subset hloc
    obtain ⟨path, s⟩ := e
    cases hpath
    rw [depthFirst_eq, List.mem_append, List.mem_append]
    cases hx with
    | prologue hs =>
      rw [stepInstance_prologue ctx hs] at hinst
      cases hinst
      exact .inl (.inl (List.mem_map.mpr ⟨_, Option.mem_toList.mpr hs, rfl⟩))
    | epilogue hs =>
      rw [stepInstance_epilogue ctx hs] at hinst
      cases hinst
      exact .inr (List.mem_map.mpr ⟨_, Option.mem_toList.mpr hs, rfl⟩)
    | @step i s' hi =>
      rw [stepInstance_step ctx (hloc.everywhere hroot).here hi] at hinst
      cases hinst
      have hm := depthFirstItems_step ctx.path 0 hi
      rw [Nat.zero_add] at hm
      exact .inl (.inr hm)

lemma mem_iterSteps_iff (hroot : root.Everywhere fun q => q.steps.length ≤ isizeMax) (path : StepPath) :
    path ∈ root.iterSteps ↔ ∃ nav, Executable root nav ∧ nav.path = path := by
  rw [iterSteps_eq, List.mem_map]
  constructor
  · rintro ⟨e, he, rfl⟩
    obtain ⟨nav, hx, hp, -⟩ := (mem_stepsOf_iff hroot e).mp he
    exact ⟨nav, hx, hp⟩
  · rintro ⟨nav, hx, rfl⟩
    obtain ⟨s, hs⟩ := stepInstance_executable hroot hx
    exact ⟨(nav.path, s), (mem_stepsOf_iff hroot _).mpr ⟨nav, hx, rfl, hs⟩, rfl⟩

end Members

end Rblib.Pipelines
