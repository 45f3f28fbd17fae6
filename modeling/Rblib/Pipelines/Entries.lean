import Rblib.Library.Fallible
import Rblib.Pipelines.ScopeRuns

/-! Which nested pipelines a move of the navigator enters. -/

namespace Rblib.Pipelines

variable {σ κ : Type}

namespace StepNavigator

mutual

def itemAfterLoop (nav : StepNavigator σ κ) : Except Panic (Option (StepNavigator σ κ)) :=
  match nav.pipeline with
  | .error e => .error e
  | .ok enclosing =>
    if enclosing.epilogue.isSome then do
      return some ⟨← StepPath.replaceLeaf nav.path EPILOGUE_INDEX, nav.ancestors⟩
    else itemInParent nav
termination_by (nav.path.length, 1)

def itemAfterPrologue (nav : StepNavigator σ κ) : Except Panic (Option (StepNavigator σ κ)) :=
  match nav.pipeline with
  | .error e => .error e
  | .ok enclosing =>
    if enclosing.steps.isEmpty then itemAfterLoop nav
    else do return some ⟨← StepPath.replaceLeaf nav.path STEP0_INDEX, nav.ancestors⟩
termination_by (nav.path.length, 2)

def itemInParent (nav : StepNavigator σ κ) : Except Panic (Option (StepNavigator σ κ)) :=
  match _h : nav.ancestor with
  | .error e => .error e
  | .ok none => .ok none
  | .ok (some anc) => do
    match checkedSub (← StepPath.leaf anc.path) STEP0_INDEX with
    | none => return none
    | some stepIndex =>
      let enclosing ← anc.pipeline
      if stepIndex + 1 ≥ enclosing.steps.length then
        match ← anc.behavior with
        | .loop => itemAfterPrologue anc
        | .once => itemAfterLoop anc
      else return some ⟨StepPath.incrementLeaf anc.path, anc.ancestors⟩
termination_by (nav.path.length, 0)
decreasing_by all_goals exact Prod.Lex.left _ _ (ancestor_shorter (by assumption))

end

def itemOk (nav : StepNavigator σ κ) : Except Panic (Option (StepNavigator σ κ)) := do
  if ← nav.isEpilogue then nav.itemInParent
  else if ← nav.isPrologue then nav.itemAfterPrologue
  else
    let enclosing ← nav.pipeline
    if enclosing.steps.isEmpty then throw "invalid navigator state"
    else match checkedSub (← StepPath.leaf nav.path) STEP0_INDEX with
      | none => throw "invalid step index in the step path"
      | some position =>
        let isLast := decide (position + 1 ≥ enclosing.steps.length)
        match ← nav.behavior, isLast with
        | .loop, true => return some ⟨← StepPath.replaceLeaf nav.path STEP0_INDEX, nav.ancestors⟩
        | .once, true => nav.itemAfterLoop
        | _, false => return some ⟨StepPath.incrementLeaf nav.path, nav.ancestors⟩

def itemBreak (nav : StepNavigator σ κ) : Except Panic (Option (StepNavigator σ κ)) := do
  if ← nav.isEpilogue then nav.itemInParent else nav.itemAfterLoop

def enterItem : Option (StepNavigator σ κ) → Except Panic (Option (StepNavigator σ κ))
  | none => .ok none
  | some item => item.enter

section At

lemma itemAfterLoop_at (ctx : Context σ κ) (p : Pipeline σ κ) (x : ℕ) :
    (at_ ctx p x).itemAfterLoop =
      if p.epilogue.isSome then .ok (some (at_ ctx p EPILOGUE_INDEX)) else (at_ ctx p x).itemInParent := by
  rw [itemAfterLoop, pipeline_at]
  simp only [replaceLeaf_at, ancestors_at]
  rfl

lemma itemAfterPrologue_at (ctx : Context σ κ) (p : Pipeline σ κ) (x : ℕ) :
    (at_ ctx p x).itemAfterPrologue =
      if p.steps.isEmpty then (at_ ctx p x).itemAfterLoop else .ok (some (at_ ctx p 1)) := by
  rw [itemAfterPrologue, pipeline_at]
  simp only [replaceLeaf_at, ancestors_at]
  rfl

lemma itemInParent_root (p : Pipeline σ κ) (x : ℕ) : (at_ [] p x).itemInParent = .ok none := by
  rw [itemInParent]
  split
  · rename_i e h
    rw [ancestor_root] at h
    cases h
  · rfl
  · rename_i anc h
    rw [ancestor_root] at h
    cases h

def wrapItem (b : Behavior) (ctx : Context σ κ) (p : Pipeline σ κ) (x : ℕ) :
    Except Panic (Option (StepNavigator σ κ)) :=
  match b with
  | .loop => .ok (some (at_ ctx p 1))
  | .once => (at_ ctx p x).itemAfterLoop

lemma itemInParent_nested {root q : Pipeline σ κ} {ctx : Context σ κ} {b : Behavior}
    (h : Located root ctx q b) (p : Pipeline σ κ) {i : ℕ} (hi : i < q.steps.length) (x : ℕ) :
    (at_ (ctx ++ [(q, i)]) p x).itemInParent =
      if i + 1 ≥ q.steps.length then wrapItem b ctx q (i + 1) else .ok (some (at_ ctx q (i + 2))) := by
  have ha := ancestor_nested ctx p q i x
  rw [itemInParent]
  split
  · rename_i e he
    rw [ha] at he
    cases he
  · rename_i he
    rw [ha] at he
    cases he
  · rename_i anc he
    rw [ha] at he
    cases he
    simp only [leaf_at, checkedSub_step0, pipeline_at, behavior_at h, incrementLeaf_at, bind,
      Except.bind, itemAfterPrologue_at, isEmpty_of_lt hi]
    cases b <;> rfl

lemma itemOk_epilogue (ctx : Context σ κ) (p : Pipeline σ κ) :
    (at_ ctx p EPILOGUE_INDEX).itemOk = (at_ ctx p EPILOGUE_INDEX).itemInParent := by
  simp [itemOk, bind, Except.bind]

lemma itemBreak_epilogue (ctx : Context σ κ) (p : Pipeline σ κ) :
    (at_ ctx p EPILOGUE_INDEX).itemBreak = (at_ ctx p EPILOGUE_INDEX).itemInParent := by
  simp [itemBreak, bind, Except.bind]

lemma itemOk_prologue (ctx : Context σ κ) (p : Pipeline σ κ) :
    (at_ ctx p PROLOGUE_INDEX).itemOk = (at_ ctx p PROLOGUE_INDEX).itemAfterPrologue := by
  simp [itemOk, epilogue_ne_prologue.symm, bind, Except.bind]

lemma itemBreak_of_ne (ctx : Context σ κ) (p : Pipeline σ κ) {x : ℕ} (hx : x ≠ EPILOGUE_INDEX) :
    (at_ ctx p x).itemBreak = (at_ ctx p x).itemAfterLoop := by
  simp [itemBreak, hx, bind, Except.bind]

lemma itemOk_step {root p : Pipeline σ κ} {ctx : Context σ κ} {b : Behavior}
    (h : Located root ctx p b) (hl : p.steps.length ≤ isizeMax) {i : ℕ} (hi : i < p.steps.length) :
    (at_ ctx p (i + 1)).itemOk =
      if i + 1 ≥ p.steps.length then wrapItem b ctx p (i + 1) else .ok (some (at_ ctx p (i + 2))) := by
  have he := index_ne_epilogue hl hi
  have hs := isEmpty_of_lt hi
  have hr : StepPath.replaceLeaf (at_ ctx p (i + 1)).path STEP0_INDEX = .ok (at_ ctx p 1).path :=
    replaceLeaf_at ctx p (i + 1) 1
  simp only [itemOk, isEpilogue_at, isPrologue_at, pipeline_at, leaf_at, checkedSub_step0,
    behavior_at h, hs, hr, incrementLeaf_at, bind, Except.bind]
  by_cases hlast : i + 1 ≥ p.steps.length
  · cases b <;> simp [he, hlast, wrapItem, PROLOGUE_INDEX, at_, pure, Except.pure]
  · cases b <;> simp [he, hlast, PROLOGUE_INDEX, pure, Except.pure]

end At

section Factor

variable {root : Pipeline σ κ}

lemma enter_epilogue (ctx : Context σ κ) {p : Pipeline σ κ} (h : p.epilogue.isSome = true) :
    enter (at_ ctx p EPILOGUE_INDEX) = .ok (some (at_ ctx p EPILOGUE_INDEX)) := by
  simp [enter, h, bind, Except.bind, pure, Except.pure]

lemma nextInParent_eq {ctx : Context σ κ} {p : Pipeline σ κ} {b : Behavior} (hloc : Located root ctx p b)
    (x : ℕ) : (at_ ctx p x).nextInParent = (at_ ctx p x).itemInParent >>= enterItem := by
  induction hloc generalizing x with
  | root =>
    rw [nextInParent_root, itemInParent_root]
    rfl
  | @nested ctx q b i b' p hq hi ih =>
    have hlt := (List.getElem?_eq_some_iff.mp hi).1
    rw [nextInParent_nested hq p hlt, itemInParent_nested hq p hlt]
    split
    · cases b with
      | loop => rfl
      | once =>
        rw [wrap, wrapItem, afterLoop_at, itemAfterLoop_at]
        split
        · rename_i he
          exact (enter_epilogue ctx he).symm
        · exact ih _
    · rfl

lemma afterLoop_eq {ctx : Context σ κ} {p : Pipeline σ κ} {b : Behavior} (hloc : Located root ctx p b)
    (x : ℕ) : (at_ ctx p x).afterLoop = (at_ ctx p x).itemAfterLoop >>= enterItem := by
  rw [afterLoop_at, itemAfterLoop_at]
  split
  · rename_i he
    exact (enter_epilogue ctx he).symm
  · exact nextInParent_eq hloc x

theorem nextOk_eq_item (hroot : root.Everywhere fun q => q.steps.length ≤ isizeMax)
    {nav : StepNavigator σ κ} (h : Executable root nav) : nav.nextOk = nav.itemOk >>= enterItem := by
  obtain ⟨ctx, p, b, x, hloc, hx, rfl⟩ := h
  cases hx with
  | prologue _ =>
    rw [nextOk_prologue, itemOk_prologue, afterPrologue_at, itemAfterPrologue_at]
    split
    · exact afterLoop_eq hloc _
    · rfl
  | epilogue _ =>
    rw [nextOk_epilogue, itemOk_epilogue]
    exact nextInParent_eq hloc _
  | @step i s hi =>
    have hlt := (List.getElem?_eq_some_iff.mp hi).1
    rw [nextOk_step hloc (hloc.everywhere hroot).here hlt, itemOk_step hloc (hloc.everywhere hroot).here hlt]
    split
    · cases b with
      | loop => rfl
      | once => exact afterLoop_eq hloc _
    · rfl

theorem nextBreak_eq_item {nav : StepNavigator σ κ} (h : Executable root nav) :
    nav.nextBreak = nav.itemBreak >>= enterItem := by
  obtain ⟨ctx, p, b, x, hloc, -, rfl⟩ := h
  by_cases hx : x = EPILOGUE_INDEX
  · rw [hx, nextBreak_epilogue, itemBreak_epilogue]
    exact nextInParent_eq hloc _
  · rw [nextBreak_of_ne ctx p hx, itemBreak_of_ne ctx p hx]
    exact afterLoop_eq hloc x

end Factor

section Outward

/-- A pipeline inside `ctx` has ended and execution goes on at `item` of a pipeline around it: past the nested
pipeline that has ended there, or from the start of a loop. -/
def Outward (root : Pipeline σ κ) (ctx : Context σ κ) (item : StepNavigator σ κ) : Prop :=
  ∃ ctx' q b y i rest, Located root ctx' q b ∧ item = at_ ctx' q y ∧ ctx = ctx' ++ (q, i) :: rest ∧
    (y = EPILOGUE_INDEX ∨ y = i + 2 ∨ y = 1 ∧ b = .loop ∧ i + 1 = q.steps.length)

variable {root : Pipeline σ κ}

lemma Outward.concat {ctx : Context σ κ} {item : StepNavigator σ κ} (h : Outward root ctx item)
    (q : Pipeline σ κ) (i : ℕ) : Outward root (ctx ++ [(q, i)]) item := by
  obtain ⟨ctx', q', b, y, j, rest, hloc, rfl, rfl, hy⟩ := h
  exact ⟨ctx', q', b, y, j, rest ++ [(q, i)], hloc, rfl, by simp, hy⟩

lemma itemInParent_outward {ctx : Context σ κ} {p : Pipeline σ κ} {b : Behavior} (hloc : Located root ctx p b)
    {x : ℕ} {item : StepNavigator σ κ} (h : (at_ ctx p x).itemInParent = .ok (some item)) :
    Outward root ctx item := by
  induction hloc generalizing x with
  | root =>
    rw [itemInParent_root] at h
    cases h
  | @nested ctx q b i b' p hq hi ih =>
    have hlt := (List.getElem?_eq_some_iff.mp hi).1
    rw [itemInParent_nested hq p hlt] at h
    split at h
    · cases b with
      | loop =>
        cases h
        exact ⟨ctx, q, .loop, 1, i, [], hq, rfl, rfl, .inr (.inr ⟨rfl, rfl, by omega⟩)⟩
      | once =>
        rw [wrapItem, itemAfterLoop_at] at h
        split at h
        · cases h
          exact ⟨ctx, q, .once, EPILOGUE_INDEX, i, [], hq, rfl, rfl, .inl rfl⟩
        · exact (ih h).concat q i
    · cases h
      exact ⟨ctx, q, b, i + 2, i, [], hq, rfl, rfl, .inr (.inl rfl)⟩

lemma itemAfterLoop_cases {ctx : Context σ κ} {p : Pipeline σ κ} {b : Behavior} (hloc : Located root ctx p b)
    {x : ℕ} {item : StepNavigator σ κ} (h : (at_ ctx p x).itemAfterLoop = .ok (some item)) :
    (∃ y, item = at_ ctx p y) ∨ Outward root ctx item := by
  rw [itemAfterLoop_at] at h
  split at h
  · cases h
    exact .inl ⟨_, rfl⟩
  · exact .inr (itemInParent_outward hloc h)

theorem itemOk_cases (hroot : root.Everywhere fun q => q.steps.length ≤ isizeMax) {ctx : Context σ κ}
    {p : Pipeline σ κ} {b : Behavior} (hloc : Located root ctx p b) {x : ℕ} (hx : PointsAtStep p x)
    {item : StepNavigator σ κ} (h : (at_ ctx p x).itemOk = .ok (some item)) :
    (∃ y, item = at_ ctx p y) ∨ Outward root ctx item := by
  cases hx with
  | prologue _ =>
    rw [itemOk_prologue, itemAfterPrologue_at] at h
    split at h
    · exact itemAfterLoop_cases hloc h
    · cases h
      exact .inl ⟨_, rfl⟩
  | epilogue _ =>
    rw [itemOk_epilogue] at h
    exact .inr (itemInParent_outward hloc h)
  | @step i s hi =>
    have hlt := (List.getElem?_eq_some_iff.mp hi).1
    rw [itemOk_step hloc (hloc.everywhere hroot).here hlt] at h
    split at h
    · cases b with
      | loop =>
        cases h
        exact .inl ⟨_, rfl⟩
      | once => exact itemAfterLoop_cases hloc h
    · cases h
      exact .inl ⟨_, rfl⟩

theorem itemBreak_cases {ctx : Context σ κ} {p : Pipeline σ κ} {b : Behavior} (hloc : Located root ctx p b)
    {x : ℕ} {item : StepNavigator σ κ} (h : (at_ ctx p x).itemBreak = .ok (some item)) :
    (∃ y, item = at_ ctx p y) ∨ Outward root ctx item := by
  by_cases hx : x = EPILOGUE_INDEX
  · rw [hx, itemBreak_epilogue] at h
    exact .inr (itemInParent_outward hloc h)
  · rw [itemBreak_of_ne ctx p hx] at h
    exact itemAfterLoop_cases hloc h

def NestedAlone (p : Pipeline σ κ) : Prop := ∃ b q, p.steps = [.pipeline b q]

def NoLoopAlone (p : Pipeline σ κ) : Prop :=
  p.Everywhere fun q => ∀ r, .pipeline .loop r ∈ q.steps → ¬ NestedAlone r

def loopsNotAlone (p : Pipeline σ κ) : Bool :=
  p.steps.all fun item => match item with
    | .pipeline .loop q => match q.steps with
      | [.pipeline _ _] => false
      | _ => true
    | _ => true

lemma noLoopAlone_of_checkAll {p : Pipeline σ κ} (h : p.checkAll loopsNotAlone = true) : NoLoopAlone p := by
  refine Pipeline.everywhere_of_checkAll (fun q hq r hr halone => ?_) h
  obtain ⟨b, s, hs⟩ := halone
  simpa [hs] using List.all_eq_true.mp hq _ hr

lemma located_not_nestedAlone {ctx : Context σ κ} {p : Pipeline σ κ} (hroot : NoLoopAlone root)
    (h : Located root ctx p .loop) : ¬ NestedAlone p := by
  cases h with
  | nested hq hi => exact (hq.everywhere hroot).here p (List.mem_of_getElem? hi)

lemma located_item {ctx c rest : Context σ κ} {p q : Pipeline σ κ} {b : Behavior} {i : ℕ}
    (h : Located root ctx p b) (hc : ctx = c ++ (q, i) :: rest) :
    ∃ b' r, q.steps[i]? = some (.pipeline b' r) := by
  induction h generalizing rest with
  | root => simp at hc
  | @nested ctx q' b i' b' p hq hi ih =>
    rcases rest.eq_nil_or_concat with rfl | ⟨init, e, rfl⟩
    · obtain ⟨-, he⟩ := List.append_inj' hc rfl
      cases he
      exact ⟨b', p, hi⟩
    · rw [List.concat_eq_append, ← List.cons_append, ← List.append_assoc] at hc
      obtain ⟨hctx, -⟩ := List.append_inj' hc rfl
      exact ih hctx

theorem Outward.nestedAlone {ctx : Context σ κ} {p : Pipeline σ κ} {b : Behavior} (hloc : Located root ctx p b)
    (hroot : root.Everywhere fun q => q.steps.length ≤ isizeMax) {item : StepNavigator σ κ}
    (h : Outward root ctx item) (hpre : item.path <+: ctx.path) :
    ∃ ctx' q, Located root ctx' q .loop ∧ NestedAlone q := by
  obtain ⟨ctx', q, b', y, i, rest, hq, rfl, rfl, hy⟩ := h
  obtain ⟨b'', r, hitem⟩ := located_item hloc rfl
  have hlt := (List.getElem?_eq_some_iff.mp hitem).1
  have hyi : y = i + 1 := by
    simp only [at_, Context.path, List.map_append, List.map_cons] at hpre
    have hcons := (List.prefix_append_right_inj _).mp hpre
    exact (List.cons_prefix_cons.mp hcons).1
  rcases hy with rfl | rfl | ⟨rfl, rfl, hlast⟩
  · exact absurd hyi.symm (index_ne_epilogue (hq.everywhere hroot).here hlt)
  · omega
  · obtain rfl : i = 0 := by omega
    obtain ⟨item, hsingle⟩ := List.length_eq_one_iff.mp hlast.symm
    rw [hsingle] at hitem
    cases hitem
    exact ⟨ctx', q, hq, b'', r, hsingle⟩

end Outward

end StepNavigator

section Views

open Platform Scope

variable {Ck ε : Type}

lemma modify_cons {op : Scope Ck ε → Except Panic (Scope Ck ε)} {i : ℕ} {s : StepPath} {scope scope' : Scope Ck ε}
    (h : scope.modify op (i :: s) = .ok scope') :
    ∃ d nested inner inner', scope = mk d nested ∧ nested i = some inner ∧ inner.modify op s = .ok inner' ∧
      scope' = mk d (Function.update nested i (some inner')) := by
  obtain ⟨d, nested⟩ := scope
  rw [Scope.modify] at h
  cases hn : nested i with
  | none =>
    rw [hn] at h
    cases h
  | some inner =>
    rw [hn] at h
    obtain ⟨inner', hi, rfl⟩ := Library.map_eq_ok h
    exact ⟨d, nested, inner, inner', rfl, hn, hi, rfl⟩

lemma modify_frame {op : Scope Ck ε → Except Panic (Scope Ck ε)} {s : StepPath} {scope scope' : Scope Ck ε}
    (h : scope.modify op s = .ok scope') {t : StepPath} (ht : ¬ s <+: t) : scope'.view t = scope.view t := by
  induction s generalizing scope scope' t with
  | nil => exact absurd List.nil_prefix ht
  | cons i s ih =>
    obtain ⟨d, nested, inner, inner', rfl, hn, hi, rfl⟩ := modify_cons h
    cases t with
    | nil => rfl
    | cons j t =>
      rw [view_cons, view_cons]
      by_cases hj : j = i
      · subst hj
        rw [Function.update_self, hn]
        exact ih hi fun hp => ht (List.cons_prefix_cons.mpr ⟨rfl, hp⟩)
      · rw [Function.update_of_ne hj]

lemma modify_get {op : Scope Ck ε → Except Panic (Scope Ck ε)} {s : StepPath} {scope scope' : Scope Ck ε}
    (h : scope.modify op s = .ok scope') :
    ∃ inner inner', scope.get s = some inner ∧ op inner = .ok inner' ∧ scope'.get s = some inner' := by
  induction s generalizing scope scope' with
  | nil => exact ⟨scope, scope', rfl, h, rfl⟩
  | cons i s ih =>
    obtain ⟨d, nested, child, child', rfl, hn, hc, rfl⟩ := modify_cons h
    obtain ⟨inner, inner', hg, ho, hg'⟩ := ih hc
    refine ⟨inner, inner', ?_, ho, ?_⟩
    · rw [Scope.get, hn]
      exact hg
    · rw [Scope.get, Function.update_self]
      exact hg'

lemma mem_descend {c r s : StepPath} (h : s ∈ StepPath.descend c r) : c <+: s ∧ c.length < s.length := by
  induction r generalizing c with
  | nil => cases h
  | cons i r ih =>
    rcases List.mem_cons.mp h with rfl | h
    · exact ⟨List.prefix_append _ _, by simp⟩
    · obtain ⟨hp, hl⟩ := ih h
      rw [List.length_append] at hl
      exact ⟨(List.prefix_append _ _).trans hp, by omega⟩

lemma leaveAll_frame {paths : List StepPath} {scope scope' : Scope Ck ε} {t : StepPath}
    (h : RootScope.leaveAll paths scope = .ok scope') (ht : ∀ s ∈ paths, ¬ s <+: t) :
    scope'.view t = scope.view t := by
  induction paths generalizing scope with
  | nil =>
    cases h
    rfl
  | cons s paths ih =>
    obtain ⟨left, hl, h⟩ := Library.bind_eq_ok.mp h
    rw [ih h fun s hs => ht s (List.mem_cons_of_mem _ hs), modify_frame hl (ht s List.mem_cons_self)]

variable [LimitExtension ε]

lemma enterAll_cons {checkpoint : Ck} {now : ℕ} {s : StepPath} {paths : List StepPath} {enclosing : Limits ε}
    {scope scope' : Scope Ck ε}
    (h : RootScope.enterAll checkpoint now (s :: paths) enclosing scope = .ok scope') :
    ∃ mid inner, scope.modify (Scope.enter checkpoint enclosing now) s = .ok mid ∧ mid.get s = some inner ∧
      RootScope.enterAll checkpoint now paths inner.limits mid = .ok scope' := by
  obtain ⟨mid, hm, h⟩ := Library.bind_eq_ok.mp h
  cases hg : mid.get s with
  | none =>
    simp only [hg] at h
    cases h
  | some inner =>
    simp only [hg] at h
    exact ⟨mid, inner, hm, hg, h⟩

lemma enterAll_frame {checkpoint : Ck} {now : ℕ} {paths : List StepPath} {enclosing : Limits ε}
    {scope scope' : Scope Ck ε} {t : StepPath}
    (h : RootScope.enterAll checkpoint now paths enclosing scope = .ok scope')
    (ht : ∀ s ∈ paths, ¬ s <+: t) : scope'.view t = scope.view t := by
  induction paths generalizing scope enclosing with
  | nil =>
    cases h
    rfl
  | cons s paths ih =>
    obtain ⟨mid, inner, hm, -, h⟩ := enterAll_cons h
    rw [ih h fun s hs => ht s (List.mem_cons_of_mem _ hs), modify_frame hm (ht s List.mem_cons_self)]

/-- The scope at `s` was entered at this moment, with limits that its factory made from the checkpoint and the
limits of the scope around it. -/
def FreshAt (V : StepPath → Option (ScopeData Ck ε)) (s : StepPath) (checkpoint : Ck) (now : ℕ) : Prop :=
  ∃ d enclosing, V s = some d ∧ V s.dropLast = some enclosing ∧ d.enteredAt = some now ∧
    d.refreshedWith = checkpoint ∧ d.limits = refreshed d.limitsFactory checkpoint enclosing.limits

lemma enterAll_fresh {checkpoint : Ck} {now : ℕ} {c r : StepPath} {scope scope' ancestor : Scope Ck ε}
    (hc : scope.get c = some ancestor)
    (h : RootScope.enterAll checkpoint now (StepPath.descend c r) ancestor.limits scope = .ok scope')
    {s : StepPath} (hs : s ∈ StepPath.descend c r) : FreshAt scope'.view s checkpoint now := by
  induction r generalizing c scope ancestor with
  | nil => cases hs
  | cons i r ih =>
    obtain ⟨mid, inner, hm, hg, h⟩ := enterAll_cons h
    rcases List.mem_cons.mp hs with rfl | hs
    · -- the scopes entered later lie below this one, so its data and that of its parent stay
      have hbelow : ∀ t ∈ StepPath.descend (c ++ [i]) r, ¬ t <+: c ++ [i] := by
        intro t ht hp
        have := (mem_descend ht).2
        have := hp.length_le
        omega
      have habove : ∀ t ∈ StepPath.descend (c ++ [i]) r, ¬ t <+: c := fun t ht hp =>
        hbelow t ht (hp.trans (List.prefix_append c [i]))
      obtain ⟨old, new, -, ho, hnew⟩ := modify_get hm
      rw [hg] at hnew
      cases hnew
      obtain ⟨d, nested⟩ := old
      rw [Scope.enter] at ho
      split at ho
      · cases ho
      · cases ho
        refine ⟨entered d checkpoint ancestor.limits now, ancestor.data, ?_, ?_, rfl, rfl, rfl⟩
        · rw [enterAll_frame h hbelow, view, hg]
          rfl
        · rw [List.dropLast_concat, enterAll_frame h habove, modify_frame hm (not_prefix_of_concat c i), view, hc]
          rfl
    · exact ih hg h hs

end Views

end Rblib.Pipelines
