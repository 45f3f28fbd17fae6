import Rblib.Pipelines.Iterations
import Rblib.Pool.Jobs
import Rblib.Steps.Barriers

namespace Rblib.Pool

open Platform PlatformTypes Payload Payload.Checkpoint Pipelines Library.OracleTrace

variable {J P ε : Type} [PlatformTypes P]

structure Attempt (P : Type) [PlatformTypes P] where
  order : Order P
  id : ℕ
  now : ℕ
  before : Run P
  after : Run P

namespace AppendOrders

def triedFrom (step : AppendOrders) (call : StepCall P ε) :
    List (Order P) → ℕ → Finset B256 → Run P → List (Attempt P)
  | [], _, _, _ => []
  | order :: orders, tick, attempted, run =>
    if run.shouldStop step call.ctx (call.clock tick) then []
    else
      let run := run.emit (.inclusionAttempt order.hash)
      if order.hash ∈ attempted then triedFrom step call orders (tick + 1) attempted run
      else
        let after := run.tryInclude step call.ctx order (call.ids tick) (call.clock tick)
        ⟨order, call.ids tick, call.clock tick, run, after⟩ ::
          triedFrom step call orders (tick + 1) (insert order.hash attempted) after

def tried (step : AppendOrders) (attempted : Finset B256) (call : StepCall P ε) : List (Attempt P) :=
  step.triedFrom call call.orders 0 attempted (Run.new step call.ctx call.payload)

end AppendOrders

def hashesOf (c : Checkpoint P) : List B256 :=
    c.history.flatMap fun checkpoint => checkpoint.transactions.map txHash

structure Run.Kept (before after : Run P) : Prop where
  payload : after.payload = before.payload
  txsIncluded : after.txsIncluded = before.txsIncluded
  bundlesIncluded : after.bundlesIncluded = before.bundlesIncluded
  ordersIncluded : after.ordersIncluded = before.ordersIncluded
  existingTxs : after.existingTxs = before.existingTxs

namespace Attempt

variable (step : AppendOrders) (ctx : StepContext ε)

inductive Rejected (t : Attempt P) : Prop
  | skipped (h : t.before.shouldSkip step ctx t.order = true)
  | unrecovered {e : RecoveryError} (h : t.order.tryIntoExecutable = .error e)
  | failed {executable : Executable P} {e : ExecutionError P} (h : t.order.tryIntoExecutable = .ok executable)
    (happly : t.before.payload.apply executable t.id t.now = .error e)
  | overflow {executable : Executable P} {candidate : Checkpoint P}
      (h : t.order.tryIntoExecutable = .ok executable)
    (happly : t.before.payload.apply executable t.id t.now = .ok candidate)
    (hgas : ctx.limits.gasLimit < candidate.cumulativeGasUsed)

structure Appended (t : Attempt P) : Prop where
  applied : ∃ executable, t.order.tryIntoExecutable = .ok executable ∧
    t.before.payload.apply executable t.id t.now = .ok t.after.payload
  fits : t.after.payload.cumulativeGasUsed ≤ ctx.limits.gasLimit
  disjoint : ∀ tx ∈ t.order.transactions, txHash tx ∉ hashesOf t.before.payload

end Attempt

section Include

variable {step : AppendOrders} {ctx : StepContext ε}

lemma hashesOf_apply {c c' : Checkpoint P} {executable : Executable P} {id now : ℕ}
    (h : c.apply executable id now = .ok c') : hashesOf c' = hashesOf c ++ c'.transactions.map txHash := by
  obtain ⟨result, -, rfl⟩ := apply_eq h
  rw [hashesOf, applyWith, history_next, List.flatMap_append]
  simp [hashesOf]

lemma tryInclude_cases (step : AppendOrders) (ctx : StepContext ε) (order : Order P) (id now : ℕ) (run : Run P) :
    (Attempt.Rejected step ctx ⟨order, id, now, run, run.tryInclude step ctx order id now⟩ ∧
      run.Kept (run.tryInclude step ctx order id now)) ∨
    (¬ Attempt.Rejected step ctx ⟨order, id, now, run, run.tryInclude step ctx order id now⟩ ∧
      ∃ executable candidate, order.tryIntoExecutable = .ok executable ∧
        run.payload.apply executable id now = .ok candidate ∧
        candidate.cumulativeGasUsed ≤ ctx.limits.gasLimit ∧ run.shouldSkip step ctx order = false ∧
        (run.tryInclude step ctx order id now).payload = candidate ∧
        (run.tryInclude step ctx order id now).existingTxs =
          run.existingTxs ++ candidate.transactions.map txHash) := by
  have hskip : ({ run with considered := run.considered ++ [order] } : Run P).shouldSkip step ctx order =
      run.shouldSkip step ctx order := rfl
  generalize hafter : run.tryInclude step ctx order id now = after
  rw [Run.tryInclude] at hafter
  dsimp only at hafter
  rw [hskip] at hafter
  split at hafter
  · next hs =>
    subst hafter
    exact .inl ⟨.skipped hs, rfl, rfl, rfl, rfl, rfl⟩
  · next hs =>
    split at hafter
    · next e he =>
      subst hafter
      exact .inl ⟨.unrecovered he, rfl, rfl, rfl, rfl, rfl⟩
    · next executable he =>
      split at hafter
      · next e ha =>
        subst hafter
        exact .inl ⟨.failed he ha, rfl, rfl, rfl, rfl, rfl⟩
      · next candidate ha =>
        split at hafter
        · next hgas =>
          subst hafter
          exact .inl ⟨.overflow he ha hgas, rfl, rfl, rfl, rfl, rfl⟩
        · next hgas =>
          subst hafter
          refine .inr ⟨?_, executable, candidate, he, ha, by omega, by simpa using hs, rfl, rfl⟩
          intro hr
          cases hr with
          | skipped h => exact hs h
          | unrecovered h => cases he.symm.trans h
          | failed h happly =>
            cases he.symm.trans h
            cases ha.symm.trans happly
          | overflow h happly hover =>
            cases he.symm.trans h
            cases ha.symm.trans happly
            exact hgas hover

lemma tryInclude_considered (order : Order P) (id now : ℕ) (run : Run P) :
    (run.tryInclude step ctx order id now).considered = run.considered ++ [order] := by
  rw [Run.tryInclude]
  dsimp only
  split
  · rfl
  · split
    · rfl
    · split
      · rfl
      · split
        · rfl
        · rfl

lemma tryInclude_kept {order : Order P} {id now : ℕ} {run : Run P}
    (h : Attempt.Rejected step ctx ⟨order, id, now, run, run.tryInclude step ctx order id now⟩) :
    run.Kept (run.tryInclude step ctx order id now) := by
  obtain ⟨-, hkept⟩ | ⟨hnot, -⟩ := tryInclude_cases step ctx order id now run
  · exact hkept
  · exact absurd h hnot

lemma tryInclude_appended {order : Order P} {id now : ℕ} {run : Run P}
    (hrun : run.existingTxs = hashesOf run.payload)
    (h : ¬ Attempt.Rejected step ctx ⟨order, id, now, run, run.tryInclude step ctx order id now⟩) :
    Attempt.Appended ctx ⟨order, id, now, run, run.tryInclude step ctx order id now⟩ := by
  obtain ⟨hr, -⟩ | ⟨-, executable, candidate, he, ha, hgas, hskip, hpayload, -⟩ :=
    tryInclude_cases step ctx order id now run
  · exact absurd hr h
  · refine ⟨⟨executable, he, hpayload ▸ ha⟩, hpayload ▸ hgas, ?_⟩
    intro tx htx hmem
    have hexisting : order.transactions.any (fun tx => run.existingTxs.contains (txHash tx)) = false := by
      rw [Run.shouldSkip, Bool.or_eq_false_iff, Bool.or_eq_false_iff] at hskip
      exact hskip.1.2
    rw [List.any_eq_false] at hexisting
    apply hexisting tx htx
    rw [hrun, List.contains_iff_mem]
    exact hmem

structure Run.Sound (call : StepCall P ε) (run : Run P) : Prop where
  extends_ : Under call.payload run.payload
  fits : run.payload.cumulativeGasUsed ≤ max call.ctx.limits.gasLimit call.payload.cumulativeGasUsed
  existing : run.existingTxs = hashesOf run.payload

variable {call : StepCall P ε} {run : Run P}

lemma Run.Sound.emit (h : run.Sound call) (event : OrderEvent P) : (run.emit event).Sound call :=
  ⟨h.extends_, h.fits, h.existing⟩

lemma Run.Sound.tryInclude (h : run.Sound call) (order : Order P) (id now : ℕ) :
    (run.tryInclude step call.ctx order id now).Sound call := by
  obtain ⟨-, hkept⟩ | ⟨-, executable, candidate, -, ha, hgas, -, hpayload, hexisting⟩ :=
    tryInclude_cases step call.ctx order id now run
  · refine ⟨?_, ?_, ?_⟩
    · rw [hkept.payload]
      exact h.extends_
    · rw [hkept.payload]
      exact h.fits
    · rw [hkept.existingTxs, hkept.payload]
      exact h.existing
  · refine ⟨?_, ?_, ?_⟩
    · rw [hpayload]
      exact h.extends_.trans (under_apply ha)
    · rw [hpayload]
      exact le_max_of_le_left hgas
    · rw [hexisting, hpayload, hashesOf_apply ha, h.existing]

variable (step) in
lemma pull_sound (orders : List (Order P)) (tick : ℕ) (attempted : Finset B256) (h : run.Sound call) :
    (step.pull call orders tick attempted run).2.Sound call := by
  apply AppendOrders.pull_keeps_invariant fun _ r => r.Sound call
  · exact fun order _ tick attempted r hr _ => hr.emit _
  · exact fun order _ tick attempted r hr _ => (hr.emit _).tryInclude order _ _
  · exact h

lemma triedFrom_cases (Inv : Run P → Prop) (hemit : ∀ run event, Inv run → Inv (run.emit event))
    {orders : List (Order P)}
    (htry : ∀ order ∈ orders, ∀ id now run, Inv run → Inv (run.tryInclude step call.ctx order id now)) (tick : ℕ)
    (attempted : Finset B256) {run : Run P} (h : Inv run) {t : Attempt P}
    (ht : t ∈ step.triedFrom call orders tick attempted run) :
    Inv t.before ∧ t.order ∈ orders ∧ t.order.hash ∉ attempted ∧
      t.after = t.before.tryInclude step call.ctx t.order t.id t.now := by
  induction orders generalizing tick attempted run with
  | nil => cases ht
  | cons order orders ih =>
    have hrest : ∀ o ∈ orders, ∀ id now run, Inv run → Inv (run.tryInclude step call.ctx o id now) :=
      fun o ho => htry o (List.mem_cons_of_mem _ ho)
    rw [AppendOrders.triedFrom] at ht
    split at ht
    · cases ht
    · dsimp only at ht
      split at ht
      · obtain ⟨hinv, hmem, hlater⟩ := ih hrest _ _ (hemit _ _ h) ht
        exact ⟨hinv, List.mem_cons_of_mem _ hmem, hlater⟩
      · next hnew =>
        obtain rfl | ht := List.mem_cons.mp ht
        · exact ⟨hemit _ _ h, List.mem_cons_self, hnew, rfl⟩
        · obtain ⟨hinv, hmem, hfresh, hafter⟩ :=
            ih hrest _ _ (htry order List.mem_cons_self _ _ _ (hemit _ _ h)) ht
          exact ⟨hinv, List.mem_cons_of_mem _ hmem, fun hold => hfresh (Finset.mem_insert_of_mem hold), hafter⟩

lemma triedFrom_settled (orders : List (Order P)) (tick : ℕ) (attempted : Finset B256) (h : run.Sound call)
    {t : Attempt P} (ht : t ∈ step.triedFrom call orders tick attempted run) :
    (t.Rejected step call.ctx → t.before.Kept t.after) ∧ (¬ t.Rejected step call.ctx → t.Appended call.ctx) := by
  obtain ⟨hbefore, -, -, hafter⟩ := triedFrom_cases (fun r => r.Sound call) (fun r event hr => hr.emit event)
    (fun order _ id now r hr => hr.tryInclude order id now) tick attempted h ht
  obtain ⟨order, id, now, before, after⟩ := t
  dsimp only at hafter
  subst hafter
  exact ⟨tryInclude_kept, tryInclude_appended hbefore.existing⟩

lemma pull_considered (orders : List (Order P)) (tick : ℕ) (attempted : Finset B256) (run : Run P) :
    (step.pull call orders tick attempted run).2.considered =
      run.considered ++ (step.triedFrom call orders tick attempted run).map Attempt.order := by
  induction orders generalizing tick attempted run with
  | nil => exact (List.append_nil _).symm
  | cons order orders ih =>
    rw [AppendOrders.pull, AppendOrders.triedFrom]
    split
    · exact (List.append_nil _).symm
    · dsimp only
      split
      · exact ih _ _ _
      · rw [ih, tryInclude_considered, List.map_cons, List.append_assoc]
        rfl

lemma pull_history (orders : List (Order P)) (tick : ℕ) (attempted : Finset B256) (run : Run P) {c : Checkpoint P}
    (hc : c ∈ (step.pull call orders tick attempted run).2.payload.history) :
    c ∈ run.payload.history ∨
      ∃ t ∈ step.triedFrom call orders tick attempted run, ¬ t.Rejected step call.ctx ∧ c = t.after.payload := by
  induction orders generalizing tick attempted run with
  | nil => exact .inl hc
  | cons order orders ih =>
    rw [AppendOrders.pull] at hc
    rw [AppendOrders.triedFrom]
    by_cases hstop : run.shouldStop step call.ctx (call.clock tick) = true
    · rw [if_pos hstop] at hc
      exact .inl hc
    · rw [if_neg hstop] at hc ⊢
      dsimp only at hc ⊢
      by_cases hattempted : order.hash ∈ attempted
      · rw [if_pos hattempted] at hc ⊢
        exact ih _ _ _ hc
      · rw [if_neg hattempted] at hc ⊢
        obtain hc | ⟨t, ht, hc⟩ := ih _ _ _ hc
        · obtain ⟨-, hkept⟩ | ⟨hnot, executable, candidate, -, ha, -, -, hpayload, -⟩ :=
            tryInclude_cases step call.ctx order (call.ids tick) (call.clock tick)
              (run.emit (.inclusionAttempt order.hash))
          · rw [hkept.payload] at hc
            exact .inl hc
          · rw [hpayload] at hc
            obtain ⟨result, -, rfl⟩ := apply_eq ha
            rw [applyWith, history_next, List.mem_append, List.mem_singleton] at hc
            obtain hc | rfl := hc
            · exact .inl hc
            · exact .inr ⟨_, List.mem_cons_self, hnot, hpayload.symm⟩
        · exact .inr ⟨t, List.mem_cons_of_mem _ ht, hc⟩

end Include

lemma step_flow (step : AppendOrders) (attempted : Finset B256) (call : StepCall P ε) :
    (step.step attempted call).2.flow =
      (step.pull call call.orders 0 attempted (Run.new step call.ctx call.payload)).2.finish step := rfl

lemma finish_cases (step : AppendOrders) (run : Run P) :
    run.finish step = .ok run.payload ∨ run.finish step = .brk run.payload := by
  rw [Run.finish]
  split
  · exact .inr rfl
  · exact .inl rfl

theorem append_orders_extends (step : AppendOrders) (attempted : Finset B256) (call : StepCall P ε) :
    ∃ out, ((step.step attempted call).2.flow = .ok out ∨ (step.step attempted call).2.flow = .brk out) ∧
      Under call.payload out ∧
      out.cumulativeGasUsed ≤ max call.ctx.limits.gasLimit call.payload.cumulativeGasUsed ∧
      (step.step attempted call).2.considered = (step.tried attempted call).map Attempt.order ∧
      (∀ c ∈ out.history, c ∈ call.payload.history ∨ ∃ t ∈ step.tried attempted call, c = t.after.payload ∧
        t.Appended call.ctx) ∧
      ∀ t ∈ step.tried attempted call,
        (t.Rejected step call.ctx ∧ t.before.Kept t.after) ∨
          (¬ t.Rejected step call.ctx ∧ t.Appended call.ctx) := by
  have hnew : (Run.new step call.ctx call.payload).Sound call := ⟨under_refl _, le_max_right _ _, rfl⟩
  have hsound := pull_sound step call.orders 0 attempted hnew
  refine ⟨_, finish_cases step _, hsound.extends_, hsound.fits, pull_considered call.orders 0 attempted _, ?_, ?_⟩
  · intro c hc
    refine (pull_history call.orders 0 attempted _ hc).imp_right ?_
    rintro ⟨t, ht, hnot, rfl⟩
    exact ⟨t, ht, rfl, (triedFrom_settled call.orders 0 attempted hnew ht).2 hnot⟩
  · intro t ht
    obtain ⟨hkept, happended⟩ := triedFrom_settled call.orders 0 attempted hnew ht
    by_cases hr : t.Rejected step call.ctx
    · exact .inl ⟨hr, hkept hr⟩
    · exact .inr ⟨hr, happended hr⟩

section Progress

variable {step : AppendOrders} {call : StepCall P ε}

variable (step call) in
lemma pull_subset (orders : List (Order P)) (tick : ℕ) (attempted : Finset B256) (run : Run P) :
    attempted ⊆ (step.pull call orders tick attempted run).1 := by
  apply AppendOrders.pull_keeps_invariant fun seen _ => attempted ⊆ seen
  · exact fun order _ tick seen r h _ => h
  · exact fun order _ tick seen r h _ => h.trans (Finset.subset_insert _ _)
  · exact Finset.Subset.refl _

lemma pull_within {hashes : Finset B256} {orders : List (Order P)}
    (horders : ∀ order ∈ orders, order.hash ∈ hashes)
    (tick : ℕ) {attempted : Finset B256} (h : attempted ⊆ hashes) (run : Run P) :
    (step.pull call orders tick attempted run).1 ⊆ hashes := by
  apply AppendOrders.pull_keeps_invariant fun seen _ => seen ⊆ hashes
  · exact fun order _ tick seen r hseen _ => hseen
  · exact fun order horder tick seen r hseen _ => Finset.insert_subset (horders order horder) hseen
  · exact h

lemma pull_idle (orders : List (Order P)) (tick : ℕ) (attempted : Finset B256) (run : Run P)
    (h : (step.pull call orders tick attempted run).1 = attempted) :
    (step.pull call orders tick attempted run).2.txsIncluded = run.txsIncluded := by
  induction orders generalizing tick attempted run with
  | nil => rfl
  | cons order orders ih =>
    rw [AppendOrders.pull] at h ⊢
    split
    · rfl
    · next hstop =>
      rw [if_neg hstop] at h
      dsimp only at h ⊢
      split
      · next hs =>
        rw [if_pos hs] at h
        exact ih _ _ _ h
      · next hs =>
        rw [if_neg hs] at h
        have hnew := pull_subset step call orders (tick + 1) (insert order.hash attempted)
          ((run.emit (.inclusionAttempt order.hash)).tryInclude step call.ctx order (call.ids tick)
            (call.clock tick))
        rw [h] at hnew
        exact absurd (hnew (Finset.mem_insert_self _ _)) hs

def Outcome.answer (o : Outcome P) : Option Pipelines.Outcome :=
  match o.flow with
  | .ok _ => some .ok
  | .brk _ => some .brk
  | .fail _ => none

lemma step_grows (hbreak : step.breakOnLimit = true) {attempted : Finset B256} {c : Checkpoint P}
    (h : (step.step attempted call).2.flow = .ok c) : attempted.card < (step.step attempted call).1.card := by
  apply Finset.card_lt_card
  apply (pull_subset step call call.orders 0 attempted (Run.new step call.ctx call.payload)).ssubset_of_ne
  intro hsame
  have hidle := pull_idle call.orders 0 attempted (Run.new step call.ctx call.payload) hsame.symm
  rw [step_flow, Run.finish, hidle, hbreak] at h
  cases h

lemma step_counted (hbreak : step.breakOnLimit = true) (attempted : Finset B256) (call : StepCall P ε) :
    attempted.card + ([(step.step attempted call).2].filterMap Outcome.answer).count .ok ≤
      (step.step attempted call).1.card := by
  obtain hok | hbrk := finish_cases step
    (step.pull call call.orders 0 attempted (Run.new step call.ctx call.payload)).2
  · have hanswer : (step.step attempted call).2.answer = some .ok := by rw [Outcome.answer, step_flow, hok]
    rw [List.filterMap_cons_some hanswer]
    exact step_grows hbreak hok
  · have hanswer : (step.step attempted call).2.answer = some .brk := by rw [Outcome.answer, step_flow, hbrk]
    rw [List.filterMap_cons_some hanswer]
    exact Finset.card_le_card (pull_subset step call call.orders 0 attempted _)

end Progress

namespace Instance

variable [DecidableEq J] {step : AppendOrders} {jobs : J → Job P ε} {job : J} {hashes : Finset B256}

lemma outcomes_step (inst : Instance J P) : (inst.exec step jobs (.step job)).outcomes job =
    inst.outcomes job ++ [(step.step inst.attempted (jobs job (inst.outcomes job))).2] :=
  Function.update_self _ _ _

lemma steps_bounded (hbreak : step.breakOnLimit = true)
    (hoffers : ∀ outcomes, ∀ order ∈ (jobs job outcomes).orders, order.hash ∈ hashes) (n : ℕ) (inst : Instance J P)
    (hwithin : inst.attempted ⊆ hashes)
    (hcount : ((inst.outcomes job).filterMap Outcome.answer).count .ok ≤ inst.attempted.card) :
    (((run step jobs (List.replicate n (.step job)) inst).outcomes job).filterMap Outcome.answer).count .ok ≤
      hashes.card := by
  induction n generalizing inst with
  | zero => exact hcount.trans (Finset.card_le_card hwithin)
  | succ n ih =>
    apply ih
    · exact pull_within (hoffers _) 0 hwithin _
    · rw [outcomes_step, List.filterMap_append, List.count_append]
      have hstep := step_counted hbreak inst.attempted (jobs job (inst.outcomes job))
      exact (Nat.add_le_add_right hcount _).trans hstep

variable (step jobs) in
lemma steps_flow (n : ℕ) (inst : Instance J P)
    (h : ∀ o ∈ inst.outcomes job, ∃ c, o.flow = .ok c ∨ o.flow = .brk c) :
    ∀ o ∈ (run step jobs (List.replicate n (.step job)) inst).outcomes job,
      ∃ c, o.flow = .ok c ∨ o.flow = .brk c := by
  induction n generalizing inst with
  | zero => exact h
  | succ n ih =>
    apply ih
    intro o ho
    rw [outcomes_step, List.mem_append, List.mem_singleton] at ho
    obtain ho | rfl := ho
    · exact h o ho
    · exact ⟨_, finish_cases step _⟩

theorem job_progress_bounded {σ κ : Type} (step : AppendOrders) (hbreak : step.breakOnLimit = true)
    (jobs : J → Job P ε) (job : J) (hashes : Finset B256)
    (hoffers : ∀ outcomes, ∀ order ∈ (jobs job outcomes).orders, order.hash ∈ hashes) (inst : Instance J P) (n : ℕ)
    (outcomes : List (Outcome P))
    (hrun : (run step jobs (.beforeJob job :: List.replicate n (.step job)) inst).outcomes job = outcomes) :
    (outcomes.filterMap Outcome.answer).count .ok ≤ hashes.card ∧
    (∀ k o, outcomes[k]? = some o → ((outcomes.take k).filterMap Outcome.answer).count .ok = hashes.card →
      ∃ c, o.flow = .brk c) ∧
    ∀ (p : Pipeline σ κ) (pos : StepPath) (i : ℕ) (s : σ) (os : List Pipelines.Outcome),
      p.steps[i]? = some (.step s) →
      List.Sublist (Prog.answers (pos ++ [i + STEP0_INDEX]) (p.runPipeline id .loop pos) os)
        (outcomes.filterMap Outcome.answer) →
      p.iterations pos os ≤ hashes.card + 1 := by
  have hstart : (inst.exec step jobs (.beforeJob job)).outcomes job = [] := Function.update_self _ _ _
  have hbound : (outcomes.filterMap Outcome.answer).count .ok ≤ hashes.card := by
    rw [← hrun]
    apply steps_bounded hbreak hoffers n (inst.exec step jobs (.beforeJob job))
    · exact Finset.empty_subset _
    · rw [hstart]
      exact Nat.zero_le _
  refine ⟨hbound, ?_, ?_⟩
  · intro k o hk hspent
    obtain ⟨c, hok | hbrk⟩ := steps_flow step jobs n (inst.exec step jobs (.beforeJob job))
      (by rw [hstart]; exact nofun) o (hrun ▸ List.mem_of_getElem? hk)
    · -- one more `ok` would be one too many
      have hanswer : o.answer = some .ok := by rw [Outcome.answer, hok]
      have hmore := ((List.take_sublist (k + 1) outcomes).filterMap Outcome.answer).count_le .ok
      rw [List.take_add_one, hk, Option.toList_some, List.filterMap_append, List.count_append,
        List.filterMap_cons_some hanswer, List.filterMap_nil, List.count_singleton_self, hspent] at hmore
      omega
    · exact ⟨c, hbrk⟩
  · intro p pos i s os hi hanswers
    have hcount := hanswers.count_le .ok
    have hiter := p.iterations_le_answers hi pos os
    omega

theorem offered_again :
    ((run {} (fun _ : Unit => offering pooledTx) [.beforeJob (), .step (), .step ()] {}).outcomes ()).filterMap
        Outcome.answer = [.ok, .brk] ∧
      (Pipeline.mk none none [.step ()] none : Pipeline Unit Unit).iterations [] [.ok, .brk] ≤ 2 := by
  refine ⟨rfl, ?_⟩
  apply (job_progress_bounded {} rfl (fun _ : Unit => offering pooledTx) () {1} ?_ {} 2 _ rfl).2.2 _ [] 0 ()
  · rfl
  · exact List.Sublist.refl [Pipelines.Outcome.ok, Pipelines.Outcome.brk]
  · intro outcomes order horder
    obtain rfl := List.mem_singleton.mp horder
    decide

end Instance

end Rblib.Pool
