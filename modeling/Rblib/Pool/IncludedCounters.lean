import Rblib.Library.FixedWidth
import Rblib.Pool.LimitRuns

namespace Rblib.Pool

open Library Platform PlatformTypes Payload Payload.Checkpoint Pipelines

variable {P ε : Type} [PlatformTypes P]

/-- The counters are `AtomicU32`, whose `fetch_add` wraps around. -/
structure PerJobCounters where
  ordersConsidered : UInt32 := 0
  txsConsidered : UInt32 := 0
  bundlesConsidered : UInt32 := 0
  ordersIncluded : UInt32 := 0
  txsIncluded : UInt32 := 0
  bundlesIncluded : UInt32 := 0

namespace PerJobCounters

def reset (_ : PerJobCounters) : PerJobCounters := {}

def considered (order : Order P) (c : PerJobCounters) : PerJobCounters :=
  { c with
    ordersConsidered := c.ordersConsidered + 1
    txsConsidered := c.txsConsidered + .ofNat order.transactions.length
    bundlesConsidered := if order.isBundle then c.bundlesConsidered + 1 else c.bundlesConsidered }

def included (checkpoint : Checkpoint P) (c : PerJobCounters) : PerJobCounters :=
  { c with
    ordersIncluded := c.ordersIncluded + 1
    txsIncluded := c.txsIncluded + .ofNat checkpoint.transactions.length
    bundlesIncluded := if checkpoint.isBundle then c.bundlesIncluded + 1 else c.bundlesIncluded }

end PerJobCounters

structure MeteredRun (P : Type) [PlatformTypes P] where
  run : Run P
  perJob : PerJobCounters

def MeteredRun.emit (event : OrderEvent P) (m : MeteredRun P) : MeteredRun P := { m with run := m.run.emit event }

def MeteredRun.tryInclude (step : AppendOrders) (ctx : StepContext ε) (order : Order P) (id now : ℕ)
    (m : MeteredRun P) : MeteredRun P :=
  let run := { m.run with considered := m.run.considered ++ [order] }
  let perJob := m.perJob.considered order
  if run.shouldSkip step ctx order then { run, perJob }
  else match order.tryIntoExecutable with
    | .error _ => { run := run.emit (.inclusionFailure order.hash .invalidSignature), perJob }
    | .ok executable =>
      match run.payload.apply executable id now with
      | .error err => { run := run.emit (.inclusionFailure order.hash err), perJob }
      | .ok candidate =>
        if candidate.cumulativeGasUsed > ctx.limits.gasLimit then { run, perJob }
        else
          { perJob := perJob.included run.payload
            run := { run with
              ordersIncluded := run.ordersIncluded + 1
              txsIncluded := run.txsIncluded + candidate.transactions.length
              bundlesIncluded := run.bundlesIncluded + candidate.isBundle.toNat
              existingTxs := run.existingTxs ++ candidate.transactions.map txHash
              payload := candidate }.emit (.inclusionSuccess order.hash) }

structure JobState where
  attempted : Finset B256 := ∅
  perJob : PerJobCounters := {}

namespace AppendOrders

def meteredPull (step : AppendOrders) (call : StepCall P ε) :
    List (Order P) → ℕ → Finset B256 → MeteredRun P → Finset B256 × MeteredRun P
  | [], _, attempted, m => (attempted, m)
  | order :: orders, tick, attempted, m =>
    if m.run.shouldStop step call.ctx (call.clock tick) then (attempted, m)
    else
      let m := m.emit (.inclusionAttempt order.hash)
      if order.hash ∈ attempted then meteredPull step call orders (tick + 1) attempted m
      else
        meteredPull step call orders (tick + 1) (insert order.hash attempted)
          (m.tryInclude step call.ctx order (call.ids tick) (call.clock tick))

def startJob (s : JobState) : JobState := ⟨beforeJob s.attempted, s.perJob.reset⟩

def meteredStep (step : AppendOrders) (s : JobState) (call : StepCall P ε) :
    JobState × ControlFlow (Checkpoint P) (ExecutionError P) :=
  let (attempted, m) := step.meteredPull call call.orders 0 s.attempted
    { run := Run.new step call.ctx call.payload, perJob := s.perJob }
  (⟨attempted, m.perJob⟩, m.run.finish step)

def appended (payload : Checkpoint P) (flow : ControlFlow (Checkpoint P) (ExecutionError P)) :
    List (Checkpoint P) :=
  (flow.checkpoint.getD payload).history.drop payload.history.length

def meteredRuns (step : AppendOrders) (s : JobState) : List (StepCall P ε) → JobState × List (Checkpoint P)
  | [] => (s, [])
  | call :: calls =>
    let (s', flow) := step.meteredStep s call
    let (last, later) := meteredRuns step s' calls
    (last, appended call.payload flow ++ later)

end AppendOrders

def PerJobCounters.Right (appended : List (Checkpoint P)) (c : PerJobCounters) : Prop :=
  c.ordersIncluded = .ofNat appended.length ∧
  c.txsIncluded = .ofNat (appended.flatMap Checkpoint.transactions).length ∧
  c.bundlesIncluded = .ofNat (appended.countP Checkpoint.isBundle)

def cut (calls : List (StepCall P ε)) (n k : ℕ) : List (StepCall P ε) :=
  calls.take n ++ (calls[n]?.map fun call => { call with orders := call.orders.take k }).toList

structure Attempt.Includes (step : AppendOrders) (ctx : StepContext ε) (t : Attempt P)
    (candidate : Checkpoint P) : Prop where
  fits : t.before.shouldSkip step ctx t.order = false
  applies : ∃ executable, t.order.tryIntoExecutable = .ok executable ∧
    t.before.payload.apply executable t.id t.now = .ok candidate
  gas : candidate.cumulativeGasUsed ≤ ctx.limits.gasLimit

/-- If the order is included, its checkpoint holds as many transactions as the tip it is put on, and
is a bundle just when that is. -/
def Attempt.Level (step : AppendOrders) (ctx : StepContext ε) (t : Attempt P) : Prop :=
  ∀ candidate, t.Includes step ctx candidate →
    candidate.transactions.length ≡ t.before.payload.transactions.length [MOD 2 ^ 32] ∧
      candidate.isBundle = t.before.payload.isBundle

def EveryAttempt (step : AppendOrders) (cond : StepContext ε → Attempt P → Prop) (s : JobState) :
    List (StepCall P ε) → Prop
  | [] => True
  | call :: calls => (∀ t ∈ step.tried s.attempted call, cond call.ctx t) ∧
      EveryAttempt step cond (step.meteredStep s call).1 calls

section Metered

variable (step : AppendOrders) (ctx : StepContext ε) (call : StepCall P ε)

lemma MeteredRun.tryInclude_run (order : Order P) (id now : ℕ) (m : MeteredRun P) :
    (m.tryInclude step ctx order id now).run = m.run.tryInclude step ctx order id now := by
  rw [MeteredRun.tryInclude, Run.tryInclude]
  dsimp only
  split
  · rfl
  · cases order.tryIntoExecutable with
    | error e => rfl
    | ok executable =>
      dsimp only
      cases m.run.payload.apply executable id now with
      | error e => rfl
      | ok candidate =>
        dsimp only
        split <;> rfl

lemma meteredPull_run (orders : List (Order P)) (tick : ℕ) (attempted : Finset B256) (m : MeteredRun P) :
    (step.meteredPull call orders tick attempted m).1 = (step.pull call orders tick attempted m.run).1 ∧
      (step.meteredPull call orders tick attempted m).2.run = (step.pull call orders tick attempted m.run).2 := by
  induction orders generalizing tick attempted m with
  | nil => exact ⟨rfl, rfl⟩
  | cons order orders ih =>
    rw [AppendOrders.meteredPull, AppendOrders.pull]
    split
    · exact ⟨rfl, rfl⟩
    · dsimp only
      split
      · exact ih _ _ _
      · have hrun := MeteredRun.tryInclude_run step call.ctx order (call.ids tick) (call.clock tick)
          (m.emit (.inclusionAttempt order.hash))
        have hlater := ih (tick + 1) (insert order.hash attempted)
          ((m.emit (.inclusionAttempt order.hash)).tryInclude step call.ctx order (call.ids tick)
            (call.clock tick))
        rw [hrun] at hlater
        exact hlater

lemma meteredStep_eq (s : JobState) :
    (step.meteredStep s call).1.attempted = (step.step s.attempted call).1 ∧
      (step.meteredStep s call).2 = (step.step s.attempted call).2.flow := by
  obtain ⟨hattempted, hrun⟩ := meteredPull_run step call call.orders 0 s.attempted
    { run := Run.new step call.ctx call.payload, perJob := s.perJob }
  exact ⟨hattempted, congrArg (Run.finish step) hrun⟩

lemma MeteredRun.tryInclude_cases (order : Order P) (id now : ℕ) (m : MeteredRun P) :
    let after := m.tryInclude step ctx order id now
    let t : Attempt P := ⟨order, id, now, m.run, after.run⟩
    (∃ candidate, t.Includes step ctx candidate ∧ after.run.payload = candidate ∧
      after.perJob = (m.perJob.considered order).included m.run.payload) ∨
    ((∀ candidate, ¬ t.Includes step ctx candidate) ∧ after.run.payload = m.run.payload ∧
      after.perJob = m.perJob.considered order) := by
  have hskip : ({ m.run with considered := m.run.considered ++ [order] } : Run P).shouldSkip step ctx order =
      m.run.shouldSkip step ctx order := rfl
  dsimp only
  rw [tryInclude]
  dsimp only
  rw [hskip]
  split
  · next hs =>
    refine .inr ⟨fun candidate h => ?_, rfl, rfl⟩
    rw [h.fits] at hs
    cases hs
  · next hs =>
    rw [Bool.not_eq_true] at hs
    cases he : order.tryIntoExecutable with
    | error e =>
      refine .inr ⟨fun candidate h => ?_, rfl, rfl⟩
      obtain ⟨executable, he', -⟩ := h.applies
      cases he.symm.trans he'
    | ok executable =>
      dsimp only
      cases ha : m.run.payload.apply executable id now with
      | error e =>
        refine .inr ⟨fun candidate h => ?_, rfl, rfl⟩
        obtain ⟨executable', he', ha'⟩ := h.applies
        cases he.symm.trans he'
        cases ha.symm.trans ha'
      | ok candidate =>
        dsimp only
        split
        · next hgas =>
          refine .inr ⟨fun candidate' h => ?_, rfl, rfl⟩
          obtain ⟨executable', he', ha'⟩ := h.applies
          cases he.symm.trans he'
          cases ha.symm.trans ha'
          exact hgas.not_ge h.gas
        · next hgas =>
          exact .inl ⟨candidate, ⟨hs, ⟨executable, he, ha⟩, not_lt.mp hgas⟩, rfl, rfl⟩

end Metered

structure Counter (P : Type) [PlatformTypes P] where
  read : PerJobCounters → UInt32
  size : Checkpoint P → ℕ
  considered : ∀ (order : Order P) c, read (c.considered order) = read c
  included : ∀ (checkpoint : Checkpoint P) c, read (c.included checkpoint) = read c + .ofNat (size checkpoint)

namespace Counter

def orders : Counter P := ⟨PerJobCounters.ordersIncluded, fun _ => 1, fun _ _ => rfl, fun _ _ => rfl⟩

def txs : Counter P := ⟨PerJobCounters.txsIncluded, fun c => c.transactions.length, fun _ _ => rfl, fun _ _ => rfl⟩

def bundles : Counter P where
  read := PerJobCounters.bundlesIncluded
  size c := c.isBundle.toNat
  considered _ _ := rfl
  included checkpoint c := by
    rw [PerJobCounters.included]
    cases checkpoint.isBundle with
    | true => rfl
    | false => exact (UInt32.add_zero _).symm

def total (k : Counter P) (checkpoints : List (Checkpoint P)) : UInt32 := .ofNat (checkpoints.map k.size).sum

lemma total_append (k : Counter P) (cs cs' : List (Checkpoint P)) :
    k.total (cs ++ cs') = k.total cs + k.total cs' := by
  rw [total, List.map_append, List.sum_append, UInt32.ofNat_add]
  rfl

def Exact (k : Counter P) (appended : List (Checkpoint P)) (c : PerJobCounters) : Prop :=
    k.read c = k.total appended

def Fair (k : Counter P) (step : AppendOrders) (ctx : StepContext ε) (t : Attempt P) : Prop :=
  ∀ candidate, t.Includes step ctx candidate → UInt32.ofNat (k.size t.before.payload) = .ofNat (k.size candidate)

section Runs

variable (k : Counter P) (step : AppendOrders) (call : StepCall P ε)

def gathered (past : List (Checkpoint P)) (payload tip : Checkpoint P) : List (Checkpoint P) :=
  past ++ tip.history.drop payload.history.length

lemma gathered_self (past : List (Checkpoint P)) (payload : Checkpoint P) :
    gathered past payload payload = past := by
  rw [gathered, List.drop_length, List.append_nil]

lemma gathered_apply {past : List (Checkpoint P)} {payload tip candidate : Checkpoint P} (h : Under payload tip)
    {executable : Executable P} {id now : ℕ} (ha : tip.apply executable id now = .ok candidate) :
    gathered past payload candidate = gathered past payload tip ++ [candidate] := by
  obtain ⟨result, -, rfl⟩ := apply_eq ha
  rw [gathered, gathered, applyWith, history_next, List.drop_append_of_le_length h.below.length_le,
    List.append_assoc]

variable {k step call}

lemma exact_included_iff {appended : List (Checkpoint P)} {c : PerJobCounters} (h : k.Exact appended c)
    (order : Order P) (tip candidate : Checkpoint P) :
    k.Exact (appended ++ [candidate]) ((c.considered order).included tip) ↔
      UInt32.ofNat (k.size tip) = .ofNat (k.size candidate) := by
  have hone : k.total [candidate] = .ofNat (k.size candidate) := by
    rw [total, List.map_singleton, List.sum_singleton]
  rw [Exact, k.included, k.considered, h, total_append, hone, UInt32.add_right_inj]

variable {past : List (Checkpoint P)} {payload : Checkpoint P}

lemma tryInclude_exact_iff {m : MeteredRun P} (hunder : Under payload m.run.payload)
    (h : k.Exact (gathered past payload m.run.payload) m.perJob) (order : Order P) (id now : ℕ) :
    let after := m.tryInclude step call.ctx order id now
    Under payload after.run.payload ∧ (k.Exact (gathered past payload after.run.payload) after.perJob ↔
      k.Fair step call.ctx ⟨order, id, now, m.run, after.run⟩) := by
  obtain ⟨candidate, hincludes, hpayload, hperJob⟩ | ⟨hnone, hpayload, hperJob⟩ :=
    m.tryInclude_cases step call.ctx order id now
  · obtain ⟨executable, he, ha⟩ := hincludes.applies
    dsimp only
    rw [hpayload, hperJob, gathered_apply hunder ha, exact_included_iff h]
    refine ⟨hunder.trans (under_apply ha), fun heq candidate' h' => ?_, fun hfair => hfair candidate hincludes⟩
    obtain ⟨executable', he', ha'⟩ := h'.applies
    cases he.symm.trans he'
    cases ha.symm.trans ha'
    exact heq
  · dsimp only
    rw [hpayload, hperJob, Exact, k.considered]
    exact ⟨hunder, iff_of_true h fun candidate hincludes => absurd hincludes (hnone candidate)⟩

lemma forall_take_cons {α : Type} {Q : List α → Prop} (x : α) (l : List α) :
    (∀ n, Q ((x :: l).take n)) ↔ Q [] ∧ ∀ n, Q (x :: l.take n) := by
  constructor
  · exact fun h => ⟨h 0, fun n => h (n + 1)⟩
  · rintro ⟨hzero, hsucc⟩ n
    cases n with
    | zero => exact hzero
    | succ n => exact hsucc n

variable (k step call past payload) in
lemma pull_exact_iff (orders : List (Order P)) (tick : ℕ) (attempted : Finset B256) {m : MeteredRun P}
    (hunder : Under payload m.run.payload) :
    (∀ n, k.Exact (gathered past payload (step.meteredPull call (orders.take n) tick attempted m).2.run.payload)
        (step.meteredPull call (orders.take n) tick attempted m).2.perJob) ↔
      k.Exact (gathered past payload m.run.payload) m.perJob ∧
        ∀ t ∈ step.triedFrom call orders tick attempted m.run, k.Fair step call.ctx t := by
  induction orders generalizing tick attempted m with
  | nil =>
    simp only [List.take_nil]
    exact ⟨fun h => ⟨h 0, by simp [AppendOrders.triedFrom]⟩, fun h _ => h.1⟩
  | cons order orders ih =>
    refine (forall_take_cons (Q := fun l => k.Exact (gathered past payload
      (step.meteredPull call l tick attempted m).2.run.payload)
        (step.meteredPull call l tick attempted m).2.perJob)
      order orders).trans (and_congr_right fun hexact => ?_)
    simp only [AppendOrders.meteredPull]
    rw [AppendOrders.triedFrom]
    by_cases hstop : m.run.shouldStop step call.ctx (call.clock tick) = true
    · simp only [hstop, if_true]
      exact iff_of_true (fun _ => hexact) (by simp)
    · simp only [hstop, Bool.false_eq_true, if_false]
      have hemit : Under payload (m.emit (.inclusionAttempt order.hash)).run.payload := hunder
      by_cases hattempted : order.hash ∈ attempted
      · simp only [hattempted, if_true]
        exact (ih _ _ hemit).trans (and_iff_right hexact)
      · simp only [hattempted, if_false]
        obtain ⟨hlater, hfair⟩ := tryInclude_exact_iff hemit hexact order (call.ids tick) (call.clock tick)
        rw [ih _ _ hlater, List.forall_mem_cons, hfair, MeteredRun.tryInclude_run]
        rfl

end Runs

section Calls

variable {k : Counter P} {step : AppendOrders}

lemma meteredPull_with_orders (call : StepCall P ε) (offered orders : List (Order P)) (tick : ℕ)
    (attempted : Finset B256)
    (m : MeteredRun P) : step.meteredPull { call with orders := offered } orders tick attempted m =
      step.meteredPull call orders tick attempted m := by
  induction orders generalizing tick attempted m with
  | nil => rfl
  | cons order orders ih =>
    rw [AppendOrders.meteredPull, AppendOrders.meteredPull]
    split
    · rfl
    · dsimp only
      split
      · exact ih _ _ _
      · exact ih _ _ _

def after (step : AppendOrders) (s : JobState) (call : StepCall P ε) (n : ℕ) : MeteredRun P :=
  (step.meteredPull call (call.orders.take n) 0 s.attempted
    { run := Run.new step call.ctx call.payload, perJob := s.perJob }).2

lemma meteredStep_cut (s : JobState) (call : StepCall P ε) (n : ℕ) :
    let r := step.meteredStep s { call with orders := call.orders.take n }
    r.1.perJob = (after step s call n).perJob ∧
      AppendOrders.appended call.payload r.2 = (after step s call n).run.payload.history.drop
        call.payload.history.length := by
  dsimp only
  rw [AppendOrders.meteredStep]
  dsimp only
  rw [meteredPull_with_orders]
  refine ⟨rfl, ?_⟩
  rw [AppendOrders.appended]
  obtain h | h := finish_cases step (after step s call n).run
  · exact congrArg (fun flow => ((ControlFlow.checkpoint flow).getD call.payload).history.drop _) h
  · exact congrArg (fun flow => ((ControlFlow.checkpoint flow).getD call.payload).history.drop _) h

variable (k step) in
lemma call_exact_iff (past : List (Checkpoint P)) (s : JobState) (call : StepCall P ε) :
    (∀ n, k.Exact (past ++ (step.meteredRuns s [{ call with orders := call.orders.take n }]).2)
        (step.meteredRuns s [{ call with orders := call.orders.take n }]).1.perJob) ↔
      k.Exact past s.perJob ∧ ∀ t ∈ step.tried s.attempted call, k.Fair step call.ctx t := by
  have hpull := pull_exact_iff k step call past call.payload call.orders 0 s.attempted
    (m := { run := Run.new step call.ctx call.payload, perJob := s.perJob }) (under_refl call.payload)
  rw [show (Run.new step call.ctx call.payload).payload = call.payload from rfl, gathered_self] at hpull
  refine Iff.trans (forall_congr' fun n => ?_) hpull
  obtain ⟨hperJob, happended⟩ := meteredStep_cut s call n
  simp only [AppendOrders.meteredRuns, List.append_nil]
  rw [hperJob, happended]
  rfl

lemma forall_cut_cons {Q : List (StepCall P ε) → Prop} (call : StepCall P ε) (calls : List (StepCall P ε)) :
    (∀ n i, Q (cut (call :: calls) n i)) ↔
      (∀ i, Q [{ call with orders := call.orders.take i }]) ∧ ∀ n i, Q (call :: cut calls n i) := by
  constructor
  · exact fun h => ⟨fun i => h 0 i, fun n i => h (n + 1) i⟩
  · rintro ⟨hzero, hsucc⟩ n i
    cases n with
    | zero => exact hzero i
    | succ n => exact hsucc n i

lemma meteredRuns_cons (s : JobState) (call : StepCall P ε) (calls : List (StepCall P ε)) :
    step.meteredRuns s (call :: calls) =
      ((step.meteredRuns (step.meteredStep s call).1 calls).1,
        AppendOrders.appended call.payload (step.meteredStep s call).2 ++
          (step.meteredRuns (step.meteredStep s call).1 calls).2) := rfl

lemma runs_exact_iff (calls : List (StepCall P ε)) (s : JobState) (past : List (Checkpoint P)) :
    (∀ n i, k.Exact (past ++ (step.meteredRuns s (cut calls n i)).2)
      (step.meteredRuns s (cut calls n i)).1.perJob) ↔
      k.Exact past s.perJob ∧ EveryAttempt step (k.Fair step) s calls := by
  induction calls generalizing s past with
  | nil =>
    simp [cut, AppendOrders.meteredRuns, EveryAttempt]
  | cons call calls ih =>
    have hfirst := call_exact_iff k step past s call
    have hlater := ih (step.meteredStep s call).1
      (past ++ AppendOrders.appended call.payload (step.meteredStep s call).2)
    refine (forall_cut_cons (Q := fun l => k.Exact (past ++ (step.meteredRuns s l).2)
      (step.meteredRuns s l).1.perJob)
      call calls).trans ?_
    rw [EveryAttempt]
    simp only [List.append_assoc] at hlater
    simp only [meteredRuns_cons s call (cut calls _ _), hlater]
    constructor
    · rintro ⟨hcuts, -, hafter⟩
      obtain ⟨hnow, hfair⟩ := hfirst.mp hcuts
      exact ⟨hnow, hfair, hafter⟩
    · rintro ⟨hnow, hfair, hafter⟩
      have hcuts := hfirst.mpr ⟨hnow, hfair⟩
      have hend := hcuts call.orders.length
      rw [List.take_length, meteredRuns_cons, AppendOrders.meteredRuns, List.append_nil] at hend
      exact ⟨hcuts, hend, hafter⟩

lemma everyAttempt_congr {cond cond' : StepContext ε → Attempt P → Prop} (h : ∀ ctx t, cond ctx t ↔ cond' ctx t)
    (s : JobState) (calls : List (StepCall P ε)) : EveryAttempt step cond s calls ↔
      EveryAttempt step cond' s calls := by
  have heq : cond = cond' := funext₂ fun ctx t => propext (h ctx t)
  rw [heq]

lemma everyAttempt_and {cond cond' : StepContext ε → Attempt P → Prop} (s : JobState)
    (calls : List (StepCall P ε)) :
    EveryAttempt step (fun ctx t => cond ctx t ∧ cond' ctx t) s calls ↔
      EveryAttempt step cond s calls ∧ EveryAttempt step cond' s calls := by
  induction calls generalizing s with
  | nil => exact ⟨fun _ => ⟨trivial, trivial⟩, fun _ => trivial⟩
  | cons call calls ih =>
    rw [EveryAttempt, EveryAttempt, EveryAttempt, ih]
    constructor
    · rintro ⟨hfirst, hleft, hright⟩
      exact ⟨⟨fun t ht => (hfirst t ht).1, hleft⟩, fun t ht => (hfirst t ht).2, hright⟩
    · rintro ⟨⟨hfirst, hleft⟩, hsecond, hright⟩
      exact ⟨fun t ht => ⟨hfirst t ht, hsecond t ht⟩, hleft, hright⟩

lemma everyAttempt_true (s : JobState) (calls : List (StepCall P ε)) {cond : StepContext ε → Attempt P → Prop}
    (h : ∀ ctx t, cond ctx t) : EveryAttempt step cond s calls := by
  induction calls generalizing s with
  | nil => trivial
  | cons call calls ih => exact ⟨fun t _ => h call.ctx t, ih _⟩

lemma fair_orders (step : AppendOrders) (ctx : StepContext ε) (t : Attempt P) : orders.Fair step ctx t :=
    fun _ _ => rfl

lemma level_iff (step : AppendOrders) (ctx : StepContext ε) (t : Attempt P) :
    t.Level step ctx ↔ txs.Fair step ctx t ∧ bundles.Fair step ctx t := by
  have hbit : ∀ b b' : Bool, UInt32.ofNat b.toNat = .ofNat b'.toNat ↔ b' = b := by decide
  constructor
  · intro h
    refine ⟨fun candidate hc => ?_, fun candidate hc => (hbit _ _).mpr (h candidate hc).2⟩
    exact (FixedWidth.uint32_ofNat_eq_iff _ _).mpr (h candidate hc).1.symm
  · rintro ⟨htxs, hbundles⟩ candidate hc
    exact ⟨((FixedWidth.uint32_ofNat_eq_iff _ _).mp (htxs candidate hc)).symm,
      (hbit _ _).mp (hbundles candidate hc)⟩

lemma right_iff (appended : List (Checkpoint P)) (c : PerJobCounters) :
    c.Right appended ↔ orders.Exact appended c ∧ txs.Exact appended c ∧ bundles.Exact appended c := by
  have horders : appended.length = (appended.map fun _ => 1).sum := by simp
  have hbundles : appended.countP isBundle = (appended.map fun c => c.isBundle.toNat).sum := by
    induction appended with
    | nil => rfl
    | cons c appended ih =>
      rw [List.countP_cons, ih (by simp), List.map_cons, List.sum_cons, Nat.add_comm]
      cases c.isBundle <;> rfl
  rw [PerJobCounters.Right, horders, List.length_flatMap, hbundles]
  rfl

end Calls

end Counter

/-- The counters are right whenever a job is looked at just when every included order is put on a
tip of its own kind. -/
theorem included_counters_iff (step : AppendOrders) (s : JobState) (calls : List (StepCall P ε)) :
    (∀ n i, (step.meteredRuns (AppendOrders.startJob s) (cut calls n i)).1.perJob.Right
        (step.meteredRuns (AppendOrders.startJob s) (cut calls n i)).2) ↔
      EveryAttempt step (fun ctx t => t.Level step ctx) (AppendOrders.startJob s) calls := by
  have hrun : ∀ k : Counter P, (∀ n i, k.Exact (step.meteredRuns (AppendOrders.startJob s) (cut calls n i)).2
      (step.meteredRuns (AppendOrders.startJob s) (cut calls n i)).1.perJob) ↔
      k.Exact [] (AppendOrders.startJob s).perJob ∧ EveryAttempt step (k.Fair step)
        (AppendOrders.startJob s) calls :=
    fun k => Counter.runs_exact_iff calls (AppendOrders.startJob s) []
  simp only [Counter.right_iff, forall_and, hrun]
  rw [Counter.everyAttempt_congr (Counter.level_iff step), Counter.everyAttempt_and]
  constructor
  · rintro ⟨-, ⟨-, htxs⟩, -, hbundles⟩
    exact ⟨htxs, hbundles⟩
  · rintro ⟨htxs, hbundles⟩
    exact ⟨⟨rfl, Counter.everyAttempt_true _ _ (Counter.fair_orders step)⟩, ⟨rfl, htxs⟩, rfl, hbundles⟩

theorem first_transaction_not_counted :
    let r := ({} : AppendOrders).meteredRuns (AppendOrders.startJob {}) [Instance.offering Instance.pooledTx []]
    r.2.length = 1 ∧ (r.2.flatMap transactions).length = 1 ∧ r.1.perJob.ordersIncluded = 1 ∧
      r.1.perJob.txsIncluded = 0 ∧ ¬ r.1.perJob.Right r.2 := by
  refine ⟨rfl, rfl, rfl, rfl, ?_⟩
  rintro ⟨-, htxs, -⟩
  cases htxs

end Rblib.Pool
