import Rblib.Pool.OrderPool
import Rblib.Pool.StopReasons

/-! Where the step takes its orders from, `pool/select.rs`: the eligible orders of the order pool in
the order in which its map is visited and, once these are exhausted, what the transaction pool of
the host offers. -/

namespace Rblib.Pool

open Platform PlatformTypes Payload Payload.Checkpoint Pipelines

variable {P ε : Type} [PlatformTypes P]

structure PoolsDemux (P : Type) [PlatformTypes P] where
  systemPoolIter : Option (List (Order P))
  orderPoolIter : List (Order P)

namespace PoolsDemux

def new (systemPool : Option (List (Transaction P))) (orderPool : List (Order P)) : PoolsDemux P :=
  ⟨systemPool.map (List.map .transaction), orderPool⟩

def next : PoolsDemux P → Option (Order P) × PoolsDemux P
  | ⟨system, order :: orders⟩ => (some order, ⟨system, orders⟩)
  | ⟨some (order :: orders), []⟩ => (some order, ⟨some orders, []⟩)
  | exhausted => (none, exhausted)

def collect : ℕ → PoolsDemux P → List (Order P)
  | 0, _ => []
  | fuel + 1, demux => match demux.next with
    | (some order, rest) => order :: collect fuel rest
    | (none, _) => []

def orders (demux : PoolsDemux P) : List (Order P) :=
  collect (demux.orderPoolIter.length + (demux.systemPoolIter.getD []).length) demux

end PoolsDemux

/-- The order in which the iterator of the map of orders visits them. -/
structure MapOrder (pool : OrderPool P) where
  keys : List B256
  nodup : keys.Nodup
  mem_keys : ∀ hash, hash ∈ keys ↔ (pool.orders hash).isSome

def Order.isEligible (block : BlockContext P) : Order P → Bool
  | .transaction _ => true
  | .bundle b => b.eligibilityAt block.timestamp block.number = .eligible

/-- The host's transaction pool is given by its best transactions, if there is a host attached. -/
def OrderPool.bestOrdersForBlock (pool : OrderPool P) (visit : MapOrder pool)
    (systemPool : Option (List (Transaction P))) (block : BlockContext P) : PoolsDemux P :=
  .new systemPool (visit.keys.filterMap fun hash => (pool.orders hash).filter fun order => order.isEligible block)

structure PooledStep (P : Type) [PlatformTypes P] where
  orderPool : OrderPool P
  enableSystemPool : Bool := true
  limits : AppendOrders := {}

structure PoolCall (P ε : Type) [PlatformTypes P] where
  block : BlockContext P
  payload : Checkpoint P
  ctx : StepContext ε
  clock : ℕ → ℕ
  ids : ℕ → ℕ

namespace PooledStep

def fromPool (pool : OrderPool P) : PooledStep P := { orderPool := pool }

def disableSystemPool (s : PooledStep P) : PooledStep P := { s with enableSystemPool := false }

def call (s : PooledStep P) (visit : MapOrder s.orderPool) (systemPool : Option (List (Transaction P)))
    (c : PoolCall P ε) : StepCall P ε where
  payload := c.payload
  ctx := c.ctx
  orders := (s.orderPool.bestOrdersForBlock visit systemPool c.block).orders
  clock := c.clock
  ids := c.ids

def step (s : PooledStep P) (visit : MapOrder s.orderPool) (systemPool : Option (List (Transaction P)))
    (attempted : Finset B256) (c : PoolCall P ε) : Finset B256 × Outcome P :=
  s.limits.step attempted (s.call visit systemPool c)

def tried (s : PooledStep P) (visit : MapOrder s.orderPool) (systemPool : Option (List (Transaction P)))
    (attempted : Finset B256) (c : PoolCall P ε) : List (Attempt P) :=
  s.limits.tried attempted (s.call visit systemPool c)

end PooledStep

namespace PoolsDemux

lemma collect_system (orders : List (Order P)) (fuel : ℕ) (h : orders.length ≤ fuel) :
    collect fuel ⟨some orders, []⟩ = orders := by
  induction orders generalizing fuel with
  | nil =>
    cases fuel with
    | zero => rfl
    | succ fuel => rfl
  | cons order orders ih =>
    cases fuel with
    | zero => cases h
    | succ fuel =>
      have hrest : collect fuel ⟨some orders, []⟩ = orders := ih fuel (Nat.le_of_succ_le_succ h)
      rw [collect, next]
      dsimp only
      rw [hrest]

lemma collect_pooled (system : Option (List (Order P))) (orders : List (Order P)) (fuel : ℕ) :
    collect (orders.length + fuel) ⟨system, orders⟩ = orders ++ collect fuel ⟨system, []⟩ := by
  induction orders with
  | nil => rw [List.length_nil, Nat.zero_add, List.nil_append]
  | cons order orders ih =>
    rw [List.length_cons, Nat.add_right_comm, collect, next]
    dsimp only
    rw [ih, List.cons_append]

lemma orders_eq (demux : PoolsDemux P) : demux.orders = demux.orderPoolIter ++ demux.systemPoolIter.getD [] := by
  obtain ⟨system, pooled⟩ := demux
  rw [orders, collect_pooled]
  cases system with
  | none => rfl
  | some system => rw [Option.getD_some, collect_system system _ le_rfl]

end PoolsDemux

section Continuation

variable {step : AppendOrders} {call : StepCall P ε}

def AppendOrders.after (step : AppendOrders) (call : StepCall P ε) :
    List (Order P) → ℕ → Finset B256 → Run P → Option (Finset B256 × Run P)
  | [], tick, attempted, run => if run.shouldStop step call.ctx (call.clock tick) then none else
      some (attempted, run)
  | order :: orders, tick, attempted, run =>
    if run.shouldStop step call.ctx (call.clock tick) then none
    else
      let run := run.emit (.inclusionAttempt order.hash)
      if order.hash ∈ attempted then after step call orders (tick + 1) attempted run
      else
        after step call orders (tick + 1) (insert order.hash attempted)
          (run.tryInclude step call.ctx order (call.ids tick) (call.clock tick))

structure AppendOrders.Accepts (step : AppendOrders) (call : StepCall P ε) (orders : List (Order P)) (tick : ℕ)
    (attempted : Finset B256) (run : Run P) (i : ℕ) (order : Order P) : Prop where
  offered : orders[i]? = some order
  asked : ∀ j ≤ i, run.shouldStop step call.ctx (call.clock (tick + j)) = false
  fresh : order.hash ∉ attempted ∧ order.hash ∉ (orders.take i).map Order.hash
  includable : (run.tryInclude step call.ctx order (call.ids (tick + i)) (call.clock (tick + i))).payload ≠
    run.payload

def Attempt.Included (t : Attempt P) : Prop := t.after.payload ≠ t.before.payload

structure Run.Alike (a b : Run P) : Prop where
  kept : a.Kept b
  maxTransactions : b.maxTransactions = a.maxTransactions

namespace Run.Alike

variable {a b c : Run P}

lemma refl (a : Run P) : a.Alike a := ⟨⟨rfl, rfl, rfl, rfl, rfl⟩, rfl⟩

lemma emit (h : a.Alike b) (event : OrderEvent P) : a.Alike (b.emit event) :=
  ⟨⟨h.kept.payload, h.kept.txsIncluded, h.kept.bundlesIncluded, h.kept.ordersIncluded, h.kept.existingTxs⟩,
    h.maxTransactions⟩

lemma trans (h : a.Alike b) (h' : b.Alike c) : a.Alike c where
  kept :=
    { payload := h'.kept.payload.trans h.kept.payload
      txsIncluded := h'.kept.txsIncluded.trans h.kept.txsIncluded
      bundlesIncluded := h'.kept.bundlesIncluded.trans h.kept.bundlesIncluded
      ordersIncluded := h'.kept.ordersIncluded.trans h.kept.ordersIncluded
      existingTxs := h'.kept.existingTxs.trans h.kept.existingTxs }
  maxTransactions := h'.maxTransactions.trans h.maxTransactions

lemma shouldStop (h : a.Alike b) (ctx : StepContext ε) (now : ℕ) :
    b.shouldStop step ctx now = a.shouldStop step ctx now := by
  rw [Run.shouldStop, Run.shouldStop, h.kept.ordersIncluded, h.kept.txsIncluded, h.kept.bundlesIncluded,
    h.kept.payload, h.maxTransactions]

lemma shouldSkip (h : a.Alike b) (ctx : StepContext ε) (order : Order P) :
    b.shouldSkip step ctx order = a.shouldSkip step ctx order := by
  rw [Run.shouldSkip, Run.shouldSkip, h.kept.txsIncluded, h.kept.bundlesIncluded, h.kept.payload,
    h.kept.existingTxs, h.maxTransactions]

lemma rejected (h : a.Alike b) {ctx : StepContext ε} {order : Order P} {id now : ℕ}
    (hr : Attempt.Rejected step ctx ⟨order, id, now, a, a.tryInclude step ctx order id now⟩) :
    Attempt.Rejected step ctx ⟨order, id, now, b, b.tryInclude step ctx order id now⟩ := by
  cases hr with
  | skipped hs => exact .skipped ((h.shouldSkip ctx order).trans hs)
  | unrecovered he => exact .unrecovered he
  | failed he ha => exact .failed he (by rw [h.kept.payload]; exact ha)
  | overflow he ha hgas => exact .overflow he (by rw [h.kept.payload]; exact ha) hgas

lemma symm (h : a.Alike b) : b.Alike a where
  kept := ⟨h.kept.payload.symm, h.kept.txsIncluded.symm, h.kept.bundlesIncluded.symm, h.kept.ordersIncluded.symm,
    h.kept.existingTxs.symm⟩
  maxTransactions := h.maxTransactions.symm

lemma includable_iff (h : a.Alike b) {ctx : StepContext ε} {order : Order P} {id now : ℕ} :
    (b.tryInclude step ctx order id now).payload ≠ b.payload ↔
      (a.tryInclude step ctx order id now).payload ≠ a.payload := by
  rw [Ne, Ne, tryInclude_payload_iff, tryInclude_payload_iff]
  exact not_congr ⟨h.symm.rejected, h.rejected⟩

end Run.Alike

lemma tryInclude_alike {order : Order P} {ctx : StepContext ε} {id now : ℕ} {run : Run P}
    (h : (run.tryInclude step ctx order id now).payload = run.payload) :
    run.Alike (run.tryInclude step ctx order id now) :=
  ⟨tryInclude_kept ((tryInclude_payload_iff order id now run).mp h), tryInclude_maxTransactions order id now run⟩

variable (call) in
lemma pull_with_orders (others orders : List (Order P)) (tick : ℕ) (attempted : Finset B256) (run : Run P) :
    step.pull { call with orders := others } orders tick attempted run =
      step.pull call orders tick attempted run := by
  induction orders generalizing tick attempted run with
  | nil => rfl
  | cons order orders ih =>
    rw [AppendOrders.pull, AppendOrders.pull]
    simp only [ih]

variable (step call) in
lemma append_cases (orders later : List (Order P)) (tick : ℕ) (attempted : Finset B256) (run : Run P) :
    (step.after call orders tick attempted run = none ∧
      step.pull call (orders ++ later) tick attempted run = step.pull call orders tick attempted run ∧
      step.triedFrom call (orders ++ later) tick attempted run = step.triedFrom call orders tick attempted run) ∨
    ∃ attempted' run', step.after call orders tick attempted run = some (attempted', run') ∧
      step.pull call orders tick attempted run = (attempted', run') ∧
      step.pull call (orders ++ later) tick attempted run =
        step.pull call later (tick + orders.length) attempted' run' ∧
      step.triedFrom call (orders ++ later) tick attempted run = step.triedFrom call orders tick attempted run ++
        step.triedFrom call later (tick + orders.length) attempted' run' := by
  induction orders generalizing tick attempted run with
  | nil =>
    rw [AppendOrders.after]
    by_cases hstop : run.shouldStop step call.ctx (call.clock tick) = true
    · rw [if_pos hstop]
      cases later with
      | nil => exact .inl ⟨rfl, rfl, rfl⟩
      | cons order later => exact .inl ⟨rfl, if_pos hstop, if_pos hstop⟩
    · rw [if_neg hstop]
      exact .inr ⟨attempted, run, rfl, rfl, rfl, rfl⟩
  | cons order orders ih =>
    rw [List.cons_append, AppendOrders.pull, AppendOrders.after, AppendOrders.pull, AppendOrders.triedFrom,
      AppendOrders.triedFrom, List.length_cons, Nat.add_comm orders.length, ← Nat.add_assoc]
    by_cases hstop : run.shouldStop step call.ctx (call.clock tick) = true
    · simp only [if_pos hstop, and_self, true_or]
    · simp only [if_neg hstop]
      by_cases hold : order.hash ∈ attempted
      · simp only [if_pos hold]
        exact ih _ _ _
      · simp only [if_neg hold]
        obtain ⟨hafter, hpull, htried⟩ | ⟨attempted', run', hafter, hfirst, hpull, htried⟩ := ih (tick + 1)
          (insert order.hash attempted) ((run.emit (.inclusionAttempt order.hash)).tryInclude step call.ctx order
            (call.ids tick) (call.clock tick))
        · exact .inl ⟨hafter, hpull, by rw [htried]⟩
        · exact .inr ⟨attempted', run', hafter, hfirst, hpull, by rw [htried, List.cons_append]⟩

lemma after_attempted {orders : List (Order P)} {tick : ℕ} {attempted attempted' : Finset B256} {run run' : Run P}
    (h : step.after call orders tick attempted run = some (attempted', run')) :
    attempted ⊆ attempted' ∧ ∀ order ∈ orders, order.hash ∈ attempted' := by
  induction orders generalizing tick attempted run with
  | nil =>
    rw [AppendOrders.after] at h
    split at h
    · cases h
    · cases h
      exact ⟨Finset.Subset.refl _, fun order horder => by cases horder⟩
  | cons order orders ih =>
    rw [AppendOrders.after] at h
    split at h
    · cases h
    · dsimp only at h
      split at h
      · next hold =>
        obtain ⟨hsub, hall⟩ := ih h
        exact ⟨hsub, List.forall_mem_cons.mpr ⟨hsub hold, hall⟩⟩
      · obtain ⟨hsub, hall⟩ := ih h
        rw [Finset.insert_subset_iff] at hsub
        exact ⟨hsub.2, List.forall_mem_cons.mpr ⟨hsub.1, hall⟩⟩

lemma triedFrom_fresh {orders : List (Order P)} {tick : ℕ} {attempted : Finset B256} {run : Run P} {t : Attempt P}
    (ht : t ∈ step.triedFrom call orders tick attempted run) : t.order ∈ orders ∧ t.order.hash ∉ attempted := by
  obtain ⟨-, hmem, hfresh, -⟩ :=
    triedFrom_cases (fun _ => True) (fun _ _ h => h) (fun _ _ _ _ _ h => h) tick attempted trivial ht
  exact ⟨hmem, hfresh⟩

lemma accepts_zero_iff (order : Order P) (orders : List (Order P)) (tick : ℕ) (attempted : Finset B256)
    (run : Run P) (o : Order P) : step.Accepts call (order :: orders) tick attempted run 0 o ↔
      o = order ∧ run.shouldStop step call.ctx (call.clock tick) = false ∧ order.hash ∉ attempted ∧
        (run.tryInclude step call.ctx order (call.ids tick) (call.clock tick)).payload ≠ run.payload := by
  constructor
  · rintro ⟨hoffered, hasked, hfresh, hincludable⟩
    obtain rfl := Option.some.inj hoffered
    exact ⟨rfl, hasked 0 le_rfl, hfresh.1, hincludable⟩
  · rintro ⟨rfl, hasked, hfresh, hincludable⟩
    refine ⟨rfl, fun j hj => ?_, ⟨hfresh, List.not_mem_nil⟩, hincludable⟩
    obtain rfl := Nat.le_zero.mp hj
    exact hasked

lemma accepts_succ_iff (order : Order P) (orders : List (Order P)) (tick : ℕ) (attempted : Finset B256)
    {run run' : Run P} (halike : run.Alike run') (i : ℕ) (o : Order P) :
    step.Accepts call (order :: orders) tick attempted run (i + 1) o ↔
      run.shouldStop step call.ctx (call.clock tick) = false ∧
        step.Accepts call orders (tick + 1) (insert order.hash attempted) run' i o := by
  have htick : ∀ j, tick + 1 + j = tick + (j + 1) := fun j => by omega
  constructor
  · rintro ⟨hoffered, hasked, ⟨hnew, hdistinct⟩, hincludable⟩
    rw [List.take_succ_cons, List.map_cons, List.mem_cons, not_or] at hdistinct
    refine ⟨hasked 0 (Nat.zero_le _), hoffered, fun j hj => ?_, ⟨?_, hdistinct.2⟩, ?_⟩
    · rw [htick, halike.shouldStop]
      exact hasked (j + 1) (by omega)
    · rw [Finset.mem_insert, not_or]
      exact ⟨hdistinct.1, hnew⟩
    · rw [htick, halike.includable_iff]
      exact hincludable
  · rintro ⟨hgoes, hoffered, hasked, ⟨hnew, hdistinct⟩, hincludable⟩
    rw [Finset.mem_insert, not_or] at hnew
    refine ⟨hoffered, fun j hj => ?_, ⟨hnew.2, ?_⟩, ?_⟩
    · cases j with
      | zero => exact hgoes
      | succ j =>
        have hj' := hasked j (by omega)
        rw [htick, halike.shouldStop] at hj'
        exact hj'
    · rw [List.take_succ_cons, List.map_cons, List.mem_cons, not_or]
      exact ⟨hnew.1, hdistinct⟩
    · rw [htick, halike.includable_iff] at hincludable
      exact hincludable

lemma included_iff_accepts (orders : List (Order P)) (tick : ℕ) (attempted : Finset B256) (run : Run P) :
    (∃ t ∈ step.triedFrom call orders tick attempted run, t.Included) ↔
      ∃ i order, step.Accepts call orders tick attempted run i order := by
  induction orders generalizing tick attempted run with
  | nil =>
    refine iff_of_false ?_ ?_
    · rintro ⟨t, ht, -⟩
      cases ht
    · rintro ⟨i, order, haccepts⟩
      cases haccepts.offered
  | cons order orders ih =>
    have hemit : run.Alike (run.emit (.inclusionAttempt order.hash)) := (Run.Alike.refl run).emit _
    rw [AppendOrders.triedFrom]
    by_cases hstop : run.shouldStop step call.ctx (call.clock tick) = true
    · rw [if_pos hstop]
      refine iff_of_false ?_ ?_
      · rintro ⟨t, ht, -⟩
        cases ht
      · rintro ⟨i, o, haccepts⟩
        have hgoes := haccepts.asked 0 (Nat.zero_le _)
        rw [Nat.add_zero, hstop] at hgoes
        cases hgoes
    · rw [if_neg hstop]
      rw [Bool.not_eq_true] at hstop
      dsimp only
      by_cases hold : order.hash ∈ attempted
      · rw [if_pos hold, ih]
        have hinsert : insert order.hash attempted = attempted := Finset.insert_eq_of_mem hold
        constructor
        · rintro ⟨i, o, haccepts⟩
          exact ⟨i + 1, o, (accepts_succ_iff order orders tick attempted hemit i o).mpr
            ⟨hstop, by rw [hinsert]; exact haccepts⟩⟩
        · rintro ⟨i, o, haccepts⟩
          cases i with
          | zero => exact absurd hold ((accepts_zero_iff order orders tick attempted run o).mp haccepts).2.2.1
          | succ i =>
            obtain ⟨-, hlater⟩ := (accepts_succ_iff order orders tick attempted hemit i o).mp haccepts
            rw [hinsert] at hlater
            exact ⟨i, o, hlater⟩
      · rw [if_neg hold]
        set after := (run.emit (.inclusionAttempt order.hash)).tryInclude step call.ctx order (call.ids tick)
          (call.clock tick) with hafter
        by_cases hin : after.payload = run.payload
        · have halike : run.Alike after := hemit.trans (tryInclude_alike hin)
          simp only [List.exists_mem_cons_iff, ih]
          constructor
          · rintro (hfirst | ⟨i, o, haccepts⟩)
            · exact absurd hin hfirst
            · exact ⟨i + 1, o, (accepts_succ_iff order orders tick attempted halike i o).mpr ⟨hstop, haccepts⟩⟩
          · rintro ⟨i, o, haccepts⟩
            cases i with
            | zero =>
              have hincludable := ((accepts_zero_iff order orders tick attempted run o).mp haccepts).2.2.2
              exact absurd hin (hemit.includable_iff.mpr hincludable)
            | succ i => exact .inr ⟨i, o, ((accepts_succ_iff order orders tick attempted halike i o).mp
                haccepts).2⟩
        · refine iff_of_true ⟨_, List.mem_cons_self, hin⟩ ⟨0, order, ?_⟩
          exact (accepts_zero_iff order orders tick attempted run order).mpr
            ⟨rfl, hstop, hold, hemit.includable_iff.mp hin⟩

lemma included_extends {orders : List (Order P)} {tick : ℕ} {attempted : Finset B256} {run : Run P}
    (h : ∃ t ∈ step.triedFrom call orders tick attempted run, t.Included) :
    (step.pull call orders tick attempted run).2.payload ≠ run.payload := by
  suffices hlonger : run.payload.iter.length < (step.pull call orders tick attempted run).2.payload.iter.length by
    intro heq
    rw [heq] at hlonger
    exact lt_irrefl _ hlonger
  induction orders generalizing tick attempted run with
  | nil =>
    obtain ⟨t, ht, -⟩ := h
    cases ht
  | cons order orders ih =>
    obtain ⟨t, ht, hin⟩ := h
    rw [AppendOrders.triedFrom] at ht
    rw [AppendOrders.pull]
    split at ht
    · cases ht
    · next hstop =>
      rw [if_neg hstop]
      dsimp only at ht ⊢
      split at ht
      · next hold =>
        rw [if_pos hold]
        exact ih ⟨t, ht, hin⟩
      · next hold =>
        rw [if_neg hold]
        have hgrows : ∀ tick attempted (run : Run P),
            run.payload.iter.length ≤ (step.pull call orders tick attempted run).2.payload.iter.length := by
          intro tick attempted run
          have hbelow := (Steps.pull_under step call orders tick attempted run).below.length_le
          rwa [history, history, List.length_reverse, List.length_reverse] at hbelow
        obtain rfl | ht := List.mem_cons.mp ht
        · have hnot := (tryInclude_payload_iff order _ _ _).not.mp hin
          obtain ⟨data, hpayload, -⟩ := tryInclude_transactions hnot
          have hnext : ((run.emit (.inclusionAttempt order.hash)).tryInclude step call.ctx order (call.ids tick)
              (call.clock tick)).payload.iter.length = run.payload.iter.length + 1 := by
            rw [hpayload, iter, List.length_cons]
            rfl
          exact Nat.lt_of_lt_of_le (by omega) (hgrows _ _ _)
        · have hlater := ih ⟨t, ht, hin⟩
          have hfirst := (Steps.tryInclude_under step call.ctx order (call.ids tick) (call.clock tick)
            (run.emit (.inclusionAttempt order.hash))).below.length_le
          rw [history, history, List.length_reverse, List.length_reverse] at hfirst
          exact Nat.lt_of_le_of_lt hfirst hlater

lemma not_included_alike {orders : List (Order P)} {tick : ℕ} {attempted : Finset B256} {run : Run P}
    (h : ¬ ∃ t ∈ step.triedFrom call orders tick attempted run, t.Included) :
    run.Alike (step.pull call orders tick attempted run).2 := by
  refine pull_keeps (fun r => run.Alike r) (fun r event hr => hr.emit event) orders tick attempted (.refl run) ?_
  intro t ht hbefore
  have hsame : t.after.payload = t.before.payload := by
    by_contra hin
    exact h ⟨t, ht, hin⟩
  have hafter := triedFrom_after orders tick attempted run ht
  rw [hafter] at hsame ⊢
  exact hbefore.trans (tryInclude_alike hsame)

end Continuation

namespace PooledStep

variable (s : PooledStep P) (visit : MapOrder s.orderPool) (system : Option (List (Transaction P)))
  (attempted : Finset B256) (c : PoolCall P ε)

def offered : List (Order P) := (s.orderPool.bestOrdersForBlock visit none c.block).orderPoolIter

/-- The loop gets through the order pool, and then the run accepts what the system pool offers at position `i`. -/
def TakesFromSystem (i : ℕ) (tx : Transaction P) : Prop :=
  ∃ txs attempted' run, system = some txs ∧
    s.limits.after (s.call visit system c) (s.offered visit c) 0 attempted (Run.new s.limits c.ctx c.payload) =
      some (attempted', run) ∧
    s.limits.Accepts (s.call visit system c) (txs.map .transaction) (s.offered visit c).length attempted' run i
      (.transaction tx)

lemma orders_call : (s.call visit system c).orders = s.offered visit c ++ (system.getD []).map .transaction := by
  rw [call, PoolsDemux.orders_eq]
  cases system with
  | none => rfl
  | some txs => rfl

lemma offered_stored {order : Order P} (h : order ∈ s.offered visit c) :
    ∃ hash, s.orderPool.orders hash = some order := by
  obtain ⟨hash, -, horder⟩ := List.mem_filterMap.mp h
  exact ⟨hash, (Option.filter_eq_some_iff.mp horder).1⟩

lemma offered_of_stored {tx : Transaction P} {hash : B256} (h : s.orderPool.orders hash = some (.transaction tx)) :
    .transaction tx ∈ s.offered visit c := by
  have hkey : hash ∈ visit.keys := (visit.mem_keys hash).mpr (Option.isSome_iff_exists.mpr ⟨_, h⟩)
  refine List.mem_filterMap.mpr ⟨hash, hkey, ?_⟩
  rw [h]
  rfl

lemma system_cases : (s.limits.after (s.call visit system c) (s.offered visit c) 0 attempted
      (Run.new s.limits c.ctx c.payload) = none ∧
      (s.step visit system attempted c).2.flow = (s.step visit none attempted c).2.flow ∧
      ∀ t ∈ s.tried visit system attempted c, t.order ∈ s.offered visit c) ∨
    ∃ attempted' run, s.limits.after (s.call visit system c) (s.offered visit c) 0 attempted
        (Run.new s.limits c.ctx c.payload) = some (attempted', run) ∧
      (s.step visit none attempted c).2.flow = run.finish s.limits ∧
      (s.step visit system attempted c).2.flow = (s.limits.pull (s.call visit system c)
        ((system.getD []).map .transaction) (s.offered visit c).length attempted' run).2.finish s.limits ∧
      ∀ t, t ∈ s.tried visit system attempted c ↔
        t ∈ s.limits.triedFrom (s.call visit system c) (s.offered visit c) 0 attempted
          (Run.new s.limits c.ctx c.payload) ∨
        t ∈ s.limits.triedFrom (s.call visit system c) ((system.getD []).map .transaction)
          (s.offered visit c).length
          attempted' run := by
  have hnone : (s.step visit none attempted c).2.flow = (s.limits.pull (s.call visit system c)
    (s.offered visit c) 0
      attempted (Run.new s.limits c.ctx c.payload)).2.finish s.limits := by
    rw [step, step_flow, orders_call, Option.getD_none, List.map_nil, List.append_nil,
      ← pull_with_orders (s.call visit system c) (s.call visit none c).orders]
    rfl
  have hflow : (s.step visit system attempted c).2.flow = (s.limits.pull (s.call visit system c)
      (s.offered visit c ++ (system.getD []).map .transaction) 0 attempted
      (Run.new s.limits c.ctx c.payload)).2.finish s.limits := by
    rw [step, step_flow, orders_call]
    rfl
  have htried : s.tried visit system attempted c = s.limits.triedFrom (s.call visit system c)
      (s.offered visit c ++ (system.getD []).map .transaction) 0 attempted (Run.new s.limits c.ctx c.payload) := by
    rw [tried, AppendOrders.tried, orders_call]
    rfl
  obtain ⟨hafter, hpull, hlist⟩ | ⟨attempted', run, hafter, hfirst, hpull, hlist⟩ :=
    append_cases s.limits (s.call visit system c) (s.offered visit c)
      ((system.getD []).map .transaction) 0 attempted (Run.new s.limits c.ctx c.payload)
  · refine .inl ⟨hafter, ?_, fun t ht => ?_⟩
    · rw [hflow, hnone, hpull]
    · rw [htried, hlist] at ht
      exact (triedFrom_fresh ht).1
  · refine .inr ⟨attempted', run, hafter, ?_, ?_, fun t => ?_⟩
    · rw [hnone, hfirst]
    · rw [hflow, hpull, Nat.zero_add]
    · rw [htried, hlist, Nat.zero_add]
      exact List.mem_append

lemma takes_iff {attempted' : Finset B256} {run : Run P}
    (h : s.limits.after (s.call visit system c) (s.offered visit c) 0
    attempted (Run.new s.limits c.ctx c.payload) = some (attempted', run)) :
    (∃ i tx, s.TakesFromSystem visit system attempted c i tx) ↔
      ∃ t ∈ s.limits.triedFrom (s.call visit system c) ((system.getD []).map .transaction)
        (s.offered visit c).length
        attempted' run, t.Included := by
  rw [included_iff_accepts]
  constructor
  · rintro ⟨i, tx, txs, attempted₂, run₂, rfl, hafter, haccepts⟩
    cases h.symm.trans hafter
    exact ⟨i, _, haccepts⟩
  · rintro ⟨i, order, haccepts⟩
    have hoffered := haccepts.offered
    rw [List.getElem?_map] at hoffered
    obtain ⟨tx, htx, rfl⟩ := Option.map_eq_some_iff.mp hoffered
    cases system with
    | none => cases htx
    | some txs => exact ⟨i, tx, txs, attempted', run, rfl, h, haccepts⟩

lemma stored_iff : (∀ t ∈ s.tried visit system attempted c, t.Included →
    ∃ hash, s.orderPool.orders hash = some t.order) ↔
    ∀ i tx, ¬ s.TakesFromSystem visit system attempted c i tx := by
  obtain ⟨hafter, -, htried⟩ | ⟨attempted', run, hafter, -, -, htried⟩ := s.system_cases visit system attempted c
  · refine iff_of_true (fun t ht _ => s.offered_stored visit c (htried t ht)) ?_
    rintro i tx ⟨txs, attempted', run, -, hsome, -⟩
    cases hafter.symm.trans hsome
  · have htakes := s.takes_iff visit system attempted c hafter
    constructor
    · intro hall i tx htake
      obtain ⟨t, ht, hin⟩ := htakes.mp ⟨i, tx, htake⟩
      obtain ⟨hmem, hfresh⟩ := triedFrom_fresh ht
      obtain ⟨tx', -, htx'⟩ := List.mem_map.mp hmem
      obtain ⟨hash, hstored⟩ := hall t ((htried t).mpr (.inr ht)) hin
      rw [← htx'] at hstored hfresh
      exact hfresh ((after_attempted hafter).2 _ (s.offered_of_stored visit c hstored))
    · intro hnone t ht hin
      obtain hpooled | hsystem := (htried t).mp ht
      · exact s.offered_stored visit c (triedFrom_fresh hpooled).1
      · obtain ⟨i, tx, htake⟩ := htakes.mpr ⟨t, hsystem, hin⟩
        exact absurd htake (hnone i tx)

lemma flow_iff : (s.step visit system attempted c).2.flow = (s.step visit none attempted c).2.flow ↔
    ∀ i tx, ¬ s.TakesFromSystem visit system attempted c i tx := by
  obtain ⟨hafter, hflow, -⟩ | ⟨attempted', run, hafter, hnone, hflow, -⟩ := s.system_cases visit system attempted c
  · refine iff_of_true hflow ?_
    rintro i tx ⟨txs, attempted', run, -, hsome, -⟩
    cases hafter.symm.trans hsome
  · have htakes := s.takes_iff visit system attempted c hafter
    rw [hflow, hnone]
    constructor
    · intro heq i tx htake
      apply included_extends (htakes.mp ⟨i, tx, htake⟩)
      have hckpt := congrArg ControlFlow.checkpoint heq
      obtain h | h := finish_cases s.limits (s.limits.pull (s.call visit system c)
        ((system.getD []).map .transaction) (s.offered visit c).length attempted' run).2 <;>
      obtain h' | h' := finish_cases s.limits run <;>
      · rw [h, h'] at hckpt
        exact Option.some.inj hckpt
    · intro hnever
      have halike := not_included_alike fun hin => by
        obtain ⟨i, tx, htake⟩ := htakes.mpr hin
        exact hnever i tx htake
      rw [Run.finish, Run.finish, halike.kept.txsIncluded, halike.kept.payload]

theorem disable_system_pool_iff :
    (∀ system,
      ((∀ t ∈ s.disableSystemPool.tried visit system attempted c, t.Included →
          ∃ hash, s.orderPool.orders hash = some t.order) ↔
        ∀ i tx, ¬ s.disableSystemPool.TakesFromSystem visit system attempted c i tx) ∧
      ((s.disableSystemPool.step visit system attempted c).2.flow =
          (s.disableSystemPool.step visit none attempted c).2.flow ↔
        ∀ i tx, ¬ s.disableSystemPool.TakesFromSystem visit system attempted c i tx)) ∧
    ((∀ system system', (s.disableSystemPool.step visit system attempted c).2.flow =
        (s.disableSystemPool.step visit system' attempted c).2.flow) ↔
      ∀ system i tx, ¬ s.disableSystemPool.TakesFromSystem visit system attempted c i tx) := by
  refine ⟨fun system => ⟨s.disableSystemPool.stored_iff visit system attempted c,
    s.disableSystemPool.flow_iff visit system attempted c⟩, fun h system => ?_, fun h system system' => ?_⟩
  · exact (s.disableSystemPool.flow_iff visit system attempted c).mp (h system none)
  · have hsame := (s.disableSystemPool.flow_iff visit system attempted c).mpr (h system)
    exact hsame.trans ((s.disableSystemPool.flow_iff visit system' attempted c).mpr (h system')).symm

def emptyMap : MapOrder ({} : OrderPool Devnet) :=
    ⟨[], List.nodup_nil, fun _ => iff_of_false List.not_mem_nil Bool.false_ne_true⟩

def hostedCall : PoolCall Devnet Unit where
  block := Devnet.block
  payload := .newAtBlock Devnet.block 0 0
  ctx := ⟨⟨30000000, none, none, none, ()⟩, none⟩
  clock tick := tick
  ids tick := tick + 1

theorem disabled_system_pool_used :
    (∃ t ∈ (fromPool {}).disableSystemPool.tried emptyMap (some [Instance.pooledTx]) ∅ hostedCall,
      t.Included ∧ ∀ hash, (fromPool ({} : OrderPool Devnet)).orderPool.orders hash ≠ some t.order) ∧
    ((fromPool {}).disableSystemPool.step emptyMap (some [Instance.pooledTx]) ∅ hostedCall).2.flow ≠
      ((fromPool {}).disableSystemPool.step emptyMap none ∅ hostedCall).2.flow := by
  refine ⟨⟨_, List.mem_cons_self, fun hsame => ?_, fun hash hstored => ?_⟩, fun hsame => ?_⟩
  · cases congrArg Checkpoint.depth hsame
  · cases hstored
  · cases congrArg (fun flow => (ControlFlow.checkpoint flow).map Checkpoint.depth) hsame

end PooledStep

end Rblib.Pool
