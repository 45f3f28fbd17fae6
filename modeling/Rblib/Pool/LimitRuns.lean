import Rblib.Payload.EmptyBundles
import Rblib.Payload.Span
import Rblib.Pool.AppendRuns

namespace Rblib.Payload

open Platform PlatformTypes

variable {P : Type} [PlatformTypes P]

namespace Checkpoint

def txCount (c : Checkpoint P) : ℕ := (Span.history c).transactions.length

def totalBlobGas (c : Checkpoint P) : ℕ := ((Span.history c).transactions.filterMap PlatformTypes.blobGasUsed).sum

lemma txCount_next (c : Checkpoint P) (d : CheckpointData P) :
    (next c d).txCount = c.txCount + (next c d).transactions.length := by
  rw [txCount, transactions_next, List.length_append, txCount]

lemma totalBlobGas_next (c : Checkpoint P) (d : CheckpointData P) :
    (next c d).totalBlobGas = c.totalBlobGas + (next c d).blobGas := by
  rw [totalBlobGas, transactions_next, List.filterMap_append, List.sum_append, totalBlobGas, blobGas]

lemma cumulativeBlobGasUsed_exact {c : Checkpoint P} (h : ∀ x ∈ c.history, ¬ x.Mixed) :
    c.cumulativeBlobGasUsed = c.totalBlobGas := (blobGasUsed_sum c.history).2.mpr h

end Checkpoint

end Rblib.Payload

namespace Rblib.Pool

open Platform PlatformTypes Payload Payload.Checkpoint Pipelines

variable {P ε : Type} [PlatformTypes P]

def Order.blobGas (order : Order P) : ℕ := (order.transactions.filterMap PlatformTypes.blobGasUsed).sum

lemma Order.transactions_executable {order : Order P} {executable : Executable P}
    (h : order.tryIntoExecutable = .ok executable) : executable.transactions = order.transactions := by
  cases order with
  | transaction tx =>
    cases h
    rfl
  | bundle b =>
    cases h
    rfl

structure Round (P : Type) [PlatformTypes P] where
  step : AppendOrders
  attempted : Finset B256
  orders : List (Order P)
  clock : ℕ → ℕ
  ids : ℕ → ℕ

namespace Round

def call (r : Round P) (ctx : StepContext ε) (payload : Checkpoint P) : StepCall P ε :=
  ⟨payload, ctx, r.orders, r.clock, r.ids⟩

def tried (r : Round P) (ctx : StepContext ε) (payload : Checkpoint P) : List (Attempt P) :=
  r.step.tried r.attempted (r.call ctx payload)

def output (r : Round P) (ctx : StepContext ε) (payload : Checkpoint P) : Checkpoint P :=
  (r.step.step r.attempted (r.call ctx payload)).2.flow.checkpoint.getD payload

end Round

def appendAll (ctx : StepContext ε) (rounds : List (Round P)) (payload : Checkpoint P) : Checkpoint P :=
  rounds.foldl (fun c r => r.output ctx c) payload

def Throughout (ctx : StepContext ε) (cond : Round P → Checkpoint P → Prop) : List (Round P) → Checkpoint P → Prop
  | [], _ => True
  | r :: rounds, payload => cond r payload ∧ Throughout ctx cond rounds (r.output ctx payload)

section Runs

variable {step : AppendOrders} {ctx : StepContext ε} {call : StepCall P ε}

lemma triedFrom_after (orders : List (Order P)) (tick : ℕ) (attempted : Finset B256) (run : Run P) {t : Attempt P}
    (ht : t ∈ step.triedFrom call orders tick attempted run) :
    t.after = t.before.tryInclude step call.ctx t.order t.id t.now :=
  (triedFrom_cases (fun _ => True) (fun _ _ h => h) (fun _ _ _ _ _ h => h) tick attempted trivial ht).2.2.2

lemma pull_keeps (Inv : Run P → Prop) (hemit : ∀ run event, Inv run → Inv (run.emit event))
    (orders : List (Order P)) (tick : ℕ) (attempted : Finset B256) {run : Run P} (h : Inv run)
    (htry : ∀ t ∈ step.triedFrom call orders tick attempted run, Inv t.before → Inv t.after) :
    Inv (step.pull call orders tick attempted run).2 := by
  induction orders generalizing tick attempted run with
  | nil => exact h
  | cons order orders ih =>
    rw [AppendOrders.pull]
    rw [AppendOrders.triedFrom] at htry
    by_cases hstop : run.shouldStop step call.ctx (call.clock tick) = true
    · rw [if_pos hstop]
      exact h
    · rw [if_neg hstop] at htry ⊢
      dsimp only at htry ⊢
      by_cases hattempted : order.hash ∈ attempted
      · rw [if_pos hattempted] at htry ⊢
        exact ih _ _ (hemit _ _ h) htry
      · rw [if_neg hattempted] at htry ⊢
        apply ih
        · exact htry _ List.mem_cons_self (hemit _ _ h)
        · exact fun t ht => htry t (List.mem_cons_of_mem _ ht)

lemma tried_keeps (Inv : Run P → Prop) (hemit : ∀ run event, Inv run → Inv (run.emit event))
    {orders : List (Order P)}
    (htry : ∀ order ∈ orders, ∀ id now run, Inv run → Inv (run.tryInclude step call.ctx order id now)) (tick : ℕ)
    (attempted : Finset B256) {run : Run P} (h : Inv run) {t : Attempt P}
    (ht : t ∈ step.triedFrom call orders tick attempted run) : Inv t.before ∧ t.order ∈ orders := by
  obtain ⟨hbefore, horder, -⟩ := triedFrom_cases Inv hemit htry tick attempted h ht
  exact ⟨hbefore, horder⟩

lemma Round.output_eq (r : Round P) (ctx : StepContext ε) (payload : Checkpoint P) : r.output ctx payload =
    (r.step.pull (r.call ctx payload) r.orders 0 r.attempted (Run.new r.step ctx payload)).2.payload := by
  have hflow := step_flow r.step r.attempted (r.call ctx payload)
  rw [Round.output, hflow]
  obtain h | h := finish_cases r.step
    (r.step.pull (r.call ctx payload) r.orders 0 r.attempted (Run.new r.step ctx payload)).2
  · exact congrArg (fun flow => (ControlFlow.checkpoint flow).getD payload) h
  · exact congrArg (fun flow => (ControlFlow.checkpoint flow).getD payload) h

lemma appendAll_keeps (Inv : Checkpoint P → Prop) {cond : Round P → Checkpoint P → Prop}
    (hround : ∀ r payload, cond r payload → Inv payload → Inv (r.output ctx payload)) {rounds : List (Round P)}
    {payload : Checkpoint P} (hcond : Throughout ctx cond rounds payload) (h : Inv payload) (n : ℕ) :
    Inv (appendAll ctx (rounds.take n) payload) := by
  induction rounds generalizing payload n with
  | nil =>
    rw [List.take_nil]
    exact h
  | cons r rounds ih =>
    cases n with
    | zero => exact h
    | succ n =>
      rw [List.take_succ_cons]
      exact ih hcond.2 (hround r payload hcond.1 h) n

lemma tryInclude_transactions {order : Order P} {id now : ℕ} {run : Run P}
    (h : ¬ Attempt.Rejected step ctx ⟨order, id, now, run, run.tryInclude step ctx order id now⟩) :
    ∃ data, (run.tryInclude step ctx order id now).payload = .next run.payload data ∧
      (next run.payload data).transactions.Sublist order.transactions ∧ run.shouldSkip step ctx order = false := by
  obtain ⟨hr, -⟩ | ⟨-, executable, candidate, he, ha, -, hskip, hpayload, -⟩ :=
    tryInclude_cases step ctx order id now run
  · exact absurd hr h
  · obtain ⟨result, hresult, rfl⟩ := apply_eq ha
    refine ⟨_, hpayload, ?_, hskip⟩
    rw [← Order.transactions_executable he]
    exact source_sublist hresult

end Runs

section BlobGas

variable {step : AppendOrders} {ctx : StepContext ε}

def maxBlobGasPerBlock (params : BlobParams) : ℕ := params.maxBlobCount * dataGasPerBlob

/-- An order with blobs that the check lets through meets a payload whose blob gas is counted in full. -/
def CountsBlobs (ctx : StepContext ε) (r : Round P) (payload : Checkpoint P) : Prop :=
  ∀ t ∈ r.tried ctx payload, 0 < t.order.blobGas → t.before.shouldSkip r.step ctx t.order = false →
    ∀ c ∈ t.before.payload.history, ¬ c.Mixed

lemma sum_filterMap_le {txs txs' : List (Transaction P)} (h : txs.Sublist txs') :
    (txs.filterMap PlatformTypes.blobGasUsed).sum ≤ (txs'.filterMap PlatformTypes.blobGasUsed).sum := by
  apply (h.filterMap PlatformTypes.blobGasUsed).sum_le_sum
  exact fun _ _ => Nat.zero_le _

lemma blobs_fit {order : Order P} {run : Run P} {params : BlobParams}
    (hparams : ctx.limits.blobParams = some params) (h : run.shouldSkip step ctx order = false) :
    order.blobGas + run.payload.cumulativeBlobGasUsed ≤ maxBlobGasPerBlock params := by
  rw [Run.shouldSkip, Bool.or_eq_false_iff, hparams, Option.any_some, decide_eq_false_iff_not] at h
  exact Nat.not_lt.mp h.2

lemma tryInclude_blobGas {params : BlobParams} (hparams : ctx.limits.blobParams = some params) {order : Order P}
    (id now : ℕ) {run : Run P} (hcount : 0 < order.blobGas → run.shouldSkip step ctx order = false →
      ∀ c ∈ run.payload.history, ¬ c.Mixed)
    (h : run.payload.totalBlobGas ≤ maxBlobGasPerBlock params) :
    (run.tryInclude step ctx order id now).payload.totalBlobGas ≤ maxBlobGasPerBlock params := by
  by_cases hr : Attempt.Rejected step ctx ⟨order, id, now, run, run.tryInclude step ctx order id now⟩
  · rw [(tryInclude_kept hr).payload]
    exact h
  · obtain ⟨data, hpayload, hsub, hskip⟩ := tryInclude_transactions hr
    have hcandidate : (next run.payload data).blobGas ≤ order.blobGas := sum_filterMap_le hsub
    have hfits := blobs_fit hparams hskip
    rw [hpayload, totalBlobGas_next]
    obtain hzero | hpos := Nat.eq_zero_or_pos order.blobGas
    · omega
    · have hexact := cumulativeBlobGasUsed_exact (hcount hpos hskip)
      omega

theorem blob_gas_bounded {params : BlobParams} (hparams : ctx.limits.blobParams = some params)
    {rounds : List (Round P)} {payload : Checkpoint P} (hstart : payload.totalBlobGas ≤ maxBlobGasPerBlock params)
    (hcounts : Throughout ctx (CountsBlobs ctx) rounds payload) (n : ℕ) :
    (appendAll ctx (rounds.take n) payload).totalBlobGas ≤ maxBlobGasPerBlock params := by
  apply appendAll_keeps (fun c => c.totalBlobGas ≤ maxBlobGasPerBlock params) ?_ hcounts hstart
  intro r c hcount hc
  rw [Round.output_eq]
  apply pull_keeps fun run => run.payload.totalBlobGas ≤ maxBlobGasPerBlock params
  · exact fun run event h => h
  · exact hc
  · intro t ht hbefore
    rw [triedFrom_after r.orders 0 r.attempted _ ht]
    exact tryInclude_blobGas hparams t.id t.now (hcount t ht) hbefore

def Order.Mixed (order : Order P) : Prop :=
  (∃ tx ∈ order.transactions, PlatformTypes.blobGasUsed tx = none) ∧
    ∃ tx ∈ order.transactions, ∃ gas, PlatformTypes.blobGasUsed tx = some gas ∧ 0 < gas

lemma tryInclude_unmixed {order : Order P} (horder : ¬ order.Mixed) (id now : ℕ) {run : Run P}
    (h : ∀ c ∈ run.payload.history, ¬ c.Mixed) :
    ∀ c ∈ (run.tryInclude step ctx order id now).payload.history, ¬ c.Mixed := by
  by_cases hr : Attempt.Rejected step ctx ⟨order, id, now, run, run.tryInclude step ctx order id now⟩
  · rw [(tryInclude_kept hr).payload]
    exact h
  · obtain ⟨data, hpayload, hsub, -⟩ := tryInclude_transactions hr
    rw [hpayload, history_next]
    intro c hc
    obtain hc | hc := List.mem_append.mp hc
    · exact h c hc
    · obtain rfl := List.mem_singleton.mp hc
      rintro ⟨⟨plain, hplain, hnone⟩, blob, hblob, hgas⟩
      exact horder ⟨⟨plain, hsub.subset hplain, hnone⟩, blob, hsub.subset hblob, hgas⟩

lemma countsBlobs_of_unmixed {rounds : List (Round P)} {payload : Checkpoint P}
    (horders : ∀ r ∈ rounds, ∀ order ∈ r.orders, ¬ order.Mixed) (hpayload : ∀ c ∈ payload.history, ¬ c.Mixed) :
    Throughout ctx (CountsBlobs ctx) rounds payload := by
  induction rounds generalizing payload with
  | nil => trivial
  | cons r rounds ih =>
    have hfirst := horders r List.mem_cons_self
    have htry : ∀ order ∈ r.orders, ∀ id now (run : Run P), (∀ c ∈ run.payload.history, ¬ c.Mixed) →
        ∀ c ∈ (run.tryInclude r.step ctx order id now).payload.history, ¬ c.Mixed :=
      fun order ho id now run => tryInclude_unmixed (hfirst order ho) id now
    have hstates : ∀ t ∈ r.tried ctx payload, ∀ c ∈ t.before.payload.history, ¬ c.Mixed := fun t ht =>
      (tried_keeps (fun run : Run P => ∀ c ∈ run.payload.history, ¬ c.Mixed) (fun _ _ h => h) htry 0 r.attempted
        hpayload ht).1
    refine ⟨fun t ht _ _ => hstates t ht, ih (fun r hr => horders r (List.mem_cons_of_mem _ hr)) ?_⟩
    rw [Round.output_eq]
    apply pull_keeps (fun run : Run P => ∀ c ∈ run.payload.history, ¬ c.Mixed) (fun _ _ h => h)
    · exact hpayload
    · intro t ht hbefore
      rw [triedFrom_after r.orders 0 r.attempted _ ht]
      exact htry t.order (tried_keeps (fun run : Run P => ∀ c ∈ run.payload.history, ¬ c.Mixed)
        (fun _ _ h => h) htry 0
        r.attempted hpayload ht).2 t.id t.now t.before hbefore

end BlobGas

namespace Blobnet

open Payload.Blobnet

def oneBlob : BlobParams := ⟨1, 1, 5007716, 1, 1, 8192⟩

def scope : StepContext Unit := ⟨⟨30000000, some oneBlob, none, none, ()⟩, none⟩

def offers (orders : List (Order Blobnet)) : Round Blobnet :=
    ⟨{}, ∅, orders, fun tick => tick, fun tick => tick + 1⟩

def anotherBlob : BlobTx := ⟨33, 9, 0, some 1⟩

def anotherMixed : FlashbotsBundle Blobnet :=
  (FlashbotsBundle.default.withTransaction anotherBlob).withTransaction ⟨34, 10, 0, none⟩

def onePerPool : List (Round Blobnet) :=
  [offers [.transaction withBlob], offers [.transaction anotherBlob, .transaction plain]]

lemma onePerPool_counts : Throughout scope (CountsBlobs scope) onePerPool start := by
  apply countsBlobs_of_unmixed
  · rintro r hr order horder ⟨⟨tx, htx, hnone⟩, other, hother, gas, hgas, -⟩
    obtain rfl | rfl := List.mem_pair.mp hr
    · obtain rfl := List.mem_singleton.mp horder
      obtain rfl := List.mem_singleton.mp htx
      cases hnone
    · obtain rfl | rfl := List.mem_pair.mp horder
      · obtain rfl := List.mem_singleton.mp htx
        cases hnone
      · obtain rfl := List.mem_singleton.mp hother
        cases hgas
  · rintro c hc ⟨⟨tx, htx, -⟩, -⟩
    obtain rfl := List.mem_singleton.mp hc
    cases htx

theorem onePerPool_fits : (appendAll scope onePerPool start).totalBlobGas ≤ maxBlobGasPerBlock oneBlob := by
  have hall : onePerPool.take 2 = onePerPool := rfl
  rw [← hall]
  exact blob_gas_bounded rfl (by decide) onePerPool_counts 2

theorem two_blobs_included :
    start.totalBlobGas = 0 ∧ maxBlobGasPerBlock oneBlob = 131072 ∧ scope.limits.blobParams = some oneBlob ∧
      (appendAll scope [offers [.bundle mixed, .bundle anotherMixed]] start).totalBlobGas = 262144 := by
  refine ⟨rfl, rfl, rfl, ?_⟩
  decide +kernel

end Blobnet

section Transactions

variable {step : AppendOrders} {ctx : StepContext ε} {call : StepCall P ε}

namespace Round

def fresh (r : Round P) : List (Order P) := r.orders.filter fun order => order.hash ∉ r.attempted

def offered (r : Round P) : ℕ := (r.fresh.map fun order => order.transactions.length).sum

def budget (r : Round P) (limit : ℕ) : ℕ := r.step.maxNewTransactions.elim limit (min · limit)

end Round

/-- What the run may add at most fits beside the transactions the payload already has. -/
def HasRoom (limit : ℕ) (r : Round P) (payload : Checkpoint P) : Prop :=
  payload.txCount + min (r.budget limit) r.offered ≤ limit

instance (limit : ℕ) (r : Round P) (payload : Checkpoint P) : Decidable (HasRoom limit r payload) :=
  inferInstanceAs (Decidable (_ ≤ _))

structure Run.Counted (step : AppendOrders) (ctx : StepContext ε) (payload : Checkpoint P)
    (run : Run P) : Prop where
  txCount : run.payload.txCount = payload.txCount + run.txsIncluded
  limit : run.maxTransactions = (Run.new step ctx payload).maxTransactions
  within : ∀ max ∈ run.maxTransactions, run.txsIncluded ≤ max

lemma tryInclude_maxTransactions (order : Order P) (id now : ℕ) (run : Run P) :
    (run.tryInclude step ctx order id now).maxTransactions = run.maxTransactions := by
  rw [Run.tryInclude]
  dsimp only
  split
  · rfl
  · split
    · rfl
    · split
      · rfl
      · split
        · rfl
        · rfl

lemma tryInclude_txsIncluded {order : Order P} {id now : ℕ} {run : Run P}
    (h : ¬ Attempt.Rejected step ctx ⟨order, id, now, run, run.tryInclude step ctx order id now⟩) :
    (run.tryInclude step ctx order id now).txsIncluded =
      run.txsIncluded + (run.tryInclude step ctx order id now).payload.transactions.length := by
  have hskip : ¬ ({ run with considered := run.considered ++ [order] } : Run P).shouldSkip step ctx order = true :=
    fun hs => h (.skipped hs)
  rw [Run.tryInclude]
  dsimp only
  rw [if_neg hskip]
  cases he : order.tryIntoExecutable with
  | error e => exact absurd (.unrecovered he) h
  | ok executable =>
    dsimp only
    cases ha : run.payload.apply executable id now with
    | error e => exact absurd (.failed he ha) h
    | ok candidate =>
      dsimp only
      rw [if_neg fun hgas => h (.overflow he ha hgas)]
      rfl

lemma order_fits {order : Order P} {run : Run P} (h : run.shouldSkip step ctx order = false) :
    ∀ max ∈ run.maxTransactions, order.transactions.length + run.txsIncluded ≤ max := by
  intro max hmax
  simp only [Run.shouldSkip, Option.mem_def.mp hmax, Bool.or_eq_false_iff, Option.any_some,
    decide_eq_false_iff_not] at h
  omega

lemma Run.Counted.tryInclude {payload : Checkpoint P} {run : Run P} (h : run.Counted step ctx payload)
    (order : Order P) (id now : ℕ) : (run.tryInclude step ctx order id now).Counted step ctx payload ∧
      (run.tryInclude step ctx order id now).txsIncluded ≤ run.txsIncluded + order.transactions.length := by
  by_cases hr : Attempt.Rejected step ctx ⟨order, id, now, run, run.tryInclude step ctx order id now⟩
  · have hkept := tryInclude_kept hr
    refine ⟨⟨?_, ?_, ?_⟩, ?_⟩
    · rw [hkept.payload, hkept.txsIncluded]
      exact h.txCount
    · rw [tryInclude_maxTransactions]
      exact h.limit
    · rw [tryInclude_maxTransactions, hkept.txsIncluded]
      exact h.within
    · rw [hkept.txsIncluded]
      exact Nat.le_add_right _ _
  · obtain ⟨data, hpayload, hsub, hskip⟩ := tryInclude_transactions hr
    have hincluded := tryInclude_txsIncluded hr
    have hlength := hsub.length_le
    have hcount := h.txCount
    refine ⟨⟨?_, ?_, ?_⟩, ?_⟩
    · rw [hincluded, hpayload, txCount_next]
      omega
    · rw [tryInclude_maxTransactions]
      exact h.limit
    · intro max hmax
      rw [tryInclude_maxTransactions] at hmax
      have hfits := order_fits hskip max hmax
      rw [hincluded, hpayload]
      omega
    · rw [hincluded, hpayload]
      omega

lemma filter_insert_sublist (orders : List (Order P)) (hash : B256) (attempted : Finset B256) :
    (orders.filter fun order => order.hash ∉ insert hash attempted).Sublist
      (orders.filter fun order => order.hash ∉ attempted) := by
  apply List.monotone_filter_right
  intro order h
  simp only [decide_eq_true_eq, Finset.mem_insert, not_or] at h ⊢
  exact h.2

variable (step call) in
lemma pull_counted {payload : Checkpoint P} (orders : List (Order P)) (tick : ℕ) (attempted : Finset B256)
    {run : Run P}
    (h : run.Counted step call.ctx payload) :
    (step.pull call orders tick attempted run).2.Counted step call.ctx payload ∧
      (step.pull call orders tick attempted run).2.txsIncluded ≤ run.txsIncluded +
        ((orders.filter fun order => order.hash ∉ attempted).map fun order => order.transactions.length).sum := by
  induction orders generalizing tick attempted run with
  | nil => exact ⟨h, le_rfl⟩
  | cons order orders ih =>
    rw [AppendOrders.pull]
    by_cases hstop : run.shouldStop step call.ctx (call.clock tick) = true
    · rw [if_pos hstop]
      exact ⟨h, Nat.le_add_right _ _⟩
    · rw [if_neg hstop]
      dsimp only
      have hemit : (run.emit (.inclusionAttempt order.hash)).Counted step call.ctx payload :=
        ⟨h.txCount, h.limit, h.within⟩
      by_cases hattempted : order.hash ∈ attempted
      · rw [if_pos hattempted, List.filter_cons_of_neg (by simpa using hattempted)]
        exact ih _ _ hemit
      · rw [if_neg hattempted, List.filter_cons_of_pos (by simpa using hattempted), List.map_cons, List.sum_cons]
        obtain ⟨hafter, hone⟩ := hemit.tryInclude order (call.ids tick) (call.clock tick)
        obtain ⟨hlast, hrest⟩ := ih (tick + 1) (insert order.hash attempted) hafter
        have hfewer := ((filter_insert_sublist orders order.hash attempted).map
          fun order : Order P => order.transactions.length).sum_le_sum fun _ _ => Nat.zero_le _
        refine ⟨hlast, ?_⟩
        have hsame : (run.emit (.inclusionAttempt order.hash)).txsIncluded = run.txsIncluded := rfl
        omega

lemma Round.output_counted (r : Round P) (ctx : StepContext ε) (payload : Checkpoint P) :
    ∃ added ≤ r.offered, (r.output ctx payload).txCount = payload.txCount + added ∧
      ∀ max ∈ (Run.new r.step ctx payload).maxTransactions, added ≤ max := by
  have hnew : (Run.new r.step ctx payload).Counted r.step ctx payload := ⟨rfl, rfl, fun max _ => Nat.zero_le max⟩
  obtain ⟨hlast, hoffered⟩ := pull_counted r.step (r.call ctx payload) r.orders 0 r.attempted hnew
  rw [Round.output_eq]
  refine ⟨_, ?_, hlast.txCount, fun max hmax => hlast.within max ?_⟩
  · exact hoffered.trans_eq (Nat.zero_add _)
  · rw [hlast.limit]
    exact hmax

theorem transactions_bounded (ctx : StepContext ε) (rounds : List (Round P)) (payload : Checkpoint P) :
    (∀ (r : Round P) (c : Checkpoint P), ∀ max ∈ r.step.maxNewTransactions,
      (r.output ctx c).txCount ≤ c.txCount + max) ∧
    ∀ limit ∈ ctx.limits.maxTransactions, payload.txCount ≤ limit → Throughout ctx (HasRoom limit) rounds payload →
      ∀ n, (appendAll ctx (rounds.take n) payload).txCount ≤ limit := by
  constructor
  · intro r c max hmax
    obtain ⟨added, -, hcount, hwithin⟩ := r.output_counted ctx c
    cases hlimit : ctx.limits.maxTransactions with
    | none =>
      have hmax' : max ∈ (Run.new r.step ctx c).maxTransactions := by
        simp only [Run.new, Option.mem_def.mp hmax, hlimit, Option.or_none, Option.mem_def]
      have := hwithin max hmax'
      omega
    | some limit =>
      have hmax' : min max limit ∈ (Run.new r.step ctx c).maxTransactions := by
        simp only [Run.new, Option.mem_def.mp hmax, hlimit, Option.mem_def]
      have := hwithin (min max limit) hmax'
      omega
  · intro limit hlimit hstart hroom n
    apply appendAll_keeps (fun c => c.txCount ≤ limit) ?_ hroom hstart
    intro r c hfits hc
    obtain ⟨added, hoffered, hcount, hwithin⟩ := r.output_counted ctx c
    have hbudget : added ≤ r.budget limit := by
      apply hwithin
      rw [Round.budget]
      cases hmax : r.step.maxNewTransactions with
      | none => simp [Run.new, hmax, Option.mem_def.mp hlimit]
      | some max => simp [Run.new, hmax, Option.mem_def.mp hlimit]
    rw [HasRoom] at hfits
    rw [hcount]
    omega

end Transactions

namespace Devnet

open Payload.Devnet

def emptyPayload : Checkpoint Devnet := .newAtBlock block 0 0

def singleTx : StepContext Unit := ⟨⟨30000000, none, some 1, none, ()⟩, none⟩

def poolOf (txs : List PlainTx) : Round Devnet :=
    ⟨{}, ∅, txs.map .transaction, fun tick => tick, fun tick => tick + 1⟩

theorem singleTx_kept : (appendAll singleTx [poolOf [Instance.pooledTx, Instance.otherTx]]
    emptyPayload).txCount ≤ 1 := by
  apply (transactions_bounded singleTx [poolOf [Instance.pooledTx, Instance.otherTx]] emptyPayload).2 1 rfl
    (by decide) ?_ 1
  exact ⟨by decide, trivial⟩

theorem singleTx_exceeded :
    emptyPayload.txCount = 0 ∧ singleTx.limits.maxTransactions = some 1 ∧
      (appendAll singleTx [poolOf [Instance.pooledTx], poolOf [Instance.otherTx]] emptyPayload).txCount = 2 := by
  refine ⟨rfl, rfl, ?_⟩
  decide +kernel

end Devnet

end Rblib.Pool
