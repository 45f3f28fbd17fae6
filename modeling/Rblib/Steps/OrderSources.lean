import Rblib.Orderpool2.HeldOrders
import Rblib.Payload.Assembled
import Rblib.Pipelines.JobRuns
import Rblib.Steps.Barriers
import Rblib.Steps.OrderingReapply
import Rblib.Steps.OrderingReuse

/-! Every payload of a run is a chain of barriers and of orders that were applied one after the
other, whatever the steps do in between. `ReturnsFrom` is what a step can return when the bundles
that wait in the pools satisfy `K`; orders that a step applies again are recorded ones, which lost
transactions at most. -/

namespace Rblib.Steps

open Platform PlatformTypes Payload Payload.Checkpoint Pipelines Pool Orderpool2 Library

variable {P ε : Type} [PlatformTypes P]

namespace BuiltinStep

variable {Err : Type}

mutual

def ReturnsFrom (K : FlashbotsBundle P → Prop) (ctx : StepContext ε) :
    BuiltinStep P ε Err → Checkpoint P → ControlFlow (Checkpoint P) Err → Prop
  | .appendOrders step other, payload, flow => ∃ attempted orders clock ids, (∀ b, .bundle b ∈ orders → K b) ∧
      flow = boxError other (step.step attempted ⟨payload, ctx, orders, clock, ids⟩).2.flow
  | .appendOrdersByPriority Priority _ _, payload, flow =>
      ∃ (orderpool : PrioritizedOrderpool B256 Priority (BundleWithNonces P)) (call : PriorityCall P Priority)
        (output : Checkpoint P),
        orderpool.AllHeld (fun order => K order.bundle) ∧ (∀ b ∈ call.pending, K b) ∧
        (AppendOrdersByPriority.step orderpool call payload).2 = some (.ok output) ∧ flow = .ok output
  | .orderBy _ _ _ score other, payload, flow => ∃ visit fresh output,
      OrderBy.step score visit fresh payload = .ok output ∧ flow = boxError other output
  | .removeRevertedTransactions, payload, flow => ∃ fresh perJob sweep,
      RemoveRevertedTransactions.step fresh perJob payload = .ok sweep ∧ flow = .ok sweep.validPrefix
  | .optimismPrologue _ step other, payload, flow => ∃ transactions fresh,
      flow = boxError other (step.step transactions ctx fresh payload)
  | .builderEpilogue _ step other, payload, flow => ∃ block id now,
      flow = boxError other (step.step block id now payload)
  | .atomic steps, payload, flow => ∃ clock behaviours,
      BehavesFrom K ctx steps behaviours ∧ Atomic.step ctx clock behaviours payload = some flow
  | .chain steps, payload, flow => ∃ clock behaviours,
      BehavesFrom K ctx steps behaviours ∧ Chain.step ctx clock behaviours payload = some flow

def BehavesFrom (K : FlashbotsBundle P → Prop) (ctx : StepContext ε) :
    List (BuiltinStep P ε Err) → List (Behaviour (Checkpoint P) Err) → Prop
  | [], behaviours => behaviours = []
  | step :: steps, behaviours => ∃ behaviour rest, behaviours = behaviour :: rest ∧
      (∀ payload flow, behaviour payload = some flow → ReturnsFrom K ctx step payload flow) ∧
        BehavesFrom K ctx steps rest

end

mutual

lemma returns_of_from (K : FlashbotsBundle P → Prop) (ctx : StepContext ε) : ∀ (step : BuiltinStep P ε Err)
    {payload : Checkpoint P} {flow : ControlFlow (Checkpoint P) Err},
    ReturnsFrom K ctx step payload flow → Returns ctx step payload flow
  | .appendOrders step other, payload, flow, h => by
    rw [ReturnsFrom] at h
    obtain ⟨attempted, orders, clock, ids, -, hflow⟩ := h
    rw [Returns]
    exact ⟨attempted, orders, clock, ids, hflow⟩
  | .appendOrdersByPriority Priority _ _, payload, flow, h => by
    rw [ReturnsFrom] at h
    obtain ⟨orderpool, call, output, -, -, hs, hflow⟩ := h
    rw [Returns]
    exact ⟨orderpool, call, output, hs, hflow⟩
  | .orderBy _ _ _ score other, payload, flow, h => by
    rw [ReturnsFrom] at h
    rw [Returns]
    exact h
  | .removeRevertedTransactions, payload, flow, h => by
    rw [ReturnsFrom] at h
    rw [Returns]
    exact h
  | .optimismPrologue _ step other, payload, flow, h => by
    rw [ReturnsFrom] at h
    rw [Returns]
    exact h
  | .builderEpilogue _ step other, payload, flow, h => by
    rw [ReturnsFrom] at h
    rw [Returns]
    exact h
  | .atomic steps, payload, flow, h => by
    rw [ReturnsFrom] at h
    obtain ⟨clock, behaviours, hb, hs⟩ := h
    rw [Returns]
    exact ⟨clock, behaviours, behaves_of_from K ctx steps hb, hs⟩
  | .chain steps, payload, flow, h => by
    rw [ReturnsFrom] at h
    obtain ⟨clock, behaviours, hb, hs⟩ := h
    rw [Returns]
    exact ⟨clock, behaviours, behaves_of_from K ctx steps hb, hs⟩

lemma behaves_of_from (K : FlashbotsBundle P → Prop) (ctx : StepContext ε) : ∀ (steps : List (BuiltinStep P ε Err))
    {behaviours : List (Behaviour (Checkpoint P) Err)}, BehavesFrom K ctx steps behaviours →
      Behaves ctx steps behaviours
  | [], behaviours, h => by
    rw [BehavesFrom] at h
    rw [Behaves]
    exact h
  | step :: steps, behaviours, h => by
    rw [BehavesFrom] at h
    obtain ⟨behaviour, rest, hcons, hreturns, hrest⟩ := h
    rw [Behaves]
    exact ⟨behaviour, rest, hcons, fun payload flow hf => returns_of_from K ctx step (hreturns payload flow hf),
      behaves_of_from K ctx steps hrest⟩

end

end BuiltinStep

section Assembled

variable {block : BlockContext P} {K : FlashbotsBundle P → Prop}

lemma staging_assembled {c x : Checkpoint P} (h : Assembled block K c) (hx : x ∈ c.historyStaging) :
    Assembled block K x :=
  h.of_mem_history ((OrderBy.staging_within_history c).subset hx)

section AppendOrders

lemma tryInclude_assembled {step : AppendOrders} {ctx : StepContext ε} {order : Order P} {id now : ℕ}
    {run : Pool.Run P} (horder : ∀ b, order = .bundle b → K b) (h : Assembled block K run.payload) :
    Assembled block K (run.tryInclude step ctx order id now).payload := by
  rw [Run.tryInclude]
  dsimp only
  split
  · exact h
  · cases hx : order.tryIntoExecutable with
    | error e => exact h
    | ok executable =>
      have hadmits : Admits K executable := by
        cases order with
        | transaction tx =>
          cases hx
          exact admits_transaction K tx
        | bundle b =>
          cases hx
          exact admits_bundle (horder b rfl)
      dsimp only
      split
      · exact h
      · next candidate ha =>
        split
        · exact h
        · exact h.apply hadmits ha

lemma appendOrders_assembled {step : AppendOrders} {attempted : Finset B256} {call : StepCall P ε}
    {c : Checkpoint P}
    (hc : (step.step attempted call).2.flow.checkpoint = some c) (horders : ∀ b, .bundle b ∈ call.orders → K b)
    (h : Assembled block K call.payload) : Assembled block K c := by
  have hpull : Assembled block K
      (step.pull call call.orders 0 attempted (Run.new step call.ctx call.payload)).2.payload := by
    apply AppendOrders.pull_keeps_invariant fun _ r => Assembled block K r.payload
    · exact fun order _ tick attempted r hr _ => hr
    · intro order ho tick attempted r hr _
      refine tryInclude_assembled (fun b hb => horders b ?_) hr
      rwa [← hb]
    · exact h
  simp only [AppendOrders.step, Run.finish] at hc
  split at hc
  · cases hc
    exact hpull
  · cases hc
    exact hpull

end AppendOrders

section Priority

variable {Priority : Type} [LE Priority] [PrioritizedOrderpoolPriority Priority (BundleWithNonces P)]

omit [LE Priority] in
lemma pullPending_held {pending : List (FlashbotsBundle P)} (payload : Checkpoint P)
    {orderpool : PrioritizedOrderpool B256 Priority (BundleWithNonces P)} (hpending : ∀ b ∈ pending, K b)
    (h : orderpool.AllHeld fun order => K order.bundle) :
    (AppendOrdersByPriority.pullPending pending payload orderpool).AllHeld fun order => K order.bundle := by
  induction pending generalizing orderpool with
  | nil => exact h
  | cons b pending ih =>
    obtain ⟨hb, hrest⟩ := List.forall_mem_cons.mp hpending
    have hnew : K (BundleWithNonces.new b).bundle := hb
    exact ih hrest (h.insertOrder payload.nonceOf hnew)

lemma appendAll_assembled (call : PriorityCall P Priority) (fuel : ℕ)
    {orderpool : PrioritizedOrderpool B256 Priority (BundleWithNonces P)} {payload c : Checkpoint P}
    (hheld : orderpool.AllHeld fun order => K order.bundle) (hp : Assembled block K payload)
    (h : AppendOrdersByPriority.appendAll call fuel orderpool payload = some (.ok c)) : Assembled block K c := by
  induction fuel generalizing orderpool payload with
  | zero => cases h
  | succ fuel ih =>
    rw [AppendOrdersByPriority.appendAll] at h
    split at h
    · cases h
    · cases h
      exact hp
    · next order popped hpop =>
      obtain ⟨horder, hpopped⟩ := hheld.popOrder hpop
      split at h
      · exact ih hpopped hp h
      · next new ha =>
        split at h
        · cases h
        · next r updated hu =>
          exact ih (hpopped.updateOnchainNonces hu) (hp.apply (admits_bundle (horder order rfl)) ha) h

end Priority

section OrderBy

variable {Score E : Type} [LinearOrder Score]

lemma sorted_mem {score : Checkpoint P → Except E Score} {visit : MapOrder (B256 × Checkpoint P)}
    {span : List (Checkpoint P)} {s : SortedOrders P Score} (h : SortedOrders.tryFrom score visit span = .ok s) :
    ∀ c ∈ s.intoIter, c ∈ span := by
  have hcollected : ∀ e ∈ SortedOrders.collectOrders span, e.2 ∈ span := fun e he =>
    List.mem_of_mem_filter (SortedOrders.mem_entries.mp (SortedOrders.collectOrders_mem he)).1
  obtain ⟨byScore, -, h⟩ := bind_eq_ok.mp h
  obtain rfl := Except.ok.inj h
  refine SortedOrders.drain_forall (fun s => ∀ e ∈ s.allOrders, e.2 ∈ span) ?_ _ hcollected
  intro s best hs hp
  obtain ⟨sc, hash, i, hs', -, horder, -⟩ := SortedOrders.popBest_eq hp
  refine ⟨hs _ (SortedOrders.order_mem horder), fun e he => ?_⟩
  rw [hs', SortedOrders.removeOrder] at he
  split at he
  · exact hs e he
  · exact hs e (List.mem_of_mem_filter he)

lemma reapply_assembled (hK : Hereditary K) (fresh : ℕ → ℕ × ℕ) {items : List (Checkpoint P)} {p p' : Checkpoint P}
    (hitems : ∀ item ∈ items, Assembled block K item) (hp : Assembled block K p)
    (h : OrderBy.reapply fresh items p = .ok p') : Assembled block K p' := by
  induction items generalizing p with
  | nil =>
    cases h
    exact hp
  | cons item items ih =>
    obtain ⟨hitem, hrest⟩ := List.forall_mem_cons.mp hitems
    obtain ⟨executable, hx, q, ha, h⟩ := OrderBy.reapply_cons_ok.mp h
    have hadmits : Admits K executable := by
      cases hr : item.result with
      | none => simp [tryIntoExecutable, asTransaction, asBundle, hr] at hx
      | some result =>
        obtain rfl := Except.ok.inj ((OrderBy.tryIntoExecutable_eq hr).1.symm.trans hx)
        exact hitem.recorded_source hK hr
    exact ih hrest (hp.apply hadmits ha) h

lemma orderBy_assembled (hK : Hereditary K) {score : Checkpoint P → Except E Score}
    {visit : MapOrder (B256 × Checkpoint P)} {fresh : ℕ → ℕ × ℕ} {payload c : Checkpoint P}
    {flow : ControlFlow (Checkpoint P) (OrderByError P E)} (hp : Assembled block K payload)
    (h : OrderBy.step score visit fresh payload = .ok flow) (hc : flow.checkpoint = some c) :
    Assembled block K c := by
  rw [OrderBy.step] at h
  dsimp only at h
  split at h
  · cases h
    cases hc
  · next sorted hs =>
    split at h
    · cases h
      cases hc
      exact hp
    · split at h
      · cases h
      · next orderedPrefix hprefix =>
        split at h
        · cases h
          cases hc
        · next p hr =>
          split at h
          · cases h
            cases hc
            have hitems : ∀ item ∈ sorted.intoIter, Assembled block K item := fun item hi =>
              staging_assembled hp (sorted_mem hs item hi)
            exact reapply_assembled hK fresh (fun item hi => hitems item (List.mem_of_mem_drop hi))
              (staging_assembled hp (List.mem_of_getElem? hprefix)) hr
          · cases h

end OrderBy

section Revert

open RemoveRevertedTransactions

lemma optionalFailedTxs_optional (bundle : FlashbotsBundle P) (checkpoint : Checkpoint P) :
    ∀ hash ∈ (optionalFailedTxs bundle checkpoint).map Prod.fst, bundle.isOptional hash = true := by
  intro hash hmem
  obtain ⟨e, he, rfl⟩ := List.mem_map.mp hmem
  obtain ⟨failed, -, hfailed⟩ := List.mem_filterMap.mp he
  split at hfailed
  · next hopt =>
    cases hfailed
    exact hopt
  · cases hfailed

lemma extendWithBundle_assembled (hK : Hereditary K) (fresh : ℕ → ℕ × ℕ) (checkpoint : Checkpoint P)
    (bundle : FlashbotsBundle P) (sweep : Sweep P) (hb : K bundle) (h : Assembled block K sweep.validPrefix) :
    Assembled block K (extendWithBundle fresh checkpoint bundle sweep).validPrefix := by
  induction bundle, sweep using extendWithBundle.induct fresh with
  | case1 bundle sweep e ha =>
    rw [extendWithBundle, ha]
    exact h
  | case2 bundle sweep new ha hempty =>
    rw [extendWithBundle, ha]
    simp only [hempty, if_true]
    exact h.apply (admits_bundle hb) ha
  | case3 bundle sweep new ha hempty hashes gas reduced ih =>
    rw [extendWithBundle, ha]
    simp only [hempty]
    exact ih (hK bundle reduced ⟨hashes, optionalFailedTxs_optional bundle new, rfl⟩ hb) h

lemma extendWithTransaction_assembled (fresh : ℕ → ℕ × ℕ) (tx : Transaction P) {sweep : Sweep P}
    (h : Assembled block K sweep.validPrefix) :
    Assembled block K (extendWithTransaction fresh tx sweep).validPrefix := by
  rw [extendWithTransaction]
  split
  · exact h
  · next new ha =>
    split
    · exact h
    · exact h.apply (admits_transaction K tx) ha

lemma asBundle_recorded {x : Checkpoint P} {bundle : FlashbotsBundle P} (h : x.asBundle = some bundle) :
    ∃ result, x.result = some result ∧ result.source = .bundle bundle := by
  rw [asBundle] at h
  cases hr : x.result with
  | none => simp [hr] at h
  | some result =>
    refine ⟨result, rfl, ?_⟩
    rw [hr, Option.map_some] at h
    cases hs : result.source with
    | transaction tx => simp [hs] at h
    | bundle b => simpa [hs] using h

lemma extendWith_assembled (hK : Hereditary K) (fresh : ℕ → ℕ × ℕ) {sweep : Sweep P} {checkpoint : Checkpoint P}
    (hx : Assembled block K checkpoint) (h : Assembled block K sweep.validPrefix) :
    Assembled block K (extendWith fresh sweep checkpoint).validPrefix := by
  rw [extendWith]
  split
  · exact extendWithTransaction_assembled fresh _ h
  · split
    · next bundle hbundle =>
      obtain ⟨result, hr, hsource⟩ := asBundle_recorded hbundle
      exact extendWithBundle_assembled hK fresh checkpoint bundle sweep (hx.recorded_source hK hr bundle hsource) h
    · exact h

lemma sweep_assembled (hK : Hereditary K) (fresh : ℕ → ℕ × ℕ) {remaining : List (Checkpoint P)} {sweep : Sweep P}
    (hremaining : ∀ x ∈ remaining, Assembled block K x) (h : Assembled block K sweep.validPrefix) :
    Assembled block K (remaining.foldl (extendWith fresh) sweep).validPrefix := by
  induction remaining generalizing sweep with
  | nil => exact h
  | cons checkpoint remaining ih =>
    obtain ⟨hx, hrest⟩ := List.forall_mem_cons.mp hremaining
    exact ih hrest (extendWith_assembled hK fresh hx h)

lemma removeReverted_assembled (hK : Hereditary K) {fresh : ℕ → ℕ × ℕ} {perJob : PerJobCounters}
    {payload : Checkpoint P} {sweep : Sweep P} (hp : Assembled block K payload)
    (h : RemoveRevertedTransactions.step fresh perJob payload = .ok sweep) :
    Assembled block K sweep.validPrefix := by
  rw [RemoveRevertedTransactions.step] at h
  split at h
  · cases h
    exact hp
  · dsimp only at h
    split at h
    · cases h
      exact hp
    · next prefixLen hf =>
      split at h
      · cases h
      · next baseline hb =>
        cases h
        refine sweep_assembled hK fresh (fun x hx => staging_assembled hp (List.mem_of_mem_drop hx)) ?_
        exact staging_assembled hp (List.mem_of_mem_take (List.mem_of_getLast? hb))

end Revert

section BlockEnds

variable {τ β : Type}

lemma applyAll_assembled (op : OptimismPrologue P τ ε) (limits : Limits ε) (fresh : ℕ → ℕ × ℕ) (txs : List τ)
    (gasUsed daBytesUsed : ℕ) {payload c : Checkpoint P} (hp : Assembled block K payload)
    (h : op.applyAll limits fresh txs gasUsed daBytesUsed payload = .ok c) : Assembled block K c := by
  induction txs generalizing gasUsed daBytesUsed payload with
  | nil =>
    cases h
    exact hp
  | cons tx txs ih =>
    rw [OptimismPrologue.applyAll] at h
    split at h
    · cases h
    · next next ha =>
      have hnext : Assembled block K next := by
        rw [OptimismPrologue.apply] at ha
        split at ha
        · cases ha
        · exact hp.apply (admits_transaction K _) ha
      split at h
      · cases h
      · split at h
        · exact ih _ _ hnext h
        · split at h
          · cases h
          · exact ih _ _ hnext h

lemma prologue_assembled {op : OptimismPrologue P τ ε} {transactions : List τ} {ctx : StepContext ε}
    {fresh : ℕ → ℕ × ℕ} {payload c : Checkpoint P} (hp : Assembled block K payload)
    (h : (op.step transactions ctx fresh payload).checkpoint = some c) : Assembled block K c := by
  rw [OptimismPrologue.step] at h
  split at h
  · cases h
  · split at h
    · cases h
    · next applied ha =>
      have happlied := applyAll_assembled op ctx.limits fresh transactions 0 0 hp ha
      split at h
      · cases h
        exact happlied.barrier _ _
      · cases h
        exact happlied

lemma epilogue_assembled {self : BuilderEpilogue P β} {there : BlockContext P} {id now : ℕ}
    {payload c : Checkpoint P}
    (hp : Assembled block K payload) (h : (self.step there id now payload).checkpoint = some c) :
    Assembled block K c := by
  rw [BuilderEpilogue.step] at h
  split at h
  · next new ha =>
    cases h
    obtain ⟨signerNonce, -, ha⟩ := bind_eq_ok.mp ha
    obtain ⟨signedTx, -, ha⟩ := bind_eq_ok.mp ha
    cases hr : payload.apply (.transaction signedTx) id now with
    | error e =>
      rw [hr] at ha
      cases ha
    | ok p =>
      rw [hr] at ha
      cases ha
      exact hp.apply (admits_transaction K signedTx) hr
  · split at h
    · cases h
    · cases h
      exact hp

end BlockEnds

end Assembled

section Combinators

variable {Ck Err : Type}

def Preserves (q : Ck → Prop) (behaviour : Behaviour Ck Err) : Prop :=
  ∀ payload flow c, behaviour payload = some flow → flow.checkpoint = some c → q payload → q c

lemma chain_preserves {q : Ck → Prop} {ctx : StepContext ε} {clock : ℕ → ℕ} {behaviours : List (Behaviour Ck Err)}
    (hb : ∀ behaviour ∈ behaviours, Preserves q behaviour) : Preserves q (Chain.step ctx clock behaviours) := by
  induction behaviours with
  | nil =>
    intro payload flow c h hc hp
    rw [Chain.step] at h
    split at h <;>
    · cases h
      cases hc
      exact hp
  | cons behaviour behaviours ih =>
    obtain ⟨hfirst, hrest⟩ := List.forall_mem_cons.mp hb
    intro payload flow c h hc hp
    rw [Chain.step] at h
    split at h
    · cases h
      cases hc
      exact hp
    · split at h
      · cases h
      · next next hn => exact ih hrest next flow c h hc (hfirst payload _ next hn rfl hp)
      · next next hn =>
        cases h
        exact hfirst payload _ c hn hc hp
      · cases h
        cases hc

lemma atomic_preserves {q : Ck → Prop} {ctx : StepContext ε} {clock : ℕ → ℕ} {behaviours : List (Behaviour Ck Err)}
    (hb : ∀ behaviour ∈ behaviours, Preserves q behaviour) : Preserves q (Atomic.step ctx clock behaviours) := by
  have hrun : ∀ initial current flow c, q initial → q current →
      Atomic.run ctx clock initial behaviours current = some flow → flow.checkpoint = some c → q c := by
    intro initial current flow c hi hcur h hc
    induction behaviours generalizing current with
    | nil =>
      rw [Atomic.run] at h
      split at h
      · cases h
        cases hc
        exact hi
      · cases h
        cases hc
        exact hcur
    | cons behaviour behaviours ih =>
      obtain ⟨hfirst, hrest⟩ := List.forall_mem_cons.mp hb
      rw [Atomic.run] at h
      split at h
      · cases h
        cases hc
        exact hi
      · split at h
        · cases h
        · next next hn => exact ih hrest next (hfirst current _ next hn rfl hcur) h
        · cases h
          cases hc
          exact hi
  exact fun payload flow c h hc hp => hrun payload payload flow c hp hp h hc

end Combinators

namespace BuiltinStep

variable {Err : Type} {block : BlockContext P} {K : FlashbotsBundle P → Prop}

mutual

lemma returnsFrom_assembled (hK : Hereditary K) (ctx : StepContext ε) : ∀ (step : BuiltinStep P ε Err)
    {payload c : Checkpoint P} {flow : ControlFlow (Checkpoint P) Err}, ReturnsFrom K ctx step payload flow →
      flow.checkpoint = some c → Assembled block K payload → Assembled block K c
  | .appendOrders step other, payload, c, flow, h, hc, hp => by
    rw [ReturnsFrom] at h
    obtain ⟨attempted, orders, clock, ids, horders, rfl⟩ := h
    rw [boxError_checkpoint] at hc
    exact appendOrders_assembled hc horders hp
  | .appendOrdersByPriority Priority _ _, payload, c, flow, h, hc, hp => by
    rw [ReturnsFrom] at h
    obtain ⟨orderpool, call, output, hheld, hpending, hs, rfl⟩ := h
    cases hc
    exact appendAll_assembled call _ (pullPending_held payload hpending hheld) hp hs
  | .orderBy _ _ _ score other, payload, c, flow, h, hc, hp => by
    rw [ReturnsFrom] at h
    obtain ⟨visit, fresh, output, hs, rfl⟩ := h
    rw [boxError_checkpoint] at hc
    exact orderBy_assembled hK hp hs hc
  | .removeRevertedTransactions, payload, c, flow, h, hc, hp => by
    rw [ReturnsFrom] at h
    obtain ⟨fresh, perJob, sweep, hs, rfl⟩ := h
    cases hc
    exact removeReverted_assembled hK hp hs
  | .optimismPrologue _ step other, payload, c, flow, h, hc, hp => by
    rw [ReturnsFrom] at h
    obtain ⟨transactions, fresh, rfl⟩ := h
    rw [boxError_checkpoint] at hc
    exact prologue_assembled hp hc
  | .builderEpilogue _ step other, payload, c, flow, h, hc, hp => by
    rw [ReturnsFrom] at h
    obtain ⟨there, id, now, rfl⟩ := h
    rw [boxError_checkpoint] at hc
    exact epilogue_assembled hp hc
  | .atomic steps, payload, c, flow, h, hc, hp => by
    rw [ReturnsFrom] at h
    obtain ⟨clock, behaviours, hb, hs⟩ := h
    exact atomic_preserves (behavesFrom_assembled hK ctx steps hb) payload flow c hs hc hp
  | .chain steps, payload, c, flow, h, hc, hp => by
    rw [ReturnsFrom] at h
    obtain ⟨clock, behaviours, hb, hs⟩ := h
    exact chain_preserves (behavesFrom_assembled hK ctx steps hb) payload flow c hs hc hp

lemma behavesFrom_assembled (hK : Hereditary K) (ctx : StepContext ε) : ∀ (steps : List (BuiltinStep P ε Err))
    {behaviours : List (Behaviour (Checkpoint P) Err)}, BehavesFrom K ctx steps behaviours →
      ∀ behaviour ∈ behaviours, Preserves (Assembled block K) behaviour
  | [], behaviours, h => by
    rw [BehavesFrom] at h
    rw [h]
    exact fun behaviour hm => absurd hm List.not_mem_nil
  | step :: steps, behaviours, h => by
    rw [BehavesFrom] at h
    obtain ⟨behaviour, rest, rfl, hreturns, hrest⟩ := h
    refine List.forall_mem_cons.mpr ⟨?_, behavesFrom_assembled hK ctx steps hrest⟩
    intro payload flow c hf hc hp
    exact returnsFrom_assembled hK ctx step (hreturns payload flow hf) hc hp

end

end BuiltinStep

end Rblib.Steps
