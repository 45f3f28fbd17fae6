import Rblib.Pipelines.PayloadRuns
import Rblib.Steps.Combinators

/-! Barriers are final. -/

namespace Rblib.Payload.Checkpoint

open Platform PlatformTypes

variable {P : Type} [PlatformTypes P] {c c' c'' : Checkpoint P}

def Under (c c' : Checkpoint P) : Prop := c ∈ c'.history

lemma Under.below {c c' : Checkpoint P} (h : Under c c') : c.history <+: c'.history := by
  obtain ⟨k, hk⟩ := List.mem_iff_getElem?.mp h
  rw [history_at hk]
  exact List.take_prefix _ _

lemma under_refl (c : Checkpoint P) : Under c c := by
  rw [Under, history, List.mem_reverse]
  cases c <;> exact List.mem_cons_self

lemma Under.trans (h : Under c c') (h' : Under c' c'') : Under c c'' := h'.below.subset h

lemma under_applyWith (c : Checkpoint P) (mutation : Mutation P) (id now : ℕ) :
    Under c (c.applyWith mutation id now) := by
  rw [Under, applyWith, history_next]
  exact List.mem_append_left _ (under_refl c)

lemma under_apply {executable : Executable P} {id now : ℕ} (h : c.apply executable id now = .ok c') :
    Under c c' := by
  obtain ⟨result, -, rfl⟩ := apply_eq h
  exact under_applyWith c _ id now

def KeepsBarriers (c c' : Checkpoint P) : Prop := ∀ b, Under b c → b.isBarrier = true → Under b c'

lemma Under.keepsBarriers (h : Under c c') : KeepsBarriers c c' := fun _ hb _ => hb.trans h

lemma KeepsBarriers.trans (h : KeepsBarriers c c') (h' : KeepsBarriers c' c'') : KeepsBarriers c c'' :=
  fun b hb hbar => h' b (h b hb hbar) hbar

lemma staging_keepsBarriers {x : Checkpoint P} (hx : x ∈ c.historyStaging) : KeepsBarriers c x := by
  intro b hb hbar
  obtain ⟨m, hm⟩ := List.mem_iff_getElem?.mp hb
  obtain ⟨hmlt, hmval⟩ := List.getElem?_eq_some_iff.mp hm
  cases hi : c.history.reverse.findIdx? isBarrier with
  | none =>
    rw [List.findIdx?_eq_none_iff] at hi
    have hnot := hi b (List.mem_reverse.mpr hb)
    rw [hbar] at hnot
    cases hnot
  | some i =>
    obtain ⟨hilt, -, hfirst⟩ := List.findIdx?_eq_some_iff_getElem.mp hi
    have hlen : i < c.history.length := by simpa using hilt
    -- counted from the end, `b` is not before the last barrier
    have hle : i ≤ c.history.length - 1 - m := by
      by_contra hlt
      apply hfirst (c.history.length - 1 - m) (by omega)
      rw [List.getElem_reverse]
      have hback : c.history.length - 1 - (c.history.length - 1 - m) = m := by omega
      simp only [hback, hmval, hbar]
    have hlast : m ≤ c.history.length - 1 - i := by omega
    have hstaging : c.historyStaging = c.history.drop (c.history.length - 1 - i) := by
      simp only [historyStaging, hi]
    rw [hstaging] at hx
    obtain ⟨k, hk⟩ := List.mem_iff_getElem?.mp hx
    rw [List.getElem?_drop] at hk
    have hbelow : m < c.history.length - 1 - i + k + 1 := by omega
    rw [Under, history_at hk, List.mem_iff_getElem?]
    exact ⟨m, by rw [List.getElem?_take_of_lt hbelow, hm]⟩

end Rblib.Payload.Checkpoint

namespace Rblib.Steps

open Platform PlatformTypes Payload Payload.Checkpoint Pipelines Pool Orderpool2 Library

variable {P ε : Type} [PlatformTypes P]

section AppendOrders

lemma tryInclude_under (step : AppendOrders) (ctx : StepContext ε) (order : Order P) (id now : ℕ)
    (run : Pool.Run P) :
    Under run.payload (run.tryInclude step ctx order id now).payload := by
  rw [Run.tryInclude]
  dsimp only
  split
  · exact under_refl _
  · cases order.tryIntoExecutable with
    | error e => exact under_refl _
    | ok executable =>
      dsimp only
      split
      · exact under_refl _
      · next candidate ha =>
        split
        · exact under_refl _
        · exact under_apply ha

lemma pull_under (step : AppendOrders) (call : StepCall P ε) (orders : List (Order P)) (tick : ℕ)
    (attempted : Finset B256) (run : Pool.Run P) :
    Under run.payload (step.pull call orders tick attempted run).2.payload := by
  apply AppendOrders.pull_keeps_invariant fun _ r => Under run.payload r.payload
  · exact fun order _ tick attempted r h _ => h
  · exact fun order _ tick attempted r h _ => h.trans (tryInclude_under step call.ctx order _ _ (r.emit _))
  · exact under_refl _

lemma appendOrders_under {step : AppendOrders} {attempted : Finset B256} {call : StepCall P ε}
    {c : Checkpoint P} (h : (step.step attempted call).2.flow.checkpoint = some c) : Under call.payload c := by
  have hpull := pull_under step call call.orders 0 attempted (Run.new step call.ctx call.payload)
  simp only [AppendOrders.step, Run.finish] at h
  split at h
  · cases h
    exact hpull
  · cases h
    exact hpull

end AppendOrders

section Priority

variable {Priority : Type} [LE Priority] [PrioritizedOrderpoolPriority Priority (BundleWithNonces P)]

lemma appendAll_under (call : PriorityCall P Priority) (fuel : ℕ)
    (orderpool : PrioritizedOrderpool B256 Priority (BundleWithNonces P)) (payload : Checkpoint P)
    {c : Checkpoint P} (h : AppendOrdersByPriority.appendAll call fuel orderpool payload = some (.ok c)) :
    Under payload c := by
  induction fuel generalizing orderpool payload with
  | zero => cases h
  | succ fuel ih =>
    rw [AppendOrdersByPriority.appendAll] at h
    split at h
    · cases h
    · cases h
      exact under_refl _
    · split at h
      · exact ih _ _ h
      · next new ha =>
        split at h
        · cases h
        · exact (under_apply ha).trans (ih _ _ h)

end Priority

section OrderBy

variable {Score E : Type} [LinearOrder Score]

lemma reapply_under (fresh : ℕ → ℕ × ℕ) {items : List (Checkpoint P)} {p p' : Checkpoint P}
    (h : OrderBy.reapply fresh items p = .ok p') : Under p p' := by
  induction items generalizing p with
  | nil =>
    cases h
    exact under_refl _
  | cons item items ih =>
    obtain ⟨executable, -, h⟩ := bind_eq_ok.mp h
    obtain ⟨q, ha, hrest⟩ := bind_eq_ok.mp h
    exact (under_apply ha).trans (ih hrest)

lemma orderBy_keeps {score : Checkpoint P → Except E Score} {visit : MapOrder (B256 × Checkpoint P)}
    {fresh : ℕ → ℕ × ℕ} {payload c : Checkpoint P} {flow : ControlFlow (Checkpoint P) (OrderByError P E)}
    (h : OrderBy.step score visit fresh payload = .ok flow) (hc : flow.checkpoint = some c) :
    KeepsBarriers payload c := by
  rw [OrderBy.step] at h
  dsimp only at h
  split at h
  · cases h
    cases hc
  · split at h
    · cases h
      cases hc
      exact (under_refl _).keepsBarriers
    · split at h
      · cases h
      · next orderedPrefix hp =>
        split at h
        · cases h
          cases hc
        · next p hr =>
          split at h
          · cases h
            cases hc
            exact (staging_keepsBarriers (List.mem_of_getElem? hp)).trans (reapply_under fresh hr).keepsBarriers
          · cases h

end OrderBy

section Revert

open RemoveRevertedTransactions

lemma extendWithBundle_under (fresh : ℕ → ℕ × ℕ) (checkpoint : Checkpoint P) (bundle : FlashbotsBundle P)
    (sweep : Sweep P) : Under sweep.validPrefix (extendWithBundle fresh checkpoint bundle sweep).validPrefix := by
  induction bundle, sweep using extendWithBundle.induct fresh with
  | case1 bundle sweep e ha =>
    rw [extendWithBundle, ha]
    exact under_refl _
  | case2 bundle sweep new ha hempty =>
    rw [extendWithBundle, ha]
    simp only [hempty, if_true]
    exact under_apply ha
  | case3 bundle sweep new ha hempty hashes gas reduced ih =>
    rw [extendWithBundle, ha]
    simp only [hempty]
    exact ih

lemma extendWithTransaction_under (fresh : ℕ → ℕ × ℕ) (tx : Transaction P) (sweep : Sweep P) :
    Under sweep.validPrefix (extendWithTransaction fresh tx sweep).validPrefix := by
  rw [extendWithTransaction]
  split
  · exact under_refl _
  · next new ha =>
    split
    · exact under_refl _
    · exact under_apply ha

lemma extendWith_under (fresh : ℕ → ℕ × ℕ) (sweep : Sweep P) (checkpoint : Checkpoint P) :
    Under sweep.validPrefix (extendWith fresh sweep checkpoint).validPrefix := by
  rw [extendWith]
  split
  · exact extendWithTransaction_under fresh _ sweep
  · split
    · exact extendWithBundle_under fresh checkpoint _ sweep
    · exact under_refl _

lemma sweep_under (fresh : ℕ → ℕ × ℕ) (remaining : List (Checkpoint P)) (sweep : Sweep P) :
    Under sweep.validPrefix (remaining.foldl (extendWith fresh) sweep).validPrefix := by
  induction remaining generalizing sweep with
  | nil => exact under_refl _
  | cons checkpoint remaining ih => exact (extendWith_under fresh sweep checkpoint).trans (ih _)

lemma removeReverted_keeps {fresh : ℕ → ℕ × ℕ} {perJob : PerJobCounters} {payload : Checkpoint P}
    {sweep : Sweep P} (h : RemoveRevertedTransactions.step fresh perJob payload = .ok sweep) :
    KeepsBarriers payload sweep.validPrefix := by
  rw [RemoveRevertedTransactions.step] at h
  split at h
  · cases h
    exact (under_refl _).keepsBarriers
  · dsimp only at h
    split at h
    · cases h
      exact (under_refl _).keepsBarriers
    · next prefixLen hf =>
      split at h
      · cases h
      · next baseline hb =>
        cases h
        have hmem : baseline ∈ payload.historyStaging := List.mem_of_mem_take (List.mem_of_getLast? hb)
        have hswept := sweep_under fresh (payload.historyStaging.drop prefixLen)
          { validPrefix := baseline, perJob }
        exact (staging_keepsBarriers hmem).trans hswept.keepsBarriers

end Revert

section BlockEnds

variable {τ β : Type}

lemma applyAll_under (op : OptimismPrologue P τ ε) (limits : Limits ε) (fresh : ℕ → ℕ × ℕ) (txs : List τ)
    (gasUsed daBytesUsed : ℕ) {payload c : Checkpoint P}
    (h : op.applyAll limits fresh txs gasUsed daBytesUsed payload = .ok c) : Under payload c := by
  induction txs generalizing gasUsed daBytesUsed payload with
  | nil =>
    cases h
    exact under_refl _
  | cons tx txs ih =>
    rw [OptimismPrologue.applyAll] at h
    split at h
    · cases h
    · next next ha =>
      have hunder : Under payload next := by
        rw [OptimismPrologue.apply] at ha
        split at ha
        · cases ha
        · exact under_apply ha
      split at h
      · cases h
      · split at h
        · exact hunder.trans (ih _ _ h)
        · split at h
          · cases h
          · exact hunder.trans (ih _ _ h)

lemma prologue_under {op : OptimismPrologue P τ ε} {transactions : List τ} {ctx : StepContext ε}
    {fresh : ℕ → ℕ × ℕ} {payload c : Checkpoint P}
    (h : (op.step transactions ctx fresh payload).checkpoint = some c) : Under payload c := by
  rw [OptimismPrologue.step] at h
  split at h
  · cases h
  · split at h
    · cases h
    · next applied ha =>
      have hunder := applyAll_under op ctx.limits fresh transactions 0 0 ha
      split at h
      · cases h
        exact hunder.trans (under_applyWith applied _ _ _)
      · cases h
        exact hunder

lemma epilogue_under {self : BuilderEpilogue P β} {block : BlockContext P} {id now : ℕ} {payload c : Checkpoint P}
    (h : (self.step block id now payload).checkpoint = some c) : Under payload c := by
  rw [BuilderEpilogue.step] at h
  split at h
  · next new ha =>
    cases h
    obtain ⟨signerNonce, -, ha⟩ := bind_eq_ok.mp ha
    obtain ⟨signedTx, -, ha⟩ := bind_eq_ok.mp ha
    cases hr : payload.apply (.transaction signedTx) id now with
    | error e =>
      rw [hr] at ha
      cases ha
    | ok p =>
      rw [hr] at ha
      cases ha
      exact under_apply hr
  · split at h
    · cases h
    · cases h
      exact under_refl _

end BlockEnds

section Combinators

variable {Err Err' : Type}

lemma boxError_checkpoint (other : Err' → Err) (flow : ControlFlow (Checkpoint P) Err') :
    (boxError other flow).checkpoint = flow.checkpoint := by
  cases flow <;> rfl

def Keeps (behaviour : Behaviour (Checkpoint P) Err) : Prop :=
  ∀ payload flow c, behaviour payload = some flow → flow.checkpoint = some c → KeepsBarriers payload c

lemma chain_keeps {ctx : StepContext ε} {clock : ℕ → ℕ} {behaviours : List (Behaviour (Checkpoint P) Err)}
    (hb : ∀ behaviour ∈ behaviours, Keeps behaviour) : Keeps (Chain.step ctx clock behaviours) := by
  induction behaviours with
  | nil =>
    intro payload flow c h hc
    rw [Chain.step] at h
    split at h <;>
    · cases h
      cases hc
      exact (under_refl _).keepsBarriers
  | cons behaviour behaviours ih =>
    obtain ⟨hfirst, hrest⟩ := List.forall_mem_cons.mp hb
    intro payload flow c h hc
    rw [Chain.step] at h
    split at h
    · cases h
      cases hc
      exact (under_refl _).keepsBarriers
    · split at h
      · cases h
      · next next hn => exact (hfirst payload _ next hn rfl).trans (ih hrest next flow c h hc)
      · next next hn =>
        cases h
        exact hfirst payload _ c hn hc
      · cases h
        cases hc

lemma atomic_run_keeps {ctx : StepContext ε} {clock : ℕ → ℕ} {initial : Checkpoint P}
    {behaviours : List (Behaviour (Checkpoint P) Err)} (hb : ∀ behaviour ∈ behaviours, Keeps behaviour)
    {current c : Checkpoint P} {flow : ControlFlow (Checkpoint P) Err} (hcur : KeepsBarriers initial current)
    (h : Atomic.run ctx clock initial behaviours current = some flow) (hc : flow.checkpoint = some c) :
    KeepsBarriers initial c := by
  induction behaviours generalizing current with
  | nil =>
    rw [Atomic.run] at h
    split at h
    · cases h
      cases hc
      exact (under_refl _).keepsBarriers
    · cases h
      cases hc
      exact hcur
  | cons behaviour behaviours ih =>
    obtain ⟨hfirst, hrest⟩ := List.forall_mem_cons.mp hb
    rw [Atomic.run] at h
    split at h
    · cases h
      cases hc
      exact (under_refl _).keepsBarriers
    · split at h
      · cases h
      · next next hn => exact ih hrest (hcur.trans (hfirst current _ next hn rfl)) h
      · cases h
        cases hc
        exact (under_refl _).keepsBarriers

end Combinators

namespace BuiltinStep

variable {Err : Type} {ctx : StepContext ε}

mutual

lemma returns_keeps (ctx : StepContext ε) : ∀ (step : BuiltinStep P ε Err) {payload c : Checkpoint P}
    {flow : ControlFlow (Checkpoint P) Err}, Returns ctx step payload flow → flow.checkpoint = some c →
      KeepsBarriers payload c
  | .appendOrders step other, payload, c, flow, h, hc => by
    rw [Returns] at h
    obtain ⟨attempted, orders, clock, ids, rfl⟩ := h
    rw [boxError_checkpoint] at hc
    exact (appendOrders_under hc).keepsBarriers
  | .appendOrdersByPriority Priority _ _, payload, c, flow, h, hc => by
    rw [Returns] at h
    obtain ⟨orderpool, call, output, hs, rfl⟩ := h
    cases hc
    exact (appendAll_under call _ _ _ hs).keepsBarriers
  | .orderBy _ _ _ score other, payload, c, flow, h, hc => by
    rw [Returns] at h
    obtain ⟨visit, fresh, output, hs, rfl⟩ := h
    rw [boxError_checkpoint] at hc
    exact orderBy_keeps hs hc
  | .removeRevertedTransactions, payload, c, flow, h, hc => by
    rw [Returns] at h
    obtain ⟨fresh, perJob, sweep, hs, rfl⟩ := h
    cases hc
    exact removeReverted_keeps hs
  | .optimismPrologue _ step other, payload, c, flow, h, hc => by
    rw [Returns] at h
    obtain ⟨transactions, fresh, rfl⟩ := h
    rw [boxError_checkpoint] at hc
    exact (prologue_under hc).keepsBarriers
  | .builderEpilogue _ step other, payload, c, flow, h, hc => by
    rw [Returns] at h
    obtain ⟨block, id, now, rfl⟩ := h
    rw [boxError_checkpoint] at hc
    exact (epilogue_under hc).keepsBarriers
  | .atomic steps, payload, c, flow, h, hc => by
    rw [Returns] at h
    obtain ⟨clock, behaviours, hb, hs⟩ := h
    exact atomic_run_keeps (behaves_keeps ctx steps hb) (under_refl payload).keepsBarriers hs hc
  | .chain steps, payload, c, flow, h, hc => by
    rw [Returns] at h
    obtain ⟨clock, behaviours, hb, hs⟩ := h
    exact chain_keeps (behaves_keeps ctx steps hb) payload flow c hs hc

lemma behaves_keeps (ctx : StepContext ε) : ∀ (steps : List (BuiltinStep P ε Err))
    {behaviours : List (Behaviour (Checkpoint P) Err)}, Behaves ctx steps behaviours →
      ∀ behaviour ∈ behaviours, Keeps behaviour
  | [], behaviours, h => by
    rw [Behaves] at h
    rw [h]
    exact fun behaviour hm => absurd hm List.not_mem_nil
  | step :: steps, behaviours, h => by
    rw [Behaves] at h
    obtain ⟨behaviour, rest, rfl, hreturns, hrest⟩ := h
    refine List.forall_mem_cons.mpr ⟨?_, behaves_keeps ctx steps hrest⟩
    intro payload flow c hf hc
    exact returns_keeps ctx step (hreturns payload flow hf) hc

end

end BuiltinStep

section Runs

variable {σ Err Pl : Type} [LimitExtension ε]

/-- In a run whose steps are steps of the library, alone or combined, a barrier that a payload was built on
stays under every later payload, and under the checkpoint that the result is built from. -/
theorem barriers_final (job : Job σ (Checkpoint P) ε Err Pl) (kind : σ → BuiltinStep P ε Err)
    {exec exec' : PipelineExecutor σ (Checkpoint P) ε Err Pl}
    (hrun : Relation.ReflTransGen
      (PipelineExecutor.Follows (fun step ctx input output => (kind step).Returns ctx input output) job)
      exec exec')
    {payload b : Checkpoint P} (hp : exec.cursor.payload = some payload) (hb : b ∈ payload.history)
    (hbarrier : b.isBarrier = true) :
    (∀ later, exec'.cursor.payload = some later → b ∈ later.history ∧ b.history <+: later.history) ∧
    ∀ built, exec'.cursor.output = some (.ok built) →
      ∃ last, job.buildPayload last = .ok built ∧ b ∈ last.history ∧ b.history <+: last.history := by
  have hkeeps : ∀ step ctx input output ck, (kind step).Returns ctx input output → output.checkpoint = some ck →
      Under b input → Under b ck := by
    intro step ctx input output ck hr hck hi
    exact BuiltinStep.returns_keeps ctx (kind step) hr hck b hi hbarrier
  have hcarries := PipelineExecutor.carries_run hkeeps hrun (PipelineExecutor.carries_payload hp hb)
  refine ⟨fun later hl => ?_, fun built ho => ?_⟩
  · have hunder := hcarries.payload later hl
    exact ⟨hunder, hunder.below⟩
  · obtain ⟨last, hunder, hbuilt⟩ := hcarries.built built ho
    exact ⟨last, hbuilt, hunder, hunder.below⟩

end Runs

section Examples

def signature : BuilderEpilogue Devnet Unit where
  signer := 5
  messageFn _ := "built here"
  chainId _ := 1
  baseFee _ := 7
  buildSigned request := .ok (PlainTx.mk 1 5 request.nonce)

def signedJob : Job ℕ (Checkpoint Devnet) Unit Unit ℕ where
  pipeline := ⟨(Pipeline.default.withStep 0).withStep 1, Pipeline.fits_of_checkAll (by decide)⟩
  platformLimits := ⟨30000000, none, none, some 12000000000, ()⟩
  start := Checkpoint.newAtBlock Devnet.block 0 0
  buildPayload c := .ok c.depth

def signedKind : ℕ → BuiltinStep Devnet Unit Unit
  | 0 => .builderEpilogue Unit signature fun _ => ()
  | _ => .atomic [.removeRevertedTransactions]

theorem signedJob_keeps_start : ∃ exec exec' later,
    exec.cursor.payload = some signedJob.start ∧
    Relation.ReflTransGen (PipelineExecutor.Follows
      (fun step ctx input output => (signedKind step).Returns ctx input output) signedJob) exec exec' ∧
    exec'.cursor.payload = some later ∧ later.transactions.length = 1 ∧ signedJob.start ∈ later.history := by
  let signed := boxError (fun _ => ()) (signature.step Devnet.block 1 1 signedJob.start)
  obtain ⟨scope₁, scope₂, ctx, later, h₁, h₂, h₃, hlen⟩ : ∃ scope₁ scope₂ ctx later,
      PipelineExecutor.poll signedJob (.initialized (.ok ()) 0) (PipelineExecutor.run signedJob) =
        .ok ⟨.beforeStep [1] signedJob.start, scope₁⟩ ∧
      PipelineExecutor.poll signedJob .started ⟨.beforeStep [1] signedJob.start, scope₁⟩ =
        .ok ⟨.stepInProgress [1] 0 signedJob.start ctx, scope₁⟩ ∧
      PipelineExecutor.poll signedJob (.stepReady signed 3) ⟨.stepInProgress [1] 0 signedJob.start ctx, scope₁⟩ =
        .ok ⟨.beforeStep [2] later, scope₂⟩ ∧
      later.transactions.length = 1 :=
    ⟨_, _, _, _, rfl, rfl, rfl, rfl⟩
  have hrun : Relation.ReflTransGen (PipelineExecutor.Follows
      (fun step ctx input output => (signedKind step).Returns ctx input output) signedJob)
      ⟨.beforeStep [1] signedJob.start, scope₁⟩ ⟨.beforeStep [2] later, scope₂⟩ := by
    refine .tail (.tail .refl ⟨.started, h₂, ?_⟩) ⟨.stepReady signed 3, h₃, ?_⟩
    · intro output now path step input ctx he
      cases he
    · intro output now path step input ctx he hc
      cases he
      cases hc
      rw [signedKind, BuiltinStep.Returns]
      exact ⟨Devnet.block, 1, 1, rfl⟩
  have hfinal := barriers_final signedJob signedKind hrun rfl (under_refl signedJob.start) rfl
  exact ⟨_, _, later, rfl, hrun, rfl, hlen, (hfinal.1 later rfl).1⟩

end Examples

end Rblib.Steps
