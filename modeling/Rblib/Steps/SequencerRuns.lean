import Rblib.Payload.BundleRun
import Rblib.Pipelines.JobRuns
import Rblib.Platform.Optimism
import Rblib.Steps.Barriers

/-! The sequencer transactions of an Optimism block. -/

namespace Rblib.Steps

open Platform PlatformTypes Payload Payload.Checkpoint Pipelines PipelineExecutor Platform.Optimism Library

variable {P τ ε : Type} [PlatformTypes P]

section Prologue

variable {op : OptimismPrologue P τ ε} {txHashOf : τ → B256}

structure Appended (txHashOf : τ → B256) (txs : List τ) (payload c : Checkpoint P) : Prop where
  transactions : (c.history.flatMap transactions).map txHash =
    (payload.history.flatMap Checkpoint.transactions).map txHash ++ txs.map txHashOf
  depth : c.depth = payload.depth + txs.length

lemma apply_appended (hrecover : ∀ tx r, op.tryIntoRecovered tx = some r → txHash r = txHashOf tx) {tx : τ}
    {id now : ℕ} {payload c : Checkpoint P} (h : op.apply tx id now payload = .ok c) :
    Appended txHashOf [tx] payload c := by
  rw [OptimismPrologue.apply] at h
  split at h
  · cases h
  · next r hr =>
    obtain ⟨result, hexec, rfl⟩ := apply_eq h
    obtain ⟨outcome, -, rfl⟩ := execute_transaction_ok hexec
    refine ⟨?_, rfl⟩
    rw [transactions_applyWith, List.map_append, List.map_singleton, ← hrecover tx r hr]
    rfl

lemma Appended.cons {tx : τ} {txs : List τ} {payload next c : Checkpoint P}
    (hone : Appended txHashOf [tx] payload next)
    (hrest : Appended txHashOf txs next c) : Appended txHashOf (tx :: txs) payload c := by
  constructor
  · rw [hrest.transactions, hone.transactions, List.append_assoc]
    rfl
  · have hfirst : next.depth = payload.depth + 1 := hone.depth
    rw [hrest.depth, hfirst, List.length_cons]
    omega

lemma applyAll_appended (hrecover : ∀ tx r, op.tryIntoRecovered tx = some r → txHash r = txHashOf tx)
    (limits : Limits ε) (fresh : ℕ → ℕ × ℕ) (txs : List τ) (gasUsed daBytesUsed : ℕ) {payload c : Checkpoint P}
    (h : op.applyAll limits fresh txs gasUsed daBytesUsed payload = .ok c) : Appended txHashOf txs payload c := by
  induction txs generalizing gasUsed daBytesUsed payload with
  | nil =>
    cases h
    exact ⟨(List.append_nil _).symm, rfl⟩
  | cons tx txs ih =>
    rw [OptimismPrologue.applyAll] at h
    split at h
    · cases h
    · next next ha =>
      have hone := apply_appended hrecover ha
      split at h
      · cases h
      · split at h
        · exact hone.cons (ih _ _ h)
        · split at h
          · cases h
          · exact hone.cons (ih _ _ h)

/-- The sealed part of the payload is the sequencer transactions, in their order. -/
def SealsSequencer (txHashOf : τ → B256) (txs : List τ) (c : Checkpoint P) : Prop :=
  ∃ b, Under b c ∧ b.isBarrier = true ∧ (b.history.flatMap transactions).map txHash = txs.map txHashOf

lemma prologue_seals (hrecover : ∀ tx r, op.tryIntoRecovered tx = some r → txHash r = txHashOf tx) {txs : List τ}
    {ctx : StepContext ε} {fresh : ℕ → ℕ × ℕ} {payload c : Checkpoint P} (hpayload : payload.isBarrier = true)
    (h : (op.step txs ctx fresh payload).checkpoint = some c) : SealsSequencer txHashOf txs c := by
  rw [OptimismPrologue.step] at h
  split at h
  · cases h
  · next hnone =>
    have hempty : payload.history.flatMap transactions = [] := by
      rw [← List.length_eq_zero_iff]
      omega
    split at h
    · cases h
    · next applied ha =>
      obtain ⟨htxs, hdepth⟩ := applyAll_appended hrecover ctx.limits fresh txs 0 0 ha
      rw [hempty, List.map_nil, List.nil_append] at htxs
      split at h
      · cases h
        refine ⟨_, under_refl _, rfl, ?_⟩
        rw [Checkpoint.barrier, transactions_applyWith, List.map_append, htxs]
        exact List.append_nil _
      · cases h
        refine ⟨_, under_refl _, ?_, htxs⟩
        have hnil : txs = [] := by
          rw [← List.length_eq_zero_iff]
          omega
        subst hnil
        cases ha
        exact hpayload

lemma SealsSequencer.extract {txs : List τ} {c : Checkpoint P} (h : SealsSequencer txHashOf txs c) :
    (c.history.flatMap transactions).map txHash =
      txs.map txHashOf ++ (extractExternalTxs txHashOf txs c).map txHash := by
  obtain ⟨b, hunder, -, hsealed⟩ := h
  obtain ⟨rest, hrest⟩ := hunder.below
  have hall : (Span.history c).transactions = b.history.flatMap transactions ++ rest.flatMap transactions := by
    change c.history.flatMap transactions = _
    rw [← hrest, List.flatMap_append]
  have hprefix : prefixLen (txs.map txHashOf) (Span.history c).transactions =
      (b.history.flatMap transactions).length := by
    have hbeyond : ∀ ys : List B256, agreements [] ys = 0 := fun ys => by cases ys <;> rfl
    rw [hall, prefixLen_eq, List.map_append, agreements_append, hsealed, List.drop_length, hbeyond,
      (agreements_eq_length_iff _ _).mpr (List.prefix_refl _), ← hsealed, List.length_map, Nat.add_zero]
  rw [extractExternalTxs, hprefix, hall, List.drop_left, ← hsealed, ← List.map_append, ← hall]
  rfl

end Prologue

section Runs

variable {σ Err Pl : Type} [LimitExtension ε] {block : BlockContext P} {id now : ℕ}

def SequencerFirst (first : σ) (op : OptimismPrologue P τ ε) (other : PrologueError P τ → Err) (txs : List τ)
    (kind : σ → BuiltinStep P ε Err) (step : σ) (ctx : StepContext ε) (input : Checkpoint P)
    (output : ControlFlow (Checkpoint P) Err) : Prop :=
  (kind step).Returns ctx input output ∧
    (step = first → ∃ fresh, output = boxError other (op.step txs ctx fresh input))

/-- Once the prologue has appended the sequencer transactions, every payload and the one the block
is built from are these transactions followed by what the builder is asked to add. -/
theorem sequencer_transactions_kept {first : σ} (op : OptimismPrologue P τ ε) (other : PrologueError P τ → Err)
    {txHashOf : τ → B256} (hrecover : ∀ tx r, op.tryIntoRecovered tx = some r → txHash r = txHashOf tx)
    (txs : List τ) (job : Job σ (Checkpoint P) ε Err Pl) (kind : σ → BuiltinStep P ε Err)
    (hprologue : job.pipeline.root.prologue = some first) (hstart : job.start = newAtBlock block id now)
    {exec : PipelineExecutor σ (Checkpoint P) ε Err Pl}
    (hrun : JobRun (SequencerFirst first op other txs kind) job exec) :
    Opening job first exec.cursor ∨ (∀ payload, exec.cursor.payload = some payload →
      (payload.history.flatMap transactions).map txHash =
        txs.map txHashOf ++ (extractExternalTxs txHashOf txs payload).map txHash) ∧
    ∀ built, exec.cursor.output = some (.ok built) → ∃ last, job.buildPayload last = .ok built ∧
      (last.history.flatMap transactions).map txHash =
        txs.map txHashOf ++ (extractExternalTxs txHashOf txs last).map txHash := by
  have hfirst : ∀ (ctx : StepContext ε) (output : ControlFlow (Checkpoint P) Err) (ck : Checkpoint P),
      SequencerFirst first op other txs kind first ctx job.start output → output.checkpoint = some ck →
        SealsSequencer txHashOf txs ck := by
    rintro ctx output ck ⟨-, hreturns⟩ hck
    obtain ⟨fresh, rfl⟩ := hreturns rfl
    rw [boxError_checkpoint] at hck
    have hbarrier : job.start.isBarrier = true := by rw [hstart]; rfl
    exact prologue_seals hrecover hbarrier hck
  have hkeeps : ∀ (step : σ) (ctx : StepContext ε) (input : Checkpoint P) (output : ControlFlow (Checkpoint P) Err)
      (ck : Checkpoint P), SequencerFirst first op other txs kind step ctx input output →
        output.checkpoint = some ck →
        SealsSequencer txHashOf txs input → SealsSequencer txHashOf txs ck := by
    rintro step ctx input output ck ⟨hreturns, -⟩ hck ⟨b, hunder, hbarrier, hsealed⟩
    exact ⟨b, BuiltinStep.returns_keeps ctx (kind step) hreturns hck b hunder hbarrier, hbarrier, hsealed⟩
  refine (hrun.after_prologue hprologue hfirst hkeeps).imp_right fun hcarries =>
    ⟨fun payload hp => ?_, fun built hb => ?_⟩
  · exact (hcarries.payload payload hp).extract
  · obtain ⟨last, hlast, hbuilt⟩ := hcarries.built built hb
    exact ⟨last, hbuilt, hlast.extract⟩

end Runs

section Examples

def sequencer : OptimismPrologue Devnet PlainTx Unit where
  tryIntoRecovered := some
  isDeposit _ := true
  txEstimatedSizeFjordBytes _ := 0
  limitsExt _ := ⟨none, none, none⟩

def sequencerJob : Job ℕ (Checkpoint Devnet) Unit Unit (Checkpoint Devnet) where
  pipeline := ⟨(Pipeline.default.withPrologue 0).withStep 1, Pipeline.fits_of_checkAll (by decide)⟩
  platformLimits := ⟨30000000, none, none, some 12000000000, ()⟩
  start := Checkpoint.newAtBlock Devnet.block 0 0
  buildPayload c := .ok c

def sequencerKind : ℕ → BuiltinStep Devnet Unit Unit
  | 0 => .optimismPrologue PlainTx sequencer fun _ => ()
  | _ => .appendOrders {} fun _ => ()

def sequencerIds (n : ℕ) : ℕ × ℕ := (n + 1, n + 1)

lemma sequencer_next {scope : RootScope (Checkpoint Devnet) Unit} (hscope : scope.current = [])
    (payload : Checkpoint Devnet) (now : ℕ) :
    advanceCursor sequencerJob scope [0] (.ok payload) now = .ok ⟨.beforeStep [1] payload, scope⟩ := by
  have hnav : StepPath.navigator [0] sequencerJob.pipeline.root =
      .ok (some (StepNavigator.at_ [] sequencerJob.pipeline.root PROLOGUE_INDEX)) := rfl
  have hnext : (StepNavigator.at_ [] sequencerJob.pipeline.root PROLOGUE_INDEX).nextOk =
      .ok (some (StepNavigator.at_ [] sequencerJob.pipeline.root 1)) := by
    rw [StepNavigator.nextOk_prologue, StepNavigator.afterPrologue_at]
    rfl
  rw [advanceCursor_ok hnav hnext, schedule_root hscope]

def external : PlainTx := ⟨23, 9, 0⟩

theorem sequencerJob_kept : ∃ payload : Checkpoint Devnet,
    (payload.history.flatMap transactions).map PlainTx.hash = [21, 22, 23] ∧
    (payload.history.flatMap transactions).map txHash =
      [21, 22] ++ (extractExternalTxs PlainTx.hash [Devnet.first, Devnet.second] payload).map txHash := by
  obtain ⟨scope, ctx, ctx', opened, payload, hcurrent, h₁, h₂, h₄, hopens, happends, hhashes⟩ :
      ∃ scope ctx ctx' opened payload, scope.current = [] ∧
      PipelineExecutor.poll sequencerJob (.initialized (.ok ()) 0) (PipelineExecutor.run sequencerJob) =
        .ok ⟨.beforeStep [0] sequencerJob.start, scope⟩ ∧
      PipelineExecutor.poll sequencerJob .started ⟨.beforeStep [0] sequencerJob.start, scope⟩ =
        .ok ⟨.stepInProgress [0] 0 sequencerJob.start ctx, scope⟩ ∧
      PipelineExecutor.poll sequencerJob .started ⟨.beforeStep [1] opened, scope⟩ =
        .ok ⟨.stepInProgress [1] 1 opened ctx', scope⟩ ∧
      sequencer.step [Devnet.first, Devnet.second] ctx sequencerIds sequencerJob.start = .ok opened ∧
      (Pool.AppendOrders.step {} ∅ ⟨opened, ctx', [.transaction external], fun _ => 4, fun _ => 4⟩).2.flow =
        .ok payload ∧
      (payload.history.flatMap transactions).map PlainTx.hash = [21, 22, 23] :=
    ⟨_, _, _, _, _, rfl, rfl, rfl, rfl, rfl, rfl, by decide +kernel⟩
  have h₃ : PipelineExecutor.poll sequencerJob (.stepReady (.ok opened) 3)
      ⟨.stepInProgress [0] 0 sequencerJob.start ctx, scope⟩ = .ok ⟨.beforeStep [1] opened, scope⟩ :=
    sequencer_next hcurrent opened 3
  have hfirst : SequencerFirst 0 sequencer (fun _ => ()) [Devnet.first, Devnet.second] sequencerKind 0 ctx
      sequencerJob.start (.ok opened) := by
    have hout : ControlFlow.ok opened = boxError (fun _ => ())
        (sequencer.step [Devnet.first, Devnet.second] ctx sequencerIds sequencerJob.start) := by
      rw [hopens]
      rfl
    refine ⟨?_, fun _ => ⟨sequencerIds, hout⟩⟩
    rw [sequencerKind, BuiltinStep.Returns]
    exact ⟨_, sequencerIds, hout⟩
  have hsecond : SequencerFirst 0 sequencer (fun _ => ()) [Devnet.first, Devnet.second] sequencerKind 1 ctx' opened
      (.ok payload) := by
    refine ⟨?_, nofun⟩
    rw [sequencerKind, BuiltinStep.Returns]
    refine ⟨∅, [.transaction external], fun _ => 4, fun _ => 4, ?_⟩
    rw [happends]
    rfl
    exact nofun
  have hrunning : JobRun (SequencerFirst 0 sequencer (fun _ => ()) [Devnet.first, Devnet.second] sequencerKind)
      sequencerJob ⟨.stepInProgress [1] 1 opened ctx', scope⟩ := by
    refine .tail (.tail (.tail (.tail .refl ⟨_, h₁, ?_⟩) ⟨_, h₂, ?_⟩) ⟨_, h₃, ?_⟩) ⟨_, h₄, ?_⟩
    · intro output now path step input ctx he
      cases he
    · intro output now path step input ctx he
      cases he
    · intro output now path step input ctx he hc
      cases he
      cases hc
      exact hfirst
    · intro output now path step input ctx he
      cases he
  obtain ⟨exec, h₅⟩ := poll_total hrunning.reaches (.stepReady (.ok payload) 5)
  have hrun := hrunning.tail ⟨_, h₅, fun output now path step input ctx he hc => by
    cases he
    cases hc
    exact hsecond⟩
  have hkept := sequencer_transactions_kept sequencer (fun _ => ())
    (fun _ _ h => congrArg PlainTx.hash (Option.some.inj h).symm) [Devnet.first, Devnet.second] sequencerJob
    sequencerKind rfl rfl hrun
  have hnew : payload ≠ sequencerJob.start := by
    rintro rfl
    cases hhashes
  refine ⟨payload, hhashes, ?_⟩
  have hadvanced : advanceCursor sequencerJob scope [1] (.ok payload) 5 = .ok exec := h₅
  obtain ⟨e, he, -⟩ | ⟨c, hc, hnext⟩ := advanceCursor_cases hadvanced
  · cases he
  · cases hc
    obtain rfl | ⟨path, scope', rfl⟩ := hnext
    · obtain hopening | ⟨-, hbuilt⟩ := hkept
      · cases hopening
      · obtain ⟨last, hlast, hkept⟩ := hbuilt payload rfl
        obtain rfl := Except.ok.inj hlast
        exact hkept
    · obtain hopening | ⟨hpayload, -⟩ := hkept
      · cases hopening
        exact absurd rfl hnew
      · exact hpayload payload rfl

end Examples

end Rblib.Steps
