import Rblib.Payload.EmptyBundles
import Rblib.Pipelines.RootEpilogue
import Rblib.Pool.AppendRuns
import Rblib.Steps.OrderSources
import Rblib.Steps.SequencerRuns

/-! Gas that is held back for the builder transaction. -/

namespace Rblib.Steps

open Platform PlatformTypes Payload Payload.Checkpoint Pipelines PipelineExecutor Pool Library

variable {P τ ε β Err : Type} [PlatformTypes P]

namespace BuilderEpilogue

def gasFor (self : BuilderEpilogue P β) (block : BlockContext P) : ℕ :=
  estimateGasForTx (utf8Bytes (self.messageFn block))

def limiter (self : BuilderEpilogue P β) : ScopedLimits (Checkpoint P) ε := fun payload enclosing =>
  Scaled.from { gas := some (.minus (self.gasFor payload.block)) } enclosing

/-- The builder transaction uses no more gas than it asks for. -/
def HonoursGasLimit (self : BuilderEpilogue P β) (block : BlockContext P) : Prop :=
  ∀ signerNonce tx, self.buildSigned (self.request block signerNonce) = .ok tx → ∀ db result,
    (Executable.transaction tx).execute block db = .ok result →
      result.gasUsed ≤ (self.request block signerNonce).gasLimit

end BuilderEpilogue

section Gas

variable {block : BlockContext P} {K : FlashbotsBundle P → Prop} {c payload : Checkpoint P}

lemma gasUsed_of_empty {db : DatabaseRef} {executable : Executable P} {result : ExecutionResult P}
    (h : executable.execute block db = .ok result) (hempty : result.source.transactions = []) :
    result.gasUsed = 0 := by
  cases executable with
  | transaction tx =>
    obtain ⟨r, -, rfl⟩ := execute_transaction_ok h
    cases hempty
  | bundle b =>
    obtain ⟨-, acc, hfold, -⟩ := executeBundle_ok_iff.mp h
    have hemptied := emptied_of_executes h hempty
    obtain ⟨-, acc', hfold', rfl⟩ := executeBundle_ok_iff.mp h
    rw [fold_dropped {} rfl hemptied.dropped] at hfold'
    cases hfold'
    rfl

lemma gas_of_empty (h : Assembled block K c) (hempty : c.history.flatMap transactions = []) :
    c.cumulativeGasUsed = 0 := by
  induction h with
  | start id now => rfl
  | @apply c c' executable id now _ _ ha ih =>
    obtain ⟨result, hr, rfl⟩ := apply_eq ha
    rw [transactions_applyWith, List.append_eq_nil_iff] at hempty
    rw [cumulativeGasUsed_applyWith, ih hempty.1, Nat.zero_add]
    exact gasUsed_of_empty hr hempty.2
  | @barrier c id now _ ih =>
    rw [Checkpoint.barrier, transactions_applyWith, List.append_eq_nil_iff] at hempty
    rw [cumulativeGasUsed, Checkpoint.barrier, applyWith, history_next, List.map_append, List.sum_append]
    exact ih hempty.1

lemma applyAll_gas {op : OptimismPrologue P τ ε} {limits : Limits ε} {fresh : ℕ → ℕ × ℕ} (txs : List τ)
    (gasUsed daBytesUsed : ℕ) (h : op.applyAll limits fresh txs gasUsed daBytesUsed payload = .ok c) :
    c.cumulativeGasUsed + gasUsed ≤ payload.cumulativeGasUsed + max gasUsed limits.gasLimit := by
  induction txs generalizing gasUsed daBytesUsed payload with
  | nil =>
    cases h
    omega
  | cons tx txs ih =>
    rw [OptimismPrologue.applyAll] at h
    split at h
    · cases h
    · next next ha =>
      have hnext : next.cumulativeGasUsed = payload.cumulativeGasUsed + next.gasUsed := by
        rw [OptimismPrologue.apply] at ha
        split at ha
        · cases ha
        · obtain ⟨result, -, rfl⟩ := apply_eq ha
          exact cumulativeGasUsed_applyWith _ _ _ _
      split at h
      · cases h
      · split at h
        · have hrest := ih _ _ h
          omega
        · split at h
          · cases h
          · have hrest := ih _ _ h
            omega

lemma prologue_gas {op : OptimismPrologue P τ ε} {txs : List τ} {ctx : StepContext ε} {fresh : ℕ → ℕ × ℕ}
    (hp : Assembled block K payload) (h : (op.step txs ctx fresh payload).checkpoint = some c) :
    c.cumulativeGasUsed ≤ ctx.limits.gasLimit := by
  rw [OptimismPrologue.step] at h
  split at h
  · cases h
  · next hnone =>
    have hempty : payload.history.flatMap transactions = [] := by
      rw [← List.length_eq_zero_iff]
      omega
    split at h
    · cases h
    · next applied ha =>
      have happlied := applyAll_gas txs 0 0 ha
      rw [gas_of_empty hp hempty, Nat.zero_add, Nat.zero_max, Nat.add_zero] at happlied
      split at h
      · cases h
        rw [cumulativeGasUsed, Checkpoint.barrier, applyWith, history_next, List.map_append, List.sum_append]
        exact happlied
      · cases h
        exact happlied

lemma epilogue_gas {self : BuilderEpilogue P β} (hgas : self.HonoursGasLimit block) {id now : ℕ}
    (hblock : payload.block = block) (h : (self.step block id now payload).checkpoint = some c) :
    c.cumulativeGasUsed ≤ payload.cumulativeGasUsed + self.gasFor block := by
  rw [BuilderEpilogue.step] at h
  split at h
  · next new ha =>
    cases h
    obtain ⟨signerNonce, -, ha⟩ := bind_eq_ok.mp ha
    obtain ⟨signedTx, hsigned, ha⟩ := bind_eq_ok.mp ha
    cases hr : payload.apply (.transaction signedTx) id now with
    | error e =>
      rw [hr] at ha
      cases ha
    | ok p =>
      rw [hr] at ha
      cases ha
      obtain ⟨result, hresult, rfl⟩ := apply_eq hr
      cases hb : self.buildSigned (self.request block signerNonce) with
      | error e =>
        rw [hb] at hsigned
        cases hsigned
      | ok tx =>
        rw [hb] at hsigned
        cases hsigned
        rw [hblock] at hresult
        rw [cumulativeGasUsed_applyWith]
        exact Nat.add_le_add_left (hgas _ _ hb _ _ hresult) _
  · split at h
    · cases h
    · cases h
      omega

end Gas

namespace BuiltinStep

mutual

/-- The steps that compare the gas of the payload with their limit before they return it. -/
def RespectsGasLimit : BuiltinStep P ε Err → Prop
  | .appendOrders _ _ => True
  | .appendOrdersByPriority _ _ _ => False
  | .orderBy _ _ _ _ _ => False
  | .removeRevertedTransactions => False
  | .optimismPrologue _ _ _ => True
  | .builderEpilogue _ _ _ => False
  | .atomic steps => AllRespectGasLimit steps
  | .chain steps => AllRespectGasLimit steps

def AllRespectGasLimit : List (BuiltinStep P ε Err) → Prop
  | [] => True
  | step :: steps => RespectsGasLimit step ∧ AllRespectGasLimit steps

end

variable {block : BlockContext P} {K : FlashbotsBundle P → Prop} {gasLimit : ℕ}

def Within (block : BlockContext P) (K : FlashbotsBundle P → Prop) (gasLimit : ℕ) (c : Checkpoint P) : Prop :=
  Assembled block K c ∧ c.cumulativeGasUsed ≤ gasLimit

mutual

lemma returnsFrom_within (hK : Hereditary K) (ctx : StepContext ε) (hctx : ctx.limits.gasLimit ≤ gasLimit) :
    ∀ (step : BuiltinStep P ε Err) {payload c : Checkpoint P} {flow : ControlFlow (Checkpoint P) Err},
      RespectsGasLimit step → ReturnsFrom K ctx step payload flow → flow.checkpoint = some c →
        Within block K gasLimit payload → Within block K gasLimit c
  | .appendOrders step other, payload, c, flow, hs, h, hc, hp => by
    refine ⟨returnsFrom_assembled hK ctx _ h hc hp.1, ?_⟩
    rw [ReturnsFrom] at h
    obtain ⟨attempted, orders, clock, ids, -, rfl⟩ := h
    rw [boxError_checkpoint] at hc
    obtain ⟨out, hflow, -, hgas, -⟩ := append_orders_extends step attempted ⟨payload, ctx, orders, clock, ids⟩
    have hout : c = out := by
      obtain hflow | hflow := hflow
      · rw [hflow] at hc
        exact (Option.some.inj hc).symm
      · rw [hflow] at hc
        exact (Option.some.inj hc).symm
    rw [hout]
    exact hgas.trans (max_le hctx hp.2)
  | .optimismPrologue _ step other, payload, c, flow, hs, h, hc, hp => by
    refine ⟨returnsFrom_assembled hK ctx _ h hc hp.1, ?_⟩
    rw [ReturnsFrom] at h
    obtain ⟨transactions, fresh, rfl⟩ := h
    rw [boxError_checkpoint] at hc
    exact (prologue_gas hp.1 hc).trans hctx
  | .atomic steps, payload, c, flow, hs, h, hc, hp => by
    rw [RespectsGasLimit] at hs
    rw [ReturnsFrom] at h
    obtain ⟨clock, behaviours, hb, h⟩ := h
    exact atomic_preserves (behavesFrom_within hK ctx hctx steps hs hb) payload flow c h hc hp
  | .chain steps, payload, c, flow, hs, h, hc, hp => by
    rw [RespectsGasLimit] at hs
    rw [ReturnsFrom] at h
    obtain ⟨clock, behaviours, hb, h⟩ := h
    exact chain_preserves (behavesFrom_within hK ctx hctx steps hs hb) payload flow c h hc hp
  | .appendOrdersByPriority Priority _ _, _, _, _, hs, _, _, _ => by
    rw [RespectsGasLimit] at hs
    exact hs.elim
  | .orderBy _ _ _ score other, _, _, _, hs, _, _, _ => by
    rw [RespectsGasLimit] at hs
    exact hs.elim
  | .removeRevertedTransactions, _, _, _, hs, _, _, _ => by
    rw [RespectsGasLimit] at hs
    exact hs.elim
  | .builderEpilogue _ step other, _, _, _, hs, _, _, _ => by
    rw [RespectsGasLimit] at hs
    exact hs.elim

lemma behavesFrom_within (hK : Hereditary K) (ctx : StepContext ε) (hctx : ctx.limits.gasLimit ≤ gasLimit) :
    ∀ (steps : List (BuiltinStep P ε Err)) {behaviours : List (Behaviour (Checkpoint P) Err)},
      AllRespectGasLimit steps → BehavesFrom K ctx steps behaviours →
        ∀ behaviour ∈ behaviours, Preserves (Within block K gasLimit) behaviour
  | [], behaviours, _, h => by
    rw [BehavesFrom] at h
    rw [h]
    exact fun behaviour hm => absurd hm List.not_mem_nil
  | step :: steps, behaviours, hs, h => by
    rw [AllRespectGasLimit] at hs
    rw [BehavesFrom] at h
    obtain ⟨behaviour, rest, rfl, hreturns, hrest⟩ := h
    refine List.forall_mem_cons.mpr ⟨?_, behavesFrom_within hK ctx hctx steps hs.2 hrest⟩
    intro payload flow c hf hc hp
    exact returnsFrom_within hK ctx hctx step hs.1 (hreturns payload flow hf) hc hp

end

end BuiltinStep

section Runs

variable {σ Pl : Type} [LimitExtension ε] [LawfulExtension ε] {block : BlockContext P} {id now : ℕ}

def EpilogueLast (last : σ) (epilogue : BuilderEpilogue P β) (other : EpilogueError P β → Err)
    (block : BlockContext P)
    (K : FlashbotsBundle P → Prop) (kind : σ → BuiltinStep P ε Err) (step : σ) (ctx : StepContext ε)
    (input : Checkpoint P) (output : ControlFlow (Checkpoint P) Err) : Prop :=
  (kind step).ReturnsFrom K ctx input output ∧
    (step = last → ∃ id now, output = boxError other (epilogue.step block id now input))

/-- With the limits of the epilogue on the root pipeline and steps that respect their gas limit in
front of it, every payload of a run leaves room for the builder transaction, and the block has no
more gas than the platform allows. -/
theorem gas_reserved {last : σ} (epilogue : BuilderEpilogue P β) (other : EpilogueError P β → Err)
    (hhonours : epilogue.HonoursGasLimit block) {K : FlashbotsBundle P → Prop} (hK : Hereditary K)
    (job : Job σ (Checkpoint P) ε Err Pl) (kind : σ → BuiltinStep P ε Err)
    (hstart : job.start = newAtBlock block id now)
    (hlimits : job.pipeline.root.limits = some epilogue.limiter) (hlast : job.pipeline.root.epilogue = some last)
    (hsteps : ∀ path step, (path, step) ∈ job.pipeline.root.stepsOf → path ≠ StepPath.epilogue →
      (kind step).RespectsGasLimit)
    (hroom : epilogue.gasFor block ≤ job.platformLimits.gasLimit)
    {exec : PipelineExecutor σ (Checkpoint P) ε Err Pl}
    (hrun : JobRun (EpilogueLast last epilogue other block K kind) job exec) :
    (∀ payload, exec.cursor.payload = some payload →
      payload.cumulativeGasUsed + epilogue.gasFor block ≤ job.platformLimits.gasLimit) ∧
    ∀ built, exec.cursor.output = some (.ok built) → ∃ final, job.buildPayload final = .ok built ∧
      final.cumulativeGasUsed ≤ job.platformLimits.gasLimit := by
  have hblock : job.start.block = block := by rw [hstart]; rfl
  have hreserved : (applied job.pipeline.root.limits job.start job.platformLimits).gasLimit ≤
      job.platformLimits.gasLimit - epilogue.gasFor block := by
    rw [hlimits, ← hblock]
    exact min_le_left _ _
  have hroomy : job.platformLimits.gasLimit - epilogue.gasFor block + epilogue.gasFor block =
      job.platformLimits.gasLimit := Nat.sub_add_cancel hroom
  generalize job.platformLimits.gasLimit - epilogue.gasFor block = left at hreserved hroomy
  have hlimited : JobRun (fun step ctx input output =>
      EpilogueLast last epilogue other block K kind step ctx input output ∧ ctx.limits.gasLimit ≤ left) job exec :=
    hrun.strengthen fun exec path step input ctx hr hc => (gas_within_root hr hc).trans hreserved
  have hfirst : BuiltinStep.Within block K left job.start := by
    rw [hstart]
    exact ⟨.start id now, Nat.zero_le _⟩
  have hends : EndsWith job (BuiltinStep.Within block K left)
      (fun ck => ck.cumulativeGasUsed ≤ left + epilogue.gasFor block) exec.cursor := by
    refine hlimited.until_epilogue hfirst (fun ck hck => hck.2.trans (Nat.le_add_right _ _)) ?_ ?_
    · rintro path step ctx input output ck hstands hpath ⟨⟨hreturns, -⟩, hctx⟩ hck hinput
      have hrespects := hsteps path step ((mem_stepsOf_iff job.pipeline.fits _).mpr hstands) hpath
      exact BuiltinStep.returnsFrom_within hK ctx hctx (kind step) hrespects hreturns hck hinput
    · rintro step ctx input output ck hstep ⟨⟨-, hepilogue⟩, -⟩ hck hinput
      obtain ⟨id, now, rfl⟩ := hepilogue (Option.some.inj (hstep.symm.trans hlast))
      rw [boxError_checkpoint] at hck
      exact (epilogue_gas hhonours hinput.1.block_eq hck).trans (Nat.add_le_add_right hinput.2 _)
  rw [hroomy] at hends
  constructor
  · intro payload hp
    have hwithin := (hends.payload payload hp).2
    omega
  · intro built hb
    obtain ⟨final, hgas, hbuilt⟩ := hends.built built hb
    exact ⟨final, hbuilt, hgas⟩

end Runs

section Examples

def reservedJob : Job ℕ (Checkpoint Devnet) Unit Unit ℕ where
  pipeline := ⟨((Pipeline.default.withPrologue 0).withEpilogue 1).withLimits signature.limiter,
    Pipeline.fits_of_checkAll (by decide)⟩
  platformLimits := ⟨85000, none, none, some 12000000000, ()⟩
  start := Checkpoint.newAtBlock Devnet.block 0 0
  buildPayload c := .ok c.cumulativeGasUsed

lemma signature_gasFor : signature.gasFor Devnet.block = 21400 := by decide +kernel

lemma signature_honours : signature.HonoursGasLimit Devnet.block := by
  intro signerNonce tx _ db result h
  obtain ⟨r, -, rfl⟩ := execute_transaction_ok h
  change 21000 ≤ signature.gasFor Devnet.block
  rw [signature_gasFor]
  exact (by decide : 21000 ≤ 21400)

def reservedKind : ℕ → BuiltinStep Devnet Unit Unit
  | 0 => .optimismPrologue PlainTx sequencer fun _ => ()
  | _ => .builderEpilogue Unit signature fun _ => ()

lemma reserved_next {scope : RootScope (Checkpoint Devnet) Unit} (hscope : scope.current = [])
    (payload : Checkpoint Devnet) (now : ℕ) : advanceCursor reservedJob scope [0] (.ok payload) now =
      .ok ⟨.beforeStep StepPath.epilogue payload, scope⟩ := by
  have hnav : StepPath.navigator [0] reservedJob.pipeline.root =
      .ok (some (StepNavigator.at_ [] reservedJob.pipeline.root PROLOGUE_INDEX)) := rfl
  have hnext : (StepNavigator.at_ [] reservedJob.pipeline.root PROLOGUE_INDEX).nextOk =
      .ok (some (StepNavigator.at_ [] reservedJob.pipeline.root EPILOGUE_INDEX)) := by
    rw [StepNavigator.nextOk_prologue, StepNavigator.afterPrologue_at, StepNavigator.afterLoop_at]
    rfl
  rw [advanceCursor_ok hnav hnext, schedule_root hscope]
  rfl

theorem reservedJob_within : ∃ final : Checkpoint Devnet, final.cumulativeGasUsed = 63000 ∧
    final.cumulativeGasUsed ≤ reservedJob.platformLimits.gasLimit := by
  obtain ⟨scope, ctx, ctx', payload, final, hcurrent, h₁, h₂, h₄, hprologue, hepilogue, hgas⟩ :
      ∃ scope ctx ctx' payload final, scope.current = [] ∧
      PipelineExecutor.poll reservedJob (.initialized (.ok ()) 0) (PipelineExecutor.run reservedJob) =
        .ok ⟨.beforeStep [0] reservedJob.start, scope⟩ ∧
      PipelineExecutor.poll reservedJob .started ⟨.beforeStep [0] reservedJob.start, scope⟩ =
        .ok ⟨.stepInProgress [0] 0 reservedJob.start ctx, scope⟩ ∧
      PipelineExecutor.poll reservedJob .started ⟨.beforeStep StepPath.epilogue payload, scope⟩ =
        .ok ⟨.stepInProgress StepPath.epilogue 1 payload ctx', scope⟩ ∧
      sequencer.step [Devnet.first, Devnet.second] ctx sequencerIds reservedJob.start = .ok payload ∧
      signature.step Devnet.block 3 3 payload = .ok final ∧ final.cumulativeGasUsed = 63000 :=
    ⟨_, _, _, _, _, rfl, rfl, rfl, rfl, rfl, rfl, by decide +kernel⟩
  have h₃ : PipelineExecutor.poll reservedJob (.stepReady (.ok payload) 1)
      ⟨.stepInProgress [0] 0 reservedJob.start ctx, scope⟩ = .ok ⟨.beforeStep StepPath.epilogue payload, scope⟩ :=
    reserved_next hcurrent payload 1
  have hfirst : EpilogueLast 1 signature (fun _ => ()) Devnet.block (fun _ => True) reservedKind 0 ctx
      reservedJob.start (.ok payload) := by
    refine ⟨?_, fun h => by cases h⟩
    rw [reservedKind, BuiltinStep.ReturnsFrom]
    exact ⟨_, sequencerIds, by rw [hprologue]; rfl⟩
  have hsecond : EpilogueLast 1 signature (fun _ => ()) Devnet.block (fun _ => True) reservedKind 1 ctx' payload
      (.ok final) := by
    have hout : ControlFlow.ok final = boxError (fun _ => ()) (signature.step Devnet.block 3 3 payload) := by
      rw [hepilogue]
      rfl
    refine ⟨?_, fun _ => ⟨3, 3, hout⟩⟩
    rw [reservedKind, BuiltinStep.ReturnsFrom]
    exact ⟨Devnet.block, 3, 3, hout⟩
    exact fun h => by cases h
  have hrunning : JobRun
    (EpilogueLast 1 signature (fun _ => ()) Devnet.block (fun _ => True) reservedKind) reservedJob
      ⟨.stepInProgress StepPath.epilogue 1 payload ctx', scope⟩ := by
    refine .tail (.tail (.tail (.tail .refl ⟨_, h₁, ?_⟩) ⟨_, h₂, ?_⟩) ⟨_, h₃, ?_⟩) ⟨_, h₄, ?_⟩
    · intro output now path step input ctx he
      cases he
    · intro output now path step input ctx he
      cases he
    · intro output now path step input ctx he hc
      cases he
      cases hc
      exact hfirst
    · intro output now path step input ctx he
      cases he
  obtain ⟨exec, h₅⟩ := poll_total hrunning.reaches (.stepReady (.ok final) 3)
  have hrun := hrunning.tail ⟨_, h₅, fun output now path step input ctx he hc => by
    cases he
    cases hc
    exact hsecond⟩
  have hwithin := gas_reserved signature (fun _ => ()) signature_honours (fun _ _ _ _ => trivial)
    reservedJob reservedKind rfl rfl rfl ?_ ?_ hrun
  · have hadvanced : advanceCursor reservedJob scope StepPath.epilogue (.ok final) 3 = .ok exec := h₅
    have hnone := advanceCursor_epilogue (reaches_stands hrunning.reaches rfl) hadvanced
    obtain ⟨e, he, -⟩ | ⟨c, hc, rfl | ⟨path, scope', rfl⟩⟩ := advanceCursor_cases hadvanced
    · cases he
    · cases hc
      obtain ⟨last, hlast, hle⟩ := hwithin.2 final.cumulativeGasUsed rfl
      have hsame : last.cumulativeGasUsed = final.cumulativeGasUsed := Except.ok.inj hlast
      exact ⟨final, hgas, hsame ▸ hle⟩
    · cases hnone
  · intro path step hmem hpath
    have hall : reservedJob.pipeline.root.stepsOf = [([0], 0), (StepPath.epilogue, 1)] := rfl
    rw [hall, List.mem_cons, List.mem_singleton] at hmem
    obtain hmem | hmem := hmem
    · cases hmem
      rw [reservedKind, BuiltinStep.RespectsGasLimit]
      trivial
    · exact absurd (Prod.mk.inj hmem).1 hpath
  · rw [signature_gasFor]
    exact (by decide : 21400 ≤ 85000)

end Examples

end Rblib.Steps
