import Rblib.Payload.EmptyBundles
import Rblib.Steps.ReplayedRuns

namespace Rblib.Payload

open Platform PlatformTypes Library Steps.RemoveRevertedTransactions

variable {P : Type} [PlatformTypes P] {b b' b'' : FlashbotsBundle P}

lemma eligibilityAt_withoutTransaction (hash : B256) {timestamp number : ℕ}
    (h : (b.withoutTransaction hash).eligibilityAt timestamp number = .eligible) :
    b.eligibilityAt timestamp number = .eligible := by
  simp only [FlashbotsBundle.eligibilityAt] at h ⊢
  by_cases hempty : b.transactions = []
  · have hsub := eraseFirst_sublist txHash [hash] b.recovered
    rw [← recovered_withoutTransactions] at hsub
    have hnone : (b.withoutTransaction hash).transactions = [] := List.sublist_nil.mp (hempty ▸ hsub)
    rw [hnone] at h
    cases h
  · have hsome : b.transactions.isEmpty = false := by simpa using hempty
    rw [hsome]
    split at h
    · cases h
    · exact h

namespace Trims

lemma refl (b : FlashbotsBundle P) : Trims b b := ⟨[], by simp, rfl⟩

lemma isOptional (h : Trims b b') {hash : B256} (hopt : b'.isOptional hash = true) : b.isOptional hash = true := by
  obtain ⟨hashes, -, rfl⟩ := h
  rw [FlashbotsBundle.isOptional, List.contains_iff_mem, droppingTxHashes_without] at hopt
  rw [FlashbotsBundle.isOptional, List.contains_iff_mem]
  exact List.mem_of_mem_filter hopt

lemma trans (h : Trims b b') (h' : Trims b' b'') : Trims b b'' := by
  have hback : ∀ hash, b'.isOptional hash = true → b.isOptional hash = true := fun hash => h.isOptional
  obtain ⟨hashes, hopt, rfl⟩ := h
  obtain ⟨hashes', hopt', rfl⟩ := h'
  refine ⟨hashes ++ hashes', fun hash hmem => ?_, List.foldl_append.symm⟩
  obtain hmem | hmem := List.mem_append.mp hmem
  · exact hopt hash hmem
  · exact hback hash (hopt' hash hmem)

lemma isAllowedToFail (h : Trims b b') {hash : B256} (hallowed : b'.isAllowedToFail hash = true) :
    b.isAllowedToFail hash = true := by
  obtain ⟨hashes, -, rfl⟩ := h
  induction hashes generalizing b with
  | nil => exact hallowed
  | cons other hashes ih =>
    have hone := ih hallowed
    rw [FlashbotsBundle.isAllowedToFail, List.contains_iff_mem] at hone ⊢
    exact List.mem_of_mem_filter hone

lemma eligibilityAt (h : Trims b b') {timestamp number : ℕ} (he : b'.eligibilityAt timestamp number = .eligible) :
    b.eligibilityAt timestamp number = .eligible := by
  obtain ⟨hashes, -, rfl⟩ := h
  induction hashes generalizing b with
  | nil => exact he
  | cons hash hashes ih => exact eligibilityAt_withoutTransaction hash (ih he)

lemma sublist (h : Trims b b') : b'.transactions.Sublist b.transactions := by
  obtain ⟨hashes, -, rfl⟩ := h
  have hsub := eraseFirst_sublist txHash hashes b.recovered
  rw [← recovered_withoutTransactions] at hsub
  exact hsub

lemma required (h : Trims b b') :
    (b.transactions.filter fun tx => !b.isOptional (txHash tx)).Sublist b'.transactions := by
  obtain ⟨hashes, hopt, rfl⟩ := h
  have hdropped : ∀ hash ∈ hashes, ∀ tx : Transaction P, txHash tx = hash →
    (!b.isOptional (txHash tx)) = false := by
    rintro hash hmem tx rfl
    rw [hopt _ hmem, Bool.not_true]
  have hsame := filter_eraseFirst txHash hashes b.recovered hdropped
  rw [← recovered_withoutTransactions] at hsame
  rw [FlashbotsBundle.transactions, ← hsame]
  exact List.filter_sublist

end Trims

lemma committed_allowed (bundle : FlashbotsBundle P) (evm : Evm P) (db : DatabaseRef) (commits : List (EvmState P))
    (ts : List (Transaction P × Bytes)) : ∀ commit ∈ committed bundle evm db commits ts,
      isSuccess commit.result = true ∨ bundle.isAllowedToFail (txHash commit.transaction) = true := by
  induction ts generalizing commits with
  | nil => simp [committed]
  | cons t ts ih =>
    rw [committed]
    split
    · split
      · next result state _ hallowed =>
        refine List.forall_mem_cons.mpr ⟨?_, ih _⟩
        exact Bool.or_eq_true_iff.mp hallowed
      · exact ih _
    · exact ih _

namespace Checkpoint

variable {offers K K' : FlashbotsBundle P → Prop} {block : BlockContext P} {c ck : Checkpoint P}

/-- What a checkpoint holds of the bundle `offered`, which the block is eligible for. -/
structure Honours (offered : FlashbotsBundle P) (block : BlockContext P) (c : Checkpoint P) : Prop where
  sublist : c.transactions.Sublist offered.transactions
  required : (offered.transactions.filter fun tx => !offered.isOptional (txHash tx)).Sublist c.transactions
  outcomes : List.Forall₂
    (fun tx result => isSuccess result = true ∨ offered.isAllowedToFail (txHash tx) = true)
    c.transactions c.executionResults
  eligible : offered.eligibilityAt block.timestamp block.number = .eligible

def TrimmedFrom (offers : FlashbotsBundle P → Prop) (b : FlashbotsBundle P) : Prop :=
  ∃ offered, offers offered ∧ Trims offered b

lemma trimmedFrom_hereditary (offers : FlashbotsBundle P → Prop) : Hereditary (TrimmedFrom offers) := by
  rintro b b' htrims ⟨offered, ho, hb⟩
  exact ⟨offered, ho, hb.trans htrims⟩

lemma honours_of_executed {offered b : FlashbotsBundle P} {db : DatabaseRef} {result : ExecutionResult P}
    (htrims : Trims offered b) (hb : FlashbotsBundle.Canonical b)
    (hr : Executable.executeBundle b block db = .ok result) {parent : Checkpoint P} {id now : ℕ} :
    Honours offered block (parent.applyWith (.executable result) id now) := by
  have hlength : b.recovered.length = b.inner.txs.length := by rw [hb.encoded, List.length_map]
  have haccurate := accurate_of_adjacent hlength hb.adjacent hr
  have houtcomes : List.Forall₂
      (fun tx result => isSuccess result = true ∨ offered.isAllowedToFail (txHash tx) = true)
      result.source.transactions result.results := by
    rw [haccurate.transactions, haccurate.results, List.forall₂_map_left_iff, List.forall₂_map_right_iff,
      List.forall₂_same]
    intro commit hmem
    exact (committed_allowed b block.evm db [] _ commit hmem).imp_right htrims.isAllowedToFail
  obtain ⟨heligible, acc, hfold, rfl⟩ := executeBundle_ok_iff.mp hr
  have hsource := htrims.trans ⟨acc.discarded, discarded_optional hfold, rfl⟩
  exact ⟨hsource.sublist, hsource.required, houtcomes, htrims.eligibilityAt heligible⟩

lemma Assembled.honours (hoffers : ∀ b, offers b → FlashbotsBundle.Canonical b)
    (h : Assembled block (TrimmedFrom offers) c)
    (hbundle : c.isBundle = true) : ∃ offered, offers offered ∧ Honours offered block c := by
  cases h with
  | start id now => cases hbundle
  | @apply parent _ executable id now hparent hadmits ha =>
    have hblock := hparent.block_eq
    obtain ⟨result, hr, rfl⟩ := apply_eq ha
    rw [hblock] at hr
    cases executable with
    | transaction tx =>
      obtain ⟨r, -, rfl⟩ := execute_transaction_ok hr
      cases hbundle
    | bundle b =>
      obtain ⟨offered, ho, htrims⟩ := hadmits b rfl
      exact ⟨offered, ho, honours_of_executed htrims
        (canonical_hereditary offered b htrims (hoffers offered ho)) hr⟩
  | barrier id now hparent => cases hbundle

def BundlesHonoured (offers : FlashbotsBundle P → Prop) (block : BlockContext P) (payload : Checkpoint P) : Prop :=
  ∀ ck ∈ payload.history, ck.isBundle = true → ∃ offered, offers offered ∧ Honours offered block ck

end Checkpoint

end Rblib.Payload

namespace Rblib.Steps

open Platform PlatformTypes Payload Payload.Checkpoint Pipelines PipelineExecutor Pool Library

section Runs

variable {P σ ε Err Pl : Type} [PlatformTypes P] {K K' : FlashbotsBundle P → Prop}

namespace BuiltinStep

mutual

lemma returnsFrom_mono (hK : ∀ b, K b → K' b) (ctx : StepContext ε) : ∀ (step : BuiltinStep P ε Err)
    {payload : Checkpoint P} {flow : ControlFlow (Checkpoint P) Err},
    ReturnsFrom K ctx step payload flow → ReturnsFrom K' ctx step payload flow
  | .appendOrders step other, payload, flow, h => by
    rw [ReturnsFrom] at h ⊢
    obtain ⟨attempted, orders, clock, ids, horders, hflow⟩ := h
    exact ⟨attempted, orders, clock, ids, fun b hb => hK b (horders b hb), hflow⟩
  | .appendOrdersByPriority Priority _ _, payload, flow, h => by
    rw [ReturnsFrom] at h ⊢
    obtain ⟨orderpool, call, output, hheld, hpending, hs, hflow⟩ := h
    exact ⟨orderpool, call, output, fun i order ho => hK _ (hheld i order ho),
      fun b hb => hK b (hpending b hb), hs, hflow⟩
  | .orderBy _ _ _ score other, payload, flow, h => by
    rw [ReturnsFrom] at h ⊢
    exact h
  | .removeRevertedTransactions, payload, flow, h => by
    rw [ReturnsFrom] at h ⊢
    exact h
  | .optimismPrologue _ step other, payload, flow, h => by
    rw [ReturnsFrom] at h ⊢
    exact h
  | .builderEpilogue _ step other, payload, flow, h => by
    rw [ReturnsFrom] at h ⊢
    exact h
  | .atomic steps, payload, flow, h => by
    rw [ReturnsFrom] at h ⊢
    obtain ⟨clock, behaviours, hb, hs⟩ := h
    exact ⟨clock, behaviours, behavesFrom_mono hK ctx steps hb, hs⟩
  | .chain steps, payload, flow, h => by
    rw [ReturnsFrom] at h ⊢
    obtain ⟨clock, behaviours, hb, hs⟩ := h
    exact ⟨clock, behaviours, behavesFrom_mono hK ctx steps hb, hs⟩

lemma behavesFrom_mono (hK : ∀ b, K b → K' b) (ctx : StepContext ε) : ∀ (steps : List (BuiltinStep P ε Err))
    {behaviours : List (Behaviour (Checkpoint P) Err)}, BehavesFrom K ctx steps behaviours →
      BehavesFrom K' ctx steps behaviours
  | [], behaviours, h => by
    rw [BehavesFrom] at h ⊢
    exact h
  | step :: steps, behaviours, h => by
    rw [BehavesFrom] at h ⊢
    obtain ⟨behaviour, rest, hcons, hreturns, hrest⟩ := h
    exact ⟨behaviour, rest, hcons, fun payload flow hf => returnsFrom_mono hK ctx step (hreturns payload flow hf),
      behavesFrom_mono hK ctx steps hrest⟩

end

end BuiltinStep

variable [LimitExtension ε] {block : BlockContext P} {id now : ℕ}

/-- Every bundle in a payload of a run, and in the payload that the block is built from, honours a bundle that the
pools offered to the steps. -/
theorem bundles_honoured (job : Job σ (Checkpoint P) ε Err Pl) (kind : σ → BuiltinStep P ε Err)
    (hstart : job.start = newAtBlock block id now) {offers : FlashbotsBundle P → Prop}
    (hoffers : ∀ b, offers b → FlashbotsBundle.Canonical b) {exec : PipelineExecutor σ (Checkpoint P) ε Err Pl}
    (hrun : JobRun (fun step ctx input output => (kind step).ReturnsFrom offers ctx input output) job exec) :
    (∀ payload, exec.cursor.payload = some payload → BundlesHonoured offers block payload) ∧
    ∀ built, exec.cursor.output = some (.ok built) → ∃ last, job.buildPayload last = .ok built ∧
      BundlesHonoured offers block last := by
  have hfirst : Assembled block (TrimmedFrom offers) job.start := hstart ▸ .start id now
  have hkeeps : ∀ (step : σ) (ctx : StepContext ε) (input : Checkpoint P) (output : ControlFlow (Checkpoint P) Err)
      (ck : Checkpoint P), (kind step).ReturnsFrom offers ctx input output → output.checkpoint = some ck →
        Assembled block (TrimmedFrom offers) input → Assembled block (TrimmedFrom offers) ck := by
    intro step ctx input output ck hr hck hi
    have hwaiting : (kind step).ReturnsFrom (TrimmedFrom offers) ctx input output :=
      BuiltinStep.returnsFrom_mono (fun b hb => ⟨b, hb, Trims.refl b⟩) ctx (kind step) hr
    exact BuiltinStep.returnsFrom_assembled (trimmedFrom_hereditary offers) ctx (kind step) hwaiting hck hi
  have hhonours : ∀ payload : Checkpoint P, Assembled block (TrimmedFrom offers) payload →
      BundlesHonoured offers block payload := fun payload h ck hck hbundle =>
    (h.of_mem_history hck).honours hoffers hbundle
  constructor
  · exact fun payload hp => hhonours payload (hrun.payload hfirst hkeeps hp)
  · intro built hb
    obtain ⟨last, hlast, hbuilt⟩ := hrun.built hfirst hkeeps hb
    exact ⟨last, hbuilt, hhonours last hlast⟩

end Runs

section Examples

open Payload.Devnet

def pairedBundle : FlashbotsBundle Devnet :=
  (FlashbotsBundle.default.withTransaction first).withOptionalTransaction premature

lemma pairedBundle_canonical : FlashbotsBundle.Canonical pairedBundle :=
  ⟨by decide +kernel, adjacent_of_nodup (by decide +kernel) _⟩

def bundleKind : ℕ → BuiltinStep Devnet Unit Unit
  | 0 => .appendOrders {} fun _ => ()
  | _ => .removeRevertedTransactions

def bundleCall (ctx : StepContext Unit) : StepCall Devnet Unit :=
  ⟨signedJob.start, ctx, [.bundle pairedBundle], fun tick => tick, fun tick => tick + 1⟩

theorem signedJob_honours : ∃ later : Checkpoint Devnet, later.transactions = [first] ∧
    ∃ offered : FlashbotsBundle Devnet, offered.transactions = [first, premature] ∧
      Honours offered Devnet.block later := by
  obtain ⟨scope₁, scope₂, ctx, later, h₁, h₂, h₃, htxs, hbundle, hself⟩ : ∃ scope₁ scope₂ ctx later,
      PipelineExecutor.poll signedJob (.initialized (.ok ()) 0) (PipelineExecutor.run signedJob) =
        .ok ⟨.beforeStep [1] signedJob.start, scope₁⟩ ∧
      PipelineExecutor.poll signedJob .started ⟨.beforeStep [1] signedJob.start, scope₁⟩ =
        .ok ⟨.stepInProgress [1] 0 signedJob.start ctx, scope₁⟩ ∧
      PipelineExecutor.poll signedJob
        (.stepReady (boxError (fun _ => ()) (AppendOrders.step {} ∅ (bundleCall ctx)).2.flow) 3)
        ⟨.stepInProgress [1] 0 signedJob.start ctx, scope₁⟩ = .ok ⟨.beforeStep [2] later, scope₂⟩ ∧
      later.transactions = [first] ∧ later.isBundle = true ∧ later ∈ later.history :=
    ⟨_, _, _, _, rfl, rfl, rfl, rfl, rfl, List.mem_reverse.mpr List.mem_cons_self⟩
  have hrun : JobRun (fun step ctx input output =>
    (bundleKind step).ReturnsFrom (· = pairedBundle) ctx input output)
      signedJob ⟨.beforeStep [2] later, scope₂⟩ := by
    refine .tail (.tail (.tail .refl ⟨_, h₁, ?_⟩) ⟨_, h₂, ?_⟩) ⟨_, h₃, ?_⟩
    · intro output now path step input ctx he
      cases he
    · intro output now path step input ctx he
      cases he
    · intro output now path step input ctx he hc
      cases he
      cases hc
      rw [bundleKind, BuiltinStep.ReturnsFrom]
      refine ⟨∅, _, _, _, fun b hb => ?_, rfl⟩
      exact (Order.bundle.inj (List.mem_singleton.mp hb))
  have hcanonical : ∀ b, b = pairedBundle → FlashbotsBundle.Canonical b := by
    rintro b rfl
    exact pairedBundle_canonical
  obtain ⟨offered, rfl, h⟩ := (bundles_honoured signedJob bundleKind rfl hcanonical hrun).1 later rfl
    later hself hbundle
  exact ⟨later, htxs, pairedBundle, rfl, h⟩

end Examples

end Rblib.Steps
