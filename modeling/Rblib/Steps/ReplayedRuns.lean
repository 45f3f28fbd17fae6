import Rblib.Payload.Replay
import Rblib.Steps.OrderSources

namespace Rblib.Payload

open Platform PlatformTypes Library

variable {P : Type} [PlatformTypes P]

namespace Checkpoint

lemma canonical_hereditary : Hereditary (P := P) FlashbotsBundle.Canonical := by
  apply hereditary_of_withoutTransaction
  intro b hash h
  have hdropping : ∀ k, (b.withoutTransaction hash).isOptional k = true → b.isOptional k = true := by
    intro k hk
    rw [FlashbotsBundle.isOptional, List.contains_iff_mem] at hk ⊢
    exact List.mem_of_mem_filter hk
  simp only [FlashbotsBundle.withoutTransaction] at hdropping ⊢
  cases hi : b.recovered.findIdx? fun t => txHash t == hash with
  | none =>
    rw [hi] at hdropping
    exact ⟨h.encoded, h.adjacent.sublist (List.Sublist.refl _) hdropping⟩
  | some i =>
    rw [hi] at hdropping
    refine ⟨?_, h.adjacent.sublist (List.eraseIdx_sublist ..) hdropping⟩
    dsimp only
    rw [h.encoded, List.eraseIdx_map]

lemma wellFormed_hereditary : Hereditary (P := P) BundleWellFormed :=
  hereditary_of_withoutTransaction fun _ hash h => withoutTransaction_wellFormed h hash

lemma wellFormed_of_admits {executable : Executable P} (h : Admits BundleWellFormed executable) :
    executable.WellFormed := by
  cases executable with
  | transaction tx => trivial
  | bundle b => exact h b rfl

variable {block : BlockContext P} {c : Checkpoint P}

lemma Assembled.built (h : Assembled block BundleWellFormed c) : Built block c := by
  induction h with
  | start id now => exact .start id now
  | apply _ hadmits ha ih => exact ih.apply (wellFormed_of_admits hadmits) ha
  | barrier id now _ ih => exact ih.barrier id now

lemma NonceOrdered.history_nodup (h : NonceOrdered c) : (c.history.flatMap nonces).Nodup := by
  rw [List.nodup_flatMap]
  refine ⟨h.nodup, h.before.imp fun hbefore => ?_⟩
  rintro ⟨a, n⟩ hn hn'
  exact lt_irrefl n (hbefore a n n hn hn')

/-- The transactions spend nonces from those of `start` up to those of the payload, none of them twice, and each
signer's rise from checkpoint to checkpoint. -/
structure SpendsInOrder (start payload : Checkpoint P) : Prop where
  nodup : (payload.history.flatMap nonces).Nodup
  rising : payload.history.Pairwise Before
  within : ∀ e ∈ payload.history.flatMap nonces, start.accountNonce e.1 ≤ e.2 ∧ e.2 < payload.accountNonce e.1

lemma signer_of_mem_nonces {e : Address × ℕ} (h : e ∈ c.nonces) : ∃ tx : Transaction P, signer tx = e.1 := by
  obtain ⟨tx, -, rfl⟩ := List.mem_map.mp h
  exact ⟨tx, rfl⟩

lemma Built.spent_since (h : Built block c) (laws : NonceLaws block.evm) (id now : ℕ) :
    (∀ tx : Transaction P, (newAtBlock block id now).accountNonce (signer tx) ≤ c.accountNonce (signer tx)) ∧
      ∀ ck ∈ c.history, ∀ e ∈ ck.nonces, (newAtBlock block id now).accountNonce e.1 ≤ e.2 := by
  have hnext : ∀ {c : Checkpoint P} {d : CheckpointData P},
      (∀ tx : Transaction P, (newAtBlock block id now).accountNonce (signer tx) ≤ c.accountNonce (signer tx)) ∧
        (∀ ck ∈ c.history, ∀ e ∈ ck.nonces, (newAtBlock block id now).accountNonce e.1 ≤ e.2) →
      Advances c (.next c d) →
      (∀ tx : Transaction P,
        (newAtBlock block id now).accountNonce (signer tx) ≤ (Checkpoint.next c d).accountNonce (signer tx)) ∧
        ∀ ck ∈ (Checkpoint.next c d).history, ∀ e ∈ ck.nonces,
          (newAtBlock block id now).accountNonce e.1 ≤ e.2 := by
    rintro c d ⟨hstart, hspent⟩ hadv
    refine ⟨fun tx => (hstart tx).trans (hadv.monotone tx), fun ck hck e he => ?_⟩
    rw [history_next, List.mem_append, List.mem_singleton] at hck
    obtain hck | rfl := hck
    · exact hspent ck hck e he
    · obtain ⟨tx, htx⟩ := signer_of_mem_nonces he
      exact (htx ▸ hstart tx).trans (hadv.range e he).1
  induction h with
  | start id' now' =>
    refine ⟨fun tx => le_refl _, fun ck hck e he => ?_⟩
    obtain rfl := List.mem_singleton.mp hck
    exact absurd he List.not_mem_nil
  | @apply c c' executable id' now' hb hwf ha ih =>
    have laws' : NonceLaws c.block.evm := hb.block_eq ▸ laws
    have hadv := apply_advances laws' hwf ha
    obtain ⟨result, -, rfl⟩ := apply_eq ha
    exact hnext ih hadv
  | barrier id' now' hb ih => exact hnext ih (barrier_advances _ id' now')

lemma Built.spendsInOrder (h : Built block c) (laws : NonceLaws block.evm) (id now : ℕ) :
    SpendsInOrder (newAtBlock block id now) c := by
  have hordered := h.nonceOrdered laws
  refine ⟨hordered.history_nodup, hordered.before, fun e he => ?_⟩
  obtain ⟨ck, hck, he⟩ := List.mem_flatMap.mp he
  exact ⟨(h.spent_since laws id now).2 ck hck e he, hordered.below ck hck e he⟩

lemma readsState_of_present (h : ∀ ck ∈ c.iter, ∀ a acc, ck.account a = some acc → acc.destroys = false) :
    ReadsState c := by
  constructor
  · intro a acc hlast hinfo
    obtain ⟨ck, hck, hacc⟩ := List.exists_of_findSome?_eq_some hlast
    have hkept := h ck hck a acc hacc
    rw [BundleAccount.destroys, hinfo] at hkept
    cases hkept
  · intro a i newer ck older acc hiter hacc hdestroys
    have hkept := h ck (hiter ▸ List.mem_append_right _ List.mem_cons_self) a acc hacc
    rw [hkept] at hdestroys
    cases hdestroys

end Checkpoint

end Rblib.Payload

namespace Rblib.Steps

open Platform PlatformTypes Payload Payload.Checkpoint Pipelines PipelineExecutor

variable {P σ ε Err Pl : Type} [PlatformTypes P] [LimitExtension ε] {block : BlockContext P} {id now : ℕ}

/-- The block that is built from a run of built-in steps runs again: its transactions, one after the
other on the state of the parent block, give the results, the gas and the state that the payload
recorded. -/
theorem payloads_reexecute (laws : JournalLaws block.evm) (job : Job σ (Checkpoint P) ε Err Pl)
    (kind : σ → BuiltinStep P ε Err) (hstart : job.start = newAtBlock block id now)
    {exec : PipelineExecutor σ (Checkpoint P) ε Err Pl}
    (hrun : JobRun
      (fun step ctx input output => (kind step).ReturnsFrom FlashbotsBundle.Canonical ctx input output) job exec) :
    (∀ payload, exec.cursor.payload = some payload → (∀ ck ∈ payload.history, ReadsState ck) →
      ∃ states, Reexecutes laws payload states) ∧
    ∀ built, exec.cursor.output = some (.ok built) → ∃ last, job.buildPayload last = .ok built ∧
      ((∀ ck ∈ last.history, ReadsState ck) → ∃ states, Reexecutes laws last states) := by
  have hfirst : Assembled block FlashbotsBundle.Canonical job.start := hstart ▸ .start id now
  have hkeeps : ∀ (step : σ) (ctx : StepContext ε) (input : Checkpoint P) (output : ControlFlow (Checkpoint P) Err)
      (ck : Checkpoint P), (kind step).ReturnsFrom FlashbotsBundle.Canonical ctx input output →
        output.checkpoint = some ck → Assembled block FlashbotsBundle.Canonical input →
        Assembled block FlashbotsBundle.Canonical ck := fun step ctx _ _ _ hr hck hi =>
    BuiltinStep.returnsFrom_assembled canonical_hereditary ctx (kind step) hr hck hi
  constructor
  · exact fun payload hp hreads => (hrun.payload hfirst hkeeps hp).reexecutes laws hreads
  · intro built hb
    obtain ⟨last, hlast, hbuilt⟩ := hrun.built hfirst hkeeps hb
    exact ⟨last, hbuilt, hlast.reexecutes laws⟩

theorem payloads_nonce_ordered (laws : NonceLaws block.evm) (job : Job σ (Checkpoint P) ε Err Pl)
    (kind : σ → BuiltinStep P ε Err) (hstart : job.start = newAtBlock block id now)
    {exec : PipelineExecutor σ (Checkpoint P) ε Err Pl}
    (hrun : JobRun (fun step ctx input output => (kind step).ReturnsFrom BundleWellFormed ctx input output)
      job exec) :
    (∀ payload, exec.cursor.payload = some payload → SpendsInOrder job.start payload) ∧
    ∀ built, exec.cursor.output = some (.ok built) → ∃ last, job.buildPayload last = .ok built ∧
      SpendsInOrder job.start last := by
  have hfirst : Assembled block BundleWellFormed job.start := hstart ▸ .start id now
  have hkeeps : ∀ (step : σ) (ctx : StepContext ε) (input : Checkpoint P) (output : ControlFlow (Checkpoint P) Err)
      (ck : Checkpoint P), (kind step).ReturnsFrom BundleWellFormed ctx input output →
        output.checkpoint = some ck →
        Assembled block BundleWellFormed input → Assembled block BundleWellFormed ck :=
          fun step ctx _ _ _ hr hck hi =>
    BuiltinStep.returnsFrom_assembled wellFormed_hereditary ctx (kind step) hr hck hi
  rw [hstart]
  constructor
  · exact fun payload hp => (hrun.payload hfirst hkeeps hp).built.spendsInOrder laws id now
  · intro built hb
    obtain ⟨last, hlast, hbuilt⟩ := hrun.built hfirst hkeeps hb
    exact ⟨last, hbuilt, hlast.built.spendsInOrder laws id now⟩

section Examples

lemma destroys_nothing {K : FlashbotsBundle Devnet → Prop} {c : Checkpoint Devnet}
    (h : Assembled Devnet.block K c) :
    ∀ ck ∈ c.iter, ∀ a acc, ck.account a = some acc → acc.destroys = false := by
  have hbundle : ∀ (db : DatabaseRef) (commits : List (EvmState Devnet)) (a : Address) (acc : BundleAccount),
      (Devnet.evm.takeBundle db commits).account a = some acc → acc.destroys = false := by
    intro db commits a acc hacc
    rw [Devnet.account_takeBundle] at hacc
    split at hacc
    · cases hacc
      rfl
    · cases hacc
  induction h with
  | start id now =>
    intro ck hck a acc hacc
    obtain rfl := List.mem_singleton.mp hck
    cases hacc
  | @apply c c' executable id now hc hadmits ha ih =>
    have hblock := hc.block_eq
    obtain ⟨result, hr, rfl⟩ := apply_eq ha
    rw [hblock] at hr
    obtain ⟨commits, hstate⟩ : ∃ commits, result.state = Devnet.evm.takeBundle c.database commits := by
      cases executable with
      | transaction tx =>
        obtain ⟨r, -, rfl⟩ := execute_transaction_ok hr
        exact ⟨[r.2], rfl⟩
      | bundle b =>
        obtain ⟨-, acc, -, rfl⟩ := executeBundle_ok_iff.mp hr
        exact ⟨acc.commits, rfl⟩
    intro ck hck a acc hacc
    rw [applyWith, iter] at hck
    obtain rfl | hck := List.mem_cons.mp hck
    · exact hbundle c.database commits a acc (hstate ▸ hacc)
    · exact ih ck hck a acc hacc
  | @barrier c id now hc ih =>
    intro ck hck a acc hacc
    rw [Checkpoint.barrier, applyWith, iter] at hck
    obtain rfl | hck := List.mem_cons.mp hck
    · cases hacc
    · exact ih ck hck a acc hacc

lemma signedJob_run (K : FlashbotsBundle Devnet → Prop) : ∃ exec later,
    JobRun (fun step ctx input output => (signedKind step).ReturnsFrom K ctx input output) signedJob exec ∧
      exec.cursor.payload = some later ∧ later.transactions.length = 1 ∧ Assembled Devnet.block K later := by
  let signed := boxError (fun _ => ()) (signature.step Devnet.block 1 1 signedJob.start)
  obtain ⟨scope₁, scope₂, ctx, later, h₁, h₂, h₃, hlen, hlater⟩ : ∃ scope₁ scope₂ ctx later,
      PipelineExecutor.poll signedJob (.initialized (.ok ()) 0) (PipelineExecutor.run signedJob) =
        .ok ⟨.beforeStep [1] signedJob.start, scope₁⟩ ∧
      PipelineExecutor.poll signedJob .started ⟨.beforeStep [1] signedJob.start, scope₁⟩ =
        .ok ⟨.stepInProgress [1] 0 signedJob.start ctx, scope₁⟩ ∧
      PipelineExecutor.poll signedJob (.stepReady signed 3) ⟨.stepInProgress [1] 0 signedJob.start ctx, scope₁⟩ =
        .ok ⟨.beforeStep [2] later, scope₂⟩ ∧
      later.transactions.length = 1 ∧ signed.checkpoint = some later :=
    ⟨_, _, _, _, rfl, rfl, rfl, rfl, rfl⟩
  have hreturns : ∀ ctx : StepContext Unit,
      (signedKind 0).ReturnsFrom K ctx signedJob.start signed := by
    intro ctx
    rw [signedKind, BuiltinStep.ReturnsFrom]
    exact ⟨Devnet.block, 1, 1, rfl⟩
  refine ⟨_, later, .tail (.tail (.tail .refl ⟨_, h₁, ?_⟩) ⟨_, h₂, ?_⟩) ⟨_, h₃, ?_⟩, rfl, hlen, ?_⟩
  · intro output now path step input ctx he
    cases he
  · intro output now path step input ctx he
    cases he
  · intro output now path step input ctx he hc
    cases he
    cases hc
    exact hreturns _
  · rw [boxError_checkpoint] at hlater
    exact epilogue_assembled (.start 0 0) hlater

theorem signedJob_reexecutes : ∃ later states, later.transactions.length = 1 ∧
    Reexecutes Devnet.journalLaws later states := by
  obtain ⟨exec, later, hrun, hp, hlen, hassembled⟩ := signedJob_run FlashbotsBundle.Canonical
  have hreads : ∀ ck ∈ later.history, ReadsState ck := fun ck hck =>
    readsState_of_present (destroys_nothing (hassembled.of_mem_history hck))
  obtain ⟨states, h⟩ := (payloads_reexecute Devnet.journalLaws signedJob signedKind rfl hrun).1
    later hp hreads
  exact ⟨later, states, hlen, h⟩

theorem signedJob_nonce_ordered : ∃ later : Checkpoint Devnet, later.transactions.length = 1 ∧
    SpendsInOrder signedJob.start later := by
  obtain ⟨exec, later, hrun, hp, hlen, -⟩ := signedJob_run BundleWellFormed
  exact ⟨later, hlen, (payloads_nonce_ordered Devnet.laws signedJob signedKind rfl hrun).1 later hp⟩

end Examples

end Rblib.Steps
