import Rblib.Payload.Checkpoint
import Rblib.Pipelines.Executor

/-! The step that takes reverted transactions out of the staged payload, `steps/revert.rs`. `Sweep`
is the state of its loop, with the counters of the job and the events it emits; the `tick`-th
checkpoint it creates gets the identity and clock reading `fresh tick`. What the step returns is
`Ok` with the valid prefix of the last state. -/

namespace Rblib.Steps

open Platform PlatformTypes Payload Pipelines

variable {P : Type} [PlatformTypes P]

inductive DropEvent (P : Type) [PlatformTypes P]
  | transactionDropped (tx : Transaction P)
  | bundleDropped (bundle : FlashbotsBundle P)
  | bundlePartiallyDropped (bundle : FlashbotsBundle P) (removed : List B256)

structure PerJobCounters where
  txsDropped : ℕ := 0
  gasDropped : ℕ := 0

namespace PerJobCounters

def incTxsDropped (count : ℕ) (c : PerJobCounters) : PerJobCounters :=
    { c with txsDropped := c.txsDropped + count }

def incGasDropped (amount : ℕ) (c : PerJobCounters) : PerJobCounters :=
    { c with gasDropped := c.gasDropped + amount }

def markDropped (checkpoint : Checkpoint P) (c : PerJobCounters) : PerJobCounters :=
  (c.incTxsDropped checkpoint.transactions.length).incGasDropped checkpoint.gasUsed

end PerJobCounters

structure Sweep (P : Type) [PlatformTypes P] where
  validPrefix : Checkpoint P
  perJob : PerJobCounters
  events : List (DropEvent P) := []
  tick : ℕ := 0

inductive RevertPanic
  | noBaseline
  deriving DecidableEq

namespace RemoveRevertedTransactions

def hasFailures (checkpoint : Checkpoint P) : Bool :=
  match checkpoint.result with
  | none => false
  | some result => match result.source with
    | .transaction _ => result.results.any fun t => !isSuccess t
    | .bundle bundle =>
      ((result.results.map fun r => !isSuccess r).zip (result.source.transactions.map txHash)).any fun e =>
        e.1 && bundle.isOptional e.2

def optionalFailedTxs (bundle : FlashbotsBundle P) (checkpoint : Checkpoint P) : List (B256 × ℕ) :=
  checkpoint.failedTxs.filterMap fun e =>
    if bundle.isOptional (txHash e.1) then some (txHash e.1, gasUsed e.2) else none

lemma droppingTxHashes_without (hashes : List B256) (bundle : FlashbotsBundle P) :
    (hashes.foldl FlashbotsBundle.withoutTransaction bundle).inner.droppingTxHashes =
      bundle.inner.droppingTxHashes.filter fun hash => hash ∉ hashes := by
  induction hashes generalizing bundle with
  | nil => simp
  | cons hash hashes ih =>
    rw [List.foldl_cons, ih, FlashbotsBundle.withoutTransaction, List.filter_filter]
    congr 1
    funext other
    by_cases h : other = hash
    · simp [h]
    · simp [h]

-- every round takes at least one hash off the list of transactions that may be dropped
lemma droppingTxHashes_lt {bundle : FlashbotsBundle P} {checkpoint : Checkpoint P}
    (h : ¬ (optionalFailedTxs bundle checkpoint).isEmpty = true) :
    (((optionalFailedTxs bundle checkpoint).map Prod.fst).foldl FlashbotsBundle.withoutTransaction
      bundle).inner.droppingTxHashes.length < bundle.inner.droppingTxHashes.length := by
  obtain ⟨e, he⟩ := List.exists_mem_of_ne_nil _ (by simpa using h)
  have hopt : bundle.isOptional e.1 = true := by
    obtain ⟨f, -, hf⟩ := List.mem_filterMap.mp he
    split at hf
    · next ho =>
      cases hf
      exact ho
    · cases hf
  rw [droppingTxHashes_without, List.length_filter_lt_length_iff_exists]
  refine ⟨e.1, by simpa [FlashbotsBundle.isOptional] using hopt, ?_⟩
  simpa using ⟨e.2, he⟩

def extendWithBundle (fresh : ℕ → ℕ × ℕ) (checkpoint : Checkpoint P) (bundle : FlashbotsBundle P)
    (sweep : Sweep P) : Sweep P :=
  match sweep.validPrefix.apply (.bundle bundle) (fresh sweep.tick).1 (fresh sweep.tick).2 with
  | .error _ =>
    { sweep with
      perJob := sweep.perJob.markDropped checkpoint
      events := sweep.events ++ [.bundleDropped bundle]
      tick := sweep.tick + 1 }
  | .ok newCheckpoint =>
    if (optionalFailedTxs bundle newCheckpoint).isEmpty then
      { sweep with validPrefix := newCheckpoint, tick := sweep.tick + 1 }
    else
      let failedHashes := (optionalFailedTxs bundle newCheckpoint).map Prod.fst
      let failedGas := (optionalFailedTxs bundle newCheckpoint).map Prod.snd
      let reduced := failedHashes.foldl FlashbotsBundle.withoutTransaction bundle
      extendWithBundle fresh checkpoint reduced
        { sweep with
          perJob := (sweep.perJob.incTxsDropped failedHashes.length).incGasDropped failedGas.sum
          events := sweep.events ++ [.bundlePartiallyDropped reduced failedHashes]
          tick := sweep.tick + 1 }
termination_by bundle.inner.droppingTxHashes.length
decreasing_by exact droppingTxHashes_lt ‹_›

def extendWithTransaction (fresh : ℕ → ℕ × ℕ) (tx : Transaction P) (sweep : Sweep P) : Sweep P :=
  match sweep.validPrefix.apply (.transaction tx) (fresh sweep.tick).1 (fresh sweep.tick).2 with
  | .error _ =>
    { sweep with
      perJob := sweep.perJob.incTxsDropped 1
      events := sweep.events ++ [.transactionDropped tx]
      tick := sweep.tick + 1 }
  | .ok newCheckpoint =>
    if hasFailures newCheckpoint then
      { sweep with
        perJob := sweep.perJob.markDropped newCheckpoint
        events := sweep.events ++ [.transactionDropped tx]
        tick := sweep.tick + 1 }
    else { sweep with validPrefix := newCheckpoint, tick := sweep.tick + 1 }

def extendWith (fresh : ℕ → ℕ × ℕ) (sweep : Sweep P) (checkpoint : Checkpoint P) : Sweep P :=
  match checkpoint.asTransaction with
  | some tx => extendWithTransaction fresh tx sweep
  | none => match checkpoint.asBundle with
    | some bundle => extendWithBundle fresh checkpoint bundle sweep
    | none => sweep

def step (fresh : ℕ → ℕ × ℕ) (perJob : PerJobCounters) (payload : Checkpoint P) : Except RevertPanic (Sweep P) :=
  if payload.isEmpty then .ok { validPrefix := payload, perJob }
  else
    let history := payload.historyStaging
    match history.findIdx? hasFailures with
    | none => .ok { validPrefix := payload, perJob }
    | some prefixLen =>
      match (history.take prefixLen).getLast? with
      | none => .error .noBaseline
      | some baseline => .ok ((history.drop prefixLen).foldl (extendWith fresh)
          { validPrefix := baseline, perJob })

end RemoveRevertedTransactions

end Rblib.Steps
