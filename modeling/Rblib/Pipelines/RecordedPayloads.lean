import Rblib.Payload.State
import Rblib.Pipelines.PollingRuns

/-! The executor with its metrics, `pipelines/metrics.rs`. A payload that leaves the executor is
recorded first, and its total fees, a 256-bit number, go through `Uint::to` into a counter of 64
bits. -/

namespace Rblib.Pipelines

open Platform Payload

structure PayloadFigures where
  fees : U256
  gasUsed : ℕ
  gasLimit : ℕ
  blobGasUsed : Option ℕ
  transactionCount : ℕ
  number : ℕ

/-- How the executor reads a built payload, and the blob gas limit of its block. -/
structure Recorder (Pl : Type) where
  figures : Pl → PayloadFigures
  blobGasLimit : ℕ

def increment (n counter : ℕ) : ℕ := (counter + n) % 2 ^ 64

structure PayloadMetrics where
  jobsStarted : ℕ := 0
  jobsCompleted : ℕ := 0
  jobsFailed : ℕ := 0
  txCountHistogram : List ℕ := []
  txCountTotal : ℕ := 0
  gasUsedHistogram : List ℕ := []
  gasUsedTotal : ℕ := 0
  gasUtilized : List (ℕ × ℕ) := []
  blobGasHistogram : List ℕ := []
  blobGasTotal : ℕ := 0
  blobGasUtilized : List (ℕ × ℕ) := []
  feesHistogram : List ℕ := []
  feesTotal : ℕ := 0
  blockNumber : ℕ := 0

def toU64 (n : U256) : Except Panic ℕ := if n.val < 2 ^ 64 then .ok n.val else .error "Uint conversion error"

def PayloadMetrics.recordPayload (payload : PayloadFigures) (blobGasLimit : ℕ) (m : PayloadMetrics) :
    Except Panic PayloadMetrics := do
  let m := { m with feesHistogram := m.feesHistogram ++ [payload.fees.val] }
  let fees ← toU64 payload.fees
  let blobGasUsed := payload.blobGasUsed.getD 0
  return { m with
    feesTotal := increment fees m.feesTotal
    gasUsedHistogram := m.gasUsedHistogram ++ [payload.gasUsed]
    gasUsedTotal := increment payload.gasUsed m.gasUsedTotal
    gasUtilized := m.gasUtilized ++ [(payload.gasUsed, payload.gasLimit)]
    blobGasHistogram := m.blobGasHistogram ++ [blobGasUsed]
    blobGasTotal := increment blobGasUsed m.blobGasTotal
    blobGasUtilized := m.blobGasUtilized ++ [(blobGasUsed, blobGasLimit)]
    txCountHistogram := m.txCountHistogram ++ [payload.transactionCount]
    txCountTotal := increment payload.transactionCount m.txCountTotal
    blockNumber := max m.blockNumber payload.number }

variable {σ Ck ε Err Pl : Type}

def Recorder.record (recorder : Recorder Pl) (output : Except Err Pl) (m : PayloadMetrics) :
    Except Panic PayloadMetrics :=
  match output with
  | .ok payload => { m with jobsCompleted := increment 1 m.jobsCompleted }.recordPayload (recorder.figures payload)
      recorder.blobGasLimit
  | .error _ => .ok { m with jobsFailed := increment 1 m.jobsFailed }

def Recorder.Fits (recorder : Recorder Pl) (output : Except Err Pl) : Prop :=
  ∀ payload, output = .ok payload → (recorder.figures payload).fees.val < 2 ^ 64

structure RecordedExecutor (σ Ck ε Err Pl : Type) where
  polled : PolledExecutor σ Ck ε Err Pl
  metrics : PayloadMetrics

namespace RecordedExecutor

def output (e : RecordedExecutor σ Ck ε Err Pl) : Option (Except Err Pl) := e.polled.output

variable [LimitExtension ε]

def run (job : Job σ Ck ε Err Pl) (m : PayloadMetrics) : RecordedExecutor σ Ck ε Err Pl :=
  ⟨PolledExecutor.run job, { m with jobsStarted := increment 1 m.jobsStarted }⟩

def poll (job : Job σ Ck ε Err Pl) (recorder : Recorder Pl) (answers : Answers Ck Err)
    (e : RecordedExecutor σ Ck ε Err Pl) : Except Panic (RecordedExecutor σ Ck ε Err Pl) := do
  let polled ← PolledExecutor.poll job answers e.polled
  match polled.output with
  | none => return ⟨polled, e.metrics⟩
  | some output => return ⟨polled, ← recorder.record output e.metrics⟩

/-- The states between polls, from the metrics that the jobs before this one have left. -/
inductive Runs (job : Job σ Ck ε Err Pl) (recorder : Recorder Pl) : RecordedExecutor σ Ck ε Err Pl → Prop
  | run (m : PayloadMetrics) : Runs job recorder (run job m)
  | poll {e e'} (answers : Answers Ck Err) : Runs job recorder e → e.output = none →
      poll job recorder answers e = .ok e' → Runs job recorder e'

end RecordedExecutor

section Recording

lemma recordPayload_ok_iff (payload : PayloadFigures) (blobGasLimit : ℕ) (m : PayloadMetrics) :
    (∃ m', m.recordPayload payload blobGasLimit = .ok m') ↔ payload.fees.val < 2 ^ 64 := by
  rw [PayloadMetrics.recordPayload, toU64]
  split
  · next hfits => exact ⟨fun _ => hfits, fun _ => ⟨_, rfl⟩⟩
  · next hlarge =>
    refine ⟨?_, fun hfits => absurd hfits hlarge⟩
    rintro ⟨m', h⟩
    cases h

lemma record_ok_iff (recorder : Recorder Pl) (output : Except Err Pl) (m : PayloadMetrics) :
    (∃ m', recorder.record output m = .ok m') ↔
      ∀ payload, output = .ok payload → (recorder.figures payload).fees.val < 2 ^ 64 := by
  cases output with
  | ok payload =>
    refine (recordPayload_ok_iff _ _ _).trans ⟨fun hfits other hother => ?_, fun h => h payload rfl⟩
    cases hother
    exact hfits
  | error e =>
    refine iff_of_true ⟨_, rfl⟩ fun payload hpayload => ?_
    cases hpayload

end Recording

namespace RecordedExecutor

variable [LimitExtension ε] {job : Job σ Ck ε Err Pl} {recorder : Recorder Pl}
    {e e' : RecordedExecutor σ Ck ε Err Pl}
  {answers : Answers Ck Err}

lemma polled_of_poll (h : poll job recorder answers e = .ok e') :
    PolledExecutor.poll job answers e.polled = .ok e'.polled := by
  obtain ⟨polled, hp, h⟩ := Library.bind_eq_ok.mp h
  cases hout : polled.output with
  | none =>
    simp only [hout] at h
    cases h
    exact hp
  | some output =>
    simp only [hout] at h
    obtain ⟨m, -, h⟩ := Library.bind_eq_ok.mp h
    cases h
    exact hp

lemma runs_polled (h : Runs job recorder e) : PolledExecutor.Runs job e.polled := by
  induction h with
  | run m => exact .run
  | poll answers _ hpending hp ih => exact .poll answers ih hpending (polled_of_poll hp)

lemma poll_ok_iff {polled : PolledExecutor σ Ck ε Err Pl}
    (hp : PolledExecutor.poll job answers e.polled = .ok polled) :
    (∃ e', poll job recorder answers e = .ok e' ∧ e'.polled = polled) ↔
      ∀ payload, polled.output = some (.ok payload) → (recorder.figures payload).fees.val < 2 ^ 64 := by
  cases hout : polled.output with
  | none =>
    refine iff_of_true ⟨⟨polled, e.metrics⟩, ?_, rfl⟩ fun payload hpayload => ?_
    · simp [poll, hp, hout, bind, Except.bind, pure, Except.pure]
    · cases hpayload
  | some output =>
    have hrecord := record_ok_iff recorder output e.metrics
    simp only [Option.some.injEq]
    rw [← hrecord]
    constructor
    · rintro ⟨e', he, -⟩
      obtain ⟨polled', hp', he⟩ := Library.bind_eq_ok.mp he
      rw [hp] at hp'
      cases hp'
      simp only [hout] at he
      obtain ⟨m, hm, -⟩ := Library.bind_eq_ok.mp he
      exact ⟨m, hm⟩
    · rintro ⟨m, hm⟩
      refine ⟨⟨polled, m⟩, ?_, rfl⟩
      simp [poll, hp, hout, hm, bind, Except.bind, pure, Except.pure]

theorem payload_recorded_iff (h : Runs job recorder e) (answers : Answers Ck Err) :
    ∃ polled, PolledExecutor.poll job answers e.polled = .ok polled ∧
      (∀ payload, polled.output = some (.ok payload) →
        ((∃ e', poll job recorder answers e = .ok e' ∧ e'.output = some (.ok payload)) ↔
          (recorder.figures payload).fees.val < 2 ^ 64)) ∧
      ((∀ payload, polled.output ≠ some (.ok payload)) →
        ∃ e', poll job recorder answers e = .ok e' ∧ e'.polled = polled) := by
  obtain ⟨polled, hp, -⟩ := PolledExecutor.poll_sound (PolledExecutor.runs_sound (runs_polled h)) answers
  refine ⟨polled, hp, fun payload hpayload => ?_, fun hnone => ?_⟩
  · have hiff : (∃ e', poll job recorder answers e = .ok e' ∧ e'.output = some (.ok payload)) ↔
        ∃ e', poll job recorder answers e = .ok e' ∧ e'.polled = polled := by
      constructor
      · rintro ⟨e', he, -⟩
        have hpolled := polled_of_poll he
        rw [hp] at hpolled
        exact ⟨e', he, (Except.ok.inj hpolled).symm⟩
      · rintro ⟨e', he, rfl⟩
        exact ⟨e', he, hpayload⟩
    rw [hiff, poll_ok_iff hp]
    refine ⟨fun hall => hall payload hpayload, fun hfits other hother => ?_⟩
    rw [hpayload] at hother
    cases hother
    exact hfits
  · exact (poll_ok_iff hp).mpr fun payload hpayload => absurd hpayload (hnone payload)

def oneStepJob (Err : Type) : Job ℕ U256 Unit Err U256 where
  pipeline :=
    { root := Pipeline.default.withStep 7
      fits := Pipeline.fits_of_checkAll (by decide) }
  platformLimits := ⟨30000000, none, none, some 12000000000, ()⟩
  start := 0
  buildPayload := .ok

abbrev tippedJob : Job ℕ U256 Unit String U256 := oneStepJob String

def tippedRecorder : Recorder U256 where
  figures fees := ⟨fees, 21000, 30000000, none, 1, 1⟩
  blobGasLimit := 0

lemma oneStep_iterSteps (Err : Type) : (oneStepJob Err).pipeline.root.iterSteps = [[1]] := by
  rw [iterSteps_eq]
  rfl

lemma tipped_advance (scope : RootScope U256 Unit) (fees : U256) (now : ℕ) :
    PipelineExecutor.advanceCursor tippedJob scope [1] (.ok fees) now = .ok ⟨.finalizing (.ok fees), scope⟩ := by
  have hnavi : StepPath.navigator [1] tippedJob.pipeline.root =
      .ok (some (StepNavigator.at_ [] tippedJob.pipeline.root 1)) := rfl
  have hnext : (StepNavigator.at_ [] tippedJob.pipeline.root 1).nextOk = .ok none :=
    (StepNavigator.afterLoop_at [] tippedJob.pipeline.root 1).trans (StepNavigator.nextInParent_root _ 1)
  rw [PipelineExecutor.advanceCursor_ok hnavi hnext]
  rfl

lemma tipped_finalizes (fees : U256) : ∃ e polled, Runs tippedJob tippedRecorder e ∧ e.output = none ∧
    PolledExecutor.poll tippedJob { afterJob := [.ok ()] } e.polled = .ok polled ∧
      polled.output = some (.ok fees) := by
  have hrun : PolledExecutor.run tippedJob = ⟨PipelineExecutor.run tippedJob, .created [[1]], [.jobStarted]⟩ := by
    rw [PolledExecutor.run, oneStep_iterSteps]
  have hpoll : ∀ (e : RecordedExecutor ℕ U256 Unit String U256) answers polled,
      PolledExecutor.poll tippedJob answers e.polled = .ok polled → polled.output = none →
      ∃ e', poll tippedJob tippedRecorder answers e = .ok e' ∧ e'.polled = polled := by
    intro e answers polled hp hout
    refine (poll_ok_iff hp).mpr fun payload hpayload => ?_
    rw [hout] at hpayload
    cases hpayload
  obtain ⟨scope, step, ctx, log, hstart, call, left, hcall, hactive, hleave⟩ : ∃ scope step ctx log,
      PolledExecutor.poll tippedJob { beforeJob := [.ok ()] }
        ⟨PipelineExecutor.run tippedJob, .created [[1]], [.jobStarted]⟩ =
      .ok ⟨⟨.stepInProgress [1] step 0 ctx, scope⟩, .created tippedJob.pipeline.root.iterSteps, log⟩ ∧
      ∃ call left, PolledExecutor.callContext tippedJob scope [1] = .ok call ∧ scope.isActive = true ∧
        scope.leave = .ok left :=
    ⟨_, _, _, _, rfl, _, _, rfl, rfl, rfl⟩
  rw [← hrun] at hstart
  obtain ⟨e₁, he₁, hp₁⟩ := hpoll (run tippedJob {}) _ _ hstart rfl
  have hstep : PolledExecutor.poll tippedJob { step := some (.ok fees) } e₁.polled =
      .ok ⟨⟨.finalizing (.ok fees), scope⟩, .created [[1]], log ++ [.stepDone [1] (.ok fees)]⟩ := by
    rw [hp₁, oneStep_iterSteps]
    simp only [PolledExecutor.poll, PolledExecutor.pollInitializing, PolledExecutor.pollFinalizing,
      PolledExecutor.pollBeforeStep, PolledExecutor.pollStepInProgress, PipelineExecutor.poll,
      tipped_advance, bind, Except.bind, pure, Except.pure]
  obtain ⟨e₂, he₂, hp₂⟩ := hpoll e₁ _ _ hstep rfl
  obtain ⟨polled, hfinal, hout⟩ : ∃ polled, PolledExecutor.poll tippedJob { afterJob := [.ok ()] } e₂.polled =
      .ok polled ∧ polled.output = some (.ok fees) := by
    rw [hp₂]
    refine ⟨⟨⟨.completed (.ok fees), left⟩, .created [[1]], log ++ [.stepDone [1] (.ok fees)] ++
      [.hook (.afterJob (.ok fees)) [1] call.1 call.2, .hookDone (.afterJob (.ok fees)) [1] (.ok ())] ++
      [.announce (.ok fees)]⟩, ?_, rfl⟩
    simp only [PolledExecutor.poll, PolledExecutor.pollInitializing, PolledExecutor.pollFinalizing,
      PolledExecutor.pollCalls, PolledExecutor.awaitCalls, PolledExecutor.pollBeforeStep,
      PolledExecutor.pollStepInProgress, PipelineExecutor.poll, hcall, hactive, hleave, if_true, bind,
      Except.bind, pure, Except.pure]
  have hruns : Runs tippedJob tippedRecorder e₂ :=
    .poll _ (.poll _ (.run {}) rfl he₁) (by rw [output, hp₁]; rfl) he₂
  exact ⟨e₂, polled, hruns, by rw [output, hp₂]; rfl, hfinal, hout⟩

theorem tipped_recording_panics : ∃ e polled, Runs tippedJob tippedRecorder e ∧
    PolledExecutor.poll tippedJob { afterJob := [.ok ()] } e.polled = .ok polled ∧
    polled.output = some (.ok (2 ^ 64)) ∧
    poll tippedJob tippedRecorder { afterJob := [.ok ()] } e = .error "Uint conversion error" := by
  obtain ⟨e, polled, hruns, -, hp, hout⟩ := tipped_finalizes (2 ^ 64)
  refine ⟨e, polled, hruns, hp, hout, ?_⟩
  simp only [poll, hp, hout, bind, Except.bind]
  rfl

theorem tipped_recorded : ∃ e polled, Runs tippedJob tippedRecorder e ∧
    PolledExecutor.poll tippedJob { afterJob := [.ok ()] } e.polled = .ok polled ∧
    polled.output = some (.ok 500) ∧
    ∃ e', poll tippedJob tippedRecorder { afterJob := [.ok ()] } e = .ok e' ∧ e'.output = some (.ok 500) := by
  obtain ⟨e, polled, hruns, -, hp, hout⟩ := tipped_finalizes 500
  obtain ⟨polled', hp', hiff, -⟩ := payload_recorded_iff hruns { afterJob := [.ok ()] }
  rw [hp] at hp'
  cases hp'
  exact ⟨e, polled, hruns, hp, hout, (hiff 500 hout).mpr (by decide)⟩

end RecordedExecutor

end Rblib.Pipelines
