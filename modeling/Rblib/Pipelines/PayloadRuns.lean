import Rblib.Pipelines.PollingRuns

namespace Rblib.Pipelines

open Platform

variable {σ Ck ε Err Pl : Type}

def Cursor.payload : Cursor σ Ck ε Err Pl → Option Ck
  | .beforeStep _ input => some input
  | .stepInProgress _ _ input _ => some input
  | _ => none

def Cursor.output : Cursor σ Ck ε Err Pl → Option (Except Err Pl)
  | .finalizing output => some output
  | .completed output => some output
  | _ => none

namespace PipelineExecutor

variable {job : Job σ Ck ε Err Pl}

structure Carries (job : Job σ Ck ε Err Pl) (q : Ck → Prop) (cursor : Cursor σ Ck ε Err Pl) : Prop where
  started : cursor ≠ .initializing
  payload : ∀ ck, cursor.payload = some ck → q ck
  built : ∀ pl, cursor.output = some (.ok pl) → ∃ ck, q ck ∧ job.buildPayload ck = .ok pl

lemma carries_payload {q : Ck → Prop} {cursor : Cursor σ Ck ε Err Pl} {ck : Ck}
    (hc : cursor.payload = some ck) (hq : q ck) : Carries job q cursor := by
  have hout : cursor.output = none := by
    cases cursor with
    | beforeStep path input => rfl
    | stepInProgress path step input ctx => rfl
    | _ => cases hc
  refine ⟨?_, fun ck' hc' => ?_, fun pl ho => ?_⟩
  · rintro rfl
    cases hc
  · cases hc.symm.trans hc'
    exact hq
  · rw [hout] at ho
    cases ho

lemma carries_output {q : Ck → Prop} {cursor : Cursor σ Ck ε Err Pl} {output : Except Err Pl}
    (hc : cursor.output = some output)
    (hbuilt : ∀ pl, output = .ok pl → ∃ ck, q ck ∧ job.buildPayload ck = .ok pl) : Carries job q cursor := by
  have hpayload : cursor.payload = none := by
    cases cursor with
    | finalizing output => rfl
    | completed output => rfl
    | _ => cases hc
  refine ⟨?_, fun ck hp => ?_, fun pl ho => hbuilt pl (Option.some.inj (hc.symm.trans ho))⟩
  · rintro rfl
    cases hc
  · rw [hpayload] at hp
    cases hp

lemma carries_failed (q : Ck → Prop) {cursor : Cursor σ Ck ε Err Pl} {e : Err}
    (hc : cursor.output = some (.error e)) : Carries job q cursor :=
  carries_output hc fun pl h => by cases h

variable [LimitExtension ε] {exec exec' : PipelineExecutor σ Ck ε Err Pl}
  {returns : σ → StepContext ε → Ck → ControlFlow Ck Err → Prop}

def Follows (returns : σ → StepContext ε → Ck → ControlFlow Ck Err → Prop) (job : Job σ Ck ε Err Pl)
    (exec exec' : PipelineExecutor σ Ck ε Err Pl) : Prop :=
  ∃ event, poll job event exec = .ok exec' ∧ ∀ output now path step input ctx,
    event = .stepReady output now → exec.cursor = .stepInProgress path step input ctx →
      returns step ctx input output

lemma carries_poll {q : Ck → Prop}
    (hq : ∀ step ctx input output ck, returns step ctx input output → output.checkpoint = some ck →
      q input → q ck)
    (hf : Follows returns job exec exec') (h : Carries job q exec.cursor) : Carries job q exec'.cursor := by
  obtain ⟨event, hp, hreturns⟩ := hf
  cases poll_turn hp with
  | idle => exact h
  | aborted e scope now => exact carries_failed q rfl
  | first hp => exact absurd rfl h.started
  | started hp => exact carries_payload rfl (h.payload _ rfl)
  | @ready path step input ctx scope output now exec' hp =>
    rcases advanceCursor_cases hp with ⟨e, -, rfl⟩ | ⟨ck, hck, hnext⟩
    · exact carries_failed q rfl
    · have hkept := hq step ctx input output ck (hreturns _ _ _ _ _ _ rfl rfl) hck (h.payload input rfl)
      rcases hnext with rfl | ⟨path', scope', rfl⟩
      · exact carries_output rfl fun pl hpl => ⟨ck, hkept, hpl⟩
      · exact carries_payload rfl hkept
  | finalized hp =>
    rcases finalized_cases hp with ⟨e, -, rfl⟩ | ⟨-, -, rfl⟩ | ⟨scope', -, -, rfl⟩
    · exact carries_failed q rfl
    · exact carries_output rfl fun pl hpl => h.built pl (congrArg some hpl)
    · exact carries_output rfl fun pl hpl => h.built pl (congrArg some hpl)

lemma carries_run {q : Ck → Prop}
    (hq : ∀ step ctx input output ck, returns step ctx input output → output.checkpoint = some ck →
      q input → q ck)
    (hrun : Relation.ReflTransGen (Follows returns job) exec exec') (h : Carries job q exec.cursor) :
    Carries job q exec'.cursor := by
  induction hrun with
  | refl => exact h
  | tail _ hstep ih => exact carries_poll hq hstep ih

end PipelineExecutor

end Rblib.Pipelines
