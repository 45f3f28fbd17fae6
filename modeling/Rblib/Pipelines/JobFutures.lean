import Rblib.Library.FixedWidth
import Rblib.Library.SharedFuture
import Rblib.Pipelines.JobGuarantees
import Rblib.Pipelines.RecordedPayloads

/-! The futures of a payload job, `pipelines/job.rs`. -/

namespace Rblib.Pipelines

open Platform Payload Library

class DynError (E : Type) extends ToString E where
  ofText : String → E

inductive PayloadBuilderError (H E : Type)
  | missingParentHeader (hash : H)
  | missingParentBlock (hash : H)
  | channelClosed
  | missingPayload
  | internal (error : E)
  | evmExecutionError (error : E)
  | other (error : E)

variable {H E : Type} [DynError E]

def clonePayloadErrorLossy : PayloadBuilderError H E → PayloadBuilderError H E
  | .missingParentHeader hash => .missingParentHeader hash
  | .missingParentBlock hash => .missingParentBlock hash
  | .channelClosed => .channelClosed
  | .missingPayload => .missingPayload
  | .internal error => .other (DynError.ofText (toString error))
  | .evmExecutionError error | .other error => .other (DynError.ofText (toString error))

variable {σ Ck ε Pl : Type} [LimitExtension ε]

def lossy (result : Except (PayloadBuilderError H E) Pl) : Except (PayloadBuilderError H E) Pl :=
  result.mapError clonePayloadErrorLossy

structure JobService (σ Ck ε H E Pl : Type) where
  shared : SharedFutures (RecordedExecutor σ Ck ε (PayloadBuilderError H E) Pl)
    (Except (PayloadBuilderError H E) Pl) Panic
  job : Job σ Ck ε (PayloadBuilderError H E) Pl
  recorder : Recorder Pl
  checks : OverflowChecks

abbrev JobService.Laws {σ Ck ε H E Pl : Type} (svc : JobService σ Ck ε H E Pl) :=
    svc.shared.Laws RecordedExecutor.output

inductive ExecutorFuture (Handle Err Pl : Type)
  | ready (result : Except Err Pl)
  | future (executor : Handle)

def gasUtilization (checks : OverflowChecks) (payload : PayloadFigures) : Except Panic ℕ :=
  match FixedWidth.fit checks 64 (payload.gasUsed * 100) with
  | .error _ => .error "attempt to multiply with overflow"
  | .ok scaled =>
    if payload.gasLimit = 0 then .error "attempt to divide by zero" else .ok (scaled.toNat / payload.gasLimit)

namespace ExecutorFuture

variable (svc : JobService σ Ck ε H E Pl)

def logPayloadJobResult {σ Ck ε H E Pl : Type} (svc : JobService σ Ck ε H E Pl) :
    Except (PayloadBuilderError H E) Pl → Except Panic Unit
  | .ok payload => (gasUtilization svc.checks (svc.recorder.figures payload)).map fun _ => ()
  | .error _ => .ok ()

def poll (answers : Answers Ck (PayloadBuilderError H E)) (busy : Bool) (cell : svc.shared.Cell) :
    ExecutorFuture svc.shared.Handle (PayloadBuilderError H E) Pl →
      Except Panic (Option (Except (PayloadBuilderError H E) Pl) ×
        ExecutorFuture svc.shared.Handle (PayloadBuilderError H E) Pl × svc.shared.Cell)
  | .ready result => .ok (some (lossy result), .ready result, cell)
  | .future handle => do
    let (poll, handle, cell) ← svc.shared.poll (RecordedExecutor.poll svc.job svc.recorder answers)
      busy cell handle
    match poll with
    | some result =>
      logPayloadJobResult svc result
      return (some (lossy result), .ready result, cell)
    | none => return (none, .future handle, cell)

def clone {σ Ck ε H E Pl Err : Type} (svc : JobService σ Ck ε H E Pl) :
    ExecutorFuture svc.shared.Handle Err Pl → ExecutorFuture svc.shared.Handle Err Pl
  | .ready result => .ready result
  | .future handle => .future (svc.shared.clone handle)

end ExecutorFuture

inductive PayloadKind
  | earliest
  | waitForPending

inductive KeepPayloadJobAlive
  | yes
  | no

structure PayloadJob (Handle Err Pl : Type) where
  fut : ExecutorFuture Handle Err Pl

namespace PayloadJob

variable (svc : JobService σ Ck ε H E Pl)

def bestPayload {Handle Err : Type} (_ : PayloadJob Handle Err Pl) : Except Panic Pl :=
  .error "not implemented: PayloadJob::best_payload is not implemented"

def resolveKind {σ Ck ε H E Pl Err : Type} (svc : JobService σ Ck ε H E Pl)
    (this : PayloadJob svc.shared.Handle Err Pl) :
    PayloadKind → Except Panic (ExecutorFuture svc.shared.Handle Err Pl × KeepPayloadJobAlive)
  | .earliest => .ok (this.fut.clone svc, .no)
  | .waitForPending => .error "not implemented: PayloadKind::WaitForPending mode not supported"

def poll (deadline : Bool) (answers : Answers Ck (PayloadBuilderError H E)) (busy : Bool) (cell : svc.shared.Cell)
    (this : PayloadJob svc.shared.Handle (PayloadBuilderError H E) Pl) :
    Except Panic (Option (Except (PayloadBuilderError H E) Unit) ×
      PayloadJob svc.shared.Handle (PayloadBuilderError H E) Pl × svc.shared.Cell) :=
  if deadline then
    .ok (some (.ok ()), this, cell)
  else do
    let (poll, fut, cell) ← this.fut.poll svc answers busy cell
    match poll with
    | some (.error e) => return (some (.error e), ⟨fut⟩, cell)
    | _ => return (none, ⟨fut⟩, cell)

end PayloadJob

/-- The executor that the futures share, the job until the service drops it and the futures it has returned. -/
structure JobFutures (svc : JobService σ Ck ε H E Pl) where
  cell : svc.shared.Cell
  payloadJob : Option (PayloadJob svc.shared.Handle (PayloadBuilderError H E) Pl)
  futures : List (ExecutorFuture svc.shared.Handle (PayloadBuilderError H E) Pl)

inductive ServiceCall (Ck Err : Type)
  | pollJob (deadline : Bool) (answers : Answers Ck Err) (busy : Bool)
  | resolveKind (kind : PayloadKind)
  | bestPayload
  | dropJob
  | pollFuture (i : ℕ) (answers : Answers Ck Err) (busy : Bool)
  | cloneFuture (i : ℕ)
  | dropFuture (i : ℕ)

inductive Polled (Err Pl : Type)
  | job (poll : Option (Except Err Unit))
  | future (poll : Option (Except Err Pl))
  | nothing

namespace JobFutures

variable (svc : JobService σ Ck ε H E Pl)

def new (metrics : PayloadMetrics) : JobFutures svc :=
  let (cell, handle) := svc.shared.shared (RecordedExecutor.run svc.job metrics)
  ⟨cell, some ⟨.future handle⟩, []⟩

variable {svc}

def call (s : JobFutures svc) :
    ServiceCall Ck (PayloadBuilderError H E) → Except Panic (Polled (PayloadBuilderError H E) Pl × JobFutures svc)
  | .pollJob deadline answers busy =>
    match s.payloadJob with
    | none => .ok (.nothing, s)
    | some this => do
      let (poll, this, cell) ← this.poll svc deadline answers busy s.cell
      return (.job poll, ⟨cell, some this, s.futures⟩)
  | .resolveKind kind =>
    match s.payloadJob with
    | none => .ok (.nothing, s)
    | some this => do
      let (future, _) ← this.resolveKind svc kind
      return (.nothing, { s with futures := s.futures ++ [future] })
  | .bestPayload =>
    match s.payloadJob with
    | none => .ok (.nothing, s)
    | some this => do
      let _ ← this.bestPayload
      return (.nothing, s)
  | .dropJob => .ok (.nothing, { s with payloadJob := none })
  | .pollFuture i answers busy =>
    match s.futures[i]? with
    | none => .ok (.nothing, s)
    | some future => do
      let (poll, future, cell) ← future.poll svc answers busy s.cell
      return (.future poll, ⟨cell, s.payloadJob, s.futures.set i future⟩)
  | .cloneFuture i =>
    match s.futures[i]? with
    | none => .ok (.nothing, s)
    | some future => .ok (.nothing, { s with futures := s.futures ++ [future.clone svc] })
  | .dropFuture i => .ok (.nothing, { s with futures := s.futures.eraseIdx i })

/-- The calls so far with what they returned. A call that panics is the last one. -/
inductive Reaches (svc : JobService σ Ck ε H E Pl) : JobFutures svc →
    List (ServiceCall Ck (PayloadBuilderError H E) × Polled (PayloadBuilderError H E) Pl) → Prop
  | new (metrics : PayloadMetrics) : Reaches svc (new svc metrics) []
  | call {s s' calls polled} (c : ServiceCall Ck (PayloadBuilderError H E)) : Reaches svc s calls →
      call s c = .ok (polled, s') → Reaches svc s' (calls ++ [(c, polled)])

end JobFutures


section Recording

variable {job : Job σ Ck ε (PayloadBuilderError H E) Pl} {recorder : Recorder Pl}
  {e : RecordedExecutor σ Ck ε (PayloadBuilderError H E) Pl}

namespace RecordedExecutor

end RecordedExecutor

end Recording

section Sharing

variable {svc : JobService σ Ck ε H E Pl} {laws : svc.Laws} {cell cell' : svc.shared.Cell}
  {handle : svc.shared.Handle} {future : ExecutorFuture svc.shared.Handle (PayloadBuilderError H E) Pl}
  {answers : Answers Ck (PayloadBuilderError H E)} {busy : Bool}

abbrev Moved (svc : JobService σ Ck ε H E Pl) (answers : Answers Ck (PayloadBuilderError H E)) :
    RecordedExecutor σ Ck ε (PayloadBuilderError H E) Pl →
      RecordedExecutor σ Ck ε (PayloadBuilderError H E) Pl → Prop :=
  Driven (RecordedExecutor.poll svc.job svc.recorder answers) RecordedExecutor.output

abbrev JobService.Runs (svc : JobService σ Ck ε H E Pl) (laws : svc.Laws) (cell : svc.shared.Cell) : Prop :=
  RecordedExecutor.Runs svc.job svc.recorder (laws.inner cell)

omit [DynError E] in
lemma Moved.runs (h : Moved svc answers (laws.inner cell) (laws.inner cell')) (hr : svc.Runs laws cell) :
    svc.Runs laws cell' := by
  rcases h with h | ⟨ho, hp⟩
  · rw [JobService.Runs, h]
    exact hr
  · exact .poll answers hr ho hp

def awaited (svc : JobService σ Ck ε H E Pl) (answers : Answers Ck (PayloadBuilderError H E)) (busy : Bool)
    (e : RecordedExecutor σ Ck ε (PayloadBuilderError H E) Pl) : Option (Except (PayloadBuilderError H E) Pl) :=
  match e.output with
  | some output => some output
  | none =>
    if busy then none
    else
      match PolledExecutor.poll svc.job answers e.polled with
      | .ok polled => polled.output
      | .error _ => none

def ExecutorFuture.Holds (laws : svc.Laws) (cell : svc.shared.Cell) :
    ExecutorFuture svc.shared.Handle (PayloadBuilderError H E) Pl → Prop
  | .ready result => (laws.inner cell).output = some result
  | .future handle => laws.live handle

omit [DynError E] in
lemma Moved.holds (h : Moved svc answers (laws.inner cell) (laws.inner cell')) (hf : future.Holds laws cell) :
    future.Holds laws cell' := by
  cases future with
  | ready result =>
    rw [ExecutorFuture.Holds, Driven.finished h hf]
    exact hf
  | future handle => exact hf

omit [LimitExtension ε] [DynError E] in
lemma ExecutorFuture.clone_holds (hf : future.Holds laws cell) : (future.clone svc).Holds laws cell := by
  cases future with
  | ready result => exact hf
  | future handle => exact laws.live_clone handle hf

def PayloadJob.failure (output : Option (Except (PayloadBuilderError H E) Pl)) :
    Option (Except (PayloadBuilderError H E) Unit) :=
  match output with
  | some (.error error) => some (.error (clonePayloadErrorLossy error))
  | _ => none

end Sharing

section Service

variable {svc : JobService σ Ck ε H E Pl} {laws : svc.Laws} {s s' : JobFutures svc}

namespace JobFutures

structure Coherent (laws : svc.Laws) (s : JobFutures svc) : Prop where
  runs : svc.Runs laws s.cell
  payloadJob : ∀ this, s.payloadJob = some this → this.fut.Holds laws s.cell
  futures : ∀ future ∈ s.futures, future.Holds laws s.cell

def deadlineReached : ServiceCall Ck (PayloadBuilderError H E) → Bool
  | .pollJob deadline _ _ => deadline
  | _ => false

def Reported (e : RecordedExecutor σ Ck ε (PayloadBuilderError H E) Pl)
    (c : ServiceCall Ck (PayloadBuilderError H E)) :
    Polled (PayloadBuilderError H E) Pl → Prop
  | .future (some result) => ∃ output, e.output = some output ∧ result = lossy output
  | .job (some (.error error)) => ∃ e', e.output = some (.error e') ∧ error = clonePayloadErrorLossy e'
  | .job (some (.ok ())) => deadlineReached c = true
  | _ => True

omit [LimitExtension ε] in
lemma Reported.stays {e e' : RecordedExecutor σ Ck ε (PayloadBuilderError H E) Pl}
    {c : ServiceCall Ck (PayloadBuilderError H E)} {polled : Polled (PayloadBuilderError H E) Pl}
    (h : Reported e c polled) (hstay : ∀ output, e.output = some output → e' = e) : Reported e' c polled := by
  rcases polled with (_ | (_ | _)) | (_ | result) | _
  · exact h
  · obtain ⟨error, ho, rfl⟩ := h
    exact ⟨error, hstay _ ho ▸ ho, rfl⟩
  · exact h
  · exact h
  · obtain ⟨output, ho, rfl⟩ := h
    exact ⟨output, hstay _ ho ▸ ho, rfl⟩
  · exact h

omit [DynError E] in
lemma Coherent.moved {answers : Answers Ck (PayloadBuilderError H E)} {cell : svc.shared.Cell}
    (h : Coherent laws s)
    (hd : Moved svc answers (laws.inner s.cell) (laws.inner cell)) : Coherent laws { s with cell := cell } :=
  ⟨hd.runs h.runs, fun this ht => hd.holds (h.payloadJob this ht), fun future hm => hd.holds (h.futures future hm)⟩

structure Served (laws : svc.Laws) (s : JobFutures svc) (c : ServiceCall Ck (PayloadBuilderError H E))
    (polled : Polled (PayloadBuilderError H E) Pl) (s' : JobFutures svc) : Prop where
  coherent : Coherent laws s'
  reported : Reported (laws.inner s'.cell) c polled
  stays : ∀ output, (laws.inner s.cell).output = some output → laws.inner s'.cell = laws.inner s.cell

variable {c : ServiceCall Ck (PayloadBuilderError H E)}

lemma Coherent.idle (h : Coherent laws s) : Served laws s c .nothing s :=
  ⟨h, trivial, fun _ _ => rfl⟩

lemma Coherent.added {future : ExecutorFuture svc.shared.Handle (PayloadBuilderError H E) Pl} (h : Coherent laws s)
    (hf : future.Holds laws s.cell) :
    Served laws s c .nothing { s with futures := s.futures ++ [future.clone svc] } := by
  refine ⟨⟨h.runs, h.payloadJob, fun other hm => ?_⟩, trivial, fun _ _ => rfl⟩
  rcases List.mem_append.mp hm with hm | hm
  · exact h.futures other hm
  · cases List.mem_singleton.mp hm
    exact ExecutorFuture.clone_holds hf

instance : DynError String where
  ofText := id

end JobFutures

end Service

end Rblib.Pipelines
