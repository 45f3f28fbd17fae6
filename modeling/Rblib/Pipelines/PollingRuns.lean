import Rblib.Library.Fallible
import Rblib.Pipelines.JobProtocol

namespace Rblib.Pipelines

open Platform StepNavigator Scope

variable {σ Ck ε Err Pl : Type}

section Shape

def Shaped (root : Pipeline σ (ScopedLimits Ck ε)) (scope : RootScope Ck ε) : Prop :=
  ∀ ctx p b, Located root ctx p b → ∃ inner, scope.root.get ctx.path = some inner

lemma get_deactivate {s : StepPath} {scope inner : Scope Ck ε} (h : scope.get s = some inner) :
    ∃ inner', scope.deactivate.get s = some inner' := by
  induction s generalizing scope with
  | nil => exact ⟨_, rfl⟩
  | cons i s ih =>
    obtain ⟨d, nested⟩ := scope
    rw [Scope.get] at h
    obtain ⟨child, hc, hg⟩ := Option.bind_eq_some_iff.mp h
    rw [deactivate, Scope.get, hc]
    obtain ⟨e, nested'⟩ := child
    rw [leaveNested]
    split
    · exact ih hg
    · exact ⟨inner, hg⟩

lemma Shaped.leave {root : Pipeline σ (ScopedLimits Ck ε)} {scope scope' : RootScope Ck ε}
    (h : Shaped root scope) (hl : scope.leave = .ok scope') : Shaped root scope' := by
  intro ctx p b hloc
  obtain ⟨inner, hg⟩ := h ctx p b hloc
  rw [RootScope.leave, Scope.leave] at hl
  split at hl
  · cases hl
    exact get_deactivate hg
  · cases hl

lemma Shaped.limitsOf {root : Pipeline σ (ScopedLimits Ck ε)} {scope : RootScope Ck ε}
    (h : Shaped root scope) {nav : StepNavigator σ (ScopedLimits Ck ε)} (hx : Executable root nav) :
    ∃ limits, scope.limitsOf nav.path = .ok (some limits) := by
  obtain ⟨ctx, p, b, x, hloc, -, rfl⟩ := hx
  obtain ⟨inner, hg⟩ := h ctx p b hloc
  refine ⟨inner.limits, ?_⟩
  simp [RootScope.limitsOf, scopeOf_at, hg, bind, Except.bind, pure, Except.pure]

variable [LimitExtension ε]

lemma Tracks.shaped {root : Pipeline σ (ScopedLimits Ck ε)} {start : Ck} {limits : Limits ε}
    {scope : RootScope Ck ε} {c : StepPath} (h : Tracks root start limits scope.root.view c) :
    Shaped root scope := by
  intro ctx p b hloc
  obtain ⟨d, hd, -⟩ := h.shape ctx p b hloc
  obtain ⟨inner, hg, -⟩ := Option.map_eq_some_iff.mp hd
  exact ⟨inner, hg⟩

namespace PipelineExecutor

variable {job : Job σ Ck ε Err Pl} {exec exec' : PipelineExecutor σ Ck ε Err Pl}

lemma schedule_cases {scope : RootScope Ck ε} {now : ℕ} {input : Ck}
    {target : Option (StepNavigator σ (ScopedLimits Ck ε))}
    (h : schedule job scope now input target = .ok exec') :
    exec' = ⟨.finalizing (job.buildPayload input), scope⟩ ∨
      ∃ path scope', exec' = ⟨.beforeStep path input, scope'⟩ := by
  cases target with
  | none =>
    cases h
    exact .inl rfl
  | some nav =>
    obtain ⟨scope', -, h⟩ := Library.bind_eq_ok.mp h
    cases h
    exact .inr ⟨_, _, rfl⟩

lemma advanceCursor_cases {scope : RootScope Ck ε} {path : StepPath} {output : ControlFlow Ck Err} {now : ℕ}
    (h : advanceCursor job scope path output now = .ok exec') :
    (∃ e, output = .fail e ∧ exec' = ⟨.finalizing (.error e), scope⟩) ∨
    ∃ c, output.checkpoint = some c ∧ (exec' = ⟨.finalizing (job.buildPayload c), scope⟩ ∨
      ∃ path' scope', exec' = ⟨.beforeStep path' c, scope'⟩) := by
  obtain ⟨target, -, h⟩ := Library.bind_eq_ok.mp h
  cases target with
  | none => cases h
  | some nav =>
    cases output with
    | fail e =>
      cases h
      exact .inl ⟨e, rfl, rfl⟩
    | brk c =>
      obtain ⟨next, -, h⟩ := Library.bind_eq_ok.mp h
      exact .inr ⟨c, rfl, schedule_cases h⟩
    | ok c =>
      obtain ⟨next, -, h⟩ := Library.bind_eq_ok.mp h
      exact .inr ⟨c, rfl, schedule_cases h⟩

lemma firstStep_cases {scope : RootScope Ck ε} {now : ℕ} (h : firstStep job scope now = .ok exec') :
    (entrypoint job.pipeline.root = none ∧ exec' = ⟨.finalizing (job.buildPayload job.start), scope⟩) ∨
    ∃ nav scope', entrypoint job.pipeline.root = some nav ∧
      exec' = ⟨.beforeStep nav.path job.start, scope'⟩ := by
  rw [firstStep] at h
  cases he : entrypoint job.pipeline.root with
  | none =>
    rw [he] at h
    cases h
    exact .inl ⟨rfl, rfl⟩
  | some nav =>
    rw [he] at h
    obtain ⟨scope', -, h⟩ := Library.bind_eq_ok.mp h
    cases h
    exact .inr ⟨nav, scope', rfl, rfl⟩

lemma finalized_cases {output : Except Err Pl} {scope : RootScope Ck ε} {result : Except Err Unit}
    (h : poll job (.finalized result) ⟨.finalizing output, scope⟩ = .ok exec') :
    (∃ e, result = .error e ∧ exec' = ⟨.completed (.error e), scope⟩) ∨
    (result = .ok () ∧ scope.isActive = false ∧ exec' = ⟨.completed output, scope⟩) ∨
    ∃ scope', result = .ok () ∧ scope.leave = .ok scope' ∧ exec' = ⟨.completed output, scope'⟩ := by
  cases result with
  | error e =>
    cases h
    exact .inl ⟨e, rfl, rfl⟩
  | ok u =>
    simp only [poll] at h
    split at h
    · obtain ⟨scope', hl, h⟩ := Library.bind_eq_ok.mp h
      cases h
      exact .inr (.inr ⟨scope', rfl, hl, rfl⟩)
    · next ha =>
      cases h
      exact .inr (.inl ⟨rfl, by simpa using ha, rfl⟩)

inductive Turn (job : Job σ Ck ε Err Pl) :
    PipelineExecutor σ Ck ε Err Pl → Event Ck Err → PipelineExecutor σ Ck ε Err Pl → Prop
  | idle (exec event) : Turn job exec event exec
  | aborted (e scope now) :
      Turn job ⟨.initializing, scope⟩ (.initialized (.error e) now) ⟨.finalizing (.error e), scope⟩
  | first {scope now exec'} : firstStep job scope now = .ok exec' →
      Turn job ⟨.initializing, scope⟩ (.initialized (.ok ()) now) exec'
  | started {path input scope step ctx} : executeStep job scope path = .ok (step, ctx) →
      Turn job ⟨.beforeStep path input, scope⟩ .started ⟨.stepInProgress path step input ctx, scope⟩
  | ready {path step input ctx scope output now exec'} : advanceCursor job scope path output now = .ok exec' →
      Turn job ⟨.stepInProgress path step input ctx, scope⟩ (.stepReady output now) exec'
  | finalized {output scope result exec'} :
      poll job (.finalized result) ⟨.finalizing output, scope⟩ = .ok exec' →
      Turn job ⟨.finalizing output, scope⟩ (.finalized result) exec'

lemma poll_turn {event : Event Ck Err} (h : poll job event exec = .ok exec') : Turn job exec event exec' := by
  obtain ⟨cursor, scope⟩ := exec
  cases event with
  | initialized result now =>
    cases cursor with
    | initializing =>
      cases result with
      | error e =>
        cases h
        exact .aborted e scope now
      | ok u => exact .first h
    | _ =>
      cases h
      exact .idle _ _
  | started =>
    cases cursor with
    | beforeStep path input =>
      obtain ⟨⟨step, ctx⟩, hs, h⟩ := Library.bind_eq_ok.mp h
      cases h
      exact .started hs
    | _ =>
      cases h
      exact .idle _ _
  | stepReady output now =>
    cases cursor with
    | stepInProgress path step input ctx => exact .ready h
    | _ =>
      cases h
      exact .idle _ _
  | finalized result =>
    cases cursor with
    | finalizing output => exact .finalized h
    | _ =>
      cases h
      exact .idle _ _

lemma poll_scope {event : Event Ck Err} (h : poll job event exec = .ok exec') :
    exec'.scope = exec.scope ∨ (∃ path input, exec'.cursor = .beforeStep path input) ∨
      exec.scope.leave = .ok exec'.scope := by
  cases poll_turn h with
  | idle => exact .inl rfl
  | aborted e scope now => exact .inl rfl
  | first h =>
    rcases firstStep_cases h with ⟨-, rfl⟩ | ⟨nav, scope', -, rfl⟩
    · exact .inl rfl
    · exact .inr (.inl ⟨_, _, rfl⟩)
  | started h => exact .inl rfl
  | ready h =>
    rcases advanceCursor_cases h with ⟨e, -, rfl⟩ | ⟨c, -, rfl | ⟨path', scope', rfl⟩⟩
    · exact .inl rfl
    · exact .inl rfl
    · exact .inr (.inl ⟨_, _, rfl⟩)
  | finalized h =>
    rcases finalized_cases h with ⟨e, -, rfl⟩ | ⟨-, -, rfl⟩ | ⟨scope', -, hl, rfl⟩
    · exact .inl rfl
    · exact .inl rfl
    · exact .inr (.inr hl)

theorem reaches_shaped (h : Reaches job exec) : Shaped job.pipeline.root exec.scope := by
  induction h with
  | run =>
    intro ctx p b hloc
    obtain ⟨enclosing, hg⟩ := rootedAt_get job.pipeline.root job.start job.platformLimits hloc
    exact ⟨_, hg⟩
  | poll event hr hp ih =>
    rcases poll_scope hp with hs | ⟨path, input, hc⟩ | hl
    · rwa [hs]
    · have hi := reaches_invariant (.poll event hr hp)
      rw [Invariant, hc] at hi
      exact hi.tracks.shaped
    · exact ih.leave hl

end PipelineExecutor

end Shape

namespace PolledExecutor

variable {job : Job σ Ck ε Err Pl} {scope : RootScope Ck ε}

lemma callContext_ok (hs : Shaped job.pipeline.root scope) {path : StepPath} {s : σ}
    (h : (path, s) ∈ job.pipeline.root.stepsOf) : ∃ ctx, callContext job scope path = .ok (s, ctx) := by
  obtain ⟨nav, hx, rfl, hi⟩ := (mem_stepsOf_iff job.pipeline.fits _).mp h
  have hnav := navigator_executable job.pipeline.fits hx
  obtain ⟨limits, hl⟩ := hs.limitsOf hx
  refine ⟨⟨limits, none⟩, ?_⟩
  simp [callContext, hnav, hl, hi, bind, Except.bind, pure, Except.pure]

section Loop

variable {hook : Hook Err Pl} {P : Option StepPath → List (StepPath × σ) → List (Act σ Ck ε Err Pl) → Prop}

/-- An invariant of the loop that calls a hook: `P called todo log`, where `called` is the step whose call
has not returned yet. -/
structure LoopRule (job : Job σ Ck ε Err Pl) (hook : Hook Err Pl)
    (P : Option StepPath → List (StepPath × σ) → List (Act σ Ck ε Err Pl) → Prop) : Prop where
  steps : ∀ called todo log, P called todo log → ∀ e ∈ todo, e ∈ job.pipeline.root.stepsOf
  call : ∀ path s todo log ctx, P none ((path, s) :: todo) log →
    P (some path) todo (log ++ [.hook hook path s ctx])
  done : ∀ path todo log, P (some path) todo log → P none todo (log ++ [.hookDone hook path (.ok ())])

def CallsAt (P : Option StepPath → List (StepPath × σ) → List (Act σ Ck ε Err Pl) → Prop)
    (log : List (Act σ Ck ε Err Pl)) : Calls → Prop
  | .created paths => ∃ todo, paths = todo.map Prod.fst ∧ P none todo log
  | .waiting path rest => ∃ todo, rest = todo.map Prod.fst ∧ P (some path) todo log

def PolledTo (hook : Hook Err Pl)
    (P : Option StepPath → List (StepPath × σ) → List (Act σ Ck ε Err Pl) → Prop)
    (log : List (Act σ Ck ε Err Pl)) : CallsPoll Err → Prop
  | .pending calls => CallsAt P log calls
  | .ready (.ok ()) => P none [] log
  | .ready (.error e) => ∃ path todo log', P (some path) todo log' ∧
      log = log' ++ [.hookDone hook path (.error e)]

lemma awaitCalls_polled (rule : LoopRule job hook P) (hs : Shaped job.pipeline.root scope)
    (answers : List (Except Err Unit)) {path : StepPath} {todo : List (StepPath × σ)}
    {log : List (Act σ Ck ε Err Pl)} (h : P (some path) todo log) :
    ∃ poll acts, awaitCalls job scope hook answers path (todo.map Prod.fst) = .ok (poll, acts) ∧
      PolledTo hook P (log ++ acts) poll := by
  induction answers generalizing path todo log with
  | nil => exact ⟨.pending (.waiting path (todo.map Prod.fst)), [], rfl, todo, rfl, by simpa using h⟩
  | cons answer answers ih =>
    cases answer with
    | error e => exact ⟨.ready (.error e), _, rfl, path, todo, log, h, rfl⟩
    | ok u =>
      have hdone := rule.done path todo log h
      cases todo with
      | nil => exact ⟨.ready (.ok ()), _, rfl, hdone⟩
      | cons e todo =>
        obtain ⟨next, s⟩ := e
        obtain ⟨ctx, hctx⟩ := callContext_ok hs (rule.steps _ _ _ h _ List.mem_cons_self)
        obtain ⟨poll, acts, hp, hto⟩ := ih (rule.call next s todo _ ctx hdone)
        refine ⟨poll, .hookDone hook path (.ok ()) :: .hook hook next s ctx :: acts, ?_, ?_⟩
        · simp [awaitCalls, hctx, hp, bind, Except.bind, pure, Except.pure]
        · simpa using hto

lemma pollCalls_polled (rule : LoopRule job hook P) (hs : Shaped job.pipeline.root scope)
    (answers : List (Except Err Unit)) {calls : Calls} {log : List (Act σ Ck ε Err Pl)}
    (h : CallsAt P log calls) :
    ∃ poll acts, pollCalls job scope hook answers calls = .ok (poll, acts) ∧
      PolledTo hook P (log ++ acts) poll := by
  cases calls with
  | waiting path rest =>
    obtain ⟨todo, rfl, h⟩ := h
    exact awaitCalls_polled rule hs answers h
  | created paths =>
    obtain ⟨todo, rfl, h⟩ := h
    cases todo with
    | nil =>
      refine ⟨.ready (.ok ()), [], rfl, ?_⟩
      rw [List.append_nil]
      exact h
    | cons e todo =>
      obtain ⟨path, s⟩ := e
      obtain ⟨ctx, hctx⟩ := callContext_ok hs (rule.steps _ _ _ h _ List.mem_cons_self)
      obtain ⟨poll, acts, hp, hto⟩ := awaitCalls_polled rule hs answers (rule.call path s todo _ ctx h)
      refine ⟨poll, .hook hook path s ctx :: acts, ?_, ?_⟩
      · simp [pollCalls, hctx, hp, bind, Except.bind, pure, Except.pure]
      · simpa using hto

end Loop

section Phases

def Opening (job : Job σ Ck ε Err Pl) :
    Option StepPath → List (StepPath × σ) → List (Act σ Ck ε Err Pl) → Prop
  | none, todo, log => Protocol job (.opening todo) log
  | some path, todo, log => Protocol job (.calledBefore path todo) log

def Entered (job : Job σ Ck ε Err Pl) (log : List (Act σ Ck ε Err Pl)) : Prop :=
  (entrypoint job.pipeline.root).isSome = true ∧ ∀ a ∈ log, a.beforeJobFails = false

def Closing (job : Job σ Ck ε Err Pl) (output : Except Err Pl) (active : Bool) :
    Option StepPath → List (StepPath × σ) → List (Act σ Ck ε Err Pl) → Prop
  | none, todo, log => Protocol job (.closing output todo) log ∧ (active = true ↔ Entered job log)
  | some path, todo, log => Protocol job (.calledAfter output path todo) log ∧
      (active = true ↔ Entered job log)

lemma entered_concat {log : List (Act σ Ck ε Err Pl)} {a : Act σ Ck ε Err Pl} (h : a.beforeJobFails = false) :
    Entered job (log ++ [a]) ↔ Entered job log := by
  rw [Entered, Entered]
  apply and_congr_right
  intro _
  exact ⟨fun hall b hb => hall b (List.mem_append_left _ hb), fun hall => Protocol.forall_concat hall h⟩

lemma opening_rule (job : Job σ Ck ε Err Pl) : LoopRule job .beforeJob (Opening job) where
  steps called todo log h e he := by
    cases called with
    | none => exact (Protocol.beforeCalls h).1 ▸ List.mem_append_right _ he
    | some path => exact (Protocol.beforeCalls h).1 ▸ List.mem_append_right _ he
  call path s todo log ctx h := .beforeJob ctx h
  done path todo log h := .beforeJobOk h

lemma closing_rule (job : Job σ Ck ε Err Pl) (output : Except Err Pl) (active : Bool) :
    LoopRule job (.afterJob output) (Closing job output active) where
  steps called todo log h e he := by
    cases called with
    | none => exact (Protocol.afterCalls h.1).1 ▸ List.mem_append_right _ he
    | some path =>
      obtain ⟨done, s, -, hall, -⟩ := Protocol.afterCalls h.1
      exact hall ▸ List.mem_append_right _ (List.mem_cons_of_mem _ he)
  call path s todo log ctx h := ⟨.afterJob ctx h.1, h.2.trans (entered_concat rfl).symm⟩
  done path todo log h := ⟨.afterJobOk h.1, h.2.trans (entered_concat rfl).symm⟩

def Simulates (job : Job σ Ck ε Err Pl) (p : PolledExecutor σ Ck ε Err Pl) : Prop :=
  match p.exec.cursor with
  | .initializing => CallsAt (Opening job) p.log p.calls
  | .beforeStep _ input => Protocol job (.ready input) p.log ∧
      (entrypoint job.pipeline.root).isSome = true ∧ p.calls = .created job.pipeline.root.iterSteps
  | .stepInProgress path _ _ _ => Protocol job (.running path) p.log ∧
      (entrypoint job.pipeline.root).isSome = true ∧ p.calls = .created job.pipeline.root.iterSteps
  | .finalizing output => CallsAt (Closing job output p.exec.scope.isActive) p.log p.calls
  | .completed output => Protocol job (.resolved output) p.log ∧
      (p.exec.scope.isActive = true ↔ Entered job p.log ∧ p.log.filterMap Act.afterJobFails ≠ [])

lemma closing_created {output : Except Err Pl} {active : Bool} {log : List (Act σ Ck ε Err Pl)}
    (h : Protocol job (.closing output job.pipeline.root.stepsOf) log) (ha : active = true ↔ Entered job log) :
    CallsAt (Closing job output active) log (.created job.pipeline.root.iterSteps) :=
  ⟨_, iterSteps_eq _, h, ha⟩

lemma leave_inactive {scope scope' : RootScope Ck ε} (h : scope.leave = .ok scope') :
    scope'.isActive = false := by
  obtain ⟨⟨d, nested⟩, current⟩ := scope
  rw [RootScope.leave, Scope.leave] at h
  split at h
  · cases h
    simp only [RootScope.isActive, deactivate]
    rfl
  · cases h

lemma closing_resolved {output : Except Err Pl} {scope scope' : RootScope Ck ε} {calls : Calls}
    {log : List (Act σ Ck ε Err Pl)} (h : Closing job output scope.isActive none [] log)
    (hs : scope'.isActive = false) :
    Simulates job ⟨⟨.completed output, scope'⟩, calls, log ++ [.announce output]⟩ := by
  refine ⟨.closed h.1, iff_of_false (by simp [hs]) ?_⟩
  rintro ⟨-, hne⟩
  have hfail : (Act.announce output : Act σ Ck ε Err Pl).afterJobFails = none := by cases output <;> rfl
  rw [Protocol.filterMap_concat_none hfail] at hne
  exact hne (Protocol.afterCalls h.1).2

lemma closing_failed {output : Except Err Pl} {scope : RootScope Ck ε} {calls : Calls}
    {log : List (Act σ Ck ε Err Pl)} {path : StepPath} {todo : List (StepPath × σ)}
    (h : Closing job output scope.isActive (some path) todo log) (e : Err) :
    Simulates job ⟨⟨.completed (.error e), scope⟩, calls,
      log ++ [.hookDone (.afterJob output) path (.error e)] ++ [.announce (.error e)]⟩ := by
  refine ⟨.afterJobError e h.1, h.2.trans ?_⟩
  rw [and_iff_left]
  · exact ((entered_concat rfl).trans (entered_concat rfl)).symm
  · rw [Protocol.filterMap_concat_none rfl, List.filterMap_append]
    exact List.append_ne_nil_of_right_ne_nil _ (List.cons_ne_nil path [])

variable [LimitExtension ε]

structure Sound (job : Job σ Ck ε Err Pl) (p : PolledExecutor σ Ck ε Err Pl) : Prop where
  reaches : PipelineExecutor.Reaches job p.exec
  simulates : Simulates job p

variable {p : PolledExecutor σ Ck ε Err Pl}

lemma pollInitializing_sound (h : Sound job p) (answers : Answers Ck Err) :
    ∃ p', pollInitializing job answers p = .ok p' ∧ Sound job p' := by
  obtain ⟨⟨cursor, scope⟩, calls, log⟩ := p
  obtain ⟨hr, hs⟩ := h
  cases cursor with
  | initializing =>
    have hscope : scope = RootScope.new job.pipeline.root job.start job.platformLimits :=
      PipelineExecutor.reaches_invariant hr
    have hinactive : scope.isActive = false := by
      rw [hscope]
      exact inner_inactive job.start job.pipeline.root job.platformLimits [] _ rfl
    obtain ⟨poll, acts, hp, hto⟩ := pollCalls_polled (opening_rule job) (PipelineExecutor.reaches_shaped hr)
      answers.beforeJob hs
    cases poll with
    | pending calls' =>
      refine ⟨⟨⟨.initializing, scope⟩, calls', log ++ acts⟩, ?_, hr, hto⟩
      simp [pollInitializing, hp, bind, Except.bind, pure, Except.pure]
    | ready result =>
      obtain ⟨exec', he⟩ := PipelineExecutor.poll_total hr (.initialized result answers.enteredAt)
      refine ⟨⟨exec', .created job.pipeline.root.iterSteps, log ++ acts⟩, ?_, .poll _ hr he, ?_⟩
      · simp [pollInitializing, hp, he, bind, Except.bind, pure, Except.pure]
      · cases result with
        | error e =>
          obtain ⟨path, todo, log', hcalled, hlog⟩ := hto
          cases he
          rw [hlog]
          refine closing_created (.beforeJobError e hcalled) (iff_of_false (by simp [hinactive]) ?_)
          intro hent
          have hfail := hent.2 _ (List.mem_append_right _ (List.mem_singleton_self _))
          cases hfail
        | ok u =>
          have hopened : Protocol job (.ready job.start) (log ++ acts) := .opened hto
          rcases PipelineExecutor.firstStep_cases he with ⟨hnone, rfl⟩ | ⟨nav, scope', hsome, rfl⟩
          · refine closing_created (.build hopened) (iff_of_false (by simp [hinactive]) ?_)
            intro hent
            simp [Entered, hnone] at hent
          · exact ⟨hopened, by rw [hsome]; rfl, rfl⟩
  | _ => exact ⟨_, rfl, hr, hs⟩

lemma pollFinalizing_sound (h : Sound job p) (answers : Answers Ck Err) :
    ∃ p', pollFinalizing job answers p = .ok p' ∧ Sound job p' := by
  obtain ⟨⟨cursor, scope⟩, calls, log⟩ := p
  obtain ⟨hr, hs⟩ := h
  cases cursor with
  | finalizing output =>
    obtain ⟨poll, acts, hp, hto⟩ := pollCalls_polled (closing_rule job output scope.isActive)
      (PipelineExecutor.reaches_shaped hr) answers.afterJob hs
    cases poll with
    | pending calls' =>
      refine ⟨⟨⟨.finalizing output, scope⟩, calls', log ++ acts⟩, ?_, hr, hto⟩
      simp [pollFinalizing, hp, bind, Except.bind, pure, Except.pure]
    | ready result =>
      obtain ⟨exec', he⟩ := PipelineExecutor.poll_total hr (.finalized result)
      have hreach := PipelineExecutor.Reaches.poll _ hr he
      rcases PipelineExecutor.finalized_cases he with ⟨e, rfl, rfl⟩ | ⟨rfl, ha, rfl⟩ | ⟨scope', rfl, hl, rfl⟩
      · obtain ⟨path, todo, log', hcalled, hlog⟩ := hto
        refine ⟨⟨⟨.completed (.error e), scope⟩, calls, log ++ acts ++ [.announce (.error e)]⟩, ?_, hreach, ?_⟩
        · simp [pollFinalizing, hp, he, bind, Except.bind, pure, Except.pure]
        · rw [hlog]
          exact closing_failed hcalled e
      · refine ⟨⟨⟨.completed output, scope⟩, calls, log ++ acts ++ [.announce output]⟩, ?_, hreach, ?_⟩
        · simp [pollFinalizing, hp, he, bind, Except.bind, pure, Except.pure]
        · exact closing_resolved hto ha
      · refine ⟨⟨⟨.completed output, scope'⟩, calls, log ++ acts ++ [.announce output]⟩, ?_, hreach, ?_⟩
        · simp [pollFinalizing, hp, he, bind, Except.bind, pure, Except.pure]
        · exact closing_resolved hto (leave_inactive hl)
  | _ => exact ⟨_, rfl, hr, hs⟩

lemma pollBeforeStep_sound (h : Sound job p) : ∃ p', pollBeforeStep job p = .ok p' ∧ Sound job p' := by
  obtain ⟨⟨cursor, scope⟩, calls, log⟩ := p
  obtain ⟨hr, hs⟩ := h
  cases cursor with
  | beforeStep path input =>
    obtain ⟨step, ctx, he, -, -⟩ := PipelineExecutor.executeStep_ok (PipelineExecutor.reaches_invariant hr)
    have hstarted : PipelineExecutor.poll job .started ⟨.beforeStep path input, scope⟩ =
        .ok ⟨.stepInProgress path step input ctx, scope⟩ := by
      simp only [PipelineExecutor.poll, he]
      rfl
    refine ⟨⟨⟨.stepInProgress path step input ctx, scope⟩, calls, log ++ [.step path step input ctx]⟩, ?_,
      .poll _ hr hstarted, .step path step ctx hs.1, hs.2⟩
    simp [pollBeforeStep, he, bind, Except.bind, pure, Except.pure]
  | _ => exact ⟨_, rfl, hr, hs⟩

lemma running_active {path : StepPath} {step : σ} {input : Ck} {ctx : StepContext ε} {scope : RootScope Ck ε}
    (h : PipelineExecutor.Reaches job ⟨.stepInProgress path step input ctx, scope⟩) :
    scope.isActive = true := by
  have hi := PipelineExecutor.reaches_invariant h
  exact (hi.1.tracks.active [] scope.root.data rfl).mpr List.nil_prefix

lemma pollStepInProgress_sound (h : Sound job p) (answers : Answers Ck Err) :
    ∃ p', pollStepInProgress job answers p = .ok p' ∧ Sound job p' := by
  obtain ⟨⟨cursor, scope⟩, calls, log⟩ := p
  obtain ⟨hr, hs⟩ := h
  cases cursor with
  | stepInProgress path step input ctx =>
    cases ho : answers.step with
    | none => exact ⟨_, by simp [pollStepInProgress, ho], hr, hs⟩
    | some output =>
      obtain ⟨exec', he⟩ := PipelineExecutor.poll_total hr (.stepReady output answers.switchedAt)
      refine ⟨⟨exec', calls, log ++ [.stepDone path output]⟩, ?_, .poll _ hr he, ?_⟩
      · simp [pollStepInProgress, ho, he, bind, Except.bind, pure, Except.pure]
      · obtain ⟨hrun, hentry, rfl⟩ := hs
        have hentered : Entered job (log ++ [.stepDone path output]) :=
          (entered_concat rfl).mpr ⟨hentry, (Protocol.beforeCalls hrun).2⟩
        have hactive := iff_of_true (running_active hr) hentered
        rcases PipelineExecutor.advanceCursor_cases he with
          ⟨e, rfl, rfl⟩ | ⟨c, hc, rfl | ⟨path', scope', rfl⟩⟩
        · exact closing_created (.stepFail e hrun) hactive
        · exact closing_created (.build (.stepOk hrun hc)) hactive
        · exact ⟨.stepOk hrun hc, hentry, rfl⟩
  | _ => exact ⟨_, rfl, hr, hs⟩

theorem poll_sound (h : Sound job p) (answers : Answers Ck Err) :
    ∃ p', poll job answers p = .ok p' ∧ Sound job p' := by
  obtain ⟨p₁, h₁, hs₁⟩ := pollInitializing_sound h answers
  obtain ⟨p₂, h₂, hs₂⟩ := pollFinalizing_sound hs₁ answers
  obtain ⟨p₃, h₃, hs₃⟩ := pollBeforeStep_sound hs₂
  obtain ⟨p₄, h₄, hs₄⟩ := pollStepInProgress_sound hs₃ answers
  refine ⟨p₄, ?_, hs₄⟩
  simp [poll, h₁, h₂, h₃, h₄, bind, Except.bind]

theorem runs_sound (h : Runs job p) : Sound job p := by
  induction h with
  | run => exact ⟨.run, _, iterSteps_eq _, .started⟩
  | poll answers _ _ hp ih =>
    obtain ⟨p', hp', hs⟩ := poll_sound ih answers
    rw [hp] at hp'
    cases hp'
    exact hs

end Phases

end PolledExecutor

end Rblib.Pipelines
