import Rblib.Pipelines.LoopCosts
import Rblib.Pipelines.RecordedPayloads
import Rblib.Pool.AppendRuns

/-! Jobs whose loops append orders. -/

namespace Rblib.Pool

open Platform PlatformTypes Payload Pipelines PipelineExecutor Library Library.OracleTrace.Prog Steps

variable {σ P ε Err Pl : Type} [PlatformTypes P]

/-- A job, the orders attempted by each of its steps, the outcomes of its steps so far and the
number of polls that had something to do. -/
structure LoopingJob (σ P ε Err Pl : Type) [PlatformTypes P] where
  exec : PipelineExecutor σ (Checkpoint P) ε Err Pl
  attempted : StepPath → Finset B256
  answers : List (StepPath × Pipelines.Outcome) := []
  polls : ℕ := 0

inductive LoopEvent (P Err : Type) [PlatformTypes P]
  | poll (event : Event (Checkpoint P) Err)
  | beforeJob (path : StepPath)
  | step (path : StepPath)

def LoopEvent.opens (path : StepPath) : LoopEvent P Err → Bool
  | beforeJob path' => path' == path
  | _ => false

def guards (appends : σ → Option AppendOrders) (step : σ) : Bool := (appends step).any AppendOrders.breakOnLimit

namespace LoopingJob

def polled (s : LoopingJob σ P ε Err Pl) (event : Event (Checkpoint P) Err)
    (exec : PipelineExecutor σ (Checkpoint P) ε Err Pl) : LoopingJob σ P ε Err Pl :=
  { s with
    exec := exec
    answers := s.answers ++ answered s.exec.cursor event
    polls := s.polls + (advances s.exec.cursor event).toNat }

def withAttempted (path : StepPath) (attempted : Finset B256) (s : LoopingJob σ P ε Err Pl) :
    LoopingJob σ P ε Err Pl :=
  { s with attempted := Function.update s.attempted path attempted }

variable [LimitExtension ε] (appends : σ → Option AppendOrders) (boxed : ExecutionError P → Err)
  (hashes : Finset B256) (job : Pipelines.Job σ (Checkpoint P) ε Err Pl) (recorder : Recorder Pl)

def start (attempted : StepPath → Finset B256) : LoopingJob σ P ε Err Pl := ⟨run job, attempted, [], 0⟩

/-- The pools offer orders of `hashes`, and a step that appends no orders returns anything. A poll
that completes the job has recorded its payload. -/
inductive Steps (s : LoopingJob σ P ε Err Pl) : LoopEvent P Err → LoopingJob σ P ε Err Pl → Prop
  | poll {exec'} (event : Event (Checkpoint P) Err) (hpoll : PipelineExecutor.poll job event s.exec = .ok exec')
      (hother : ∀ path step input ctx output now, s.exec.cursor = .stepInProgress path step input ctx →
        event = .stepReady output now → appends step = none)
      (hrecords : ∀ output, exec'.cursor = .completed output → recorder.Fits output) :
        Steps s (.poll event) (s.polled event exec')
  | append {path step append output exec'} (call : StepCall P ε) (now : ℕ)
      (hcursor : s.exec.cursor = .stepInProgress path step call.payload call.ctx)
      (happend : appends step = some append) (hoffers : ∀ order ∈ call.orders, order.hash ∈ hashes)
      (houtput : output = boxError boxed (append.step (s.attempted path) call).2.flow)
      (hpoll : PipelineExecutor.poll job (.stepReady output now) s.exec = .ok exec') :
      Steps s (.poll (.stepReady output now))
        ((s.polled (.stepReady output now) exec').withAttempted path (append.step (s.attempted path) call).1)
  | beforeJob (path : StepPath) :
      Steps s (.beforeJob path) (s.withAttempted path (AppendOrders.beforeJob (s.attempted path)))
  | step {path step append} (call : StepCall P ε) (hmem : (path, step) ∈ job.pipeline.root.stepsOf)
      (happend : appends step = some append) (hoffers : ∀ order ∈ call.orders, order.hash ∈ hashes) :
      Steps s (.step path) (s.withAttempted path (append.step (s.attempted path) call).1)

end LoopingJob

section Grows

variable {append : AppendOrders} {call : StepCall P ε} {hashes attempted : Finset B256}

variable (append call hashes attempted) in
lemma attempted_kept : (attempted ∩ hashes).card ≤ ((append.step attempted call).1 ∩ hashes).card := by
  apply Finset.card_le_card
  exact Finset.inter_subset_inter_right (pull_subset append call call.orders 0 attempted _)

lemma attempted_grows (hbreak : append.breakOnLimit = true) (hoffers : ∀ order ∈ call.orders, order.hash ∈ hashes)
    {c : Checkpoint P} (h : (append.step attempted call).2.flow = .ok c) :
    (attempted ∩ hashes).card < ((append.step attempted call).1 ∩ hashes).card := by
  have hwithin : (append.step attempted call).1 ⊆ attempted ∪ hashes :=
    pull_within (fun order ho => Finset.mem_union_right _ (hoffers order ho)) 0 Finset.subset_union_left _
  obtain ⟨hash, hnew, hold⟩ := Finset.exists_mem_notMem_of_card_lt_card (step_grows hbreak h)
  have hhash : hash ∈ hashes := (Finset.mem_union.mp (hwithin hnew)).resolve_left hold
  apply Finset.card_lt_card
  refine Finset.ssubset_iff_subset_ne.mpr
    ⟨Finset.inter_subset_inter_right (pull_subset append call call.orders 0 attempted _), ?_⟩
  intro hsame
  have hmem := Finset.mem_inter.mpr ⟨hnew, hhash⟩
  rw [← hsame] at hmem
  exact hold (Finset.mem_inter.mp hmem).1

end Grows

section Runs

variable [LimitExtension ε] {appends : σ → Option AppendOrders} {boxed : ExecutionError P → Err}
  {hashes : Finset B256} {job : Pipelines.Job σ (Checkpoint P) ε Err Pl} {recorder : Recorder Pl}

omit [LimitExtension ε] in
lemma answered_cases {Ck : Type} (cursor : Cursor σ Ck ε Err Pl) (event : Event Ck Err) :
    answered cursor event = [] ∨
    ∃ path step input ctx output now o, cursor = .stepInProgress path step input ctx ∧
      event = .stepReady output now ∧
      output.outcome = some o ∧ answered cursor event = [(path, o)] := by
  cases cursor with
  | stepInProgress path step input ctx =>
    cases event with
    | stepReady output now =>
      cases ho : output.outcome with
      | none =>
        left
        rw [answered, ho]
        rfl
      | some o =>
        right
        refine ⟨path, step, input, ctx, output, now, o, rfl, rfl, ho, ?_⟩
        rw [answered, ho]
        rfl
    | _ => exact .inl rfl
  | _ => exact .inl rfl

omit [LimitExtension ε] in
lemma stepsOf_unique {path : StepPath} {step step' : σ} (h : (path, step) ∈ job.pipeline.root.stepsOf)
    (h' : (path, step') ∈ job.pipeline.root.stepsOf) : step = step' := by
  have hnodup := depthFirst_nodup job.pipeline.root job.pipeline.fits []
  exact (Prod.ext_iff.mp (List.inj_on_of_nodup_map hnodup h h' rfl)).2

def openings (events : List (LoopEvent P Err)) (path : StepPath) : ℕ := events.countP (LoopEvent.opens path)

namespace LoopingJob

variable {s s' : LoopingJob σ P ε Err Pl} {event : LoopEvent P Err} {events : List (LoopEvent P Err)}

structure Paid (appends : σ → Option AppendOrders) (hashes : Finset B256)
    (job : Pipelines.Job σ (Checkpoint P) ε Err Pl) (events : List (LoopEvent P Err))
    (s : LoopingJob σ P ε Err Pl) : Prop where
  reaches : Reaches job s.exec
  course : Course job s.answers s.polls s.exec.cursor
  paid : ∀ path step append, (path, step) ∈ job.pipeline.root.stepsOf → appends step = some append →
    append.breakOnLimit = true → s.answers.count (path, .ok) ≤
      hashes.card * openings events path + (s.attempted path ∩ hashes).card

lemma Paid.running (h : Paid appends hashes job events s) {path : StepPath} {step : σ} {input : Checkpoint P}
    {ctx : StepContext ε} (hcursor : s.exec.cursor = .stepInProgress path step input ctx) :
    (path, step) ∈ job.pipeline.root.stepsOf := by
  have hcourse := h.course
  rw [hcursor] at hcourse
  exact hcourse.2.1

omit [LimitExtension ε] in
lemma count_polled (exec' : PipelineExecutor σ (Checkpoint P) ε Err Pl) {event : Event (Checkpoint P) Err}
    {path : StepPath} (hnot : ∀ step input ctx c now, s.exec.cursor = .stepInProgress path step input ctx →
      event ≠ .stepReady (.ok c) now) :
    (s.polled event exec').answers.count (path, .ok) = s.answers.count (path, .ok) := by
  rw [polled, List.count_append]
  obtain hnone | ⟨path', step, input, ctx, output, now, o, hcursor, rfl, ho, hone⟩ :=
    answered_cases s.exec.cursor event
  · rw [hnone, List.count_nil, Nat.add_zero]
  · rw [hone, List.count_singleton, if_neg, Nat.add_zero]
    rw [beq_iff_eq]
    rintro ⟨⟩
    cases output with
    | ok c => exact hnot step input ctx c now hcursor rfl
    | brk c => cases ho
    | fail e => cases ho

omit [LimitExtension ε] in
lemma count_polled_le (s : LoopingJob σ P ε Err Pl) (event : Event (Checkpoint P) Err)
    (exec' : PipelineExecutor σ (Checkpoint P) ε Err Pl) (path : StepPath) :
    (s.polled event exec').answers.count (path, .ok) ≤ s.answers.count (path, .ok) + 1 := by
  have hone : (answered s.exec.cursor event).length ≤ 1 := by
    obtain hnone | ⟨path', step, input, ctx, output, now, o, -, -, -, hone⟩ := answered_cases s.exec.cursor event
    · rw [hnone]
      exact Nat.zero_le _
    · rw [hone, List.length_singleton]
  rw [polled, List.count_append]
  exact Nat.add_le_add_left (List.count_le_length.trans hone) _

lemma openings_snoc (events : List (LoopEvent P Err)) (event : LoopEvent P Err) (path : StepPath) :
    openings (events ++ [event]) path = openings events path + (event.opens path).toNat := by
  rw [openings, List.countP_append, List.countP_singleton]
  cases event.opens path <;> rfl

omit [LimitExtension ε] in
lemma attempted_self (path : StepPath) (attempted : Finset B256) (s : LoopingJob σ P ε Err Pl) :
    (s.withAttempted path attempted).attempted path = attempted := Function.update_self ..

omit [LimitExtension ε] in
lemma attempted_of_ne {path path' : StepPath} (h : path ≠ path') (attempted : Finset B256)
    (s : LoopingJob σ P ε Err Pl) : (s.withAttempted path' attempted).attempted path = s.attempted path :=
  Function.update_of_ne h _ _

section Cases

variable (h : Paid appends hashes job events s)

include h

lemma Paid.poll {exec' : PipelineExecutor σ (Checkpoint P) ε Err Pl} {event : Event (Checkpoint P) Err}
    (hpoll : PipelineExecutor.poll job event s.exec = .ok exec')
    (hother : ∀ path step input ctx output now, s.exec.cursor = .stepInProgress path step input ctx →
      event = .stepReady output now → appends step = none) :
    Paid appends hashes job (events ++ [.poll event]) (s.polled event exec') := by
  refine ⟨.poll event h.reaches hpoll, course_poll h.course hpoll, ?_⟩
  intro path step append hmem happend hbreak
  have hold := h.paid path step append hmem happend hbreak
  rw [openings_snoc, count_polled]
  · exact hold
  · rintro step' input ctx c now hcursor rfl
    obtain rfl := stepsOf_unique hmem (h.running hcursor)
    rw [hother path step input ctx _ now hcursor rfl] at happend
    cases happend

lemma Paid.append {path₀ : StepPath} {step₀ : σ} {append₀ : AppendOrders} {output : ControlFlow (Checkpoint P) Err}
    {exec' : PipelineExecutor σ (Checkpoint P) ε Err Pl} {call : StepCall P ε} {now : ℕ}
    (hcursor : s.exec.cursor = .stepInProgress path₀ step₀ call.payload call.ctx)
    (happend₀ : appends step₀ = some append₀) (hoffers : ∀ order ∈ call.orders, order.hash ∈ hashes)
    (houtput : output = boxError boxed (append₀.step (s.attempted path₀) call).2.flow)
    (hpoll : PipelineExecutor.poll job (.stepReady output now) s.exec = .ok exec') :
    Paid appends hashes job (events ++ [.poll (.stepReady output now)])
      ((s.polled (.stepReady output now) exec').withAttempted path₀
        (append₀.step (s.attempted path₀) call).1) := by
  refine ⟨.poll _ h.reaches hpoll, course_poll h.course hpoll, ?_⟩
  intro path step append hmem happend hbreak
  have hold := h.paid path step append hmem happend hbreak
  have hopens : openings (events ++ [.poll (.stepReady output now)]) path = openings events path :=
    openings_snoc ..
  rw [hopens]
  by_cases hpath : path = path₀
  · subst hpath
    obtain rfl := stepsOf_unique hmem (h.running hcursor)
    obtain rfl := Option.some.inj (happend₀.symm.trans happend)
    rw [attempted_self]
    by_cases hok : ∃ c, (append₀.step (s.attempted path) call).2.flow = .ok c
    · obtain ⟨c, hc⟩ := hok
      have hgrows := attempted_grows hbreak hoffers hc
      have hone := count_polled_le s (.stepReady output now) exec' path
      change (s.polled (.stepReady output now) exec').answers.count (path, .ok) ≤ _
      omega
    · have hkept := attempted_kept append₀ call hashes (s.attempted path)
      refine (count_polled exec' ?_).trans_le (hold.trans (Nat.add_le_add_left hkept _))
      rintro step' input ctx c now' - heq
      obtain ⟨rfl, -⟩ := Event.stepReady.inj heq
      cases hflow : (append₀.step (s.attempted path) call).2.flow with
      | ok c => exact hok ⟨c, hflow⟩
      | brk c =>
        rw [hflow] at houtput
        cases houtput
      | fail e =>
        rw [hflow] at houtput
        cases houtput
  · rw [attempted_of_ne hpath]
    refine (count_polled exec' ?_).trans_le hold
    rintro step' input' ctx' c now' hcursor'
    rw [hcursor] at hcursor'
    cases hcursor'
    exact absurd rfl hpath

lemma Paid.beforeJob (path₀ : StepPath) : Paid appends hashes job (events ++ [.beforeJob path₀])
    (s.withAttempted path₀ (AppendOrders.beforeJob (s.attempted path₀))) := by
  refine ⟨h.reaches, h.course, ?_⟩
  intro path step append hmem happend hbreak
  have hold := h.paid path step append hmem happend hbreak
  rw [openings_snoc]
  by_cases hpath : path = path₀
  · subst hpath
    have hcard : (s.attempted path ∩ hashes).card ≤ hashes.card := Finset.card_le_card Finset.inter_subset_right
    have hopens : (LoopEvent.beforeJob path : LoopEvent P Err).opens path = true := beq_self_eq_true _
    rw [hopens, Bool.toNat_true, Nat.mul_add]
    change s.answers.count (path, .ok) ≤ _
    omega
  · rw [attempted_of_ne hpath]
    exact hold.trans (Nat.add_le_add_right (Nat.mul_le_mul_left _ (Nat.le_add_right _ _)) _)

lemma Paid.otherStep (path₀ : StepPath) (append₀ : AppendOrders) (call : StepCall P ε) :
    Paid appends hashes job (events ++ [.step path₀])
      (s.withAttempted path₀ (append₀.step (s.attempted path₀) call).1) := by
  refine ⟨h.reaches, h.course, ?_⟩
  intro path step append hmem happend hbreak
  have hold := h.paid path step append hmem happend hbreak
  rw [openings_snoc]
  by_cases hpath : path = path₀
  · subst hpath
    rw [attempted_self]
    exact hold.trans (Nat.add_le_add_left (attempted_kept append₀ call hashes (s.attempted path)) _)
  · rw [attempted_of_ne hpath]
    exact hold

end Cases

lemma Paid.step (h : Paid appends hashes job events s)
    (hs : Steps appends boxed hashes job recorder s event s') :
    Paid appends hashes job (events ++ [event]) s' := by
  cases hs with
  | poll event hpoll hother hrecords => exact h.poll hpoll hother
  | append call now hcursor happend hoffers houtput hpoll => exact h.append hcursor happend hoffers houtput hpoll
  | beforeJob path => exact h.beforeJob path
  | @step path step append call hmem happend hoffers => exact h.otherStep path append call

lemma Paid.progress (h : Paid appends hashes job events s) : (∃ output, s.exec.cursor = .completed output) ∨
    (∃ event s', Steps appends boxed hashes job recorder s event s' ∧ s'.polls = s.polls + 1) ∨
    ∃ output, s.exec.cursor = .finalizing output ∧ ¬ recorder.Fits output := by
  have hgoes : ∀ event : Event (Checkpoint P) Err, advances s.exec.cursor event = true →
      (∀ path step input ctx output now, s.exec.cursor = .stepInProgress path step input ctx →
        event = .stepReady output now → appends step = none) →
      (∀ exec' output, PipelineExecutor.poll job event s.exec = .ok exec' → exec'.cursor = .completed output →
        recorder.Fits output) →
      ∃ event s', Steps appends boxed hashes job recorder s event s' ∧ s'.polls = s.polls + 1 := by
    intro event hadvances hother hrecords
    obtain ⟨exec', hexec⟩ := poll_total h.reaches event
    refine ⟨_, _, .poll event hexec hother fun output hout => hrecords exec' output hexec hout, ?_⟩
    rw [polled, hadvances]
    rfl
  cases hcursor : s.exec.cursor with
  | initializing =>
    refine .inr (.inl (hgoes (.initialized (.ok ()) 0) (by rw [hcursor]; rfl) (by simp [hcursor]) ?_))
    intro exec' output hexec hout
    simp only [PipelineExecutor.poll, hcursor] at hexec
    obtain ⟨-, rfl⟩ | ⟨nav, scope', -, rfl⟩ := firstStep_cases hexec
    · cases hout
    · cases hout
  | beforeStep path input =>
    refine .inr (.inl (hgoes .started (by rw [hcursor]; rfl) (by simp [hcursor]) ?_))
    intro exec' output hexec hout
    simp only [PipelineExecutor.poll, hcursor] at hexec
    obtain ⟨started, -, hexec⟩ := bind_eq_ok.mp hexec
    cases hexec
    cases hout
  | stepInProgress path step input ctx =>
    refine .inr (.inl ?_)
    cases happend : appends step with
    | none =>
      refine hgoes (.stepReady (.ok input) 0) (by rw [hcursor]; rfl) ?_ fun exec' output hexec hout => ?_
      · intro path' step' input' ctx' output now hcursor' _
        rw [hcursor] at hcursor'
        cases hcursor'
        exact happend
      · simp only [PipelineExecutor.poll, hcursor] at hexec
        obtain ⟨e, -, rfl⟩ | ⟨c, -, rfl | ⟨path', scope', rfl⟩⟩ := advanceCursor_cases hexec
        · cases hout
        · cases hout
        · cases hout
    | some append =>
      let call : StepCall P ε := ⟨input, ctx, [], fun _ => 0, fun _ => 0⟩
      obtain ⟨exec', hexec⟩ :=
        poll_total h.reaches (.stepReady (boxError boxed (append.step (s.attempted path) call).2.flow) 0)
      refine ⟨_, _, .append call 0 hcursor happend (by simp [call]) rfl hexec, ?_⟩
      rw [withAttempted, polled, hcursor]
      rfl
  | finalizing output =>
    by_cases hfits : recorder.Fits output
    · refine .inr (.inl (hgoes (.finalized (.ok ())) (by rw [hcursor]; rfl) (by simp [hcursor]) ?_))
      intro exec' output' hexec hout
      have hfinal :
          PipelineExecutor.poll job (.finalized (.ok ())) ⟨.finalizing output, s.exec.scope⟩ = .ok exec' := by
        rw [← hcursor]
        exact hexec
      obtain ⟨e, he, rfl⟩ | ⟨-, -, rfl⟩ | ⟨scope', -, -, rfl⟩ := finalized_cases hfinal
      · cases he
      · cases hout
        exact hfits
      · cases hout
        exact hfits
    · exact .inr (.inr ⟨output, rfl, hfits⟩)
  | completed output => exact .inl ⟨output, rfl⟩

def limit (appends : σ → Option AppendOrders) (hashes : Finset B256)
    (job : Pipelines.Job σ (Checkpoint P) ε Err Pl) (events : List (LoopEvent P Err)) : ℕ :=
  job.pipeline.root.stepsOf.length + charge (job.pipeline.root.loops (guards appends) .once [])
    fun path => hashes.card * (openings events path + 1)

end LoopingJob

end Runs

section Example

open LoopingJob Pipelines.Pipeline

def offered (payload : Checkpoint Devnet) (ctx : StepContext Unit) : StepCall Devnet Unit :=
  ⟨payload, ctx, [.transaction Instance.pooledTx], id, fun tick => tick + 1⟩

end Example

end Rblib.Pool
