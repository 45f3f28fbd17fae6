import Rblib.Pool.AppendOrders

/-! Payload jobs that share one instance of the step. `JobGenerator` hands the same pipeline to
every job, so the calls of overlapping jobs run against one set of attempted orders. -/

namespace Rblib.Pool

open Platform PlatformTypes Payload Pipelines

variable {J P ε : Type} [PlatformTypes P]

abbrev Job (P ε : Type) [PlatformTypes P] := List (Outcome P) → StepCall P ε

inductive JobCall (J : Type)
  | beforeJob (job : J)
  | step (job : J)

def JobCall.job : JobCall J → J
  | beforeJob job => job
  | step job => job

structure Instance (J P : Type) [PlatformTypes P] where
  attempted : Finset B256 := ∅
  outcomes : J → List (Outcome P) := fun _ => []

def OrderEvent.attemptedHash : OrderEvent P → Option B256
  | inclusionAttempt hash => some hash
  | inclusionSuccess _ => none
  | inclusionFailure _ _ => none

def attempts (events : List (OrderEvent P)) : List B256 := events.filterMap OrderEvent.attemptedHash

def Outcome.pulled (o : Outcome P) : List B256 := attempts o.events

namespace Instance

def pulled (inst : Instance J P) (job : J) : List B256 := (inst.outcomes job).flatMap Outcome.pulled

variable [DecidableEq J]

def exec (step : AppendOrders) (jobs : J → Job P ε) (inst : Instance J P) : JobCall J → Instance J P
  | .beforeJob job =>
    { attempted := AppendOrders.beforeJob inst.attempted
      outcomes := Function.update inst.outcomes job [] }
  | .step job =>
    let (attempted, outcome) := step.step inst.attempted (jobs job (inst.outcomes job))
    { attempted := attempted
      outcomes := Function.update inst.outcomes job (inst.outcomes job ++ [outcome]) }

def run (step : AppendOrders) (jobs : J → Job P ε) (calls : List (JobCall J)) (inst : Instance J P) :
    Instance J P :=
  calls.foldl (exec step jobs) inst

def solo (step : AppendOrders) (jobs : J → Job P ε) (job : J) (calls : List (JobCall J)) : Instance J P :=
  run step jobs (calls.filter fun call => call.job = job) {}

/-- An order offered to the next call of the job is in the shared set exactly when the job pulled it
itself. -/
def Undisturbed (jobs : J → Job P ε) (inst : Instance J P) (job : J) : Prop :=
  ∀ order ∈ (jobs job (inst.outcomes job)).orders,
    order.hash ∈ inst.attempted ↔ order.hash ∈ inst.pulled job

def UndisturbedAlong (step : AppendOrders) (jobs : J → Job P ε) (job : J) :
    List (JobCall J) → Instance J P → Prop
  | [], _ => True
  | call :: calls, inst => (call = .step job → Undisturbed jobs inst job) ∧
      UndisturbedAlong step jobs job calls (inst.exec step jobs call)

def Owns (inst : Instance J P) (job : J) : Prop := ∀ h, h ∈ inst.attempted ↔ h ∈ inst.pulled job

end Instance

section Pull

variable {step : AppendOrders}

lemma attempts_emit (event : OrderEvent P) (run : Run P) :
    attempts (run.emit event).events = attempts run.events ++ event.attemptedHash.toList := by
  rw [Run.emit, attempts, List.filterMap_append]
  cases h : event.attemptedHash with
  | none => simp [attempts, h]
  | some hash => simp [attempts, h]

lemma attempts_tryInclude (step : AppendOrders) (ctx : StepContext ε) (order : Order P) (id now : ℕ)
    (run : Run P) : attempts (run.tryInclude step ctx order id now).events = attempts run.events := by
  rw [Run.tryInclude]
  dsimp only
  split
  · rfl
  · split
    · rw [attempts_emit]
      simp [OrderEvent.attemptedHash]
    · split
      · rw [attempts_emit]
        simp [OrderEvent.attemptedHash]
      · split
        · rfl
        · rw [attempts_emit]
          simp [OrderEvent.attemptedHash]

lemma pull_congr (call : StepCall P ε) (orders : List (Order P)) (tick : ℕ) {s t : Finset B256}
    (run : Run P) (h : ∀ order ∈ orders, order.hash ∈ s ↔ order.hash ∈ t) :
    (step.pull call orders tick s run).2 = (step.pull call orders tick t run).2 := by
  induction orders generalizing tick s t run with
  | nil => rfl
  | cons order orders ih =>
    have htail : ∀ o ∈ orders, o.hash ∈ s ↔ o.hash ∈ t := fun o ho => h o (List.mem_cons_of_mem _ ho)
    rw [AppendOrders.pull, AppendOrders.pull]
    split
    · rfl
    · dsimp only
      by_cases hs : order.hash ∈ s
      · rw [if_pos hs, if_pos ((h order List.mem_cons_self).mp hs)]
        exact ih _ _ htail
      · rw [if_neg hs, if_neg (fun ht => hs ((h order List.mem_cons_self).mpr ht))]
        apply ih
        intro o ho
        rw [Finset.mem_insert, Finset.mem_insert, htail o ho]

lemma pull_attempted (call : StepCall P ε) (orders : List (Order P)) (tick : ℕ) (s : Finset B256)
    (run : Run P) (hrun : ∀ h ∈ attempts run.events, h ∈ s) :
    (∀ h ∈ attempts run.events, h ∈ attempts (step.pull call orders tick s run).2.events) ∧
    ∀ h, h ∈ (step.pull call orders tick s run).1 ↔
      h ∈ s ∨ h ∈ attempts (step.pull call orders tick s run).2.events := by
  induction orders generalizing tick s run with
  | nil => exact ⟨fun _ h => h, fun h => ⟨.inl, fun hs => hs.elim id (hrun h)⟩⟩
  | cons order orders ih =>
    rw [AppendOrders.pull]
    split
    · exact ⟨fun _ h => h, fun h => ⟨.inl, fun hs => hs.elim id (hrun h)⟩⟩
    · dsimp only
      have hemit : attempts (run.emit (.inclusionAttempt order.hash)).events =
          attempts run.events ++ [order.hash] := attempts_emit _ run
      split
      · next hs =>
        obtain ⟨hkeep, hmem⟩ := ih (tick + 1) s (run.emit (.inclusionAttempt order.hash)) (by
          intro h hh
          rw [hemit, List.mem_append, List.mem_singleton] at hh
          obtain hh | rfl := hh
          · exact hrun h hh
          · exact hs)
        refine ⟨fun h hh => hkeep h ?_, hmem⟩
        rw [hemit]
        exact List.mem_append_left _ hh
      · next hs =>
        obtain ⟨hkeep, hmem⟩ := ih (tick + 1) (insert order.hash s)
          ((run.emit (.inclusionAttempt order.hash)).tryInclude step call.ctx order (call.ids tick)
            (call.clock tick)) (by
          intro h hh
          rw [attempts_tryInclude, hemit, List.mem_append, List.mem_singleton] at hh
          obtain hh | rfl := hh
          · exact Finset.mem_insert_of_mem (hrun h hh)
          · exact Finset.mem_insert_self _ _)
        rw [attempts_tryInclude, hemit] at hkeep
        refine ⟨fun h hh => hkeep h (List.mem_append_left _ hh), fun h => ?_⟩
        rw [hmem h, Finset.mem_insert]
        constructor
        · rintro ((rfl | hh) | hh)
          · exact .inr (hkeep _ (List.mem_append_right _ (List.mem_singleton.mpr rfl)))
          · exact .inl hh
          · exact .inr hh
        · exact fun hh => hh.imp_left .inr

lemma step_congr (call : StepCall P ε) {s t : Finset B256}
    (h : ∀ order ∈ call.orders, order.hash ∈ s ↔ order.hash ∈ t) :
    (step.step s call).2 = (step.step t call).2 := by
  simp only [AppendOrders.step, pull_congr call call.orders 0 (Run.new step call.ctx call.payload) h]

lemma mem_step_attempted (call : StepCall P ε) (s : Finset B256) (h : B256) :
    h ∈ (step.step s call).1 ↔ h ∈ s ∨ h ∈ (step.step s call).2.pulled :=
  (pull_attempted call call.orders 0 s (Run.new step call.ctx call.payload)
    (fun _ hh => absurd hh List.not_mem_nil)).2 h

end Pull

namespace Instance

lemma initial_owns (job : J) : ({} : Instance J P).Owns job := by
  intro h
  simp [pulled]

variable [DecidableEq J] {step : AppendOrders} {jobs : J → Job P ε} {inst alone : Instance J P} {job : J}

lemma exec_owns {call : JobCall J} (h : inst.Owns job) (hc : call.job = job) :
    (inst.exec step jobs call).Owns job := by
  intro x
  cases call with
  | beforeJob j =>
    obtain rfl : j = job := hc
    simp [exec, AppendOrders.beforeJob, pulled]
  | step j =>
    obtain rfl : j = job := hc
    simp only [exec, pulled, Function.update_self, List.flatMap_append, List.mem_append,
      mem_step_attempted, h x]
    simp

lemma run_owns {calls : List (JobCall J)} (h : inst.Owns job) (hc : ∀ call ∈ calls, call.job = job) :
    (run step jobs calls inst).Owns job := by
  induction calls generalizing inst with
  | nil => exact h
  | cons call calls ih =>
    apply ih (exec_owns h (hc call List.mem_cons_self))
    exact fun c hm => hc c (List.mem_cons_of_mem _ hm)

lemma exec_outcomes_of_ne {call : JobCall J} (hc : call.job ≠ job) :
    (inst.exec step jobs call).outcomes job = inst.outcomes job := by
  cases call with
  | beforeJob j => exact Function.update_of_ne (Ne.symm hc) _ _
  | step j => exact Function.update_of_ne (Ne.symm hc) _ _

lemma exec_outcomes_congr {call : JobCall J} (hc : call.job = job)
    (ho : inst.outcomes job = alone.outcomes job) (hown : alone.Owns job)
    (hu : call = .step job → Undisturbed jobs inst job) :
    (inst.exec step jobs call).outcomes job = (alone.exec step jobs call).outcomes job := by
  cases call with
  | beforeJob j =>
    obtain rfl : j = job := hc
    simp only [exec, Function.update_self]
  | step j =>
    obtain rfl : j = job := hc
    have hsets : ∀ order ∈ (jobs j (inst.outcomes j)).orders,
        order.hash ∈ inst.attempted ↔ order.hash ∈ alone.attempted := by
      intro order horder
      rw [hu rfl order horder, hown order.hash, pulled, pulled, ho]
    simp only [exec, Function.update_self]
    rw [step_congr _ hsets, ho]

lemma run_outcomes_congr {calls : List (JobCall J)} (ho : inst.outcomes job = alone.outcomes job)
    (hown : alone.Owns job) (hu : UndisturbedAlong step jobs job calls inst) :
    (run step jobs calls inst).outcomes job =
      (run step jobs (calls.filter fun call => call.job = job) alone).outcomes job := by
  induction calls generalizing inst alone with
  | nil => exact ho
  | cons call calls ih =>
    obtain ⟨hcall, hrest⟩ := hu
    by_cases hc : call.job = job
    · rw [List.filter_cons_of_pos (by simpa using hc)]
      exact ih (exec_outcomes_congr hc ho hown hcall) (exec_owns hown hc) hrest
    · rw [List.filter_cons_of_neg (by simpa using hc)]
      apply ih _ hown hrest
      rw [exec_outcomes_of_ne hc, ho]

theorem outcomes_eq_solo (step : AppendOrders) (jobs : J → Job P ε) (job : J) (calls : List (JobCall J))
    (h : UndisturbedAlong step jobs job calls {}) :
    (run step jobs calls {}).outcomes job = (solo step jobs job calls).outcomes job :=
  run_outcomes_congr rfl (initial_owns job) h

def pooledTx : PlainTx := ⟨1, 7, 0⟩

def otherTx : PlainTx := ⟨2, 8, 0⟩

def offering (tx : PlainTx) : Job Devnet Unit := fun _ =>
  { payload := Checkpoint.newAtBlock Devnet.block 0 0
    ctx := ⟨⟨30000000, none, none, none, ()⟩, none⟩
    orders := [.transaction tx]
    clock := fun tick => tick
    ids := fun tick => tick + 1 }

def overlapping : List (JobCall Bool) := [.beforeJob false, .beforeJob true, .step false, .step true]

theorem overlapping_disjoint_eq_solo :
    (run {} (fun job => offering (if job then otherTx else pooledTx)) overlapping {}).outcomes true =
      (solo {} (fun job => offering (if job then otherTx else pooledTx)) true overlapping).outcomes true := by
  apply outcomes_eq_solo
  refine ⟨fun h => absurd h (by simp), fun h => absurd h (by simp), fun h => absurd h (by simp), ?_, trivial⟩
  intro _ order horder
  obtain rfl := List.mem_singleton.mp horder
  decide

theorem overlapping_job_skips_order :
    ((solo {} (fun _ => offering pooledTx) true overlapping).outcomes true).map Outcome.events =
        [[.inclusionAttempt 1, .inclusionSuccess 1]] ∧
      ((run {} (fun _ => offering pooledTx) overlapping {}).outcomes true).map Outcome.events =
        [[.inclusionAttempt 1]] ∧
      ((run {} (fun _ => offering pooledTx) overlapping {}).outcomes true).map Outcome.considered = [[]] := by
  exact ⟨rfl, rfl, rfl⟩

theorem undisturbed_of_exclusive (step : AppendOrders) (jobs : J → Job P ε) (job : J)
    (before own : List (JobCall J)) (h : ∀ call ∈ own, call.job = job) :
    Undisturbed jobs (run step jobs (before ++ .beforeJob job :: own) {}) job := by
  rw [run, List.foldl_append, List.foldl_cons]
  intro order _
  apply run_owns _ h
  intro x
  simp [exec, AppendOrders.beforeJob, pulled]

end Instance

end Rblib.Pool
