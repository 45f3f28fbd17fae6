import Rblib.Steps.Combinators

namespace Rblib.Steps

open Pipelines

variable {Ck Err ε : Type}

def sequence : List (Behaviour Ck Err) → Ck → Option Ck
  | [], current => some current
  | step :: steps, current =>
    match step current with
    | some (.ok next) => sequence steps next
    | _ => none

lemma sequence_append (before after : List (Behaviour Ck Err)) (payload : Ck) :
    sequence (before ++ after) payload = (sequence before payload).bind (sequence after) := by
  induction before generalizing payload with
  | nil => rfl
  | cons step before ih =>
    rw [List.cons_append, sequence, sequence]
    split
    · exact ih _
    · rfl

namespace Atomic

variable (ctx : StepContext ε) (clock : ℕ → ℕ) (steps : List (Behaviour Ck Err)) (payload : Ck)

def DeadlineObserved : Prop := ∃ before after, steps = before ++ after ∧
  (∃ current, sequence before payload = some current) ∧ ctx.deadlineReached (clock after.length) = true

def Unsuccessful : Prop := ∃ before step after current flow, steps = before ++ step :: after ∧
  sequence before payload = some current ∧ step current = some flow ∧ ∀ next, flow ≠ .ok next

structure RollsBack (flow : ControlFlow Ck Err) : Prop where
  allOrNothing : flow.checkpoint = some payload ∨
    ∃ final, sequence steps payload = some final ∧ flow.checkpoint = some final
  onFailure : Unsuccessful steps payload → flow.checkpoint = some payload

structure AsDocumented (flow : ControlFlow Ck Err) : Prop extends RollsBack steps payload flow where
  onDeadline : DeadlineObserved ctx clock steps payload → flow = .brk payload

variable {ctx clock steps payload}

lemma deadlineObserved_cons {step : Behaviour Ck Err} (h : DeadlineObserved ctx clock (step :: steps) payload) :
    ctx.deadlineReached (clock (steps.length + 1)) = true ∨
      ∃ next, step payload = some (.ok next) ∧ DeadlineObserved ctx clock steps next := by
  obtain ⟨before, after, heq, ⟨current, hcurrent⟩, hreached⟩ := h
  cases before with
  | nil =>
    rw [List.nil_append] at heq
    exact .inl (by rwa [← heq] at hreached)
  | cons first before =>
    cases heq
    rw [sequence] at hcurrent
    split at hcurrent
    · rename_i next hnext
      exact .inr ⟨next, hnext, before, after, rfl, ⟨current, hcurrent⟩, hreached⟩
    · cases hcurrent

lemma run_of_deadline (initial : Ck) (h : DeadlineObserved ctx clock steps payload) :
    run ctx clock initial steps payload = some (.ok initial) := by
  induction steps generalizing payload with
  | nil =>
    obtain ⟨before, after, heq, -, hreached⟩ := h
    obtain ⟨-, rfl⟩ := List.append_eq_nil_iff.mp heq.symm
    rw [run, if_pos (by exact hreached)]
  | cons step steps ih =>
    rw [run]
    split_ifs with hnow
    · rfl
    · obtain hreached | ⟨next, hnext, hlater⟩ := deadlineObserved_cons h
      · exact absurd hreached hnow
      · rw [hnext]
        exact ih hlater

lemma run_cases {initial : Ck} {flow : ControlFlow Ck Err} (h : run ctx clock initial steps payload = some flow) :
    flow = .ok initial ∨ ∃ final, sequence steps payload = some final ∧ flow = .ok final := by
  induction steps generalizing payload with
  | nil =>
    rw [run] at h
    cases h
    split_ifs
    · exact .inl rfl
    · exact .inr ⟨payload, rfl, rfl⟩
  | cons step steps ih =>
    rw [run] at h
    split_ifs at h
    · cases h
      exact .inl rfl
    · rw [sequence]
      split at h
      · cases h
      · rename_i next hnext
        rw [hnext]
        exact ih h
      · cases h
        exact .inl rfl

lemma sequence_of_unsuccessful (h : Unsuccessful steps payload) : sequence steps payload = none := by
  obtain ⟨before, step, after, current, flow, rfl, hcurrent, hflow, hnot⟩ := h
  rw [sequence_append, hcurrent, Option.bind_some, sequence, hflow]
  split
  · rename_i next hnext
    exact absurd (Option.some.inj hnext) (hnot next)
  · rfl

lemma step_rollsBack {flow : ControlFlow Ck Err} (h : step ctx clock steps payload = some flow) :
    RollsBack steps payload flow := by
  obtain rfl | ⟨final, hfinal, rfl⟩ := run_cases h
  · exact ⟨.inl rfl, fun _ => rfl⟩
  · refine ⟨.inr ⟨final, hfinal, rfl⟩, fun hbad => ?_⟩
    rw [sequence_of_unsuccessful hbad] at hfinal
    cases hfinal

lemma run_isSome (initial : Ck) (h : ∀ behaviour ∈ steps, ∀ current, (behaviour current).isSome = true) :
    (run ctx clock initial steps payload).isSome = true := by
  induction steps generalizing payload with
  | nil => rfl
  | cons step steps ih =>
    obtain ⟨hstep, hsteps⟩ := List.forall_mem_cons.mp h
    rw [run]
    split_ifs
    · rfl
    · split
      · rename_i hnone
        have hsome := hstep payload
        rw [hnone] at hsome
        cases hsome
      · exact ih hsteps
      · rfl

/-- The step returns if its steps do, and rolls back as documented; but it does not break when it finds the
deadline reached. -/
theorem step_documented_iff (ctx : StepContext ε) (clock : ℕ → ℕ) (steps : List (Behaviour Ck Err))
    (payload : Ck) :
    ((∀ flow, step ctx clock steps payload = some flow → AsDocumented ctx clock steps payload flow) ↔
        ¬ DeadlineObserved ctx clock steps payload) ∧
      (∀ flow, step ctx clock steps payload = some flow → RollsBack steps payload flow) ∧
      ((∀ behaviour ∈ steps, ∀ current, (behaviour current).isSome = true) →
        (step ctx clock steps payload).isSome = true) := by
  refine ⟨⟨fun h hobserved => ?_, fun hnot flow hflow => ?_⟩, fun flow => step_rollsBack, run_isSome payload⟩
  · cases (h _ (run_of_deadline payload hobserved)).onDeadline hobserved
  · exact ⟨step_rollsBack hflow, fun hobserved => absurd hobserved hnot⟩

def shortJob : StepContext Unit := ⟨⟨0, none, none, some 10, ()⟩, some 0⟩

def slowStep : Behaviour ℕ String := fun checkpoint => some (.ok (checkpoint + 1))

def slowClock (remaining : ℕ) : ℕ := if remaining = 0 then 12 else 3

theorem slowStep_not_broken :
    step shortJob slowClock [slowStep] 0 = some (.ok 0) ∧ DeadlineObserved shortJob slowClock [slowStep] 0 ∧
      ¬ AsDocumented shortJob slowClock [slowStep] 0 (.ok 0) := by
  have hobserved : DeadlineObserved shortJob slowClock [slowStep] 0 := ⟨[slowStep], [], rfl, ⟨1, rfl⟩, rfl⟩
  exact ⟨rfl, hobserved, fun h => nomatch h.onDeadline hobserved⟩

end Atomic

end Rblib.Steps
