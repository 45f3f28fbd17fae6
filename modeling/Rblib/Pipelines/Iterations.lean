import Rblib.Library.LoopCount
import Rblib.Pipelines.Structured

namespace Rblib.Pipelines.Pipeline

open Library.OracleTrace Library.OracleTrace.Prog

variable {σ κ Λ : Type}

section Exact

variable (report : StepPath → Λ)

lemma exact_prologue (p : Pipeline σ κ) (pos : StepPath) : Exact (runPrologue report p pos) := by
  unfold runPrologue
  cases p.prologue with
  | none => exact exact_pure true
  | some s => exact (exact_visit _).bind fun _ => exact_pure _

lemma exact_epilogue (p : Pipeline σ κ) (pos : StepPath) : Exact (runEpilogue report p pos) := by
  unfold runEpilogue
  cases p.epilogue with
  | none => exact exact_pure ()
  | some s => exact (exact_visit _).bind fun _ => exact_pure ()

lemma exact_body {b : Behavior} {repeats : Bool} {items : Prog Λ Outcome Bool} (h : Exact items) :
    Exact (runBody b repeats items) := by
  unfold runBody
  split
  · exact h.loop
  · exact h.bind fun _ => exact_pure ()

mutual

lemma exact_run : ∀ (p : Pipeline σ κ) (b : Behavior) (pos : StepPath), Exact (runPipeline report p b pos)
  | mk prologue epilogue steps limits, b, pos => by
    rw [runPipeline]
    refine (exact_prologue report _ pos).bind fun proceed => Exact.bind ?_ fun _ => exact_epilogue report _ pos
    cases proceed with
    | false => exact exact_pure ()
    | true => exact exact_body (exact_items steps 0 pos)

lemma exact_items : ∀ (items : List (StepOrPipeline σ κ)) (i : ℕ) (pos : StepPath),
    Exact (runItems report items i pos)
  | [], _, _ => exact_pure true
  | .step _ :: later, i, pos => by
    rw [runItems]
    refine (exact_visit _).bind fun o => ?_
    cases o with
    | brk => exact exact_pure false
    | ok => exact exact_items later (i + 1) pos
  | .pipeline b p :: later, i, pos => by
    rw [runItems]
    exact (exact_run p b _).bind fun _ => exact_items later (i + 1) pos

end

end Exact

variable {s : σ}

lemma anyStep_of_step {items : List (StepOrPipeline σ κ)} {k : ℕ} (h : items[k]? = some (.step s)) :
    anyStep items = true := by
  induction items generalizing k with
  | nil => cases h
  | cons item items ih =>
    cases item with
    | step t => rfl
    | pipeline b p =>
      cases k with
      | zero => cases h
      | succ k =>
        rw [anyStep, ih h, Bool.or_true]

lemma ok_mem_answers {items : List (StepOrPipeline σ κ)} {k : ℕ} (hk : items[k]? = some (.step s)) (i : ℕ)
    (pos : StepPath) {os rest : List Outcome} (h : (runItems id items i pos os).2 = some (true, rest)) :
    .ok ∈ answers (pos ++ [i + k + STEP0_INDEX]) (runItems id items i pos) os := by
  induction items generalizing i k os with
  | nil => cases hk
  | cons item items ih =>
    cases item with
    | step t =>
      rw [runItems] at h ⊢
      obtain ⟨o, mid, hvisit, hrest⟩ := bind_finished h
      rw [answers_bind (exact_visit _) _ _ hvisit, List.mem_append]
      cases o with
      | brk => cases hrest
      | ok =>
        cases k with
        | zero =>
          left
          cases os with
          | nil => cases hvisit
          | cons o os =>
            cases hvisit
            simp [answers, visit]
        | succ k =>
          right
          have hmore := ih hk (i + 1) hrest
          rwa [Nat.add_right_comm i 1 k] at hmore
    | pipeline b p =>
      rw [runItems] at h ⊢
      obtain ⟨u, mid, hrun, hrest⟩ := bind_finished h
      rw [answers_bind (exact_run id p b _) _ _ hrun, List.mem_append]
      right
      cases k with
      | zero => cases hk
      | succ k =>
        have hmore := ih hk (i + 1) hrest
        rwa [Nat.add_right_comm i 1 k] at hmore

def iterations (p : Pipeline σ κ) (pos : StepPath) (os : List Outcome) : ℕ :=
  match (runPrologue id p pos os).2 with
  | some (true, rest) => Prog.iterations (runItems id p.steps 0 pos) rest
  | _ => 0

lemma iterations_le_answers (p : Pipeline σ κ) {i : ℕ} (hi : p.steps[i]? = some (.step s)) (pos : StepPath)
    (os : List Outcome) :
    p.iterations pos os ≤ (answers (pos ++ [i + STEP0_INDEX]) (runPipeline id p .loop pos) os).count .ok + 1 := by
  obtain ⟨prologue, epilogue, steps, limits⟩ := p
  rw [iterations]
  split
  · next rest hrest =>
    have hloop := iterations_le (exact_items id steps 0 pos)
      (fun os rest h => ok_mem_answers hi 0 pos h) rest
    rw [Nat.zero_add] at hloop
    apply hloop.trans
    apply Nat.add_le_add_right
    apply List.Sublist.count_le
    rw [runPipeline, answers_bind (exact_prologue id _ pos) _ _ hrest, if_pos rfl, runBody,
      if_pos ⟨rfl, anyStep_of_step hi⟩]
    have hprefix := answers_bind_prefix (exact_items id steps 0 pos).loop
      (fun _ => runEpilogue id (mk prologue epilogue steps limits) pos) (pos ++ [i + STEP0_INDEX]) rest
    exact hprefix.sublist.trans (List.sublist_append_right _ _)
  · exact Nat.zero_le _

end Rblib.Pipelines.Pipeline
