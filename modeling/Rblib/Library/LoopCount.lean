import Rblib.Library.OracleTrace

namespace Rblib.Library.OracleTrace.Prog

variable {L O α β : Type}

def Exact (r : Prog L O α) : Prop :=
  ∀ os a rest, (r os).2 = some (a, rest) → ∃ used, os = used ++ rest ∧ used.length = (r os).1.length

lemma exact_pure (a : α) : Exact (pure a : Prog L O α) := by
  intro os b rest h
  cases h
  exact ⟨[], rfl, rfl⟩

lemma exact_visit (l : L) : Exact (visit l : Prog L O O) := by
  intro os a rest h
  cases os with
  | nil => cases h
  | cons o os =>
    cases h
    exact ⟨[a], rfl, rfl⟩

lemma Exact.bind {r : Prog L O α} {f : α → Prog L O β} (hr : Exact r) (hf : ∀ a, Exact (f a)) :
    Exact (r >>= f) := by
  intro os b rest h
  obtain ⟨a, mid, h₁, h₂⟩ := bind_finished h
  obtain ⟨used, rfl, hused⟩ := hr os a mid h₁
  obtain ⟨later, rfl, hlater⟩ := hf a mid b rest h₂
  refine ⟨used ++ later, by rw [List.append_assoc], ?_⟩
  have hpair : r (used ++ (later ++ rest)) = ((r (used ++ (later ++ rest))).1, some (a, later ++ rest)) :=
    Prod.ext rfl h₁
  rw [bind_apply, hpair, List.length_append, hused, hlater]
  simp

lemma Exact.loopN {body : Prog L O Bool} (hb : Exact body) (n : ℕ) : Exact (loopN n body) := by
  induction n with
  | zero =>
    intro os u rest h
    cases h
  | succ n ih =>
    apply hb.bind
    intro again
    cases again with
    | false => exact exact_pure ()
    | true => exact ih

lemma Exact.loop {body : Prog L O Bool} (hb : Exact body) : Exact (loop body) :=
  fun os u rest h => hb.loopN _ os u rest h

section Answers

variable [DecidableEq L]

def answers (l : L) (r : Prog L O α) (os : List O) : List O := (((r os).1.zip os).filter (·.1 = l)).map Prod.snd

lemma answers_bind {r : Prog L O α} (hr : Exact r) (f : α → Prog L O β) (l : L) {os rest : List O} {a : α}
    (h : (r os).2 = some (a, rest)) : answers l (r >>= f) os = answers l r os ++ answers l (f a) rest := by
  obtain ⟨used, hos, hused⟩ := hr os a rest h
  obtain ⟨v, hv⟩ : ∃ v, r os = (v, some (a, rest)) := ⟨_, Prod.ext rfl h⟩
  have hbind : ((r >>= f) os).1 = v ++ (f a rest).1 := by rw [bind_apply, hv]
  have hlength : v.length = used.length := by rw [hused, hv]
  have hzip : ∀ w, (v ++ w).zip (used ++ rest) = v.zip used ++ w.zip rest := fun w => List.zip_append hlength
  have hown : v.zip (used ++ rest) = v.zip used := by simpa using hzip []
  rw [answers, answers, answers, hbind, hv, hos, hzip, hown, List.filter_append, List.map_append]

lemma answers_bind_prefix {r : Prog L O α} (hr : Exact r) (f : α → Prog L O β) (l : L) (os : List O) :
    answers l r os <+: answers l (r >>= f) os := by
  cases h : (r os).2 with
  | none =>
    have hpair : r os = ((r os).1, none) := Prod.ext rfl h
    have hbind : ((r >>= f) os).1 = (r os).1 := by rw [bind_apply, hpair]
    rw [answers, answers, hbind]
  | some e =>
    rw [answers_bind hr f l h]
    exact List.prefix_append _ _

def iterationsN : ℕ → Prog L O Bool → List O → ℕ
  | 0, _, _ => 0
  | n + 1, body, os => match (body os).2 with
    | some (true, rest) => iterationsN n body rest + 1
    | _ => 1

def iterations (body : Prog L O Bool) (os : List O) : ℕ := iterationsN (os.length + 1) body os

lemma iterations_le [DecidableEq O] {body : Prog L O Bool} (hb : Exact body) {l : L} {o : O}
    (hgoes : ∀ os rest, (body os).2 = some (true, rest) → o ∈ answers l body os) (os : List O) :
    iterations body os ≤ (answers l (loop body) os).count o + 1 := by
  have hn : ∀ n os, iterationsN n body os ≤ (answers l (loopN n body) os).count o + 1 := by
    intro n
    induction n with
    | zero => exact fun os => Nat.zero_le _
    | succ n ih =>
      intro os
      rw [iterationsN]
      split
      · next rest h =>
        have hone := List.count_pos_iff.mpr (hgoes os rest h)
        have hrest := ih rest
        rw [loopN, answers_bind hb _ l h, List.count_append, if_pos rfl]
        omega
      · omega
  exact hn _ os

end Answers

section Costs

variable [DecidableEq L] [DecidableEq O] {o : O} {r : Prog L O α} {f : α → Prog L O β} {c c' : ℕ}
  {loops loops' : List (L × ℕ)} {count count' : L → ℕ}

def charge (loops : List (L × ℕ)) (count : L → ℕ) : ℕ := (loops.map fun e => e.2 * count e.1).sum

omit [DecidableEq L] in
@[simp] lemma charge_cons (e : L × ℕ) (loops : List (L × ℕ)) (count : L → ℕ) :
    charge (e :: loops) count = e.2 * count e.1 + charge loops count := rfl

omit [DecidableEq L] in
@[simp] lemma charge_append (loops loops' : List (L × ℕ)) (count : L → ℕ) :
    charge (loops ++ loops') count = charge loops count + charge loops' count := by
  rw [charge, List.map_append, List.sum_append]
  rfl

omit [DecidableEq L] in
lemma charge_add (loops : List (L × ℕ)) (count count' : L → ℕ) :
    charge loops (fun l => count l + count' l) = charge loops count + charge loops count' := by
  induction loops with
  | nil => rfl
  | cons e loops ih =>
    rw [charge_cons, charge_cons, charge_cons, ih, Nat.mul_add]
    omega

omit [DecidableEq L] in
lemma charge_mono (h : ∀ e ∈ loops, count e.1 ≤ count' e.1) : charge loops count ≤ charge loops count' := by
  induction loops with
  | nil => exact le_rfl
  | cons e loops ih =>
    obtain ⟨he, hrest⟩ := List.forall_mem_cons.mp h
    rw [charge_cons, charge_cons]
    exact Nat.add_le_add (Nat.mul_le_mul_left _ he) (ih hrest)

/-- A program visits at most `c` labels and those that its loops were paid for with the answer `o`. -/
def Costs (o : O) (r : Prog L O α) (c : ℕ) (loops : List (L × ℕ)) : Prop :=
  ∀ os, (r os).1.length ≤ c + charge loops fun l => (answers l r os).count o

lemma charge_le_bind (hexact : Exact r) (f : α → Prog L O β) (loops : List (L × ℕ)) (o : O) (os : List O) :
    charge loops (fun l => (answers l r os).count o) ≤ charge loops fun l => (answers l (r >>= f) os).count o := by
  apply charge_mono
  intro e _
  have hstart := answers_bind_prefix hexact f e.1 os
  exact hstart.sublist.count_le o

lemma costs_pure (a : α) : Costs o (pure a : Prog L O α) 0 [] := fun _ => le_rfl

lemma costs_visit (l : L) : Costs o (visit l) 1 [] := by
  intro os
  cases os <;> exact le_rfl

lemma Costs.bind (hexact : Exact r) (hr : Costs o r c loops) (hf : ∀ a, Costs o (f a) c' loops') :
    Costs o (r >>= f) (c + c') (loops ++ loops') := by
  intro os
  have hlength := hr os
  rw [charge_append]
  cases h : (r os).2 with
  | none =>
    have hpair : r os = ((r os).1, none) := Prod.ext rfl h
    have hvisits : ((r >>= f) os).1 = (r os).1 := by rw [bind_apply, hpair]
    have hmono := charge_le_bind hexact f loops o os
    rw [hvisits]
    omega
  | some e =>
    obtain ⟨a, rest⟩ := e
    have hpair : r os = ((r os).1, some (a, rest)) := Prod.ext rfl h
    have hvisits : ((r >>= f) os).1 = (r os).1 ++ (f a rest).1 := by rw [bind_apply, hpair]
    have hlater := hf a rest
    simp only [answers_bind hexact f _ h, List.count_append, charge_add]
    rw [hvisits, List.length_append]
    omega

lemma Costs.weaken (h : Costs o r c loops) (hc : c ≤ c') (before after : List (L × ℕ)) :
    Costs o r c' (before ++ loops ++ after) := by
  intro os
  have hlength := h os
  rw [charge_append, charge_append]
  omega

lemma Costs.loop {body : Prog L O Bool} (hb : Exact body) (h : Costs o body c loops) {l : L}
    (hgoes : ∀ os rest, (body os).2 = some (true, rest) → o ∈ answers l body os) :
    Costs o (loop body) c ((l, c) :: loops) := by
  have hn : ∀ n, Costs o (loopN n body) c ((l, c) :: loops) := by
    intro n
    induction n with
    | zero => exact fun os => Nat.zero_le _
    | succ n ih =>
      intro os
      have hlength := h os
      rw [charge_cons]
      by_cases hagain : ∃ rest, (body os).2 = some (true, rest)
      · obtain ⟨rest, hrest⟩ := hagain
        have hone := List.count_pos_iff.mpr (hgoes os rest hrest)
        have hlater := ih rest
        have hpair : body os = ((body os).1, some (true, rest)) := Prod.ext rfl hrest
        have hvisits : (loopN (n + 1) body os).1 = (body os).1 ++ (loopN n body rest).1 := by
          rw [loopN, bind_apply, hpair]
          rfl
        rw [charge_cons] at hlater
        rw [hvisits, List.length_append, loopN]
        simp only [answers_bind hb _ _ hrest, List.count_append, charge_add, if_true]
        have hpaid := Nat.mul_le_mul_left c hone
        dsimp only at hlater ⊢
        rw [Nat.mul_add]
        omega
      · -- the iteration that ends the loop
        have hvisits : (loopN (n + 1) body os).1 = (body os).1 := by
          rw [loopN, bind_apply]
          split
          · next hbody => rw [hbody]
          · next v again rest hbody =>
            cases again with
            | true => exact absurd ⟨rest, by rw [hbody]⟩ hagain
            | false => exact (List.append_nil _).trans (by rw [hbody])
        have hmono := charge_le_bind hb (fun again => if again then loopN n body else pure ()) loops o os
        rw [hvisits, loopN]
        omega
  exact fun os => hn _ os

end Costs

end Rblib.Library.OracleTrace.Prog
