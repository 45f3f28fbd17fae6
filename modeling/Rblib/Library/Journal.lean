import Rblib.Library.Fallible

/-! Executors over a store with a journal of changes that are not written to it yet. -/

namespace Rblib.Library

variable {Store Change Input Output Error : Type}

def runAll (run : Store → List Change → Input → Except Error (Output × Change)) (store : Store) :
    List Change → List Input → Except Error (List Output × List Change)
  | _, [] => .ok ([], [])
  | journal, input :: inputs => do
    let (output, change) ← run store journal input
    let (outputs, changes) ← runAll run store (journal ++ [change]) inputs
    return (output :: outputs, change :: changes)

def ReadsThrough (run : Store → List Change → Input → Except Error (Output × Change))
    (write : Store → Change → Store) : Prop :=
  ∀ store journal input, run store journal input = run (journal.foldl write store) [] input

/-- Segments that each ran with an empty journal on the store that the ones before were written to. -/
inductive Segments (run : Store → List Change → Input → Except Error (Output × Change))
    (write : Store → Change → Store) (store : Store) : List Input → List Output → Store → Prop
  | nil : Segments run write store [] [] store
  | snoc {inputs next : List Input} {outputs more : List Output} {changes : List Change} {written : Store} :
      Segments run write store inputs outputs written → runAll run written [] next = .ok (more, changes) →
      Segments run write store (inputs ++ next) (outputs ++ more) (changes.foldl write written)

variable {run : Store → List Change → Input → Except Error (Output × Change)} {write : Store → Change → Store}
  {store : Store} {journal changes : List Change} {inputs : List Input} {outputs : List Output}

lemma runAll_cons_ok {input : Input} {output : Output} {change : Change}
    (h : run store journal input = .ok (output, change))
    (hrest : runAll run store (journal ++ [change]) inputs = .ok (outputs, changes)) :
    runAll run store journal (input :: inputs) = .ok (output :: outputs, change :: changes) := by
  rw [runAll, h]
  change (runAll run store (journal ++ [change]) inputs >>= _) = _
  rw [hrest]
  rfl

lemma runAll_cons_eq_ok {input : Input} {result : List Output × List Change}
    (h : runAll run store journal (input :: inputs) = .ok result) :
    ∃ output change outputs changes, run store journal input = .ok (output, change) ∧
      runAll run store (journal ++ [change]) inputs = .ok (outputs, changes) ∧
      result = (output :: outputs, change :: changes) := by
  obtain ⟨⟨output, change⟩, hrun, h⟩ := bind_eq_ok.mp h
  obtain ⟨⟨outputs, changes⟩, hrest, h⟩ := bind_eq_ok.mp h
  exact ⟨output, change, outputs, changes, hrun, hrest, (Except.ok.inj h).symm⟩

lemma runAll_append {next : List Input} {more : List Output} {later : List Change}
    (h : runAll run store journal inputs = .ok (outputs, changes))
    (hnext : runAll run store (journal ++ changes) next = .ok (more, later)) :
    runAll run store journal (inputs ++ next) = .ok (outputs ++ more, changes ++ later) := by
  induction inputs generalizing journal outputs changes with
  | nil =>
    cases h
    rwa [List.append_nil] at hnext
  | cons input inputs ih =>
    obtain ⟨output, change, outputs', changes', hrun, hrest, heq⟩ := runAll_cons_eq_ok h
    cases heq
    rw [List.append_cons] at hnext
    exact runAll_cons_ok hrun (ih hrest hnext)

lemma ReadsThrough.runAll_eq (hread : ReadsThrough run write) (inputs : List Input) (store : Store)
    (written journal : List Change) :
    runAll run store (written ++ journal) inputs = runAll run (written.foldl write store) journal inputs := by
  induction inputs generalizing journal with
  | nil => rfl
  | cons input inputs ih =>
    have hfirst : run store (written ++ journal) input = run (written.foldl write store) journal input := by
      rw [hread store, hread (written.foldl write store), List.foldl_append]
    rw [runAll, runAll, hfirst]
    congr 1
    funext ⟨output, change⟩
    dsimp only
    rw [List.append_assoc, ih]

theorem Segments.runAll {final : Store} (hread : ReadsThrough run write)
    (h : Segments run write store inputs outputs final) :
    ∃ changes, Library.runAll run store [] inputs = .ok (outputs, changes) ∧
      final = changes.foldl write store := by
  induction h with
  | nil => exact ⟨[], rfl, rfl⟩
  | @snoc inputs next outputs more later written _ hnext ih =>
    obtain ⟨changes, hrun, rfl⟩ := ih
    refine ⟨changes ++ later, runAll_append hrun ?_, (List.foldl_append ..).symm⟩
    have hcut := hread.runAll_eq next store changes []
    rw [List.append_nil] at hcut
    rw [List.nil_append, hcut]
    exact hnext

end Rblib.Library
