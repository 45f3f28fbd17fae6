import Rblib.Library.Fallible

/-! A combinator that makes a future cloneable, taken by its operations and by what its users rely
on. -/

namespace Rblib.Library

variable {Future Output Error : Type}

/-- What the handles of a future have in common is its cell. `busy` when another handle polls it at
the same time. -/
structure SharedFutures (Future Output Error : Type) where
  Cell : Type
  Handle : Type
  shared : Future → Cell × Handle
  clone : Handle → Handle
  poll : (Future → Except Error Future) → Bool → Cell → Handle → Except Error (Option Output × Handle × Cell)

/-- Whichever live handle is polled polls the future, as long as that has no output, and each handle
resolves with it. -/
structure SharedFutures.Laws (S : SharedFutures Future Output Error) (output : Future → Option Output) where
  inner : S.Cell → Future
  live : S.Handle → Prop
  inner_shared : ∀ future, inner (S.shared future).1 = future
  live_shared : ∀ future, live (S.shared future).2
  live_clone : ∀ handle, live handle → live (S.clone handle)
  waits : ∀ next busy cell handle, live handle → output (inner cell) ≠ none ∨ busy = true →
    ∃ handle' cell', S.poll next busy cell handle = .ok (output (inner cell), handle', cell') ∧
      inner cell' = inner cell ∧ (output (inner cell) = none → live handle')
  drives : ∀ next cell handle future, live handle → output (inner cell) = none → next (inner cell) = .ok future →
    ∃ handle' cell', S.poll next false cell handle = .ok (output future, handle', cell') ∧
      inner cell' = future ∧ (output future = none → live handle')
  panics : ∀ next cell handle e, live handle → output (inner cell) = none → next (inner cell) = .error e →
    S.poll next false cell handle = .error e

def Driven (next : Future → Except Error Future) (output : Future → Option Output)
    (future future' : Future) : Prop :=
  future' = future ∨ output future = none ∧ next future = .ok future'

lemma Driven.finished {next : Future → Except Error Future} {output : Future → Option Output}
    {future future' : Future} {result : Output} (h : Driven next output future future')
    (ho : output future = some result) : future' = future := by
  rcases h with h | ⟨hn, -⟩
  · exact h
  · rw [hn] at ho
    cases ho

inductive SharedHandle
  | live
  | spent

def SharedHandle.poll (output : Future → Option Output) (again : Error) (next : Future → Except Error Future)
    (busy : Bool) (future : Future) (handle : SharedHandle) :
    Except Error (Option Output × SharedHandle × Future) :=
  match handle, output future with
  | .spent, _ => .error again
  | .live, some result => .ok (some result, .spent, future)
  | .live, none =>
    if busy then .ok (none, .live, future)
    else do
      let future ← next future
      match output future with
      | some result => return (some result, .spent, future)
      | none => return (none, .live, future)

namespace SharedHandle

variable {output : Future → Option Output} {again e : Error} {next : Future → Except Error Future} {busy : Bool}
  {future future' : Future}

end SharedHandle

end Rblib.Library
