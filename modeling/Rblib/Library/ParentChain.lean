import Mathlib.Data.List.Chain
import Mathlib.Data.Set.Basic
import Mathlib.Logic.Relation

/-! Nodes that point to a parent each, one level above them. -/

namespace Rblib.Library

variable {α : Type*} {parent : α → Option α}

def AncestorOrSelf (parent : α → Option α) : α → α → Prop := Relation.ReflTransGen fun p x => parent x = some p

lemma ancestorOrSelf_iff {a x : α} :
    AncestorOrSelf parent a x ↔ x = a ∨ ∃ p, AncestorOrSelf parent a p ∧ parent x = some p :=
  Relation.ReflTransGen.cases_tail_iff _ a x

structure Layered (nodes : Set α) (parent : α → Option α) (depth : α → ℕ) : Prop where
  closed : ∀ x ∈ nodes, ∀ p, parent x = some p → p ∈ nodes
  child : ∀ x ∈ nodes, ∀ p, parent x = some p → depth x = depth p + 1

namespace Layered

variable {nodes : Set α} {depth : α → ℕ} {a x : α}

lemma depth_le (h : Layered nodes parent depth) (hx : x ∈ nodes) (ha : AncestorOrSelf parent a x) :
    depth a ≤ depth x := by
  induction ha with
  | refl => exact le_rfl
  | @tail p x _ hp ih =>
    have hstep := h.child x hx p hp
    have hle := ih (h.closed x hx p hp)
    omega

lemma eq_of_depth_le (h : Layered nodes parent depth) (hx : x ∈ nodes) (ha : AncestorOrSelf parent a x)
    (hle : depth x ≤ depth a) : x = a := by
  obtain heq | ⟨p, hap, hp⟩ := ancestorOrSelf_iff.mp ha
  · exact heq
  · have hstep := h.child x hx p hp
    have hpa := h.depth_le (h.closed x hx p hp) hap
    omega

lemma length_of_isChain (h : Layered nodes parent depth) {l : List α}
    (hl : l.IsChain fun p x => parent x = some p) (ha : l.head? = some a) (hx : l.getLast? = some x)
    (hmem : x ∈ nodes) : depth a + l.length = depth x + 1 := by
  induction l using List.reverseRecOn generalizing x with
  | nil => cases ha
  | append_singleton l y ih =>
    rw [List.getLast?_concat, Option.some_inj] at hx
    subst hx
    obtain ⟨hl, -, hlink⟩ := List.isChain_append.mp hl
    cases hlast : l.getLast? with
    | none =>
      rw [List.getLast?_eq_none_iff] at hlast
      subst hlast
      cases ha
      rfl
    | some p =>
      have hp := hlink p hlast y rfl
      have hne : l ≠ [] := fun hnil => by rw [hnil] at hlast; cases hlast
      rw [List.head?_append_of_ne_nil _ hne] at ha
      have hlen := ih hl ha hlast (h.closed y hmem p hp)
      have hstep := h.child y hmem p hp
      rw [List.length_append, List.length_singleton]
      omega

end Layered

end Rblib.Library
