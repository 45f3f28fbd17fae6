import Mathlib.Data.List.Basic

namespace Rblib.Library

variable {α : Type*}

section

variable [DecidableEq α]

def agreements : List α → List α → ℕ
  | x :: xs, y :: ys => (if x = y then 1 else 0) + agreements xs ys
  | _, _ => 0

@[simp] lemma agreements_nil_right (xs : List α) : agreements xs [] = 0 := by
  cases xs with
  | nil => rfl
  | cons x xs => rfl

lemma agreements_append (xs ys zs : List α) :
    agreements xs (ys ++ zs) = agreements xs ys + agreements (xs.drop ys.length) zs := by
  induction ys generalizing xs with
  | nil => simp
  | cons y ys ih =>
    cases xs with
    | nil => rfl
    | cons x xs =>
      rw [List.cons_append, agreements, agreements, ih, List.length_cons, List.drop_succ_cons, Nat.add_assoc]

lemma agreements_le (xs ys : List α) : agreements xs ys ≤ ys.length := by
  induction ys generalizing xs with
  | nil => simp
  | cons y ys ih =>
    cases xs with
    | nil => exact Nat.zero_le _
    | cons x xs =>
      have hrest := ih xs
      rw [agreements, List.length_cons]
      split_ifs <;> omega

lemma agreements_eq_length_iff (xs ys : List α) : agreements xs ys = ys.length ↔ ys <+: xs := by
  induction ys generalizing xs with
  | nil => simp
  | cons y ys ih =>
    cases xs with
    | nil => simp [agreements]
    | cons x xs =>
      have hle := agreements_le xs ys
      rw [agreements, List.length_cons, List.cons_prefix_cons, ← ih xs]
      split_ifs with hxy
      · rw [and_iff_right hxy.symm]
        omega
      · refine iff_of_false (by omega) fun h => hxy h.1.symm

lemma agreements_eq_zero {xs ys : List α} (h : ∀ y ∈ ys, y ∉ xs) : agreements xs ys = 0 := by
  induction ys generalizing xs with
  | nil => simp
  | cons y ys ih =>
    cases xs with
    | nil => rfl
    | cons x xs =>
      obtain ⟨hy, hys⟩ := List.forall_mem_cons.mp h
      have hne : x ≠ y := fun heq => hy (heq ▸ List.mem_cons_self)
      rw [agreements, if_neg hne, ih fun z hz hmem => hys z hz (List.mem_cons_of_mem _ hmem)]

end

lemma drop_eq_filter_iff (p : α → Bool) (l : List α) (k : ℕ) :
    l.drop k = l.filter p ↔ (∀ x ∈ l.take k, p x = false) ∧ ∀ x ∈ l.drop k, p x = true := by
  have hsplit : l.filter p = (l.take k).filter p ++ (l.drop k).filter p := by
    rw [← List.filter_append, List.take_append_drop]
  constructor
  · intro h
    have hrest : ∀ x ∈ l.drop k, p x = true := fun x hx => by
      rw [h] at hx
      exact (List.mem_filter.mp hx).2
    rw [hsplit, List.filter_eq_self.mpr hrest] at h
    have hnil := List.self_eq_append_left.mp h
    exact ⟨fun x hx => by simpa using List.filter_eq_nil_iff.mp hnil x hx, hrest⟩
  · rintro ⟨hfirst, hrest⟩
    rw [hsplit, List.filter_eq_self.mpr hrest, List.filter_eq_nil_iff.mpr fun x hx => by simp [hfirst x hx],
      List.nil_append]

end Rblib.Library
