import Mathlib.Tactic

/-! Unsigned integers of a fixed width. -/

namespace Rblib.Library

inductive OverflowChecks
  | on
  | off
  deriving DecidableEq

inductive Overflow
  | attempted
  deriving DecidableEq

namespace FixedWidth

variable {w : ℕ}

def fit (checks : OverflowChecks) (w n : ℕ) : Except Overflow (BitVec w) :=
  if checks = .on ∧ 2 ^ w ≤ n then .error .attempted else .ok (BitVec.ofNat w n)

def add (checks : OverflowChecks) (x y : BitVec w) : Except Overflow (BitVec w) := fit checks w (x.toNat + y.toNat)

def mul (checks : OverflowChecks) (x y : BitVec w) : Except Overflow (BitVec w) := fit checks w (x.toNat * y.toNat)

lemma fit_of_lt (checks : OverflowChecks) {n : ℕ} (h : n < 2 ^ w) :
    ∃ v : BitVec w, fit checks w n = .ok v ∧ v.toNat = n := by
  refine ⟨BitVec.ofNat w n, if_neg (by omega), ?_⟩
  rw [BitVec.toNat_ofNat, Nat.mod_eq_of_lt h]

lemma fit_on {n : ℕ} {v : BitVec w} (h : fit .on w n = .ok v) : n < 2 ^ w ∧ v.toNat = n := by
  rw [fit] at h
  split at h
  · cases h
  · next hfits =>
    have hlt : n < 2 ^ w := by
      by_contra hle
      exact hfits ⟨rfl, not_lt.mp hle⟩
    obtain rfl := Except.ok.inj h
    exact ⟨hlt, by rw [BitVec.toNat_ofNat, Nat.mod_eq_of_lt hlt]⟩

lemma uint32_ofNat_eq_iff (m n : ℕ) : UInt32.ofNat m = UInt32.ofNat n ↔ m ≡ n [MOD 2 ^ 32] := by
  rw [← UInt32.toNat_inj, UInt32.toNat_ofNat', UInt32.toNat_ofNat']
  rfl

end FixedWidth

section WeightedMean

variable {α : Type} {value weight : α → ℕ} {l : List α} {c : ℕ}

lemma mul_sum_le (h : ∀ a ∈ l, c ≤ value a) :
    c * (l.map weight).sum ≤ (l.map fun a => value a * weight a).sum := by
  rw [← List.sum_map_mul_left]
  exact List.sum_le_sum fun a ha => Nat.mul_le_mul_right _ (h a ha)

lemma sum_le_mul (h : ∀ a ∈ l, value a ≤ c) :
    (l.map fun a => value a * weight a).sum ≤ c * (l.map weight).sum := by
  rw [← List.sum_map_mul_left]
  exact List.sum_le_sum fun a ha => Nat.mul_le_mul_right _ (h a ha)

lemma floor_mean_between (hpos : 0 < (l.map weight).sum) :
    (∃ a ∈ l, value a ≤ (l.map fun a => value a * weight a).sum / (l.map weight).sum) ∧
      ∃ a ∈ l, (l.map fun a => value a * weight a).sum / (l.map weight).sum ≤ value a := by
  set mean := (l.map fun a => value a * weight a).sum / (l.map weight).sum with hmean
  constructor
  · by_contra! hall
    have hsum := (Nat.le_div_iff_mul_le hpos).mpr (mul_sum_le hall)
    omega
  · by_contra! hall
    have hle : ∀ a ∈ l, value a ≤ mean - 1 := fun a ha => Nat.le_sub_one_of_lt (hall a ha)
    have hsum : mean ≤ mean - 1 := by
      apply Nat.le_of_mul_le_mul_right _ hpos
      exact (Nat.div_mul_le_self _ _).trans (sum_le_mul hle)
    obtain ⟨a, ha⟩ : ∃ a, a ∈ l := by
      apply List.exists_mem_of_ne_nil
      rintro rfl
      exact lt_irrefl 0 hpos
    have hlt := hall a ha
    omega

end WeightedMean

end Rblib.Library
