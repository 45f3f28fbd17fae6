import Rblib.Platform.Bundle

namespace Rblib.Platform.FlashbotsBundle

open Payload PlatformTypes

variable {P : Type} [PlatformTypes P] (bundle : FlashbotsBundle P)

def lastTimestamp : ℕ := (bundle.inner.maxTimestamp.map UInt64.toNat).getD (2 ^ 64 - 1)

def lastNumber : ℕ := if bundle.inner.blockNumber = 0 then 2 ^ 64 - 1 else bundle.inner.blockNumber.toNat

def firstTimestamp : ℕ := (bundle.inner.minTimestamp.map UInt64.toNat).getD 0

def EligibleAfter (timestamp number : UInt64) : Prop :=
  ∃ t n : UInt64, timestamp < t ∧ number < n ∧ bundle.eligibilityAt t.toNat n.toNat = .eligible

/-- The window of the bundle is not over at the header, but closed to every block after it. -/
structure Missed (timestamp number : UInt64) : Prop where
  nonempty : bundle.transactions ≠ []
  moment : timestamp.toNat ≤ bundle.lastTimestamp
  height : number.toNat ≤ bundle.lastNumber
  closed : timestamp.toNat = bundle.lastTimestamp ∨ number.toNat = bundle.lastNumber ∨
    bundle.lastTimestamp < bundle.firstTimestamp

variable {bundle}

lemma eligibilityAt_eq (t n : UInt64) : bundle.eligibilityAt t.toNat n.toNat =
    if bundle.transactions = [] ∨ bundle.lastTimestamp < t.toNat ∨ bundle.lastNumber < n.toNat then
      .permanentlyIneligible
    else if t.toNat < bundle.firstTimestamp ∨ bundle.inner.blockNumber ≠ 0 ∧ n.toNat < bundle.lastNumber then
      .temporarilyIneligible
    else .eligible := by
  have ht := t.toNat_lt
  have hn := n.toNat_lt
  have hmax : bundle.inner.maxTimestamp.any (·.toNat < t.toNat) = true ↔ bundle.lastTimestamp < t.toNat := by
    rw [lastTimestamp]
    cases bundle.inner.maxTimestamp with
    | none =>
      simp only [Option.any_none, Option.map_none, Option.getD_none, Bool.false_eq_true, false_iff]
      omega
    | some m => simp
  have hmin : bundle.inner.minTimestamp.any (·.toNat > t.toNat) = true ↔ t.toNat < bundle.firstTimestamp := by
    rw [firstTimestamp]
    cases bundle.inner.minTimestamp with
    | none => simp
    | some m => simp
  have hlast : bundle.inner.blockNumber ≠ 0 → bundle.lastNumber = bundle.inner.blockNumber.toNat :=
    fun h => if_neg h
  have hpassed : bundle.inner.blockNumber ≠ 0 ∧ bundle.inner.blockNumber.toNat < n.toNat ↔
      bundle.lastNumber < n.toNat := by
    by_cases hzero : bundle.inner.blockNumber = 0
    · rw [lastNumber, if_pos hzero]
      exact ⟨fun h => absurd hzero h.1, fun h => by omega⟩
    · rw [hlast hzero]
      exact and_iff_right hzero
  have hahead : bundle.inner.blockNumber ≠ 0 ∧ bundle.inner.blockNumber.toNat > n.toNat ↔
      bundle.inner.blockNumber ≠ 0 ∧ n.toNat < bundle.lastNumber :=
    and_congr_right fun h => by rw [hlast h]
  simp only [eligibilityAt, List.isEmpty_iff, hmax, hmin, hpassed, hahead]
  by_cases hlate : bundle.transactions = [] ∨ bundle.lastTimestamp < t.toNat ∨ bundle.lastNumber < n.toNat
  · rw [if_pos hlate]
    obtain h | h | h := hlate
    · exact if_pos h
    · rw [if_pos h, ite_self]
    · rw [if_pos h, ite_self, ite_self]
  · rw [if_neg hlate]
    push Not at hlate
    rw [if_neg hlate.1, if_neg hlate.2.1.not_gt, if_neg hlate.2.2.not_gt, ite_or]

lemma permanentlyIneligible_iff (t n : UInt64) : bundle.eligibilityAt t.toNat n.toNat = .permanentlyIneligible ↔
    bundle.transactions = [] ∨ bundle.lastTimestamp < t.toNat ∨ bundle.lastNumber < n.toNat := by
  rw [eligibilityAt_eq]
  split_ifs with h h'
  · exact iff_of_true rfl h
  · exact iff_of_false nofun h
  · exact iff_of_false nofun h

lemma eligible_iff (t n : UInt64) : bundle.eligibilityAt t.toNat n.toNat = .eligible ↔
    (bundle.transactions ≠ [] ∧ t.toNat ≤ bundle.lastTimestamp ∧ n.toNat ≤ bundle.lastNumber) ∧
      bundle.firstTimestamp ≤ t.toNat ∧ (bundle.inner.blockNumber ≠ 0 → bundle.lastNumber ≤ n.toNat) := by
  rw [eligibilityAt_eq]
  split_ifs with h h'
  · refine iff_of_false nofun fun hwindow => ?_
    obtain hnil | hlate | hpassed := h
    · exact hwindow.1.1 hnil
    · omega
    · omega
  · refine iff_of_false nofun fun hwindow => ?_
    obtain hearly | ⟨hset, hahead⟩ := h'
    · omega
    · have hreached := hwindow.2.2 hset
      omega
  · push Not at h h'
    exact iff_of_true rfl ⟨h, h'⟩

lemma lastTimestamp_lt : bundle.lastTimestamp < 2 ^ 64 := by
  rw [lastTimestamp]
  cases bundle.inner.maxTimestamp with
  | none => exact Nat.sub_one_lt (by positivity)
  | some m => exact m.toNat_lt

lemma lastNumber_lt : bundle.lastNumber < 2 ^ 64 := by
  rw [lastNumber]
  split_ifs
  · exact Nat.sub_one_lt (by positivity)
  · exact bundle.inner.blockNumber.toNat_lt

lemma eligibleAfter_iff (timestamp number : UInt64) : bundle.EligibleAfter timestamp number ↔
    bundle.transactions ≠ [] ∧ timestamp.toNat < bundle.lastTimestamp ∧ number.toNat < bundle.lastNumber ∧
      bundle.firstTimestamp ≤ bundle.lastTimestamp := by
  constructor
  · rintro ⟨t, n, ht, hn, h⟩
    obtain ⟨⟨hne, htmax, hnmax⟩, htmin, -⟩ := (eligible_iff t n).mp h
    exact ⟨hne, (UInt64.lt_iff_toNat_lt.mp ht).trans_le htmax, (UInt64.lt_iff_toNat_lt.mp hn).trans_le hnmax,
      htmin.trans htmax⟩
  · rintro ⟨hne, ht, hn, hle⟩
    have hlastT := UInt64.toNat_ofNat_of_lt' (bundle.lastTimestamp_lt)
    have hlastN := UInt64.toNat_ofNat_of_lt' (bundle.lastNumber_lt)
    refine ⟨.ofNat bundle.lastTimestamp, .ofNat bundle.lastNumber, ?_, ?_, (eligible_iff _ _).mpr ?_⟩
    · rwa [UInt64.lt_iff_toNat_lt, hlastT]
    · rwa [UInt64.lt_iff_toNat_lt, hlastN]
    · rw [hlastT, hlastN]
      exact ⟨⟨hne, le_rfl, le_rfl⟩, hle, fun _ => le_rfl⟩

lemma isPermanentlyIneligible_iff (timestamp number : UInt64) :
    bundle.isPermanentlyIneligible ⟨number.toNat, timestamp.toNat⟩ = true ↔
      bundle.transactions = [] ∨ bundle.lastTimestamp < timestamp.toNat ∨ bundle.lastNumber < number.toNat := by
  rw [isPermanentlyIneligible, decide_eq_true_iff, permanentlyIneligible_iff]

lemma not_eligibleAfter_of_ineligible {timestamp number : UInt64}
    (h : bundle.isPermanentlyIneligible ⟨number.toNat, timestamp.toNat⟩ = true) :
    ¬ bundle.EligibleAfter timestamp number := by
  rw [eligibleAfter_iff]
  rintro ⟨hne, ht, hn, -⟩
  obtain hnil | hlate | hpassed := (isPermanentlyIneligible_iff timestamp number).mp h
  · exact hne hnil
  · exact hlate.not_gt ht
  · exact hpassed.not_gt hn

lemma permanentlyIneligible_later {timestamp number t n : UInt64}
    (h : bundle.eligibilityAt timestamp.toNat number.toNat = .permanentlyIneligible) (ht : timestamp ≤ t)
    (hn : number ≤ n) : bundle.eligibilityAt t.toNat n.toNat = .permanentlyIneligible := by
  rw [permanentlyIneligible_iff] at h ⊢
  obtain hnil | hlate | hpassed := h
  · exact .inl hnil
  · exact .inr (.inl (hlate.trans_le (UInt64.le_iff_toNat_le.mp ht)))
  · exact .inr (.inr (hpassed.trans_le (UInt64.le_iff_toNat_le.mp hn)))

lemma missed_iff (timestamp number : UInt64) : bundle.Missed timestamp number ↔
    ¬ bundle.EligibleAfter timestamp number ∧
      ¬ bundle.isPermanentlyIneligible ⟨number.toNat, timestamp.toNat⟩ = true := by
  rw [eligibleAfter_iff, isPermanentlyIneligible_iff]
  constructor
  · rintro ⟨hne, ht, hn, hclosed⟩
    refine ⟨?_, ?_⟩
    · rintro ⟨-, ht', hn', hle⟩
      obtain hts | hnum | hgap := hclosed
      · exact ht'.ne hts
      · exact hn'.ne hnum
      · exact hgap.not_ge hle
    · rintro (hnil | hlate | hpassed)
      · exact hne hnil
      · exact hlate.not_ge ht
      · exact hpassed.not_ge hn
  · rintro ⟨hafter, hwithin⟩
    push Not at hwithin
    obtain ⟨hne, ht, hn⟩ := hwithin
    refine ⟨hne, ht, hn, ?_⟩
    by_contra hopen
    push Not at hopen
    exact hafter ⟨hne, lt_of_le_of_ne ht hopen.1, lt_of_le_of_ne hn hopen.2.1, hopen.2.2⟩

/-- The verdict on a header is never too harsh and stays; it is as strict as it could be outside the gap. -/
theorem isPermanentlyIneligible_exact_iff (bundle : FlashbotsBundle P) (timestamp number : UInt64) :
    ((bundle.isPermanentlyIneligible ⟨number.toNat, timestamp.toNat⟩ = true ↔
        ¬ bundle.EligibleAfter timestamp number) ↔ ¬ bundle.Missed timestamp number) ∧
      (bundle.isPermanentlyIneligible ⟨number.toNat, timestamp.toNat⟩ = true →
        ¬ bundle.EligibleAfter timestamp number) ∧
      (bundle.eligibilityAt timestamp.toNat number.toNat = .permanentlyIneligible → ∀ t n : UInt64,
        timestamp ≤ t → number ≤ n → bundle.eligibilityAt t.toNat n.toNat = .permanentlyIneligible) := by
  refine ⟨?_, not_eligibleAfter_of_ineligible, fun h t n => permanentlyIneligible_later h⟩
  rw [missed_iff, not_and, not_not]
  exact ⟨fun hexact => hexact.mpr, fun hstrict => ⟨not_eligibleAfter_of_ineligible, hstrict⟩⟩

def forSeven : FlashbotsBundle Devnet := (default.withTransaction (⟨11, 7, 0⟩ : PlainTx)).withBlockNumber 7

theorem forSeven_kept : forSeven.isPermanentlyIneligible ⟨7, 0⟩ = false ∧ ¬ forSeven.EligibleAfter 0 7 := by
  refine ⟨by decide +kernel, fun h => ?_⟩
  exact absurd ((eligibleAfter_iff 0 7).mp h).2.2.1 (by decide +kernel)

end Rblib.Platform.FlashbotsBundle
