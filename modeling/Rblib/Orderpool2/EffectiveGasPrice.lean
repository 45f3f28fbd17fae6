import Rblib.Library.FixedWidth
import Rblib.Orderpool2.Step
import Rblib.Platform.BundleExt

/-! The priority of `EffectiveGasPriceOrdering`, `prioritized_pool/step.rs`: the fees of a bundle
weighted with gas limits, in 128-bit arithmetic. -/

namespace Rblib.Orderpool2

open Payload Platform PlatformTypes Library

variable {P : Type} [PlatformTypes P]

class FeeMarket (P : Type) [PlatformTypes P] where
  maxFeePerGas : Transaction P → BitVec 128
  gasLimit : Transaction P → UInt64

open FeeMarket

structure EffectiveGasPriceOrdering where
  effectiveGasPrice : BitVec 128
  deriving DecidableEq

namespace EffectiveGasPriceOrdering

variable [FeeMarket P]

structure Totals where
  totalGasLimit : BitVec 128 := 0
  accumulatedWeightedFee : BitVec 128 := 0

def weigh (checks : OverflowChecks) (order : BundleWithNonces P) (totals : Totals) (tx : Transaction P) :
    Except Overflow Totals :=
  if order.bundle.isOptional (txHash tx) then .ok totals
  else do
    let gasLimit := BitVec.ofNat 128 (gasLimit tx).toNat
    let weightedFee ← FixedWidth.mul checks (maxFeePerGas tx) gasLimit
    let accumulatedWeightedFee ← FixedWidth.add checks totals.accumulatedWeightedFee weightedFee
    let totalGasLimit ← FixedWidth.add checks totals.totalGasLimit gasLimit
    return ⟨totalGasLimit, accumulatedWeightedFee⟩

def Totals.price (totals : Totals) : BitVec 128 :=
  if totals.totalGasLimit ≠ 0 then totals.accumulatedWeightedFee / totals.totalGasLimit else 0

def new (checks : OverflowChecks) (order : BundleWithNonces P) : Except Overflow EffectiveGasPriceOrdering := do
  let totals ← order.bundle.transactions.foldlM (weigh checks order) {}
  return ⟨totals.price⟩

def fee (tx : Transaction P) : ℕ := (maxFeePerGas tx).toNat

def gas (tx : Transaction P) : ℕ := (gasLimit tx).toNat

def totalGas (txs : List (Transaction P)) : ℕ := (txs.map gas).sum

def weightedFees (txs : List (Transaction P)) : ℕ := (txs.map fun tx => fee tx * gas tx).sum

structure MeanFee (bundle : FlashbotsBundle P) (priority : EffectiveGasPriceOrdering) : Prop where
  floor : priority.effectiveGasPrice.toNat = weightedFees bundle.requiredTxs / totalGas bundle.requiredTxs
  smallest : bundle.requiredTxs ≠ [] → ∃ tx ∈ bundle.requiredTxs, fee tx ≤ priority.effectiveGasPrice.toNat
  largest : bundle.requiredTxs ≠ [] → ∃ tx ∈ bundle.requiredTxs, priority.effectiveGasPrice.toNat ≤ fee tx

lemma toNat_gas (tx : Transaction P) : (BitVec.ofNat 128 (gasLimit tx).toNat).toNat = gas tx := by
  rw [BitVec.toNat_ofNat]
  exact Nat.mod_eq_of_lt ((gasLimit tx).toNat_lt.trans (by norm_num))

lemma weigh_required {checks : OverflowChecks} {order : BundleWithNonces P} {tx : Transaction P}
    {totals next : Totals} (h : order.bundle.isOptional (txHash tx) = false) :
    weigh checks order totals tx = .ok next ↔ ∃ weightedFee accumulated total : BitVec 128,
      FixedWidth.fit checks 128 (fee tx * gas tx) = .ok weightedFee ∧
      FixedWidth.fit checks 128 (totals.accumulatedWeightedFee.toNat + weightedFee.toNat) = .ok accumulated ∧
      FixedWidth.fit checks 128 (totals.totalGasLimit.toNat + gas tx) = .ok total ∧
        next = ⟨total, accumulated⟩ := by
  rw [weigh, if_neg (by simp [h])]
  simp only [bind_eq_ok, FixedWidth.mul, FixedWidth.add, toNat_gas, pure, Except.pure, Except.ok.injEq,
    exists_and_left, eq_comm (b := next), fee]

lemma weigh_fits (checks : OverflowChecks) (order : BundleWithNonces P) (txs : List (Transaction P))
    (totals : Totals) (hfees : totals.accumulatedWeightedFee.toNat +
      weightedFees (txs.filter fun tx => !order.bundle.isOptional (txHash tx)) < 2 ^ 128)
    (hgas : totals.totalGasLimit.toNat +
      totalGas (txs.filter fun tx => !order.bundle.isOptional (txHash tx)) < 2 ^ 128) :
    ∃ next, txs.foldlM (weigh checks order) totals = .ok next ∧
      next.accumulatedWeightedFee.toNat = totals.accumulatedWeightedFee.toNat +
        weightedFees (txs.filter fun tx => !order.bundle.isOptional (txHash tx)) ∧
      next.totalGasLimit.toNat = totals.totalGasLimit.toNat +
        totalGas (txs.filter fun tx => !order.bundle.isOptional (txHash tx)) := by
  induction txs generalizing totals with
  | nil => exact ⟨totals, rfl, rfl, rfl⟩
  | cons tx txs ih =>
    cases h : order.bundle.isOptional (txHash tx) with
    | true =>
      have hskip : weigh checks order totals tx = .ok totals := if_pos h
      rw [List.filter_cons_of_neg (by simp [h])] at hfees hgas ⊢
      obtain ⟨next, hrun, hnext⟩ := ih totals hfees hgas
      exact ⟨next, foldlM_cons_eq_ok.mpr ⟨totals, hskip, hrun⟩, hnext⟩
    | false =>
      rw [List.filter_cons_of_pos (by simp [h])] at hfees hgas ⊢
      simp only [weightedFees, totalGas, List.map_cons, List.sum_cons, ← add_assoc] at hfees hgas ⊢
      obtain ⟨weightedFee, hmul, hw⟩ := FixedWidth.fit_of_lt (w := 128) checks (n := fee tx * gas tx) (by omega)
      obtain ⟨accumulated, hadd, ha⟩ := FixedWidth.fit_of_lt (w := 128) checks
        (n := totals.accumulatedWeightedFee.toNat + weightedFee.toNat) (by omega)
      obtain ⟨total, htotal, ht⟩ := FixedWidth.fit_of_lt (w := 128) checks
        (n := totals.totalGasLimit.toNat + gas tx) (by omega)
      have hstep := (weigh_required h).mpr ⟨weightedFee, accumulated, total, hmul, hadd, htotal, rfl⟩
      obtain ⟨next, hrun, hfee', hgas'⟩ := ih ⟨total, accumulated⟩ (by simp only [ha, hw]; exact hfees)
        (by simp only [ht]; exact hgas)
      refine ⟨next, foldlM_cons_eq_ok.mpr ⟨_, hstep, hrun⟩, ?_, ?_⟩
      · rw [hfee', ha, hw, weightedFees]
      · rw [hgas', ht, totalGas]

lemma fits_of_weigh (order : BundleWithNonces P) (txs : List (Transaction P)) {totals next : Totals}
    (h : txs.foldlM (weigh .on order) totals = .ok next) :
    next.accumulatedWeightedFee.toNat = totals.accumulatedWeightedFee.toNat +
        weightedFees (txs.filter fun tx => !order.bundle.isOptional (txHash tx)) ∧
      next.totalGasLimit.toNat = totals.totalGasLimit.toNat +
        totalGas (txs.filter fun tx => !order.bundle.isOptional (txHash tx)) := by
  induction txs generalizing totals with
  | nil =>
    obtain rfl := Except.ok.inj h
    exact ⟨rfl, rfl⟩
  | cons tx txs ih =>
    obtain ⟨step, hstep, hrun⟩ := foldlM_cons_eq_ok.mp h
    obtain ⟨hfees, hgas⟩ := ih hrun
    cases hopt : order.bundle.isOptional (txHash tx) with
    | true =>
      obtain rfl : totals = step := Except.ok.inj ((if_pos hopt).symm.trans hstep)
      rw [List.filter_cons_of_neg (by simp [hopt])]
      exact ⟨hfees, hgas⟩
    | false =>
      obtain ⟨weightedFee, accumulated, total, hmul, hadd, htotal, rfl⟩ := (weigh_required hopt).mp hstep
      rw [List.filter_cons_of_pos (by simp [hopt])]
      simp only [weightedFees, totalGas, List.map_cons, List.sum_cons] at hfees hgas ⊢
      have hw := (FixedWidth.fit_on hmul).2
      have ha := (FixedWidth.fit_on hadd).2
      have ht := (FixedWidth.fit_on htotal).2
      exact ⟨by omega, by omega⟩

lemma new_ok {checks : OverflowChecks} {order : BundleWithNonces P} {priority : EffectiveGasPriceOrdering} :
    new checks order = .ok priority ↔
      ∃ totals, order.bundle.transactions.foldlM (weigh checks order) {} = .ok totals ∧
        ⟨totals.price⟩ = priority := by
  rw [new, bind_eq_ok]
  simp only [pure, Except.pure, Except.ok.injEq]

omit [PlatformTypes P] [FeeMarket P] in
lemma toNat_price (totals : Totals) :
    totals.price.toNat = totals.accumulatedWeightedFee.toNat / totals.totalGasLimit.toNat := by
  rw [Totals.price]
  split
  · exact BitVec.toNat_udiv
  · next hzero =>
    rw [not_not.mp hzero]
    exact (Nat.div_zero _).symm

/-- The priority is the exact floor of the mean fee of the required transactions, and lies between the smallest
and the largest of their fees, in builds with and without overflow checks. -/
theorem mean_fee_iff (bundle : FlashbotsBundle P) :
    (∀ checks, ∃ priority, new checks (BundleWithNonces.new bundle) = .ok priority ∧ MeanFee bundle priority) ↔
      weightedFees bundle.requiredTxs < 2 ^ 128 ∧ totalGas bundle.requiredTxs < 2 ^ 128 ∧
        (totalGas bundle.requiredTxs = 0 → bundle.requiredTxs ≠ [] → ∃ tx ∈ bundle.requiredTxs, fee tx = 0) := by
  constructor
  · intro hall
    obtain ⟨priority, hnew, hmean⟩ := hall .on
    obtain ⟨totals, hrun, -⟩ := new_ok.mp hnew
    obtain ⟨hfees, hgas⟩ := fits_of_weigh _ _ hrun
    refine ⟨?_, ?_, fun hzero hne => ?_⟩
    · exact (hfees.trans (Nat.zero_add _)) ▸ totals.accumulatedWeightedFee.isLt
    · exact (hgas.trans (Nat.zero_add _)) ▸ totals.totalGasLimit.isLt
    · obtain ⟨tx, htx, hle⟩ := hmean.smallest hne
      rw [hmean.floor, hzero, Nat.div_zero] at hle
      exact ⟨tx, htx, Nat.le_zero.mp hle⟩
  · rintro ⟨hfees, hgas, hzero⟩ checks
    obtain ⟨totals, hrun, hf, hg⟩ := weigh_fits checks (BundleWithNonces.new bundle) bundle.transactions {}
      ((Nat.zero_add _).trans_lt hfees) ((Nat.zero_add _).trans_lt hgas)
    have hfloor : totals.price.toNat = weightedFees bundle.requiredTxs / totalGas bundle.requiredTxs := by
      rw [toNat_price, hf.trans (Nat.zero_add _), hg.trans (Nat.zero_add _)]
      rfl
    refine ⟨⟨totals.price⟩, new_ok.mpr ⟨totals, hrun, rfl⟩, hfloor, fun hne => ?_, fun hne => ?_⟩
    · rw [hfloor]
      obtain hnone | hpos := Nat.eq_zero_or_pos (totalGas bundle.requiredTxs)
      · obtain ⟨tx, htx, hfee⟩ := hzero hnone hne
        exact ⟨tx, htx, hfee.trans_le (Nat.zero_le _)⟩
      · exact (floor_mean_between hpos).1
    · rw [hfloor]
      obtain hnone | hpos := Nat.eq_zero_or_pos (totalGas bundle.requiredTxs)
      · obtain ⟨tx, htx⟩ := List.exists_mem_of_ne_nil _ hne
        rw [hnone, Nat.div_zero]
        exact ⟨tx, htx, Nat.zero_le _⟩
      · exact (floor_mean_between hpos).2

section Examples

instance : FeeMarket Devnet where
  maxFeePerGas tx := BitVec.ofNat 128 (PlainTx.hash tx).val
  gasLimit _ := 21000

def dearTx : PlainTx := ⟨2 ^ 127, 7, 0⟩

def dearBundle : FlashbotsBundle Devnet := FlashbotsBundle.default.withTransaction dearTx

theorem dearBundle_overflows :
    weightedFees dearBundle.requiredTxs / totalGas dearBundle.requiredTxs = 2 ^ 127 ∧
    new .on (BundleWithNonces.new dearBundle) = .error .attempted ∧
    new .off (BundleWithNonces.new dearBundle) = .ok ⟨0⟩ ∧
    ¬ ∀ checks, ∃ priority, new checks (BundleWithNonces.new dearBundle) = .ok priority ∧
      MeanFee dearBundle priority := by
  have hpanic : new .on (BundleWithNonces.new dearBundle) = .error .attempted := by decide +kernel
  refine ⟨by decide +kernel, hpanic, by decide +kernel, fun hall => ?_⟩
  obtain ⟨priority, hnew, -⟩ := hall .on
  cases hpanic.symm.trans hnew

end Examples

end EffectiveGasPriceOrdering

end Rblib.Orderpool2
