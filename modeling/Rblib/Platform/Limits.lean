import Mathlib.Tactic

/-! The payload limits of `platform/limits.rs` and their Optimism extension. Integers and durations
(in nanoseconds) are natural numbers; `min` on `Option` puts `none` first, as the derived order of
the source does. -/

namespace Rblib.Platform

structure BlobParams where
  targetBlobCount : ℕ
  maxBlobCount : ℕ
  updateFraction : ℕ
  minBlobFee : ℕ
  maxBlobsPerTx : ℕ
  blobBaseCost : ℕ
  deriving DecidableEq

class LimitExtension (ε : Type) where
  clamp : ε → ε → ε

instance : LimitExtension Unit where
  clamp _ _ := ()

structure OpLimitsExt where
  maxTxDa : Option ℕ
  maxBlockDa : Option ℕ
  maxBlockDaFootprint : Option ℕ
  deriving DecidableEq

instance : LimitExtension OpLimitsExt where
  clamp self other :=
    { maxTxDa := min self.maxTxDa other.maxTxDa
      maxBlockDa := min self.maxBlockDa other.maxBlockDa
      maxBlockDaFootprint := min self.maxBlockDaFootprint other.maxBlockDaFootprint }

structure Limits (ε : Type) where
  gasLimit : ℕ
  blobParams : Option BlobParams
  maxTransactions : Option ℕ
  deadline : Option ℕ
  ext : ε
  deriving DecidableEq

def BlobParams.clamp (self other : BlobParams) : BlobParams where
  targetBlobCount := min self.targetBlobCount other.targetBlobCount
  maxBlobCount := min self.maxBlobCount other.maxBlobCount
  updateFraction := min self.updateFraction other.updateFraction
  minBlobFee := min self.minBlobFee other.minBlobFee
  maxBlobsPerTx := min self.maxBlobsPerTx other.maxBlobsPerTx
  blobBaseCost := min self.blobBaseCost other.blobBaseCost

namespace Limits

variable {ε : Type} [LimitExtension ε]

def clamp (self other : Limits ε) : Limits ε where
  gasLimit := min self.gasLimit other.gasLimit
  blobParams := match self.blobParams, other.blobParams with
    | some selfParams, some otherParams => some (selfParams.clamp otherParams)
    | _, _ => self.blobParams.or other.blobParams
  maxTransactions := min self.maxTransactions other.maxTransactions
  deadline := min self.deadline other.deadline
  ext := LimitExtension.clamp self.ext other.ext

end Limits

class LawfulExtension (ε : Type) [LimitExtension ε] : Prop where
  clamp_self : ∀ e : ε, LimitExtension.clamp e e = e

instance : LawfulExtension Unit where
  clamp_self _ := rfl

lemma optionMin_self (x : Option ℕ) : min x x = x := by
  cases x with
  | none => rfl
  | some n => simp

instance : LawfulExtension OpLimitsExt where
  clamp_self e := by simp only [LimitExtension.clamp, optionMin_self]

lemma BlobParams.clamp_self (p : BlobParams) : p.clamp p = p := by
  simp [BlobParams.clamp]

theorem Limits.clamp_self {ε : Type} [LimitExtension ε] [LawfulExtension ε] (l : Limits ε) :
    l.clamp l = l := by
  have hb : (match l.blobParams, l.blobParams with
      | some selfParams, some otherParams => some (selfParams.clamp otherParams)
      | _, _ => l.blobParams.or l.blobParams) = l.blobParams := by
    cases l.blobParams with
    | none => rfl
    | some p => simp [BlobParams.clamp_self]
  simp only [Limits.clamp, hb, min_self, optionMin_self, LawfulExtension.clamp_self]

end Rblib.Platform
