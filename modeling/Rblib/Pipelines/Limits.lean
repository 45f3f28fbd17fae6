import Rblib.Platform.Limits

/-! The limits factories of `pipelines/limits.rs`. -/

namespace Rblib.Pipelines

open Platform

variable {Ck ε : Type}

abbrev ScopedLimits (Ck ε : Type) := Ck → Limits ε → Limits ε

def fixedLimits (limits : Limits ε) : ScopedLimits Ck ε := fun _ _ => limits

inductive ScaleOp
  | fraction (numerator : ℕ) (denominator : ℕ+)
  | minus (amount : ℕ)
  | fixed (amount : ℕ)
  | zero

namespace ScaleOp

def u64Max : ℕ := 2 ^ 64 - 1

def durationMax : ℕ := u64Max * 1000000000 + 999999999

def saturatingMul (bound a b : ℕ) : ℕ := min (a * b) bound

def applyU64 (op : ScaleOp) (value : ℕ) : ℕ :=
  match op with
  | fraction numerator denominator => saturatingMul u64Max value numerator / denominator
  | minus amount => value - amount
  | fixed amount => amount
  | zero => 0

def applyUsize (op : ScaleOp) (value : Option ℕ) : Option ℕ :=
  match op, value with
  | fraction numerator denominator, some value =>
    some (saturatingMul u64Max value numerator / denominator)
  | minus amount, some value => some (value - amount)
  | fixed amount, some _ => some amount
  | zero, _ => some 0
  | _, none => none

def applyDuration (op : ScaleOp) (value : Option ℕ) : Option ℕ :=
  match op, value with
  | fraction numerator denominator, some value =>
    some (saturatingMul durationMax value numerator / denominator)
  | minus amount, some value => some (value - amount)
  | fixed amount, _ => some amount
  | zero, _ => some 0
  | _, none => none

end ScaleOp

structure Scaled where
  gas : Option ScaleOp := none
  maxTxs : Option ScaleOp := none
  maxBlobCount : Option ScaleOp := none
  maxBlobsPerTx : Option ScaleOp := none
  deadline : Option ScaleOp := none

def Scaled.from (scaled : Scaled) (limits : Limits ε) : Limits ε where
  gasLimit := match scaled.gas with
    | some op => op.applyU64 limits.gasLimit
    | none => limits.gasLimit
  blobParams := limits.blobParams.map fun params =>
    { params with
      maxBlobCount := match scaled.maxBlobCount with
        | some op => op.applyU64 params.maxBlobCount
        | none => params.maxBlobCount
      maxBlobsPerTx := match scaled.maxBlobsPerTx with
        | some op => op.applyU64 params.maxBlobsPerTx
        | none => params.maxBlobsPerTx }
  maxTransactions := match scaled.maxTxs with
    | some op => op.applyUsize limits.maxTransactions
    | none => limits.maxTransactions
  deadline := match scaled.deadline with
    | some op => op.applyDuration limits.deadline
    | none => limits.deadline
  ext := limits.ext

def Scaled.create (scaled : Scaled) : ScopedLimits Ck ε := fun _ enclosing => scaled.from enclosing

end Rblib.Pipelines
