import Rblib.Library.Fallible
import Rblib.Payload.Exec

/-! Checkpoints, `payload/checkpoint.rs`. A checkpoint is a chain that ends at a block context; `id`
is the identity of the shared allocation and `createdAt` a clock reading. The checkpoint context,
which no function here reads, is left out. -/

namespace Rblib.Payload

open Platform PlatformTypes

inductive Mutation (P : Type) [PlatformTypes P]
  | barrier
  | executable (result : ExecutionResult P)

structure CheckpointData (P : Type) [PlatformTypes P] where
  id : ℕ
  depth : ℕ
  mutation : Mutation P
  createdAt : ℕ

inductive Checkpoint (P : Type) [PlatformTypes P]
  | base (block : BlockContext P) (data : CheckpointData P)
  | next (prev : Checkpoint P) (data : CheckpointData P)

variable {P : Type} [PlatformTypes P]

namespace Checkpoint

def data : Checkpoint P → CheckpointData P
  | base _ d => d
  | next _ d => d

def depth (c : Checkpoint P) : ℕ := c.data.depth

def prev : Checkpoint P → Option (Checkpoint P)
  | base _ _ => none
  | next p _ => some p

def block : Checkpoint P → BlockContext P
  | base b _ => b
  | next p _ => p.block

def result (c : Checkpoint P) : Option (ExecutionResult P) :=
  match c.data.mutation with
  | .barrier => none
  | .executable result => some result

def transactions (c : Checkpoint P) : List (Transaction P) :=
  match c.data.mutation with
  | .barrier => []
  | .executable result => result.source.transactions

def state (c : Checkpoint P) : Option BundleState := c.result.map ExecutionResult.state

def isBarrier (c : Checkpoint P) : Bool := c.result.isNone

def asTransaction (c : Checkpoint P) : Option (Transaction P) :=
  match c.result.map ExecutionResult.source with
  | some (.transaction tx) => some tx
  | _ => none

def asBundle (c : Checkpoint P) : Option (FlashbotsBundle P) :=
  match c.result.map ExecutionResult.source with
  | some (.bundle bundle) => some bundle
  | _ => none

def iter : Checkpoint P → List (Checkpoint P)
  | base b d => [base b d]
  | next p d => next p d :: p.iter

def history (c : Checkpoint P) : List (Checkpoint P) := c.iter.reverse

lemma history_next (c : Checkpoint P) (d : CheckpointData P) :
    (next c d).history = c.history ++ [next c d] := by
  rw [history, iter, List.reverse_cons, history]

lemma history_at {k : ℕ} {c x : Checkpoint P} (h : c.history[k]? = some x) :
    x.history = c.history.take (k + 1) := by
  induction c generalizing k with
  | base b d =>
    have hk : k = 0 ∧ base b d = x := by
      cases k with
      | zero => exact ⟨rfl, by simpa [history, iter] using h⟩
      | succ k => simp [history, iter] at h
    obtain ⟨rfl, rfl⟩ := hk
    rfl
  | next p d ih =>
    rw [history_next] at h ⊢
    by_cases hk : k < p.history.length
    · rw [List.getElem?_append_left hk] at h
      rw [ih h, List.take_append_of_le_length hk]
    · rw [List.getElem?_append_right (by omega)] at h
      obtain ⟨hlen, hx⟩ := List.getElem?_eq_some_iff.mp h
      rw [List.getElem_singleton] at hx
      rw [← hx, history_next, List.take_of_length_le]
      rw [List.length_append, List.length_singleton]
      omega

def isEmpty (c : Checkpoint P) : Bool := c.depth == 0

def failedTxs (c : Checkpoint P) : List (Transaction P × TransactionExecutionResult P) :=
  match c.result with
  | none => []
  | some result => (result.source.transactions.zip result.results).filter fun e => !isSuccess e.2

def historyStaging (c : Checkpoint P) : List (Checkpoint P) :=
  let immutablePrefix := match c.history.reverse.findIdx? isBarrier with
    | some i => c.history.length - 1 - i
    | none => 0
  c.history.drop immutablePrefix

def historySealed (c : Checkpoint P) : List (Checkpoint P) :=
  let mutableStart := match c.history.reverse.findIdx? isBarrier with
    | some i => c.history.length - 1 - i + 1
    | none => 0
  c.history.take mutableStart

def gasUsed (c : Checkpoint P) : ℕ := c.result.elim 0 ExecutionResult.gasUsed

def blobGasUsed (c : Checkpoint P) : Option ℕ :=
  (c.transactions.mapM PlatformTypes.blobGasUsed).map List.sum

def cumulativeGasUsed (c : Checkpoint P) : ℕ := (c.history.map gasUsed).sum

def cumulativeBlobGasUsed (c : Checkpoint P) : ℕ := (c.history.filterMap blobGasUsed).sum

def isBundle (c : Checkpoint P) : Bool := c.asBundle.isSome

def account (c : Checkpoint P) (address : Address) : Option BundleAccount :=
  c.state.bind fun state => state.account address

def basicRef (c : Checkpoint P) (address : Address) : Except ProviderError (Option AccountInfo) :=
  match c.iter.findSome? fun checkpoint => (checkpoint.account address).bind BundleAccount.info with
  | some account => .ok (some account)
  | none => do
    match ← c.block.baseState.basicAccount address with
    | some acc => return some acc.toInfo
    | none => return none

def codeByHashRef (c : Checkpoint P) (codeHash : B256) : Except ProviderError Bytecode :=
  match c.iter.findSome? fun checkpoint => checkpoint.state.bind fun s => s.bytecode codeHash with
  | some code => .ok code
  | none => do return (← c.block.baseState.bytecodeByHash codeHash).getD []

def storageRef (c : Checkpoint P) (address : Address) (index : U256) : Except ProviderError U256 :=
  match c.iter.findSome? fun checkpoint =>
      ((checkpoint.account address).bind fun account => account.storage index).map
        StorageSlot.presentValue with
  | some value => .ok value
  | none => do return (← c.block.baseState.storage address index).getD 0

def blockHashRef (c : Checkpoint P) (number : ℕ) : Except ProviderError B256 := do
  return (← c.block.baseState.blockHash number).getD 0

def database (c : Checkpoint P) : DatabaseRef where
  basicRef := c.basicRef
  codeByHashRef := c.codeByHashRef
  storageRef := c.storageRef
  blockHashRef := c.blockHashRef

def newAtBlock (block : BlockContext P) (id now : ℕ) : Checkpoint P :=
  base block ⟨id, 0, .barrier, now⟩

def applyWith (c : Checkpoint P) (mutation : Mutation P) (id now : ℕ) : Checkpoint P :=
  next c ⟨id, c.depth + 1, mutation, now⟩

lemma transactions_applyWith (c : Checkpoint P) (mutation : Mutation P) (id now : ℕ) :
    (c.applyWith mutation id now).history.flatMap transactions =
      c.history.flatMap transactions ++ (c.applyWith mutation id now).transactions := by
  rw [applyWith, history_next, List.flatMap_append, List.flatMap_singleton]

def apply (c : Checkpoint P) (executable : Executable P) (id now : ℕ) :
    Except (ExecutionError P) (Checkpoint P) := do
  let result ← executable.execute c.block c.database
  return c.applyWith (.executable result) id now

lemma apply_eq {c c' : Checkpoint P} {executable : Executable P} {id now : ℕ}
    (h : c.apply executable id now = .ok c') :
    ∃ result, executable.execute c.block c.database = .ok result ∧
      c' = c.applyWith (.executable result) id now := by
  obtain ⟨result, hr, h⟩ := Library.bind_eq_ok.mp h
  exact ⟨result, hr, (Except.ok.inj h).symm⟩

lemma cumulativeGasUsed_applyWith (c : Checkpoint P) (result : ExecutionResult P) (id now : ℕ) :
    (c.applyWith (.executable result) id now).cumulativeGasUsed = c.cumulativeGasUsed + result.gasUsed := by
  rw [cumulativeGasUsed, applyWith, history_next, List.map_append, List.sum_append]
  rfl

def barrier (c : Checkpoint P) (id now : ℕ) : Checkpoint P := c.applyWith .barrier id now

def tryIntoExecutable (c : Checkpoint P) : Except (ExecutionError P) (Executable P) :=
  match c.asTransaction with
  | some tx => .ok (.transaction tx)
  | none => match c.asBundle with
    | some bundle => .ok (.bundle bundle)
    | none => .error .invalidSignature

def nonceOf (c : Checkpoint P) (address : Address) : Except ProviderError ℕ := do
  return ((← c.basicRef address).map AccountInfo.nonce).getD 0

def nonces (c : Checkpoint P) : List (Address × ℕ) := c.transactions.map fun tx => (signer tx, nonce tx)

def signers (c : Checkpoint P) : List Address := (c.transactions.map signer).eraseDups

def hash (c : Checkpoint P) : Option B256 :=
  match c.asTransaction with
  | some tx => some (txHash tx)
  | none => c.asBundle.map FlashbotsBundle.hash

end Checkpoint

end Rblib.Payload
