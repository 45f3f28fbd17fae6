import Rblib.Platform.Bundle

/-! Execution of transactions and bundles, `payload/exec.rs`. The EVM is a parameter of the block:
it runs a transaction on a database overlaid with the state changes committed before it, and
aggregates committed changes into the bundle state that a checkpoint records. -/

namespace Rblib.Payload

open Platform PlatformTypes

variable {P : Type} [PlatformTypes P]

structure Evm (P : Type) [PlatformTypes P] where
  transact : DatabaseRef → List (EvmState P) → Transaction P → Bytes →
    Except (EvmError P) (TransactionExecutionResult P × EvmState P)
  takeBundle : DatabaseRef → List (EvmState P) → BundleState

structure BlockContext (P : Type) [PlatformTypes P] where
  number : ℕ
  timestamp : ℕ
  baseState : StateProvider
  evm : Evm P

inductive ExecutionError (P : Type) [PlatformTypes P]
  | invalidSignature
  | invalidTransaction (error : EvmError P)
  | invalidBundleTransaction (tx : B256) (error : EvmError P)
  | bundleTransactionReverted (tx : B256) (reason : Option (HaltReason P))
  | ineligibleBundle (eligibility : Eligibility)

inductive Executable (P : Type) [PlatformTypes P]
  | transaction (tx : Transaction P)
  | bundle (bundle : FlashbotsBundle P)

structure ExecutionResult (P : Type) [PlatformTypes P] where
  source : Executable P
  results : List (TransactionExecutionResult P)
  state : BundleState

def ExecutionResult.gasUsed (r : ExecutionResult P) : ℕ := (r.results.map PlatformTypes.gasUsed).sum

namespace Executable

def transactions : Executable P → List (Transaction P)
  | transaction tx => [tx]
  | bundle b => b.transactions

def hash : Executable P → B256
  | transaction tx => txHash tx
  | bundle b => b.hash

def executeTransaction (tx : Transaction P) (block : BlockContext P) (db : DatabaseRef) :
    Except (EvmError P) (ExecutionResult P) := do
  let (result, state) ← block.evm.transact db [] tx (encoded2718 tx)
  return ⟨.transaction tx, [result], block.evm.takeBundle db [state]⟩

structure Progress (P : Type) [PlatformTypes P] where
  commits : List (EvmState P) := []
  results : List (TransactionExecutionResult P) := []
  discarded : List B256 := []

def executeBundleTransaction (bundle : FlashbotsBundle P) (block : BlockContext P) (db : DatabaseRef)
    (acc : Progress P) (transaction : Transaction P × Bytes) :
    Except (ExecutionError P) (Progress P) :=
  let hash := txHash transaction.1
  let optional := bundle.isOptional hash
  let allowedToFail := bundle.isAllowedToFail hash
  match block.evm.transact db acc.commits transaction.1 transaction.2 with
  | .ok (result, state) =>
    if isSuccess result || allowedToFail then
      .ok { acc with commits := acc.commits ++ [state], results := acc.results ++ [result] }
    else if optional then .ok { acc with discarded := acc.discarded ++ [hash] }
    else .error (.bundleTransactionReverted hash (haltReason result))
  | .error error =>
    if optional then .ok { acc with discarded := acc.discarded ++ [hash] }
    else .error (.invalidBundleTransaction hash error)

def executeBundle (bundle : FlashbotsBundle P) (block : BlockContext P) (db : DatabaseRef) :
    Except (ExecutionError P) (ExecutionResult P) :=
  let eligibility := bundle.eligibilityAt block.timestamp block.number
  if eligibility ≠ .eligible then .error (.ineligibleBundle eligibility)
  else do
    let acc ← bundle.transactionsEncoded.foldlM (executeBundleTransaction bundle block db) {}
    let bundle := acc.discarded.foldl FlashbotsBundle.withoutTransaction bundle
    return ⟨.bundle bundle, acc.results, block.evm.takeBundle db acc.commits⟩

def execute (executable : Executable P) (block : BlockContext P) (db : DatabaseRef) :
    Except (ExecutionError P) (ExecutionResult P) :=
  match executable with
  | bundle b => executeBundle b block db
  | transaction tx => (executeTransaction tx block db).mapError .invalidTransaction

end Executable

namespace Devnet

def nonceAt (db : DatabaseRef) (commits : List (Address × ℕ)) (a : Address) : ℕ :=
  match commits.reverse.find? (fun c => c.1 = a) with
  | some c => c.2
  | none => match db.basicRef a with
    | .ok (some info) => info.nonce
    | _ => 0

def evm : Evm Devnet where
  transact db commits tx _ :=
    if PlainTx.nonce tx = nonceAt db commits (PlainTx.signer tx) then
      .ok (true, (PlainTx.signer tx, PlainTx.nonce tx + 1))
    else .error "nonce mismatch"
  takeBundle db commits :=
    { state := fun a =>
        if List.any commits (fun (c : Address × ℕ) => c.1 = a) then
          some ⟨some ⟨0, nonceAt db commits a, 0, none⟩, none, fun _ => none, .changed⟩
        else none
      contracts := fun _ => none }

def block : BlockContext Devnet where
  number := 1
  timestamp := 12
  baseState :=
    { basicAccount := fun _ => .ok none
      storage := fun _ _ => .ok none
      bytecodeByHash := fun _ => .ok none
      blockHash := fun _ => .ok none }
  evm := evm

end Devnet

end Rblib.Payload
