import Rblib.Payload.State

/-! The transactions of a platform and the bundles of `platform/bundle/flashbots.rs`. What the code
takes from the node and its EVM (signed transactions, their hashes and encodings, execution results,
Keccak) is a parameter of the platform. -/

namespace Rblib.Platform

open Payload

/-- The types a platform gets from the node. `Transaction` stands for recovered transactions. -/
class PlatformTypes (P : Type) where
  Transaction : Type
  txHash : Transaction → B256
  signer : Transaction → Address
  nonce : Transaction → ℕ
  encoded2718 : Transaction → Bytes
  blobGasUsed : Transaction → Option ℕ
  TransactionExecutionResult : Type
  isSuccess : TransactionExecutionResult → Bool
  gasUsed : TransactionExecutionResult → ℕ
  HaltReason : Type
  haltReason : TransactionExecutionResult → Option HaltReason
  EvmError : Type
  EvmState : Type
  keccak256 : Bytes → B256

open PlatformTypes

inductive Eligibility
  | eligible
  | temporarilyIneligible
  | permanentlyIneligible
  deriving DecidableEq

structure Header where
  number : ℕ
  timestamp : ℕ

structure EthSendBundle where
  txs : List Bytes := []
  blockNumber : UInt64 := 0
  minTimestamp : Option UInt64 := none
  maxTimestamp : Option UInt64 := none
  revertingTxHashes : List B256 := []
  replacementUuid : Option String := none
  droppingTxHashes : List B256 := []
  refundPercent : Option UInt8 := none
  refundRecipient : Option Address := none
  refundTxHashes : List B256 := []

structure FlashbotsBundle (P : Type) [PlatformTypes P] where
  inner : EthSendBundle
  recovered : List (Transaction P)

def beBytes (width n : ℕ) : Bytes :=
  ((List.range width).map fun i => UInt8.ofNat (n / 256 ^ i)).reverse

def hashBytes (h : B256) : Bytes := beBytes 32 h

def utf8Bytes (s : String) : Bytes := s.toUTF8.data.toList

namespace FlashbotsBundle

variable {P : Type} [PlatformTypes P]

def default : FlashbotsBundle P := ⟨{}, []⟩

def withMaxTimestamp (bundle : FlashbotsBundle P) (maxTs : UInt64) : FlashbotsBundle P :=
  ⟨{ bundle.inner with maxTimestamp := some maxTs }, bundle.recovered⟩

def withMinTimestamp (bundle : FlashbotsBundle P) (minTs : UInt64) : FlashbotsBundle P :=
  ⟨{ bundle.inner with minTimestamp := some minTs }, bundle.recovered⟩

def withBlockNumber (bundle : FlashbotsBundle P) (blockNumber : UInt64) : FlashbotsBundle P :=
  ⟨{ bundle.inner with blockNumber := blockNumber }, bundle.recovered⟩

def markAsRevertable (bundle : FlashbotsBundle P) (tx : B256) : FlashbotsBundle P :=
  if tx ∈ bundle.inner.revertingTxHashes then bundle
  else ⟨{ bundle.inner with revertingTxHashes := bundle.inner.revertingTxHashes ++ [tx] },
    bundle.recovered⟩

def markAsOptional (bundle : FlashbotsBundle P) (tx : B256) : FlashbotsBundle P :=
  if tx ∈ bundle.inner.droppingTxHashes then bundle
  else ⟨{ bundle.inner with droppingTxHashes := bundle.inner.droppingTxHashes ++ [tx] },
    bundle.recovered⟩

def withTransaction (bundle : FlashbotsBundle P) (tx : Transaction P) : FlashbotsBundle P :=
  if bundle.recovered.any fun t => txHash t == txHash tx then bundle
  else ⟨{ bundle.inner with txs := bundle.inner.txs ++ [encoded2718 tx] }, bundle.recovered ++ [tx]⟩

def withOptionalTransaction (bundle : FlashbotsBundle P) (tx : Transaction P) : FlashbotsBundle P :=
  (bundle.withTransaction tx).markAsOptional (txHash tx)

def transactions (bundle : FlashbotsBundle P) : List (Transaction P) := bundle.recovered

def transactionsEncoded (bundle : FlashbotsBundle P) : List (Transaction P × Bytes) :=
  bundle.recovered.zip bundle.inner.txs

def withoutTransaction (bundle : FlashbotsBundle P) (tx : B256) : FlashbotsBundle P :=
  let position := bundle.recovered.findIdx? fun t => txHash t == tx
  let txs := match position with
    | some i => bundle.inner.txs.eraseIdx i
    | none => bundle.inner.txs
  let recovered := match position with
    | some i => bundle.recovered.eraseIdx i
    | none => bundle.recovered
  ⟨{ bundle.inner with
      txs := txs
      revertingTxHashes := bundle.inner.revertingTxHashes.filter (· != tx)
      droppingTxHashes := bundle.inner.droppingTxHashes.filter (· != tx) }, recovered⟩

def isAllowedToFail (bundle : FlashbotsBundle P) (tx : B256) : Bool :=
  bundle.inner.revertingTxHashes.contains tx

def isOptional (bundle : FlashbotsBundle P) (tx : B256) : Bool :=
  bundle.inner.droppingTxHashes.contains tx

def eligibilityAt (bundle : FlashbotsBundle P) (timestamp number : ℕ) : Eligibility :=
  if bundle.transactions.isEmpty then .permanentlyIneligible
  else if bundle.inner.maxTimestamp.any (·.toNat < timestamp) then .permanentlyIneligible
  else if bundle.inner.blockNumber ≠ 0 ∧ bundle.inner.blockNumber.toNat < number then
    .permanentlyIneligible
  else if bundle.inner.minTimestamp.any (·.toNat > timestamp) then .temporarilyIneligible
  else if bundle.inner.blockNumber ≠ 0 ∧ bundle.inner.blockNumber.toNat > number then
    .temporarilyIneligible
  else .eligible

def isPermanentlyIneligible (bundle : FlashbotsBundle P) (header : Header) : Bool :=
  bundle.eligibilityAt header.timestamp header.number = .permanentlyIneligible

def written (bundle : FlashbotsBundle P) : Bytes :=
  (bundle.transactions.flatMap fun tx => hashBytes (txHash tx)) ++
    beBytes 8 bundle.inner.blockNumber.toNat ++
    (bundle.inner.minTimestamp.elim [] fun ts => beBytes 8 ts.toNat) ++
    (bundle.inner.maxTimestamp.elim [] fun ts => beBytes 8 ts.toNat) ++
    bundle.inner.revertingTxHashes.flatMap hashBytes ++
    (bundle.inner.replacementUuid.elim [] utf8Bytes) ++
    bundle.inner.droppingTxHashes.flatMap hashBytes ++
    (bundle.inner.refundPercent.elim [] fun percent => beBytes 1 percent.toNat) ++
    (bundle.inner.refundRecipient.elim [] fun a => beBytes 20 a) ++
    bundle.inner.refundTxHashes.flatMap hashBytes

def hash (bundle : FlashbotsBundle P) : B256 := keccak256 P bundle.written

/-- `TryFrom<EthSendBundle>`: `τ` stands for the decoded transactions whose signer is not recovered yet. -/
def tryFrom {τ ε : Type} (decode2718 : Bytes → Except ε τ)
    (tryIntoRecovered : τ → Except ε (Transaction P)) (inner : EthSendBundle) :
    Except ε (FlashbotsBundle P) := do
  let txs ← inner.txs.mapM decode2718
  let recovered ← txs.mapM tryIntoRecovered
  return ⟨inner, recovered⟩

end FlashbotsBundle

structure PlainTx where
  hash : B256
  signer : Address
  nonce : ℕ
  deriving DecidableEq

/-- A platform small enough to compute with. The state changes of a transaction are the new nonce of its
signer. -/
inductive Devnet

instance : PlatformTypes Devnet where
  Transaction := PlainTx
  txHash := PlainTx.hash
  signer := PlainTx.signer
  nonce := PlainTx.nonce
  encoded2718 tx := hashBytes tx.hash
  blobGasUsed _ := none
  TransactionExecutionResult := Bool
  isSuccess := id
  gasUsed _ := 21000
  HaltReason := Unit
  haltReason _ := none
  EvmError := String
  EvmState := Address × ℕ
  keccak256 bytes := bytes.foldl (fun h b => h * 257 + Fin.ofNat _ (b.toNat + 1)) 0

end Rblib.Platform
