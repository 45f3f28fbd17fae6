import Mathlib.Tactic

/-! The part of the execution state that checkpoints read and record: account data as revm keeps it
in a `BundleState`, the state provider of the parent block and the database interface of the EVM.
Maps are partial functions. -/

namespace Rblib.Payload

instance neZeroAddress : NeZero (2 ^ 160) := ⟨by norm_num⟩

instance neZeroWord : NeZero (2 ^ 256) := ⟨by norm_num⟩

abbrev Address := Fin (2 ^ 160)

abbrev B256 := Fin (2 ^ 256)

abbrev U256 := Fin (2 ^ 256)

abbrev Bytes := List UInt8

abbrev Bytecode := Bytes

abbrev ProviderError := String

structure AccountInfo where
  balance : U256
  nonce : ℕ
  codeHash : B256
  code : Option Bytecode
  deriving DecidableEq

inductive AccountStatus
  | loadedNotExisting
  | loaded
  | loadedEmptyEIP161
  | inMemoryChange
  | changed
  | destroyed
  | destroyedChanged
  | destroyedAgain
  deriving DecidableEq

def AccountStatus.wasDestroyed : AccountStatus → Bool
  | .destroyed => true
  | .destroyedChanged => true
  | .destroyedAgain => true
  | _ => false

structure StorageSlot where
  presentValue : U256
  deriving DecidableEq

structure BundleAccount where
  info : Option AccountInfo
  originalInfo : Option AccountInfo
  storage : U256 → Option StorageSlot
  status : AccountStatus

structure BundleState where
  state : Address → Option BundleAccount
  contracts : B256 → Option Bytecode

def BundleState.account (b : BundleState) (address : Address) : Option BundleAccount := b.state address

def BundleState.bytecode (b : BundleState) (hash : B256) : Option Bytecode := b.contracts hash

structure Account where
  nonce : ℕ
  balance : U256
  bytecodeHash : Option B256

def KECCAK_EMPTY : B256 :=
  ⟨0xc5d2460186f7233c927e7db2dcc703c0e500b653ca82273b7bfad8045d85a470, by decide⟩

def Account.toInfo (acc : Account) : AccountInfo where
  balance := acc.balance
  nonce := acc.nonce
  codeHash := acc.bytecodeHash.getD KECCAK_EMPTY
  code := none

structure StateProvider where
  basicAccount : Address → Except ProviderError (Option Account)
  storage : Address → U256 → Except ProviderError (Option U256)
  bytecodeByHash : B256 → Except ProviderError (Option Bytecode)
  blockHash : ℕ → Except ProviderError (Option B256)

structure DatabaseRef where
  basicRef : Address → Except ProviderError (Option AccountInfo)
  codeByHashRef : B256 → Except ProviderError Bytecode
  storageRef : Address → U256 → Except ProviderError U256
  blockHashRef : ℕ → Except ProviderError B256

end Rblib.Payload
