import Rblib.Library.ReadThrough
import Rblib.Payload.State

/-! The cached state provider of `payload/ext/cached_state.rs`. A read returns the cache it leaves
behind. -/

namespace Rblib.Payload

open Library

structure ChainState where
  account : Address → Option Account
  storage : Address → U256 → U256
  code : B256 → Option Bytecode

def Account.fromInfo (info : AccountInfo) : Account where
  nonce := info.nonce
  balance := info.balance
  bytecodeHash := if info.codeHash = KECCAK_EMPTY then none else some info.codeHash

def AccountStatus.isNotModified : AccountStatus → Bool
  | .loadedNotExisting => true
  | .loaded => true
  | .loadedEmptyEIP161 => true
  | _ => false

def BundleState.appliedTo (b : BundleState) (s : ChainState) : ChainState where
  account a := match b.account a with
    | none => s.account a
    | some acc => acc.info.map Account.fromInfo
  storage a k := match b.account a with
    | none => s.storage a k
    | some acc => match acc.storage k with
      | some slot => slot.presentValue
      | none => if acc.status.wasDestroyed then 0 else s.storage a k
  code h := match b.bytecode h with
    | some code => some code
    | none => s.code h

def StatusFlags (b : BundleState) (s : ChainState) : Prop :=
  ∀ a acc, b.account a = some acc → acc.status.isNotModified = true →
    (b.appliedTo s).account a = s.account a ∧ ∀ k, (b.appliedTo s).storage a k = s.storage a k

structure BundleIteration (b : BundleState) where
  contracts : List (B256 × Bytecode)
  accounts : List (Address × BundleAccount)
  slots : Address → List (U256 × StorageSlot)
  mem_contracts : ∀ h code, (h, code) ∈ contracts ↔ b.bytecode h = some code
  mem_accounts : ∀ a acc, (a, acc) ∈ accounts ↔ b.account a = some acc
  mem_slots : ∀ a acc, b.account a = some acc → ∀ k slot, (k, slot) ∈ slots a ↔ acc.storage k = some slot

inductive SlotStatus
  | notCached
  | empty
  | value (v : U256)
  deriving DecidableEq

structure AccountStorageCache where
  slots : U256 → Option (Option U256) := fun _ => none

def AccountStorageCache.getStorage (cache : AccountStorageCache) (key : U256) : SlotStatus :=
  match cache.slots key with
  | none => .notCached
  | some none => .empty
  | some (some v) => .value v

structure ExecutionCache where
  code : B256 → Option (Option Bytecode) := fun _ => none
  storage : Address → Option AccountStorageCache := fun _ => none
  account : Address → Option (Option Account) := fun _ => none

namespace ExecutionCache

def getStorage (cache : ExecutionCache) (address : Address) (key : U256) : SlotStatus :=
  match cache.storage address with
  | none => .notCached
  | some accountCache => accountCache.getStorage key

def insertStorageBulk (cache : ExecutionCache) (address : Address)
    (entries : List (U256 × Option U256)) : ExecutionCache :=
  let accountCache := (cache.storage address).getD {}
  { cache with
    storage := Function.update cache.storage address (some ⟨insertAll accountCache.slots entries⟩) }

def insertStorage (cache : ExecutionCache) (address : Address) (key : U256) (value : Option U256) :
    ExecutionCache :=
  cache.insertStorageBulk address [(key, value)]

def insertAccount (slots : Address → List (U256 × StorageSlot)) (cache : ExecutionCache)
    (entry : Address × BundleAccount) : Except Unit ExecutionCache :=
  if entry.2.status.isNotModified then .ok cache
  else if entry.2.status.wasDestroyed then
    .ok { cache with
      account := Function.update cache.account entry.1 none
      storage := Function.update cache.storage entry.1 none }
  else match entry.2.info with
    | none => .error ()
    | some info =>
      let cache := cache.insertStorageBulk entry.1
        ((slots entry.1).map fun e => (e.1, some e.2.presentValue))
      .ok { cache with account := Function.update cache.account entry.1 (some (some (.fromInfo info))) }

/-- `insert_state`. A cache that the failed call has changed in part is not returned; its caller drops it. -/
def insertState {b : BundleState} (cache : ExecutionCache) (updates : BundleIteration b) :
    Except Unit ExecutionCache :=
  updates.accounts.foldlM (insertAccount updates.slots)
    { cache with code := insertAll cache.code (updates.contracts.map fun e => (e.1, some e.2)) }

end ExecutionCache

namespace CachedStateProvider

variable (provider : StateProvider)

def basicAccount (cache : ExecutionCache) (address : Address) :
    Except ProviderError (Option Account) × ExecutionCache :=
  match cache.account address with
  | some res => (.ok res, cache)
  | none => match provider.basicAccount address with
    | .error e => (.error e, cache)
    | .ok res => (.ok res, { cache with account := Function.update cache.account address (some res) })

def storage (cache : ExecutionCache) (address : Address) (key : U256) :
    Except ProviderError (Option U256) × ExecutionCache :=
  match cache.getStorage address key with
  | .notCached => match provider.storage address key with
    | .error e => (.error e, cache)
    | .ok res => (.ok res, cache.insertStorage address key res)
  | .empty => (.ok none, cache)
  | .value v => (.ok (some v), cache)

def bytecodeByHash (cache : ExecutionCache) (codeHash : B256) :
    Except ProviderError (Option Bytecode) × ExecutionCache :=
  match cache.code codeHash with
  | some res => (.ok res, cache)
  | none => match provider.bytecodeByHash codeHash with
    | .error e => (.error e, cache)
    | .ok res => (.ok res, { cache with code := Function.update cache.code codeHash (some res) })

end CachedStateProvider

inductive StateRead
  | basicAccount (address : Address)
  | storage (address : Address) (key : U256)
  | bytecodeByHash (codeHash : B256)

inductive StateAnswer
  | account (res : Option Account)
  | storage (res : Option U256)
  | bytecode (res : Option Bytecode)

namespace StateRead

def ask (provider : StateProvider) : StateRead → Except ProviderError StateAnswer
  | basicAccount a => (provider.basicAccount a).map .account
  | storage a k => (provider.storage a k).map .storage
  | bytecodeByHash h => (provider.bytecodeByHash h).map .bytecode

def askCached (provider : StateProvider) (cache : ExecutionCache) :
    StateRead → Except ProviderError StateAnswer × ExecutionCache
  | basicAccount a => (CachedStateProvider.basicAccount provider cache a).map (·.map .account) id
  | storage a k => (CachedStateProvider.storage provider cache a k).map (·.map .storage) id
  | bytecodeByHash h => (CachedStateProvider.bytecodeByHash provider cache h).map (·.map .bytecode) id

def askAll (provider : StateProvider) :
    List StateRead → ExecutionCache → List (Except ProviderError StateAnswer) × ExecutionCache
  | [], cache => ([], cache)
  | r :: rs, cache =>
    let (answer, cache) := r.askCached provider cache
    let (answers, cache) := askAll provider rs cache
    (answer :: answers, cache)

end StateRead

end Rblib.Payload
