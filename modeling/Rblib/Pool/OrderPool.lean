import Rblib.Orderpool2.PrioritizedPool
import Rblib.Pool.AppendOrders

/-! The order pool: `pool/mod.rs` with `pool/report.rs` and `pool/maintain.rs`. The orders that
contain a transaction are found through `txMap`; of the node that the pool is attached to only its
transaction pool is kept. -/

namespace Rblib.Pool

open Platform PlatformTypes Payload Orderpool2

structure HostNode where
  systemPool : Finset B256

structure SealedBlock (P : Type) [PlatformTypes P] where
  sealedHeader : Header
  transactions : List (Transaction P)

structure OrderPool (P : Type) [PlatformTypes P] where
  orders : B256 → Option (Order P) := fun _ => none
  txMap : B256 → Option (Finset B256) := fun _ => none
  host : Option HostNode := none

variable {P : Type} [PlatformTypes P]

namespace Order

def txHashes (order : Order P) : List B256 := order.transactions.map txHash

def isPermanentlyIneligible (header : Header) : Order P → Bool
  | transaction _ => false
  | bundle b => b.isPermanentlyIneligible header

end Order

namespace OrderPool

def indexUnder (tx hash : B256) (pool : OrderPool P) : OrderPool P :=
  { pool with txMap := Function.update pool.txMap tx (some (insert hash ((pool.txMap tx).getD ∅))) }

def store (order : Order P) (pool : OrderPool P) : OrderPool P :=
  { pool with orders := Function.update pool.orders order.hash (some order) }

def insert (order : Order P) (pool : OrderPool P) : OrderPool P :=
  (order.txHashes.foldl (fun pool tx => pool.indexUnder tx order.hash) pool).store order

def removeTransaction (tx : B256) (pool : OrderPool P) : OrderPool P :=
  { pool with host := pool.host.map fun node => { node with systemPool := node.systemPool.erase tx } }

def remove (hash : B256) (pool : OrderPool P) : OrderPool P :=
  { pool with orders := Function.update pool.orders hash none }.removeTransaction hash

def takeIndex (tx : B256) (pool : OrderPool P) : OrderPool P :=
  { pool with txMap := Function.update pool.txMap tx none }

def removeAnyWith (visit : SetOrder B256) (tx : B256) (pool : OrderPool P) : OrderPool P :=
  let pool := pool.removeTransaction tx
  match pool.txMap tx with
  | none => pool
  | some orders => (visit.list orders).foldl (fun pool hash => pool.remove hash) (pool.takeIndex tx)

def removeInvalidatedOrders (header : Header) (pool : OrderPool P) : OrderPool P :=
  { pool with orders := fun hash => (pool.orders hash).filter fun order => !order.isPermanentlyIneligible header }

def removeAll (visit : SetOrder B256) (txs : List B256) (pool : OrderPool P) : OrderPool P :=
  txs.foldl (fun pool tx => pool.removeAnyWith visit tx) pool

def reportCommittedBlock (visit : SetOrder B256) (block : SealedBlock P) (pool : OrderPool P) : OrderPool P :=
  (pool.removeAll visit (block.transactions.map txHash)).removeInvalidatedOrders block.sealedHeader

inductive Call (P : Type) [PlatformTypes P]
  | insert (order : Order P)
  | remove (hash : B256)
  | removeAnyWith (visit : SetOrder B256) (tx : B256)
  | reportCommittedBlock (visit : SetOrder B256) (block : SealedBlock P)

def call (pool : OrderPool P) : Call P → OrderPool P
  | .insert order => pool.insert order
  | .remove hash => pool.remove hash
  | .removeAnyWith visit tx => pool.removeAnyWith visit tx
  | .reportCommittedBlock visit block => pool.reportCommittedBlock visit block

def run (calls : List (Call P)) (pool : OrderPool P) : OrderPool P := calls.foldl call pool

def Call.inserted : Call P → Option (Order P)
  | .insert order => some order
  | .remove _ => none
  | .removeAnyWith _ _ => none
  | .reportCommittedBlock _ _ => none

def inserted (calls : List (Call P)) : List (Order P) := calls.filterMap Call.inserted

def listed (pool : OrderPool P) (tx : B256) : Finset B256 := (pool.txMap tx).getD ∅

end OrderPool

end Rblib.Pool
