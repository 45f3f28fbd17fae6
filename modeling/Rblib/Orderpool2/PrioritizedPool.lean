import Rblib.Payload.State

/-! The prioritized orderpool of the block building thread: a queue of the orders whose nonces match
the tracked onchain nonces, an index of that queue by account, and the orders that wait for an
account to reach a nonce. The loops of `update_onchain_nonces` are `trackNonces`, `revalidate` (with
`retainOrder` for its check of one order) and `promotePending`; `pendingNonces` is the loop of
`insert_order`, `none` when a required nonce is already used. A `HashSet` is visited in an arbitrary
order. -/

namespace Rblib.Orderpool2

open Payload

structure AccountNonce where
  account : Address
  nonce : ℕ
  deriving DecidableEq

structure BundleNonce where
  address : Address
  nonce : ℕ
  optional : Bool
  deriving DecidableEq

def BundleNonce.accountNonce (n : BundleNonce) : AccountNonce := ⟨n.address, n.nonce⟩

class OrderpoolOrder (Order : Type) (ID : outParam Type) where
  orderId : Order → ID
  nonces : Order → List BundleNonce

class PrioritizedOrderpoolPriority (Priority : Type) (Order : outParam Type) where
  new : Order → Priority

abbrev OrderpoolNonceSource (NonceError : Type) := Address → Except NonceError ℕ

inductive Panic
  | orderNotFound
  deriving DecidableEq

/-- The entry `PriorityQueue::pop` takes: one of maximal priority, ties broken in any way. -/
structure PopChoice (ID Priority : Type) [LE Priority] where
  pick : List (ID × Priority) → Option (ID × Priority)
  pick_none : ∀ q, pick q = none ↔ q = []
  pick_mem : ∀ q e, pick q = some e → e ∈ q
  pick_max : ∀ q e, pick q = some e → ∀ e' ∈ q, e'.2 ≤ e.2

instance {ID Priority : Type} [LinearOrder Priority] : Inhabited (PopChoice ID Priority) where
  default :=
    { pick := fun q => q.argmax Prod.snd
      pick_none := fun _ => List.argmax_eq_none
      pick_mem := fun _ _ h => List.argmax_mem h
      pick_max := fun _ _ h _ he => List.le_of_mem_argmax he h }

structure SetOrder (ID : Type) where
  list : Finset ID → List ID
  nodup : ∀ s, (list s).Nodup
  mem_list : ∀ s id, id ∈ list s ↔ id ∈ s

instance {ID : Type} [LinearOrder ID] : Inhabited (SetOrder ID) where
  default :=
    { list := fun s => s.sort
      nodup := fun s => s.sort_nodup _
      mem_list := fun s i => s.mem_sort _ }

structure PrioritizedOrderpool (ID Priority Order : Type) where
  mainQueue : List (ID × Priority) := []
  mainQueueNonces : Address → Option (List ID) := fun _ => none
  onchainNonces : Address → Option ℕ := fun _ => none
  pendingOrders : AccountNonce → Option (List ID) := fun _ => none
  orders : ID → Option Order := fun _ => none

namespace PrioritizedOrderpool

open OrderpoolOrder PrioritizedOrderpoolPriority

variable {ID Priority Order ε : Type} [DecidableEq ID]

def removeQueued (i : ID) (s : PrioritizedOrderpool ID Priority Order) :
    PrioritizedOrderpool ID Priority Order :=
  { s with mainQueue := s.mainQueue.filter (fun e => e.1 ≠ i) }

def removeFromOrders (i : ID) (s : PrioritizedOrderpool ID Priority Order) :
    PrioritizedOrderpool ID Priority Order :=
  { s with orders := Function.update s.orders i none }

def nonce (source : OrderpoolNonceSource ε) (a : Address) (s : PrioritizedOrderpool ID Priority Order) :
    Except ε ℕ × PrioritizedOrderpool ID Priority Order :=
  match s.onchainNonces a with
  | some n => (.ok n, s)
  | none =>
    match source a with
    | .error e => (.error e, s)
    | .ok n => (.ok n, { s with onchainNonces := Function.update s.onchainNonces a (some n) })

def pendingNonces (source : OrderpoolNonceSource ε) : List BundleNonce → List AccountNonce →
    PrioritizedOrderpool ID Priority Order →
    Except ε (Option (List AccountNonce)) × PrioritizedOrderpool ID Priority Order
  | [], pending, s => (.ok (some pending), s)
  | n :: ns, pending, s =>
    match s.nonce source n.address with
    | (.error e, s') => (.error e, s')
    | (.ok onchain, s') =>
      if onchain > n.nonce ∧ n.optional = false then (.ok none, s')
      else if onchain < n.nonce ∧ n.optional = false then
        pendingNonces source ns (pending ++ [n.accountNonce]) s'
      else pendingNonces source ns pending s'

def retainOrder (source : OrderpoolNonceSource ε) : List BundleNonce → ℕ →
    PrioritizedOrderpool ID Priority Order → Except ε Bool × PrioritizedOrderpool ID Priority Order
  | [], validNonces, s => (.ok (decide (validNonces > 0)), s)
  | n :: ns, validNonces, s =>
    match s.nonce source n.address with
    | (.error e, s') => (.error e, s')
    | (.ok onchain, s') =>
      if onchain > n.nonce ∧ n.optional = false then (.ok false, s')
      else if onchain = n.nonce then retainOrder source ns (validNonces + 1) s'
      else retainOrder source ns validNonces s'

def trackNonce (n : AccountNonce) (s : PrioritizedOrderpool ID Priority Order) :
    PrioritizedOrderpool ID Priority Order :=
  { s with
    onchainNonces := Function.update s.onchainNonces n.account (some n.nonce)
    mainQueueNonces := Function.update s.mainQueueNonces n.account none }

def trackNonces : List AccountNonce → Finset ID → PrioritizedOrderpool ID Priority Order →
    Finset ID × PrioritizedOrderpool ID Priority Order
  | [], invalidated, s => (invalidated, s)
  | n :: ns, invalidated, s =>
    trackNonces ns (invalidated ∪ ((s.mainQueueNonces n.account).getD []).toFinset) (s.trackNonce n)

def takeOrders : List ID → (ID → Option Order) → List Order × (ID → Option Order)
  | [], orders => ([], orders)
  | i :: is, orders =>
    let (taken, orders') := takeOrders is (Function.update orders i none)
    match orders i with
    | none => (taken, orders')
    | some order => (order :: taken, orders')

variable [OrderpoolOrder Order ID]

def indexOrder (order : Order) (s : PrioritizedOrderpool ID Priority Order) :
    PrioritizedOrderpool ID Priority Order :=
  { s with
    mainQueueNonces := (nonces order).foldl (fun index (n : BundleNonce) =>
      Function.update index n.address (some ((index n.address).getD [] ++ [orderId order]))) s.mainQueueNonces }

def unindexOrder (order : Order) (s : PrioritizedOrderpool ID Priority Order) :
    PrioritizedOrderpool ID Priority Order :=
  { s with
    mainQueueNonces := (nonces order).foldl (fun index (n : BundleNonce) =>
      Function.update index n.address ((index n.address).map (·.filter (· ≠ orderId order)))) s.mainQueueNonces }

def park (order : Order) (pending : List AccountNonce) (s : PrioritizedOrderpool ID Priority Order) :
    PrioritizedOrderpool ID Priority Order :=
  { s with
    pendingOrders := pending.foldl (fun waiting n =>
      Function.update waiting n (some
        (if orderId order ∈ (waiting n).getD [] then (waiting n).getD []
          else (waiting n).getD [] ++ [orderId order]))) s.pendingOrders }

def removePoppedOrder (i : ID) (s : PrioritizedOrderpool ID Priority Order) :
    Option Order × PrioritizedOrderpool ID Priority Order :=
  match s.orders i with
  | none => (none, s)
  | some order => (some order, (s.removeFromOrders i).unindexOrder order)

def removeOrder (i : ID) (s : PrioritizedOrderpool ID Priority Order) :
    Option Order × PrioritizedOrderpool ID Priority Order :=
  let s' := if s.mainQueue.any (fun e => e.1 = i) then ((s.removeQueued i).removePoppedOrder i).2 else s
  (s'.orders i, s'.removeFromOrders i)

def popOrder [LE Priority] (choice : PopChoice ID Priority) (s : PrioritizedOrderpool ID Priority Order) :
    Except Panic (Option Order × PrioritizedOrderpool ID Priority Order) :=
  match choice.pick s.mainQueue with
  | none => .ok (none, s)
  | some (i, _) =>
    match (s.removeQueued i).removePoppedOrder i with
    | (none, _) => .error .orderNotFound
    | (some order, s') => .ok (some order, s')

variable [PrioritizedOrderpoolPriority Priority Order]

def enqueue (order : Order) (s : PrioritizedOrderpool ID Priority Order) :
    PrioritizedOrderpool ID Priority Order :=
  { s.removeQueued (orderId order) with
    mainQueue := (s.removeQueued (orderId order)).mainQueue ++ [(orderId order, new order)] }

def place (order : Order) (pending : List AccountNonce) (s : PrioritizedOrderpool ID Priority Order) :
    PrioritizedOrderpool ID Priority Order :=
  let s' := if pending.isEmpty then (s.enqueue order).indexOrder order else s.park order pending
  { s' with orders := Function.update s'.orders (orderId order) (some order) }

def insertOrder (source : OrderpoolNonceSource ε) (order : Order)
    (s : PrioritizedOrderpool ID Priority Order) : Except ε Unit × PrioritizedOrderpool ID Priority Order :=
  if (s.orders (orderId order)).isSome then (.ok (), s)
  else
    match s.pendingNonces source (nonces order) [] with
    | (.error e, s') => (.error e, s')
    | (.ok none, s') => (.ok (), s')
    | (.ok (some pending), s') => (.ok (), s'.place order pending)

def revalidate (source : OrderpoolNonceSource ε) : List ID → PrioritizedOrderpool ID Priority Order →
    Except Panic (Except ε Unit × PrioritizedOrderpool ID Priority Order)
  | [], s => .ok (.ok (), s)
  | i :: is, s =>
    match (s.removeQueued i).removePoppedOrder i with
    | (none, _) => .error .orderNotFound
    | (some order, s₁) =>
      match s₁.retainOrder source (nonces order) 0 with
      | (.error e, s₂) => .ok (.error e, s₂)
      | (.ok false, s₂) => revalidate source is s₂
      | (.ok true, s₂) =>
        match s₂.insertOrder source order with
        | (.error e, s₃) => .ok (.error e, s₃)
        | (.ok (), s₃) => revalidate source is s₃

def insertOrders (source : OrderpoolNonceSource ε) : List Order → PrioritizedOrderpool ID Priority Order →
    Except ε Unit × PrioritizedOrderpool ID Priority Order
  | [], s => (.ok (), s)
  | order :: rest, s =>
    match s.insertOrder source order with
    | (.error e, s') => (.error e, s')
    | (.ok (), s') => insertOrders source rest s'

def promotePending (source : OrderpoolNonceSource ε) : List AccountNonce →
    PrioritizedOrderpool ID Priority Order → Except ε Unit × PrioritizedOrderpool ID Priority Order
  | [], s => (.ok (), s)
  | n :: ns, s =>
    match s.pendingOrders n with
    | none => promotePending source ns s
    | some pending =>
      let (taken, orders) := takeOrders pending s.orders
      match insertOrders source taken
          { s with pendingOrders := Function.update s.pendingOrders n none, orders := orders } with
      | (.error e, s') => (.error e, s')
      | (.ok (), s') => promotePending source ns s'

def updateOnchainNonces (visit : SetOrder ID) (source : OrderpoolNonceSource ε) (newNonces : List AccountNonce)
    (s : PrioritizedOrderpool ID Priority Order) :
    Except Panic (Except ε Unit × PrioritizedOrderpool ID Priority Order) :=
  let (invalidated, s₁) := s.trackNonces newNonces ∅
  match s₁.revalidate source (visit.list invalidated) with
  | .error p => .error p
  | .ok (.error e, s₂) => .ok (.error e, s₂)
  | .ok (.ok (), s₂) => .ok (s₂.promotePending source newNonces)

inductive Call (ID Priority Order ε : Type) [LE Priority]
  | insertOrder (order : Order) (source : OrderpoolNonceSource ε)
  | updateOnchainNonces (newNonces : List AccountNonce) (source : OrderpoolNonceSource ε)
      (visit : SetOrder ID)
  | removeOrder (i : ID)
  | popOrder (choice : PopChoice ID Priority)

def call [LE Priority] (s : PrioritizedOrderpool ID Priority Order) :
    Call ID Priority Order ε → Except Panic (PrioritizedOrderpool ID Priority Order)
  | .insertOrder order source => .ok (s.insertOrder source order).2
  | .updateOnchainNonces newNonces source visit => (s.updateOnchainNonces visit source newNonces).map Prod.snd
  | .removeOrder i => .ok (s.removeOrder i).2
  | .popOrder choice => (s.popOrder choice).map Prod.snd

def run [LE Priority] : List (Call ID Priority Order ε) → PrioritizedOrderpool ID Priority Order →
    Except Panic (PrioritizedOrderpool ID Priority Order)
  | [], s => .ok s
  | c :: cs, s => s.call c >>= run cs

end PrioritizedOrderpool
end Rblib.Orderpool2
