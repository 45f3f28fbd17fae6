import Rblib.Orderpool2.PrioritizedPool

/-! The simulation tree, `orderpool2/sim_tree.rs`: orders that wait for nonces until a simulated
order provides them. `nonceStateFrom` is the loop of `get_order_nonce_state`, `release` the loop
over the orders that waited for a nonce and `pushReady` the loop over those of them that wait for
nothing more. A `panic!` of the source is a `SimTreePanic`, its `error!` messages are collected in
`bugs`; the identifiers of simulation requests come from a random source. -/

namespace Rblib.Orderpool2

open Payload OrderpoolOrder

abbrev SimulationId := UInt64

structure SimulationRequest (Order : Type) where
  id : SimulationId
  order : Order
  parents : List Order

structure SimulatedResult (Order SimResult : Type) where
  id : SimulationId
  simulatedOrder : SimResult
  order : Order
  previousOrders : List Order
  noncesAfter : List AccountNonce

structure PendingOrder (Order : Type) where
  order : Order
  unsatisfiedNonces : ℕ

inductive OrderNonceState (Order : Type)
  | invalid
  | pendingNonces (nonces : List AccountNonce)
  | ready (parents : List Order)

class SimTreeResult (SimResult : Type) (ScoreType : outParam Type) where
  score : SimResult → ScoreType

inductive SimTreePanic
  | weNeverDeleteSims
  | subtractionOverflow
  deriving DecidableEq

inductive SimTreeBug
  | orderNotFound
  | becameInvalid
  | becamePendingAgain
  deriving DecidableEq

structure SimTree (ID Order SimResult : Type) where
  sims : SimulationId → Option (SimulatedResult Order SimResult) := fun _ => none
  simsThatUpdateOneNonce : AccountNonce → Option SimulationId := fun _ => none
  pendingOrders : ID → Option (PendingOrder Order) := fun _ => none
  pendingNonces : AccountNonce → Option (List ID) := fun _ => none
  readyOrders : List (SimulationRequest Order) := []
  bugs : List SimTreeBug := []
  drawn : ℕ := 0

namespace SimTree

variable {ID Order SimResult ScoreType ε : Type}

def log (bug : SimTreeBug) (tree : SimTree ID Order SimResult) : SimTree ID Order SimResult :=
  { tree with bugs := tree.bugs ++ [bug] }

def request (random : ℕ → SimulationId) (order : Order) (parents : List Order)
    (tree : SimTree ID Order SimResult) : SimTree ID Order SimResult :=
  { tree with
    readyOrders := tree.readyOrders ++ [⟨random tree.drawn, order, parents⟩]
    drawn := tree.drawn + 1 }

def nonceStateFrom (source : OrderpoolNonceSource ε) (tree : SimTree ID Order SimResult) :
    List BundleNonce → Finset Address → List AccountNonce → List Order →
    Except SimTreePanic (Except ε (OrderNonceState Order))
  | [], _, pending, parents => .ok (.ok (if pending.isEmpty then .ready parents else .pendingNonces pending))
  | n :: ns, incremented, pending, parents =>
    match source n.address with
    | .error e => .ok (.error e)
    | .ok onchain =>
      if onchain = n.nonce then nonceStateFrom source tree ns (insert n.address incremented) pending parents
      else if n.nonce < onchain then
        if n.optional then nonceStateFrom source tree ns incremented pending parents else .ok (.ok .invalid)
      else if n.address ∈ incremented then nonceStateFrom source tree ns incremented pending parents
      else match tree.simsThatUpdateOneNonce n.accountNonce with
        | none =>
          nonceStateFrom source tree ns (insert n.address incremented) (pending ++ [n.accountNonce]) parents
        | some simId => match tree.sims simId with
          | none => .error .weNeverDeleteSims
          | some sim =>
            nonceStateFrom source tree ns (insert n.address incremented) pending
              (parents ++ sim.previousOrders ++ [sim.order])

def popSimulationTasks (limit : ℕ) (tree : SimTree ID Order SimResult) :
    List (SimulationRequest Order) × SimTree ID Order SimResult :=
  let limit := min limit tree.readyOrders.length
  (tree.readyOrders.take limit, { tree with readyOrders := tree.readyOrders.drop limit })

variable [DecidableEq ID]

def wait (i : ID) (keys : List AccountNonce) (tree : SimTree ID Order SimResult) : SimTree ID Order SimResult :=
  { tree with
    pendingNonces := keys.foldl (fun waiting n =>
      Function.update waiting n (some ((waiting n).getD [] ++ [i]))) tree.pendingNonces }

def release : List ID → SimTree ID Order SimResult →
    Except SimTreePanic (List Order × SimTree ID Order SimResult)
  | [], tree => .ok ([], tree)
  | i :: is, tree =>
    match tree.pendingOrders i with
    | none => release is (tree.log .orderNotFound)
    | some pendingOrder =>
      if pendingOrder.unsatisfiedNonces = 0 then .error .subtractionOverflow
      else if pendingOrder.unsatisfiedNonces - 1 = 0 then
        (release is { tree with pendingOrders := Function.update tree.pendingOrders i none }).map
          fun r => (pendingOrder.order :: r.1, r.2)
      else release is { tree with
        pendingOrders := Function.update tree.pendingOrders i
          (some { pendingOrder with unsatisfiedNonces := pendingOrder.unsatisfiedNonces - 1 }) }

def provide [LinearOrder ScoreType] [SimTreeResult SimResult ScoreType] (result : SimulatedResult Order SimResult)
    (updatedNonce : AccountNonce) (tree : SimTree ID Order SimResult) :
    Except SimTreePanic (List Order × SimTree ID Order SimResult) :=
  let claimed :=
    { tree with
      simsThatUpdateOneNonce := Function.update tree.simsThatUpdateOneNonce updatedNonce (some result.id) }
  match tree.simsThatUpdateOneNonce updatedNonce with
  | some simId => match tree.sims simId with
    | none => .error .weNeverDeleteSims
    | some sim =>
      if SimTreeResult.score sim.simulatedOrder < SimTreeResult.score result.simulatedOrder then .ok ([], claimed)
      else .ok ([], tree)
  | none => match tree.pendingNonces updatedNonce with
    | none => .ok ([], claimed)
    | some orders =>
      release orders { claimed with pendingNonces := Function.update tree.pendingNonces updatedNonce none }

variable [OrderpoolOrder Order ID]

def getOrderNonceState (source : OrderpoolNonceSource ε) (order : Order) (tree : SimTree ID Order SimResult) :
    Except SimTreePanic (Except ε (OrderNonceState Order)) :=
  nonceStateFrom source tree (nonces order) ∅ [] []

def pushOrder (source : OrderpoolNonceSource ε) (random : ℕ → SimulationId) (order : Order)
    (tree : SimTree ID Order SimResult) : Except SimTreePanic (Except ε Unit × SimTree ID Order SimResult) :=
  if (tree.pendingOrders (orderId order)).isSome then .ok (.ok (), tree)
  else match tree.getOrderNonceState source order with
    | .error panic => .error panic
    | .ok (.error e) => .ok (.error e, tree)
    | .ok (.ok .invalid) => .ok (.ok (), tree)
    | .ok (.ok (.pendingNonces pending)) =>
      let tree := tree.wait (orderId order) pending
      .ok (.ok (), { tree with
        pendingOrders := Function.update tree.pendingOrders (orderId order) (some ⟨order, pending.length⟩) })
    | .ok (.ok (.ready parents)) => .ok (.ok (), tree.request random order parents)

def pushOrders (source : OrderpoolNonceSource ε) (random : ℕ → SimulationId) : List Order →
    SimTree ID Order SimResult → Except SimTreePanic (Except ε Unit × SimTree ID Order SimResult)
  | [], tree => .ok (.ok (), tree)
  | order :: orders, tree =>
    match tree.pushOrder source random order with
    | .error panic => .error panic
    | .ok (.error e, tree) => .ok (.error e, tree)
    | .ok (.ok (), tree) => pushOrders source random orders tree

def pushReady (source : OrderpoolNonceSource ε) (random : ℕ → SimulationId) : List Order →
    SimTree ID Order SimResult → Except SimTreePanic (Except ε Unit × SimTree ID Order SimResult)
  | [], tree => .ok (.ok (), tree)
  | order :: orders, tree =>
    match tree.getOrderNonceState source order with
    | .error panic => .error panic
    | .ok (.error e) => .ok (.error e, tree)
    | .ok (.ok (.ready parents)) => pushReady source random orders (tree.request random order parents)
    | .ok (.ok .invalid) => pushReady source random orders (tree.log .becameInvalid)
    | .ok (.ok (.pendingNonces _)) => pushReady source random orders (tree.log .becamePendingAgain)

variable [LinearOrder ScoreType] [SimTreeResult SimResult ScoreType]

def processSimulationTaskResult (source : OrderpoolNonceSource ε) (random : ℕ → SimulationId)
    (result : SimulatedResult Order SimResult) (tree : SimTree ID Order SimResult) :
    Except SimTreePanic (Except ε Unit × SimTree ID Order SimResult) :=
  let tree := { tree with sims := Function.update tree.sims result.id (some result) }
  match result.noncesAfter with
  | [updatedNonce] => match tree.provide result updatedNonce with
    | .error panic => .error panic
    | .ok (ordersReady, tree) => tree.pushReady source random ordersReady
  | _ => .ok (.ok (), tree)

def submitSimulationTasksResults (source : OrderpoolNonceSource ε) (random : ℕ → SimulationId) :
    List (SimulatedResult Order SimResult) → SimTree ID Order SimResult →
    Except SimTreePanic (Except ε Unit × SimTree ID Order SimResult)
  | [], tree => .ok (.ok (), tree)
  | result :: results, tree =>
    match tree.processSimulationTaskResult source random result with
    | .error panic => .error panic
    | .ok (.error e, tree) => .ok (.error e, tree)
    | .ok (.ok (), tree) => submitSimulationTasksResults source random results tree

inductive Call (Order SimResult : Type)
  | pushOrder (order : Order)
  | pushOrders (orders : List Order)
  | popSimulationTasks (limit : ℕ)
  | submitSimulationTasksResults (results : List (SimulatedResult Order SimResult))

def call (source : OrderpoolNonceSource ε) (random : ℕ → SimulationId) (tree : SimTree ID Order SimResult) :
    Call Order SimResult → Except SimTreePanic (SimTree ID Order SimResult)
  | .pushOrder order => (tree.pushOrder source random order).map Prod.snd
  | .pushOrders orders => (tree.pushOrders source random orders).map Prod.snd
  | .popSimulationTasks limit => .ok (tree.popSimulationTasks limit).2
  | .submitSimulationTasksResults results => (tree.submitSimulationTasksResults source random results).map Prod.snd

def run (source : OrderpoolNonceSource ε) (random : ℕ → SimulationId) : List (Call Order SimResult) →
    SimTree ID Order SimResult → Except SimTreePanic (SimTree ID Order SimResult)
  | [], tree => .ok tree
  | c :: cs, tree => tree.call source random c >>= run source random cs

end SimTree

end Rblib.Orderpool2
