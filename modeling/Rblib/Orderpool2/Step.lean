import Rblib.Orderpool2.PrioritizedPool
import Rblib.Payload.Checkpoint
import Rblib.Pipelines.Executor

/-! The step that appends the orders of a prioritized orderpool to the payload,
`prioritized_pool/step.rs`. The bundles that wait in the pending source, the ties of the queue, the
iteration orders of the hash maps and the identities of new checkpoints are inputs of the call; the
loop over the queue is bounded by `fuel`, `none` when that runs out. -/

namespace Rblib.Orderpool2

open Platform PlatformTypes Payload Pipelines

variable {P Priority : Type} [PlatformTypes P]

structure BundleWithNonces (P : Type) [PlatformTypes P] where
  bundle : FlashbotsBundle P
  nonces : List BundleNonce

namespace BundleWithNonces

def lowestNonces (nonces : List BundleNonce) : List BundleNonce :=
  (nonces.mergeSort fun a b => decide (a.address < b.address ∨ a.address = b.address ∧
    a.nonce ≤ b.nonce)).destutter
    fun a b => a.address ≠ b.address

def new (bundle : FlashbotsBundle P) : BundleWithNonces P where
  bundle := bundle
  nonces := lowestNonces (bundle.transactions.map fun tx => ⟨signer tx, nonce tx, bundle.isOptional (txHash tx)⟩)

end BundleWithNonces

instance : OrderpoolOrder (BundleWithNonces P) B256 where
  orderId order := order.bundle.hash
  nonces := BundleWithNonces.nonces

structure AccountOrder where
  list : BundleState → List Address
  nodup : ∀ s, (list s).Nodup
  mem_list : ∀ s a, a ∈ list s ↔ (s.account a).isSome

def changedNonces (visit : AccountOrder) (c : Checkpoint P) : List AccountNonce :=
  match c.result with
  | none => []
  | some res => (visit.list res.state).filterMap fun address =>
      (res.state.account address).bind fun data =>
        let oldNonce := (data.originalInfo.map AccountInfo.nonce).getD 0
        let newNonce := (data.info.map AccountInfo.nonce).getD 0
        if oldNonce = newNonce then none else some ⟨address, newNonce⟩

structure PriorityCall (P Priority : Type) [PlatformTypes P] [LE Priority] where
  pending : List (FlashbotsBundle P)
  choice : PopChoice B256 Priority
  visit : SetOrder B256
  accounts : AccountOrder
  fresh : ℕ → ℕ × ℕ
  fuel : ℕ

namespace AppendOrdersByPriority

variable [LE Priority] [PrioritizedOrderpoolPriority Priority (BundleWithNonces P)]

def pullPending (pending : List (FlashbotsBundle P)) (payload : Checkpoint P)
    (orderpool : PrioritizedOrderpool B256 Priority (BundleWithNonces P)) :
    PrioritizedOrderpool B256 Priority (BundleWithNonces P) :=
  pending.foldl (fun pool order => (pool.insertOrder payload.nonceOf (BundleWithNonces.new order)).2) orderpool

def appendAll (call : PriorityCall P Priority) :
    ℕ → PrioritizedOrderpool B256 Priority (BundleWithNonces P) → Checkpoint P →
    Option (Except Panic (Checkpoint P))
  | 0, _, _ => none
  | fuel + 1, orderpool, payload =>
    match orderpool.popOrder call.choice with
    | .error panic => some (.error panic)
    | .ok (none, _) => some (.ok payload)
    | .ok (some order, orderpool) =>
      match payload.apply (.bundle order.bundle) (call.fresh fuel).1 (call.fresh fuel).2 with
      | .error _ => appendAll call fuel orderpool payload
      | .ok new =>
        match orderpool.updateOnchainNonces call.visit new.nonceOf (changedNonces call.accounts new) with
        | .error panic => some (.error panic)
        | .ok (_, orderpool) => appendAll call fuel orderpool new

def step (orderpool : PrioritizedOrderpool B256 Priority (BundleWithNonces P)) (call : PriorityCall P Priority)
    (payload : Checkpoint P) :
    PrioritizedOrderpool B256 Priority (BundleWithNonces P) × Option (Except Panic (Checkpoint P)) :=
  let orderpool := pullPending call.pending payload orderpool
  (orderpool, appendAll call call.fuel orderpool payload)

end AppendOrdersByPriority

end Rblib.Orderpool2
