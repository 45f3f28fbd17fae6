import Rblib.Library.HeldSince
import Rblib.Pool.IndexExact
import Rblib.Pool.Interleaving

/-! The node around the order pool: the requests of `pool/rpc.rs`, the maintenance loop of
`pool/host.rs` and the listener of `pool/maintain.rs` update the maps of one pool, each at its own
pace. -/

namespace Rblib.Pool

open Platform PlatformTypes Payload Orderpool2 Library

inductive ErrorCode
  | invalidParams
  deriving DecidableEq

structure ErrorObject where
  code : ErrorCode
  message : String
  deriving DecidableEq

structure BundleResult where
  bundleHash : B256
  deriving DecidableEq

def invalidParamErr : ErrorObject := ⟨.invalidParams, "bundle is ineligible for inclusion"⟩

structure CommittedChain (P : Type) [PlatformTypes P] where
  blocks : List (SealedBlock P)
  nonempty : blocks ≠ []

inductive Task (T : Type)
  | request (t : T)
  | maintenance
  deriving DecidableEq

/-- How the map of the orders is divided. Its `retain` locks the shards one after the other. -/
structure Shards where
  count : ℕ
  shardOf : B256 → ℕ
  shardOf_lt : ∀ hash, shardOf hash < count

variable {T P : Type} [DecidableEq T] [PlatformTypes P]

def CommittedChain.tip (chain : CommittedChain P) : SealedBlock P := chain.blocks.getLast chain.nonempty

def OrderPool.retainShard (m : Shards) (shard : ℕ) (header : Header) (pool : OrderPool P) : OrderPool P :=
  { pool with orders := fun hash =>
      if m.shardOf hash = shard then (pool.orders hash).filter fun order => !order.isPermanentlyIneligible header
      else pool.orders hash }

lemma OrderPool.retainShard_all (m : Shards) (header : Header) (pool : OrderPool P) :
    (List.range m.count).foldl (fun pool shard => pool.retainShard m shard header) pool =
      pool.removeInvalidatedOrders header := by
  have hsweep : ∀ (shards : List ℕ) (pool : OrderPool P),
      shards.foldl (fun pool shard => pool.retainShard m shard header) pool = { pool with
        orders := fun hash =>
          if m.shardOf hash ∈ shards then (pool.orders hash).filter fun order =>
            !order.isPermanentlyIneligible header
          else pool.orders hash } := by
    intro shards
    induction shards with
    | nil => exact fun pool => by simp
    | cons shard shards ih =>
      intro pool
      rw [List.foldl_cons, ih, retainShard]
      congr
      funext hash
      by_cases hshard : m.shardOf hash = shard
      · simp [hshard]
      · simp [hshard]
  rw [hsweep, removeInvalidatedOrders]
  congr
  funext hash
  rw [if_pos (List.mem_range.mpr (m.shardOf_lt hash))]

structure BlockReport (P : Type) [PlatformTypes P] where
  block : SealedBlock P
  txs : List B256
  shards : List ℕ

structure Committing (P : Type) [PlatformTypes P] where
  report : Option (BlockReport P) := none
  blocks : List (SealedBlock P)
  tip : Header

structure Node (T P : Type) [PlatformTypes P] where
  shared : SharedPool (Task T) P := ⟨{}, fun _ => none⟩
  tipHeader : Option Header := none
  responses : List (T × Except ErrorObject BundleResult) := []
  committing : Option (Committing P) := none

inductive NodeEvent (T P : Type) [PlatformTypes P]
  | attach (host : HostNode) (header : Header)
  | sendBundle (t : T) (bundle : FlashbotsBundle P)
  | index (t : T)
  | store (t : T)
  | canonState (chain : CommittedChain P)
  | reportCommittedBlock
  | removeAnyWith
  | take
  | remove (hash : B256)
  | finish
  | retain
  | updateTip
  | orderInclusionFailure (hash : B256) (error : ExecutionError P)

namespace Node

def pool (node : Node T P) : OrderPool P := node.shared.pool

def withPool (node : Node T P) (pool : OrderPool P) : Node T P := { node with shared := ⟨pool, node.shared.calls⟩ }

def isPermanentlyIneligible (node : Node T P) (bundle : FlashbotsBundle P) : Bool :=
  (node.tipHeader.map fun header => bundle.isPermanentlyIneligible header).getD false

def respond (t : T) (response : Except ErrorObject BundleResult) (node : Node T P) : Node T P :=
  { node with responses := node.responses ++ [(t, response)] }

def performs (node : Node T P) (action : PoolAction (Task T) P) : Option (Node T P) :=
  (node.shared.step action).map fun shared => { node with shared := shared }

def step (m : Shards) (node : Node T P) : NodeEvent T P → Option (Node T P)
  | .attach host header => match node.tipHeader with
    | some _ => none
    | none => some { node.withPool { node.pool with host := some host } with tipHeader := some header }
  | .sendBundle t bundle => match node.shared.calls (.request t) with
    | some _ => none
    | none =>
      if bundle.transactions.isEmpty then some (node.respond t (.error invalidParamErr))
      else if node.isPermanentlyIneligible bundle then some (node.respond t (.error invalidParamErr))
      else node.performs (.insert (.request t) (.bundle bundle))
  | .index t => node.performs (.index (.request t))
  | .store t => match node.shared.calls (.request t) with
    | some (.insert order _ _) => (node.performs (.store (.request t))).map (respond t (.ok ⟨order.hash⟩))
    | _ => none
  | .canonState chain => match node.tipHeader, node.committing with
    | some _, none => some { node with committing := some ⟨none, chain.blocks, chain.tip.sealedHeader⟩ }
    | _, _ => none
  | .reportCommittedBlock => match node.committing with
    | some ⟨none, block :: blocks, tip⟩ => some { node with
        committing := some ⟨some ⟨block, block.transactions.map txHash, List.range m.count⟩, blocks, tip⟩ }
    | _ => none
  | .removeAnyWith => match node.committing with
    | some ⟨some ⟨block, tx :: txs, shards⟩, blocks, tip⟩ =>
      (node.performs (.removeAnyWith .maintenance tx)).map fun node =>
        { node with committing := some ⟨some ⟨block, txs, shards⟩, blocks, tip⟩ }
    | _ => none
  | .take => node.performs (.take .maintenance)
  | .remove hash => node.performs (.remove .maintenance hash)
  | .finish => node.performs (.finish .maintenance)
  | .retain => match node.committing, node.shared.calls .maintenance with
    | some ⟨some ⟨block, [], shard :: shards⟩, blocks, tip⟩, none =>
      some { node.withPool (node.pool.retainShard m shard block.sealedHeader) with
        committing := some ⟨if shards.isEmpty then none else some ⟨block, [], shards⟩, blocks, tip⟩ }
    | _, _ => none
  | .updateTip => match node.committing with
    | some ⟨none, [], tip⟩ => some { node with tipHeader := some tip, committing := none }
    | _ => none
  | .orderInclusionFailure hash error => some (node.withPool (node.pool.reportExecutionError hash error))

def Steps (m : Shards) (node : Node T P) (event : NodeEvent T P) (node' : Node T P) : Prop :=
  node.step m event = some node'

def Accepts (node : Node T P) (event : NodeEvent T P) (request : T × FlashbotsBundle P) : Prop :=
  event = .sendBundle request.1 request.2 ∧ node.shared.calls (.request request.1) = none ∧
    request.2.transactions ≠ [] ∧ node.isPermanentlyIneligible request.2 = false

def Answers (_ : Node T P) (event : NodeEvent T P) (request : T × FlashbotsBundle P) : Prop :=
  event = .store request.1

def Inserting (node : Node T P) (request : T × FlashbotsBundle P) : Prop :=
  ∃ indexed rest, node.shared.calls (.request request.1) = some (.insert (.bundle request.2) indexed rest)

def Stores (node : Node T P) (event : NodeEvent T P) (order : Order P) : Prop :=
  ∃ t indexed, event = .store t ∧ node.shared.calls (.request t) = some (.insert order indexed [])

/-- What takes an order out of the pool: one of the same hash, the loop when it comes to the hash
among those that it has found under a committed transaction, the sweep of its shard when the block
outdates it, or a permanent failure. -/
def Drops (m : Shards) (node : Node T P) (event : NodeEvent T P) (order : Order P) : Prop :=
  (∃ t other indexed, event = .store t ∧ node.shared.calls (.request t) = some (.insert other indexed []) ∧
    other.hash = order.hash) ∨
  event = .remove order.hash ∨
  (∃ block shards blocks tip, event = .retain ∧
    node.committing = some ⟨some ⟨block, [], m.shardOf order.hash :: shards⟩, blocks, tip⟩ ∧
    order.isPermanentlyIneligible block.sealedHeader = true) ∨
  ∃ error, event = .orderInclusionFailure order.hash error ∧ IsPermanent error

def Writes (node : Node T P) (event : NodeEvent T P) (entry : B256 × B256) : Prop :=
  ∃ t order indexed rest, event = .index t ∧
    node.shared.calls (.request t) = some (.insert order indexed (entry.1 :: rest)) ∧ order.hash = entry.2

def Takes (node : Node T P) (event : NodeEvent T P) (entry : B256 × B256) : Prop :=
  event = .take ∧ node.shared.calls .maintenance = some (.removeAnyWith entry.1)

inductive Turn (m : Shards) (node : Node T P) : NodeEvent T P → Node T P → Prop
  | attach (host : HostNode) (header : Header) : Turn m node (.attach host header)
      { node.withPool { node.pool with host := some host } with tipHeader := some header }
  | refused {t : T} {bundle : FlashbotsBundle P}
      (hbad : bundle.transactions = [] ∨ node.isPermanentlyIneligible bundle = true) :
      Turn m node (.sendBundle t bundle) (node.respond t (.error invalidParamErr))
  | accepted {t : T} {bundle : FlashbotsBundle P} (haccepts : node.Accepts (.sendBundle t bundle) (t, bundle)) :
      Turn m node (.sendBundle t bundle) { node with
        shared := node.shared.advance (.request t) node.pool
          (some (.insert (.bundle bundle) [] (Order.bundle bundle).txHashes)) }
  | index {t : T} {order : Order P} {indexed rest : List B256} {tx : B256}
      (hcall : node.shared.calls (.request t) = some (.insert order indexed (tx :: rest))) :
      Turn m node (.index t) { node with
        shared := node.shared.advance (.request t) (node.pool.indexUnder tx order.hash)
          (some (.insert order (indexed ++ [tx]) rest)) }
  | store {t : T} {order : Order P} {indexed : List B256}
      (hcall : node.shared.calls (.request t) = some (.insert order indexed [])) :
      Turn m node (.store t) (respond t (.ok ⟨order.hash⟩)
        { node with shared := node.shared.advance (.request t) (node.pool.store order) none })
  | canonState (chain : CommittedChain P) (hidle : node.committing = none) : Turn m node (.canonState chain)
      { node with committing := some ⟨none, chain.blocks, chain.tip.sealedHeader⟩ }
  | reportCommittedBlock {block : SealedBlock P} {blocks : List (SealedBlock P)} {tip : Header}
      (hcommitting : node.committing = some ⟨none, block :: blocks, tip⟩) : Turn m node .reportCommittedBlock
        { node with
          committing := some ⟨some ⟨block, block.transactions.map txHash, List.range m.count⟩, blocks, tip⟩ }
  | removeAnyWith {block : SealedBlock P} {tx : B256} {txs : List B256} {shards : List ℕ}
      {blocks : List (SealedBlock P)} {tip : Header}
      (hcommitting : node.committing = some ⟨some ⟨block, tx :: txs, shards⟩, blocks, tip⟩)
      (hfree : node.shared.calls .maintenance = none) : Turn m node .removeAnyWith
        { node with
          shared := node.shared.advance .maintenance (node.pool.removeTransaction tx) (some (.removeAnyWith tx))
          committing := some ⟨some ⟨block, txs, shards⟩, blocks, tip⟩ }
  | take {tx : B256} (hcall : node.shared.calls .maintenance = some (.removeAnyWith tx)) : Turn m node .take
      { node with
        shared := node.shared.advance .maintenance (node.pool.takeIndex tx)
          (some (.removing (node.pool.listed tx))) }
  | remove {hash : B256} {listed : Finset B256} (hcall : node.shared.calls .maintenance = some (.removing listed))
      (hlisted : hash ∈ listed) : Turn m node (.remove hash) { node with
        shared := node.shared.advance .maintenance (node.pool.remove hash) (some (.removing (listed.erase hash))) }
  | finish (hcall : node.shared.calls .maintenance = some (.removing ∅)) : Turn m node .finish
      { node with shared := node.shared.advance .maintenance node.pool none }
  | retain {block : SealedBlock P} {shard : ℕ} {shards : List ℕ} {blocks : List (SealedBlock P)} {tip : Header}
      (hcommitting : node.committing = some ⟨some ⟨block, [], shard :: shards⟩, blocks, tip⟩)
      (hfree : node.shared.calls .maintenance = none) : Turn m node .retain
        { node.withPool (node.pool.retainShard m shard block.sealedHeader) with
          committing := some ⟨if shards.isEmpty then none else some ⟨block, [], shards⟩, blocks, tip⟩ }
  | updateTip {tip : Header} (hcommitting : node.committing = some ⟨none, [], tip⟩) :
      Turn m node .updateTip { node with tipHeader := some tip, committing := none }
  | orderInclusionFailure (hash : B256) (error : ExecutionError P) :
      Turn m node (.orderInclusionFailure hash error)
      (node.withPool (node.pool.reportExecutionError hash error))

section Steps

variable {m : Shards} {node node' : Node T P} {event : NodeEvent T P}

lemma performs_eq {action : PoolAction (Task T) P} (h : node.performs action = some node') :
    ∃ shared, node.shared.step action = some shared ∧ node' = { node with shared := shared } := by
  obtain ⟨shared, hs, rfl⟩ := Option.map_eq_some_iff.mp h
  exact ⟨shared, hs, rfl⟩

lemma turn_sendBundle {t : T} {bundle : FlashbotsBundle P} (h : node.step m (.sendBundle t bundle) = some node') :
    Turn m node (.sendBundle t bundle) node' := by
  simp only [step] at h
  split at h
  · cases h
  · next hfree =>
    split at h
    · next hempty =>
      cases h
      exact .refused (.inl (List.isEmpty_iff.mp hempty))
    · next hempty =>
      split at h
      · next hineligible =>
        cases h
        exact .refused (.inr hineligible)
      · next hlive =>
        have haccepts : node.Accepts (.sendBundle t bundle) (t, bundle) :=
          ⟨rfl, hfree, fun hnil => hempty (List.isEmpty_iff.mpr hnil), Bool.not_eq_true _ ▸ hlive⟩
        simp only [performs, SharedPool.step, hfree, Option.map_some] at h
        cases h
        exact .accepted haccepts

lemma step_turn (h : node.Steps m event node') : Turn m node event node' := by
  rw [Steps] at h
  cases event with
  | attach host header =>
    simp only [step] at h
    split at h
    · cases h
    · cases h
      exact .attach host header
  | sendBundle t bundle => exact turn_sendBundle h
  | index t =>
    obtain ⟨shared, hs, rfl⟩ := performs_eq h
    simp only [SharedPool.step] at hs
    split at hs
    · next order indexed tx rest hcall =>
      cases hs
      exact .index hcall
    · cases hs
  | store t =>
    simp only [step, performs, SharedPool.step] at h
    split at h
    · next order indexed rest hcall =>
      rw [hcall] at h
      cases rest with
      | nil =>
        cases h
        exact .store hcall
      | cons tx rest => cases h
    · cases h
  | canonState chain =>
    simp only [step] at h
    split at h
    · next hidle =>
      cases h
      exact .canonState chain hidle
    · cases h
  | reportCommittedBlock =>
    simp only [step] at h
    split at h
    · next hcommitting =>
      cases h
      exact .reportCommittedBlock hcommitting
    · cases h
  | removeAnyWith =>
    simp only [step] at h
    split at h
    · next block tx txs shards blocks tip hcommitting =>
      cases hcall : node.shared.calls .maintenance with
      | none =>
        simp only [performs, SharedPool.step, hcall] at h
        cases h
        exact .removeAnyWith hcommitting hcall
      | some call =>
        simp only [performs, SharedPool.step, hcall] at h
        cases h
    · cases h
  | take =>
    obtain ⟨shared, hs, rfl⟩ := performs_eq h
    simp only [SharedPool.step] at hs
    split at hs
    · next tx hcall =>
      cases hs
      exact .take hcall
    · cases hs
  | remove hash =>
    obtain ⟨shared, hs, rfl⟩ := performs_eq h
    simp only [SharedPool.step] at hs
    split at hs
    · next listed hcall =>
      split at hs
      · next hlisted =>
        cases hs
        exact .remove hcall hlisted
      · cases hs
    · cases hs
  | finish =>
    obtain ⟨shared, hs, rfl⟩ := performs_eq h
    simp only [SharedPool.step] at hs
    split at hs
    · next listed hcall =>
      split at hs
      · next hempty =>
        cases hs
        exact .finish (hempty ▸ hcall)
      · cases hs
    · cases hs
  | retain =>
    simp only [step] at h
    split at h
    · next block shard shards blocks tip hcommitting hfree =>
      cases h
      exact .retain hcommitting hfree
    · cases h
  | updateTip =>
    simp only [step] at h
    split at h
    · next hcommitting =>
      cases h
      exact .updateTip hcommitting
    · cases h
  | orderInclusionFailure hash error =>
    cases h
    exact .orderInclusionFailure hash error

lemma inserting_step (h : node.Steps m event node') (request : T × FlashbotsBundle P) :
    node'.Inserting request ↔ node.Accepts event request ∨ node.Inserting request ∧
      ¬ node.Answers event request := by
  obtain ⟨t, bundle⟩ := request
  cases step_turn h with
  | @refused t' b hbad =>
    have hrefused : ¬ node.Accepts (.sendBundle t' b) (t, bundle) := by
      rintro ⟨he, -, hsome, hlive⟩
      cases he
      obtain hbad | hbad := hbad
      · exact hsome hbad
      · cases hlive.symm.trans hbad
    rw [or_iff_right hrefused, and_iff_left (by simp [Answers])]
    rfl
  | @accepted t' b haccepts =>
    rw [and_iff_left (by simp [Answers] : ¬ node.Answers (.sendBundle t' b) (t, bundle))]
    by_cases ht : t = t'
    · subst ht
      have hfree : ¬ node.Inserting (t, bundle) := by
        rintro ⟨indexed, rest, hcall⟩
        cases hcall.symm.trans haccepts.2.1
      rw [or_iff_left hfree]
      constructor
      · rintro ⟨indexed, rest, hcall⟩
        rw [SharedPool.calls_advance, if_pos rfl] at hcall
        cases hcall
        exact haccepts
      · rintro ⟨he, -⟩
        cases he
        exact ⟨[], _, by rw [SharedPool.calls_advance, if_pos rfl]⟩
    · have hother : ¬ node.Accepts (.sendBundle t' b) (t, bundle) := by
        rintro ⟨he, -⟩
        cases he
        exact ht rfl
      rw [or_iff_right hother]
      simp [Inserting, SharedPool.calls_advance, ht]
  | @index t' order indexed rest tx hcall =>
    rw [or_iff_right (fun ⟨he, _⟩ => by cases he), and_iff_left (by simp [Answers])]
    by_cases ht : t = t'
    · subst ht
      simp [Inserting, SharedPool.calls_advance, hcall]
    · simp [Inserting, SharedPool.calls_advance, ht]
  | @store t' order indexed hcall =>
    rw [or_iff_right (fun ⟨he, _⟩ => by cases he)]
    by_cases ht : t = t'
    · subst ht
      simp [Inserting, SharedPool.calls_advance, Answers, respond]
    · simp [Inserting, SharedPool.calls_advance, Answers, respond, ht, Ne.symm ht]
  | attach host header => simp [Inserting, Accepts, Answers, withPool]
  | canonState chain hidle => simp [Inserting, Accepts, Answers]
  | reportCommittedBlock hcommitting => simp [Inserting, Accepts, Answers]
  | removeAnyWith hcommitting hfree => simp [Inserting, Accepts, Answers, SharedPool.calls_advance]
  | take hcall => simp [Inserting, Accepts, Answers, SharedPool.calls_advance]
  | remove hcall hlisted => simp [Inserting, Accepts, Answers, SharedPool.calls_advance]
  | finish hcall => simp [Inserting, Accepts, Answers, SharedPool.calls_advance]
  | retain hcommitting hfree => simp [Inserting, Accepts, Answers, withPool]
  | updateTip hcommitting => simp [Inserting, Accepts, Answers]
  | orderInclusionFailure hash error => simp [Inserting, Accepts, Answers, withPool]

omit [DecidableEq T] in
lemma stores_store {t : T} {order other : Order P} {indexed : List B256}
    (hcall : node.shared.calls (.request t) = some (.insert order indexed [])) :
    node.Stores (.store t) other ↔ other = order := by
  constructor
  · rintro ⟨t', indexed', he, hcall'⟩
    cases he
    cases hcall.symm.trans hcall'
    rfl
  · rintro rfl
    exact ⟨t, indexed, rfl, hcall⟩

omit [DecidableEq T] in
lemma drops_store {t : T} {order other : Order P} {indexed : List B256}
    (hcall : node.shared.calls (.request t) = some (.insert order indexed [])) :
    node.Drops m (.store t) other ↔ order.hash = other.hash := by
  constructor
  · rintro (⟨t', order', indexed', he, hcall', hhash⟩ | he | ⟨_, _, _, _, he, -⟩ | ⟨_, he, -⟩)
    · cases he
      cases hcall.symm.trans hcall'
      exact hhash
    · cases he
    · cases he
    · cases he
  · exact fun hhash => .inl ⟨t, order, indexed, rfl, hcall, hhash⟩

omit [DecidableEq T] in
lemma drops_retain {block : SealedBlock P} {shard : ℕ} {shards : List ℕ} {blocks : List (SealedBlock P)}
    {tip : Header}
    (hcommitting : node.committing = some ⟨some ⟨block, [], shard :: shards⟩, blocks, tip⟩) {order : Order P} :
    node.Drops m .retain order ↔
      m.shardOf order.hash = shard ∧ order.isPermanentlyIneligible block.sealedHeader = true := by
  constructor
  · rintro (⟨_, _, _, he, -⟩ | he | ⟨block', shards', blocks', tip', -, hcommitting', hbad⟩ | ⟨_, he, -⟩)
    · cases he
    · cases he
    · cases hcommitting.symm.trans hcommitting'
      exact ⟨rfl, hbad⟩
    · cases he
  · rintro ⟨rfl, hbad⟩
    exact .inr (.inr (.inl ⟨block, shards, blocks, tip, rfl, hcommitting, hbad⟩))

omit [DecidableEq T] in
lemma drops_orderInclusionFailure {hash : B256} {error : ExecutionError P} {order : Order P} :
    node.Drops m (.orderInclusionFailure hash error) order ↔ hash = order.hash ∧ IsPermanent error := by
  constructor
  · rintro (⟨_, _, _, he, -⟩ | he | ⟨_, _, _, _, he, -⟩ | ⟨error', he, hpermanent⟩)
    · cases he
    · cases he
    · cases he
    · cases he
      exact ⟨rfl, hpermanent⟩
  · rintro ⟨rfl, hpermanent⟩
    exact .inr (.inr (.inr ⟨error, rfl, hpermanent⟩))

omit [DecidableEq T] in
lemma kept_of_store {t : T} {order other : Order P} {indexed : List B256}
    (hcall : node.shared.calls (.request t) = some (.insert order indexed [])) :
    (node.pool.store order).orders other.hash = some other ↔
      node.Stores (.store t) other ∨ node.pool.orders other.hash = some other ∧
        ¬ node.Drops m (.store t) other := by
  have hstored : (node.pool.store order).orders other.hash =
      if other.hash = order.hash then some order else node.pool.orders other.hash :=
    Function.update_apply node.pool.orders order.hash (some order) other.hash
  rw [stores_store hcall, drops_store hcall, hstored]
  by_cases hhash : other.hash = order.hash
  · rw [if_pos hhash, Option.some.injEq, eq_comm, or_iff_left fun hkept => hkept.2 hhash.symm]
  · rw [if_neg hhash, and_iff_left (Ne.symm hhash), or_iff_right]
    rintro rfl
    exact hhash rfl

omit [DecidableEq T] in
lemma kept_of_remove (hash : B256) (order : Order P) : (node.pool.remove hash).orders order.hash = some order ↔
    node.pool.orders order.hash = some order ∧ ¬ node.Drops m (.remove hash) order := by
  rw [OrderPool.orders_remove]
  by_cases hhash : order.hash = hash
  · simp [Drops, hhash]
  · simp [Drops, hhash, Ne.symm hhash]

omit [DecidableEq T] in
lemma kept_of_retain {block : SealedBlock P} {shard : ℕ} {shards : List ℕ} {blocks : List (SealedBlock P)}
    {tip : Header} (hcommitting : node.committing = some ⟨some ⟨block, [], shard :: shards⟩, blocks, tip⟩)
    (order : Order P) : (node.pool.retainShard m shard block.sealedHeader).orders order.hash = some order ↔
      node.pool.orders order.hash = some order ∧ ¬ node.Drops m .retain order := by
  rw [drops_retain hcommitting, OrderPool.retainShard]
  dsimp only
  by_cases hshard : m.shardOf order.hash = shard
  · rw [if_pos hshard, Option.filter_eq_some_iff, Bool.not_eq_true', ← Bool.not_eq_true, and_iff_right hshard]
  · rw [if_neg hshard, and_iff_left fun hdrops => hshard hdrops.1]

omit [DecidableEq T] in
lemma kept_of_failure (hash : B256) (error : ExecutionError P) (order : Order P) :
    (node.pool.reportExecutionError hash error).orders order.hash = some order ↔
      node.pool.orders order.hash = some order ∧ ¬ node.Drops m (.orderInclusionFailure hash error) order := by
  rw [drops_orderInclusionFailure]
  obtain ⟨hpermanent, heq⟩ | ⟨hpermanent, heq⟩ := OrderPool.reportExecutionError_cases hash error node.pool
  · rw [heq, OrderPool.orders_remove]
    by_cases hhash : order.hash = hash
    · simp [hhash, hpermanent]
    · simp [hhash, Ne.symm hhash]
  · simp [heq, hpermanent]

lemma orders_step (h : node.Steps m event node') (order : Order P) : node'.pool.orders order.hash = some order ↔
    node.Stores event order ∨ node.pool.orders order.hash = some order ∧ ¬ node.Drops m event order := by
  have hidle : (∀ t, event ≠ .store t) → (¬ node.Stores event order) := by
    rintro hne ⟨t, -, rfl, -⟩
    exact hne t rfl
  cases step_turn h with
  | store hcall => exact kept_of_store hcall
  | @remove hash listed hcall hlisted =>
    rw [or_iff_right (hidle fun t he => by cases he)]
    exact kept_of_remove hash order
  | retain hcommitting hfree =>
    rw [or_iff_right (hidle fun t he => by cases he)]
    exact kept_of_retain hcommitting order
  | orderInclusionFailure hash error =>
    rw [or_iff_right (hidle fun t he => by cases he)]
    exact kept_of_failure hash error order
  | attach host header => simp [Stores, Drops, pool, withPool]
  | refused hbad => simp [Stores, Drops, pool, respond]
  | accepted haccepts => simp [Stores, Drops, pool, SharedPool.advance]
  | index hcall => simp [Stores, Drops, pool, SharedPool.advance, OrderPool.indexUnder]
  | canonState chain hidle => simp [Stores, Drops, pool]
  | reportCommittedBlock hcommitting => simp [Stores, Drops, pool]
  | removeAnyWith hcommitting hfree => simp [Stores, Drops, pool, SharedPool.advance, OrderPool.removeTransaction]
  | take hcall => simp [Stores, Drops, pool, SharedPool.advance, OrderPool.takeIndex]
  | finish hcall => simp [Stores, Drops, pool, SharedPool.advance]
  | updateTip hcommitting => simp [Stores, Drops, pool]

lemma listed_step (h : node.Steps m event node') (entry : B256 × B256) :
    entry.2 ∈ node'.pool.listed entry.1 ↔
      node.Writes event entry ∨ entry.2 ∈ node.pool.listed entry.1 ∧ ¬ node.Takes event entry := by
  obtain ⟨tx, hash⟩ := entry
  cases step_turn h with
  | @index t order indexed rest tx' hcall =>
    have hwrites : node.Writes (.index t) (tx, hash) ↔ hash = order.hash ∧ tx = tx' := by
      constructor
      · rintro ⟨t', order', indexed', rest', he, hcall', rfl⟩
        cases he
        cases hcall.symm.trans hcall'
        exact ⟨rfl, rfl⟩
      · rintro ⟨rfl, rfl⟩
        exact ⟨t, order, indexed, rest, rfl, hcall, rfl⟩
    have hkeeps : ¬ node.Takes (.index t) (tx, hash) := by simp [Takes]
    rw [hwrites, and_iff_left hkeeps, or_comm]
    exact OrderPool.mem_listed_indexUnder node.pool tx' order.hash tx hash
  | @take tx' hcall =>
    have htakes : node.Takes .take (tx, hash) ↔ tx = tx' := by
      rw [Takes, hcall]
      simp [eq_comm]
    rw [htakes, or_iff_right (by simp [Writes])]
    by_cases ht : tx = tx'
    · simp [pool, SharedPool.advance, OrderPool.listed, OrderPool.takeIndex, ht]
    · simp [pool, SharedPool.advance, OrderPool.listed, OrderPool.takeIndex, ht]
  | orderInclusionFailure hash' error =>
    rw [or_iff_right (by simp [Writes]), and_iff_left (by simp [Takes])]
    obtain ⟨-, heq⟩ | ⟨-, heq⟩ := OrderPool.reportExecutionError_cases hash' error node.pool
    · rw [pool, withPool, heq]
      rfl
    · rw [pool, withPool, heq]
  | attach host header => simp [Writes, Takes, pool, withPool, OrderPool.listed]
  | refused hbad => simp [Writes, Takes, pool, respond]
  | accepted haccepts => simp [Writes, Takes, pool, SharedPool.advance]
  | store hcall => simp [Writes, Takes, pool, respond, SharedPool.advance, OrderPool.listed, OrderPool.store]
  | canonState chain hidle => simp [Writes, Takes, pool]
  | reportCommittedBlock hcommitting => simp [Writes, Takes, pool]
  | removeAnyWith hcommitting hfree =>
    simp [Writes, Takes, pool, SharedPool.advance, OrderPool.listed, OrderPool.removeTransaction]
  | remove hcall hlisted =>
    simp [Writes, Takes, pool, SharedPool.advance, OrderPool.listed, OrderPool.remove, OrderPool.removeTransaction]
  | finish hcall => simp [Writes, Takes, pool, SharedPool.advance]
  | retain hcommitting hfree => simp [Writes, Takes, pool, withPool, OrderPool.listed, OrderPool.retainShard]
  | updateTip hcommitting => simp [Writes, Takes, pool]

end Steps

section Runs

def sent (events : List (NodeEvent T P)) : List (FlashbotsBundle P) :=
  events.filterMap fun
    | .sendBundle _ bundle => some bundle
    | _ => none

def committed (events : List (NodeEvent T P)) : List (SealedBlock P) :=
  events.flatMap fun
    | .canonState chain => chain.blocks
    | _ => []

def Shares (bundles : List (FlashbotsBundle P)) (blocks : List (SealedBlock P)) (hash : B256) : Prop :=
  ∃ bundle ∈ bundles, bundle.hash = hash ∧ ∃ block ∈ blocks, ∃ tx ∈ (Order.bundle bundle).txHashes,
    tx ∈ block.transactions.map txHash

def LoopCall (bundles : List (FlashbotsBundle P)) (block : SealedBlock P) : PendingCall P → Prop
  | .insert _ _ _ => False
  | .removeAnyWith tx => tx ∈ block.transactions.map txHash
  | .removing listed => ∀ hash ∈ listed, Shares bundles [block] hash

structure Traced (bundles : List (FlashbotsBundle P)) (blocks : List (SealedBlock P))
    (node : Node T P) : Prop where
  keyed : ∀ {hash order}, node.pool.orders hash = some order → order.hash = hash
  inserting : ∀ {t order indexed rest}, node.shared.calls (.request t) = some (.insert order indexed rest) →
    indexed ++ rest = order.txHashes ∧ ∃ bundle ∈ bundles, order = .bundle bundle
  listed : ∀ {tx hash}, hash ∈ node.pool.listed tx →
    ∃ bundle ∈ bundles, bundle.hash = hash ∧ tx ∈ (Order.bundle bundle).txHashes
  committing : ∀ {c}, node.committing = some c → c.blocks ⊆ blocks ∧
    ∀ report, c.report = some report → report.block ∈ blocks ∧ report.txs ⊆ report.block.transactions.map txHash
  loop : ∀ {call}, node.shared.calls .maintenance = some call →
    ∃ c report, node.committing = some c ∧ c.report = some report ∧ LoopCall bundles report.block call

variable {m : Shards} {node node' : Node T P} {event : NodeEvent T P} {bundles : List (FlashbotsBundle P)}
  {blocks : List (SealedBlock P)}

lemma calls_request (s : SharedPool (Task T) P) (t : T) (pool : OrderPool P) (call : Option (PendingCall P)) :
    (s.advance .maintenance pool call).calls (.request t) = s.calls (.request t) := by
  simp [SharedPool.calls_advance]

lemma calls_maintenance (s : SharedPool (Task T) P) (t : T) (pool : OrderPool P) (call : Option (PendingCall P)) :
    (s.advance (.request t) pool call).calls .maintenance = s.calls .maintenance := by
  simp [SharedPool.calls_advance]

namespace Traced

variable (h : Traced bundles blocks node)

include h

lemma request {t : T} {pool : OrderPool P} {call : Option (PendingCall P)}
    (hkeyed : ∀ {hash order}, pool.orders hash = some order → order.hash = hash)
    (hlisted : ∀ {tx hash}, hash ∈ pool.listed tx →
      ∃ bundle ∈ bundles, bundle.hash = hash ∧ tx ∈ (Order.bundle bundle).txHashes)
    (hcall : ∀ {order indexed rest}, call = some (.insert order indexed rest) →
      indexed ++ rest = order.txHashes ∧ ∃ bundle ∈ bundles, order = .bundle bundle) :
    Traced bundles blocks { node with shared := node.shared.advance (.request t) pool call } := by
  refine ⟨hkeyed, fun {t' order indexed rest} hc => ?_, hlisted, h.committing, fun {call} hc => h.loop ?_⟩
  · by_cases ht : t' = t
    · subst ht
      rw [SharedPool.calls_advance, if_pos rfl] at hc
      exact hcall hc
    · have hne : (Task.request t') ≠ .request t := fun he => ht (Task.request.inj he)
      rw [SharedPool.calls_advance, if_neg hne] at hc
      exact h.inserting hc
  · rwa [calls_maintenance] at hc

lemma index {t : T} {order : Order P} {indexed rest : List B256} {tx : B256}
    (hcall : node.shared.calls (.request t) = some (.insert order indexed (tx :: rest))) :
    Traced bundles blocks { node with
      shared := node.shared.advance (.request t) (node.pool.indexUnder tx order.hash)
        (some (.insert order (indexed ++ [tx]) rest)) } := by
  obtain ⟨hwhole, bundle, hknown, rfl⟩ := h.inserting hcall
  refine h.request h.keyed (fun {tx' hash} hl => ?_) fun {order' indexed' rest'} he => ?_
  · obtain hl | ⟨rfl, rfl⟩ := (OrderPool.mem_listed_indexUnder _ _ _ _ _).mp hl
    · exact h.listed hl
    · refine ⟨bundle, hknown, rfl, ?_⟩
      rw [← hwhole]
      exact List.mem_append_right _ List.mem_cons_self
  · cases he
    exact ⟨by rw [List.append_assoc]; exact hwhole, bundle, hknown, rfl⟩

lemma store (t : T) (order : Order P) :
    Traced bundles blocks
      { node with shared := node.shared.advance (.request t) (node.pool.store order) none } := by
  refine h.request (fun {hash other} ho => ?_) h.listed fun he => by cases he
  simp only [OrderPool.store, Function.update_apply] at ho
  split at ho
  · next hhash =>
    cases ho
    exact hhash.symm
  · exact h.keyed ho

lemma maintenance {pool : OrderPool P} {call : Option (PendingCall P)} {c : Committing P} {report : BlockReport P}
    (hkeyed : ∀ {hash order}, pool.orders hash = some order → node.pool.orders hash = some order)
    (hlisted : ∀ tx, pool.listed tx ⊆ node.pool.listed tx) (hcommitting : node.committing = some c)
    (hreport : c.report = some report) (hcall : ∀ {next}, call = some next → LoopCall bundles report.block next) :
    Traced bundles blocks { node with shared := node.shared.advance .maintenance pool call } := by
  refine ⟨fun ho => h.keyed (hkeyed ho), fun hc => ?_, fun hl => h.listed (hlisted _ hl), h.committing,
    fun {next} hc => ⟨c, report, hcommitting, hreport, hcall ?_⟩⟩
  · rw [calls_request] at hc
    exact h.inserting hc
  · rwa [SharedPool.calls_advance, if_pos rfl] at hc

lemma take {tx : B256} (hcall : node.shared.calls .maintenance = some (.removeAnyWith tx)) :
    Traced bundles blocks { node with
      shared := node.shared.advance .maintenance (node.pool.takeIndex tx)
        (some (.removing (node.pool.listed tx))) } := by
  obtain ⟨c, report, hcommitting, hreport, htx⟩ := h.loop hcall
  refine h.maintenance id (fun tx' hash hl => ?_) hcommitting hreport fun he => ?_
  · simp only [OrderPool.listed, OrderPool.takeIndex, Function.update_apply] at hl
    split at hl
    · cases hl
    · exact hl
  · cases he
    intro hash hl
    obtain ⟨bundle, hknown, hhash, hmem⟩ := h.listed hl
    exact ⟨bundle, hknown, hhash, report.block, List.mem_singleton_self _, tx, hmem, htx⟩

lemma remove {hash : B256} {listed : Finset B256}
    (hcall : node.shared.calls .maintenance = some (.removing listed)) :
    Traced bundles blocks { node with
      shared := node.shared.advance .maintenance (node.pool.remove hash)
        (some (.removing (listed.erase hash))) } := by
  obtain ⟨c, report, hcommitting, hreport, hshares⟩ := h.loop hcall
  refine h.maintenance (fun {i order} ho => ?_) (fun tx => Finset.Subset.refl _) hcommitting hreport fun he => ?_
  · rw [OrderPool.orders_remove] at ho
    split at ho
    · cases ho
    · exact ho
  · cases he
    exact fun i hi => hshares i (Finset.mem_of_mem_erase hi)

lemma finish (hcall : node.shared.calls .maintenance = some (.removing ∅)) :
    Traced bundles blocks { node with shared := node.shared.advance .maintenance node.pool none } := by
  obtain ⟨c, report, hcommitting, hreport, -⟩ := h.loop hcall
  exact h.maintenance id (fun tx => Finset.Subset.refl _) hcommitting hreport fun he => by cases he

lemma removeAnyWith {block : SealedBlock P} {tx : B256} {txs : List B256} {shards : List ℕ}
    {rest : List (SealedBlock P)} {tip : Header}
    (hcommitting : node.committing = some ⟨some ⟨block, tx :: txs, shards⟩, rest, tip⟩) :
    Traced bundles blocks { node with
      shared := node.shared.advance .maintenance (node.pool.removeTransaction tx) (some (.removeAnyWith tx))
      committing := some ⟨some ⟨block, txs, shards⟩, rest, tip⟩ } := by
  obtain ⟨hrest, hreport⟩ := h.committing hcommitting
  obtain ⟨hblock, htxs⟩ := hreport _ rfl
  refine ⟨h.keyed, fun hc => ?_, h.listed, fun {c} hc => ?_, fun {call} hc => ?_⟩
  · rw [calls_request] at hc
    exact h.inserting hc
  · cases hc
    refine ⟨hrest, fun report hr => ?_⟩
    cases hr
    exact ⟨hblock, fun tx' htx' => htxs (List.mem_cons_of_mem _ htx')⟩
  · rw [SharedPool.calls_advance, if_pos rfl] at hc
    cases hc
    exact ⟨_, _, rfl, rfl, htxs List.mem_cons_self⟩

omit [DecidableEq T] in
lemma between {pool : OrderPool P} {tipHeader : Option Header} {committing : Option (Committing P)}
    (hkeyed : ∀ {hash order}, pool.orders hash = some order → node.pool.orders hash = some order)
    (hlisted : ∀ tx, pool.listed tx ⊆ node.pool.listed tx) (hfree : node.shared.calls .maintenance = none)
    (hcommitting : ∀ c, committing = some c → c.blocks ⊆ blocks ∧
      ∀ report, c.report = some report → report.block ∈ blocks ∧
        report.txs ⊆ report.block.transactions.map txHash) :
    Traced bundles blocks { node.withPool pool with tipHeader := tipHeader, committing := committing } := by
  refine ⟨fun ho => h.keyed (hkeyed ho), h.inserting, fun hl => h.listed (hlisted _ hl),
    fun {c} hc => hcommitting c hc, fun {call} hc => ?_⟩
  cases hfree.symm.trans hc

omit [DecidableEq T] in
lemma orderInclusionFailure (hash : B256) (error : ExecutionError P) :
    Traced bundles blocks (node.withPool (node.pool.reportExecutionError hash error)) := by
  obtain ⟨-, heq⟩ | ⟨-, heq⟩ := OrderPool.reportExecutionError_cases hash error node.pool
  · rw [heq]
    refine ⟨fun {i order} ho => h.keyed (?_ : node.pool.orders i = some order), h.inserting,
      h.listed, h.committing, h.loop⟩
    rw [pool, withPool, OrderPool.orders_remove] at ho
    split at ho
    · cases ho
    · exact ho
  · rw [heq]
    exact h

end Traced

omit [DecidableEq T] in
lemma Traced.free (h : Traced bundles blocks node) (hidle : ∀ c, node.committing = some c → c.report = none) :
    node.shared.calls .maintenance = none := by
  cases hc : node.shared.calls .maintenance with
  | none => rfl
  | some call =>
    obtain ⟨c, report, hcommitting, hreport, -⟩ := h.loop hc
    rw [hidle c hcommitting] at hreport
    cases hreport

lemma Traced.step (h : Traced bundles blocks node)
    (hsent : ∀ t bundle, event = .sendBundle t bundle → bundle ∈ bundles)
    (hcommitted : ∀ chain, event = .canonState chain → chain.blocks ⊆ blocks) (hstep : node.Steps m event node') :
    Traced bundles blocks node' := by
  cases step_turn hstep with
  | attach host header => exact ⟨h.keyed, h.inserting, h.listed, h.committing, h.loop⟩
  | refused hbad => exact ⟨h.keyed, h.inserting, h.listed, h.committing, h.loop⟩
  | @accepted t bundle haccepts =>
    refine h.request h.keyed h.listed fun {order indexed rest} he => ?_
    cases he
    exact ⟨rfl, bundle, hsent t bundle rfl, rfl⟩
  | index hcall => exact h.index hcall
  | @store t order indexed hcall =>
    have hs := h.store t order
    exact ⟨hs.keyed, hs.inserting, hs.listed, hs.committing, hs.loop⟩
  | canonState chain hidle =>
    refine h.between id (fun _ => Finset.Subset.refl _) (h.free fun c hc => ?_) fun c hc => ?_
    · cases hidle.symm.trans hc
    · cases hc
      exact ⟨hcommitted chain rfl, fun report hr => by cases hr⟩
  | @reportCommittedBlock block rest tip hcommitting =>
    refine h.between id (fun _ => Finset.Subset.refl _) (h.free fun c hc => ?_) fun c hc => ?_
    · cases hcommitting.symm.trans hc
      rfl
    · obtain ⟨hrest, -⟩ := h.committing hcommitting
      cases hc
      refine ⟨fun b hb => hrest (List.mem_cons_of_mem _ hb), fun report hr => ?_⟩
      cases hr
      exact ⟨hrest List.mem_cons_self, List.Subset.refl _⟩
  | removeAnyWith hcommitting hfree => exact h.removeAnyWith hcommitting
  | take hcall => exact h.take hcall
  | remove hcall hlisted => exact h.remove hcall
  | finish hcall => exact h.finish hcall
  | @retain block shard shards rest tip hcommitting hfree =>
    obtain ⟨hrest, hreport⟩ := h.committing hcommitting
    refine h.between (fun {hash order} ho => ?_) (fun _ => Finset.Subset.refl _) hfree fun c hc => ?_
    · simp only [OrderPool.retainShard] at ho
      split at ho
      · exact (Option.filter_eq_some_iff.mp ho).1
      · exact ho
    · cases hc
      refine ⟨hrest, fun report hr => ?_⟩
      dsimp only at hr
      split at hr
      · cases hr
      · cases hr
        exact ⟨(hreport _ rfl).1, List.nil_subset _⟩
  | @updateTip tip hcommitting =>
    refine h.between id (fun _ => Finset.Subset.refl _) (h.free fun c hc => ?_) fun c hc => by cases hc
    cases hcommitting.symm.trans hc
    rfl
  | orderInclusionFailure hash error => exact h.orderInclusionFailure hash error

omit [DecidableEq T] in
lemma traced_start (bundles : List (FlashbotsBundle P)) (blocks : List (SealedBlock P)) :
    Traced bundles blocks ({} : Node T P) := by
  refine ⟨fun ho => ?_, fun hc => ?_, fun hl => ?_, fun hc => ?_, fun hc => ?_⟩
  · cases ho
  · cases hc
  · cases hl
  · cases hc
  · cases hc

lemma traced_run {events : List (NodeEvent T P)} (hrun : Path (Steps m) {} events node) :
    Traced (sent events) (committed events) node := by
  refine (hrun.forall_mem (Q := fun _ => True) (traced_start _ _) fun h hmem hstep => ⟨?_, trivial⟩).1
  refine h.step (fun t bundle he => ?_) (fun chain he => ?_) hstep
  · subst he
    exact List.mem_filterMap.mpr ⟨_, hmem, rfl⟩
  · subst he
    exact fun block hb => List.mem_flatMap.mpr ⟨_, hmem, hb⟩

/-- The bundle is sent by `t` after `asked` and stays in the pool once it is stored. -/
structure Lifetime (m : Shards) (node : Node T P) (t : T) (bundle : FlashbotsBundle P)
    (asked waiting kept : List (NodeEvent T P)) (checked pending pending' inserted : Node T P) : Prop where
  asked : Path (Steps m) {} asked checked
  accepts : checked.Accepts (.sendBundle t bundle) (t, bundle)
  sent : checked.Steps m (.sendBundle t bundle) pending
  waiting : Path (Leaving (Steps m) Answers (t, bundle)) pending waiting pending'
  stored : pending'.Steps m (.store t) inserted
  kept : Path (Leaving (Steps m) (Drops m) (.bundle bundle)) inserted kept node

lemma inserting_iff {events : List (NodeEvent T P)} (hrun : Path (Steps m) {} events node)
    (request : T × FlashbotsBundle P) :
    node.Inserting request ↔ PutSince (Steps m) Accepts Answers {} events node request := by
  have hstep : ∀ (node : Node T P) event (node' : Node T P) (request : T × FlashbotsBundle P), True →
      node.Steps m event node' → (node'.Inserting request ↔ node.Accepts event request ∨
        node.Inserting request ∧ ¬ node.Answers event request) :=
    fun _ _ _ request _ h => inserting_step h request
  rw [held_iff (fun _ _ _ _ _ _ => trivial) hstep trivial hrun, or_iff_left]
  rintro ⟨⟨_, _, hnone⟩, -⟩
  cases hnone

lemma stored_since_iff {events : List (NodeEvent T P)} (hrun : Path (Steps m) {} events node) (order : Order P) :
    node.pool.orders order.hash = some order ↔
      PutSince (Steps m) Stores (Drops m) {} events node order := by
  have hstep : ∀ (node : Node T P) event (node' : Node T P) (order : Order P), True → node.Steps m event node' →
      (node'.pool.orders order.hash = some order ↔ node.Stores event order ∨
        node.pool.orders order.hash = some order ∧ ¬ node.Drops m event order) :=
    fun _ _ _ order _ h => orders_step h order
  rw [held_iff (fun _ _ _ _ _ _ => trivial) hstep trivial hrun, or_iff_left]
  rintro ⟨hnone, -⟩
  cases hnone

lemma listed_since_iff {events : List (NodeEvent T P)} (hrun : Path (Steps m) {} events node) (tx hash : B256) :
    hash ∈ node.pool.listed tx ↔ PutSince (Steps m) Writes Takes {} events node (tx, hash) := by
  have hstep : ∀ (node : Node T P) event (node' : Node T P) (entry : B256 × B256), True →
    node.Steps m event node' →
      (entry.2 ∈ node'.pool.listed entry.1 ↔ node.Writes event entry ∨
        entry.2 ∈ node.pool.listed entry.1 ∧ ¬ node.Takes event entry) :=
    fun _ _ _ entry _ h => listed_step h entry
  have hheld := held_iff (v := (tx, hash)) (fun _ _ _ _ _ _ => trivial) hstep trivial hrun
  rw [hheld, or_iff_left]
  rintro ⟨hnone, -⟩
  cases hnone

lemma request_step {t : T} {order : Order P} {indexed rest : List B256}
    (hcall : node.shared.calls (.request t) = some (.insert order indexed rest)) (h : node.Steps m event node')
    (hne : event ≠ .store t) :
    ∃ indexed' rest', node'.shared.calls (.request t) = some (.insert order indexed' rest') ∧
      indexed' ++ rest' = indexed ++ rest ∧
      ∀ tx ∈ indexed', tx ∈ indexed ∨ node.Writes event (tx, order.hash) := by
  have hsame (he : node'.shared.calls (.request t) = node.shared.calls (.request t)) :
      ∃ indexed' rest', node'.shared.calls (.request t) = some (.insert order indexed' rest') ∧
        indexed' ++ rest' = indexed ++ rest ∧ ∀ tx ∈ indexed', tx ∈ indexed ∨ node.Writes event (tx, order.hash) :=
    ⟨indexed, rest, he.trans hcall, rfl, fun tx htx => .inl htx⟩
  have hother : ∀ {t' : T} (pool : OrderPool P) (call : Option (PendingCall P)), t' ≠ t →
      (node.shared.advance (.request t') pool call).calls (.request t) = node.shared.calls (.request t) := by
    intro t' pool call ht
    rw [SharedPool.calls_advance, if_neg fun he => ht (Task.request.inj he).symm]
  cases step_turn h with
  | @accepted t' bundle haccepts =>
    refine hsame (hother _ _ ?_)
    rintro rfl
    cases haccepts.2.1.symm.trans hcall
  | @index t' order' indexed' rest' tx hcall' =>
    by_cases ht : t' = t
    · subst ht
      cases hcall.symm.trans hcall'
      refine ⟨indexed ++ [tx], rest', by rw [SharedPool.calls_advance, if_pos rfl], List.append_assoc _ _ _,
        fun x hx => ?_⟩
      obtain hx | hx := List.mem_append.mp hx
      · exact .inl hx
      · cases List.mem_singleton.mp hx
        exact .inr ⟨t', order, indexed, rest', rfl, hcall, rfl⟩
    · exact hsame (hother _ _ ht)
  | @store t' order' indexed' hcall' => exact hsame (hother _ _ fun ht => hne (ht ▸ rfl))
  | attach host header => exact hsame rfl
  | refused hbad => exact hsame rfl
  | canonState chain hidle => exact hsame rfl
  | reportCommittedBlock hcommitting => exact hsame rfl
  | removeAnyWith hcommitting hfree => exact hsame (calls_request _ _ _ _)
  | take hcall' => exact hsame (calls_request _ _ _ _)
  | remove hcall' hlisted => exact hsame (calls_request _ _ _ _)
  | finish hcall' => exact hsame (calls_request _ _ _ _)
  | retain hcommitting hfree => exact hsame rfl
  | updateTip hcommitting => exact hsame rfl
  | orderInclusionFailure hash error => exact hsame rfl

lemma listed_of_stored {t : T} {order : Order P} {indexed rest : List B256} {tx : B256}
    {events : List (NodeEvent T P)} (hcall : node.shared.calls (.request t) = some (.insert order indexed rest))
    (htx : tx ∈ indexed ++ rest) (hwritten : tx ∈ indexed → order.hash ∈ node.pool.listed tx)
    (hstored : .store t ∈ events) (hrun : Path (Leaving (Steps m) Takes (tx, order.hash)) node events node') :
    order.hash ∈ node'.pool.listed tx := by
  have hstays : ∀ (node : Node T P) event (node' : Node T P) (entry : B256 × B256), True →
    node.Steps m event node' →
      (entry.2 ∈ node'.pool.listed entry.1 ↔ node.Writes event entry ∨
        entry.2 ∈ node.pool.listed entry.1 ∧ ¬ node.Takes event entry) :=
    fun _ _ _ entry _ h => listed_step h entry
  induction hrun generalizing indexed rest with
  | nil node => cases hstored
  | @cons node node₁ node' event events hone hrest ih =>
    by_cases hevent : event = .store t
    · subst hevent
      have hdone : rest = [] := by
        cases step_turn hone.1 with
        | store hcall' =>
          cases hcall.symm.trans hcall'
          rfl
      subst hdone
      rw [List.append_nil] at htx
      have hlisted : order.hash ∈ node₁.pool.listed tx :=
        (hstays _ _ _ (tx, order.hash) trivial hone.1).mpr (.inr ⟨hwritten htx, hone.2⟩)
      exact held_of_leaving (v := (tx, order.hash)) (fun _ _ _ _ _ _ => trivial) hstays trivial hlisted hrest
    · obtain ⟨indexed', rest', hcall', hwhole, hnew⟩ := request_step hcall hone.1 hevent
      refine ih hcall' (hwhole ▸ htx) (fun htx' => ?_)
        ((List.mem_cons.mp hstored).resolve_left fun he => hevent he.symm)
      refine (hstays _ _ _ (tx, order.hash) trivial hone.1).mpr ?_
      obtain hold | hwrites := hnew tx htx'
      · exact .inr ⟨hwritten hold, hone.2⟩
      · exact .inl hwrites

/-- What the pool of a node holds. A bundle is stored just when a request was accepted and nothing
has dropped it since; what the loop drops shares a transaction with a committed block; the index
lists what was written and not taken since, so that a stored bundle is listed under each transaction
of which the loop has not taken the entry since the request. -/
structure Accounts (m : Shards) (events : List (NodeEvent T P)) (node : Node T P) : Prop where
  stored : ∀ hash order, node.pool.orders hash = some order ↔
    ∃ t bundle asked waiting kept checked pending pending' inserted, order = .bundle bundle ∧ bundle.hash = hash ∧
      events = asked ++ .sendBundle t bundle :: waiting ++ .store t :: kept ∧
      Lifetime m node t bundle asked waiting kept checked pending pending' inserted
  removed : ∀ before hash after, events = before ++ .remove hash :: after →
    Shares (sent before) (committed before) hash
  listed : ∀ tx hash, hash ∈ node.pool.listed tx ↔ PutSince (Steps m) Writes Takes {} events node (tx, hash)
  found : ∀ t bundle asked waiting kept checked pending pending' inserted,
    Lifetime m node t bundle asked waiting kept checked pending pending' inserted →
      ∀ tx ∈ (Order.bundle bundle).txHashes,
        Path (Leaving (Steps m) Takes (tx, bundle.hash)) pending (waiting ++ .store t :: kept) node →
          bundle.hash ∈ node.pool.listed tx

lemma stored_iff {events : List (NodeEvent T P)} (hrun : Path (Steps m) {} events node) (hash : B256)
    (order : Order P) : node.pool.orders hash = some order ↔
      ∃ t bundle asked waiting kept checked pending pending' inserted, order = .bundle bundle ∧
        bundle.hash = hash ∧
        events = asked ++ .sendBundle t bundle :: waiting ++ .store t :: kept ∧
        Lifetime m node t bundle asked waiting kept checked pending pending' inserted := by
  constructor
  · intro ho
    obtain rfl := (traced_run hrun).keyed ho
    obtain ⟨before, event, kept, pending', inserted, rfl, hbefore, hstore, ⟨t, indexed, rfl, hcall⟩, hkept⟩ :=
      (stored_since_iff hrun order).mp ho
    obtain ⟨-, bundle, -, rfl⟩ := (traced_run hbefore).inserting hcall
    obtain ⟨asked, event, waiting, checked, pending, rfl, hasked, hsend, haccepts, hwaiting⟩ :=
      (inserting_iff hbefore (t, bundle)).mp ⟨indexed, [], hcall⟩
    obtain rfl : event = .sendBundle t bundle := haccepts.1
    exact ⟨t, bundle, asked, waiting, kept, checked, pending, pending', inserted, rfl, rfl, rfl,
      hasked, haccepts, hsend, hwaiting, hstore, hkept⟩
  · rintro ⟨t, bundle, asked, waiting, kept, checked, pending, pending', inserted, rfl, rfl, rfl, hlife⟩
    have hbefore : Path (Steps m) {} (asked ++ .sendBundle t bundle :: waiting) pending' :=
      hlife.asked.append (.cons hlife.sent (path_of_leaving hlife.waiting))
    obtain ⟨indexed, rest, hcall⟩ := (inserting_iff hbefore (t, bundle)).mpr
      ⟨asked, _, waiting, checked, pending, rfl, hlife.asked, hlife.sent, hlife.accepts, hlife.waiting⟩
    have hstores : pending'.Stores (.store t) (.bundle bundle) := by
      cases step_turn hlife.stored with
      | store hcall' =>
        cases hcall.symm.trans hcall'
        exact ⟨t, indexed, rfl, hcall⟩
    exact (stored_since_iff hrun (.bundle bundle)).mpr
      ⟨_, _, kept, pending', inserted, rfl, hbefore, hlife.stored, hstores, hlife.kept⟩

theorem pool_accounted (m : Shards) (events : List (NodeEvent T P)) (node : Node T P)
    (hrun : Path (Steps m) {} events node) : Accounts m events node := by
  refine ⟨stored_iff hrun, fun before hash after he => ?_, listed_since_iff hrun,
    fun t bundle asked waiting kept checked pending pending' inserted hlife tx htx hpath => ?_⟩
  · subst he
    obtain ⟨node₁, hbefore, hrest⟩ := hrun.split
    cases hrest with
    | cons hstep _ =>
      cases step_turn hstep with
      | remove hcall hlisted =>
        have htraced := traced_run hbefore
        obtain ⟨c, report, hcommitting, hreport, hshares⟩ := htraced.loop hcall
        obtain ⟨bundle, hbundle, hhash, block, hblock, hmem⟩ := hshares hash hlisted
        cases List.mem_singleton.mp hblock
        exact ⟨bundle, hbundle, hhash, report.block, ((htraced.committing hcommitting).2 report hreport).1, hmem⟩
  · have hcall : pending.shared.calls (.request t) =
        some (.insert (.bundle bundle) [] (Order.bundle bundle).txHashes) := by
      cases step_turn hlife.sent with
      | refused hbad =>
        obtain ⟨-, -, hsome, hlive⟩ := hlife.accepts
        obtain hbad | hbad := hbad
        · exact absurd hbad hsome
        · cases hlive.symm.trans hbad
      | accepted haccepts => rw [SharedPool.calls_advance, if_pos rfl]
    exact listed_of_stored hcall htx (fun hnil => by cases hnil)
      (List.mem_append_right _ List.mem_cons_self) hpath

end Runs

section Examples

open Payload.Devnet OrderPool

def paired : FlashbotsBundle Devnet := (FlashbotsBundle.default.withTransaction firstTx).withTransaction secondTx

def twoShards : Shards where
  count := 2
  shardOf hash := hash % 2
  shardOf_lt _ := Nat.mod_lt _ two_pos

def pairedEvents : List (NodeEvent ℕ Devnet) :=
  [.attach ⟨∅⟩ ⟨0, 0⟩, .sendBundle 0 paired, .index 0, .canonState ⟨[⟨⟨1, 12⟩, [secondTx]⟩], List.cons_ne_nil _ _⟩,
    .reportCommittedBlock, .removeAnyWith, .take, .index 0, .finish, .retain, .store 0, .retain, .updateTip]

theorem paired_accounted : ∃ node : Node ℕ Devnet, Path (Steps twoShards) {} pairedEvents node ∧
    Accounts twoShards pairedEvents node ∧ node.pool.orders paired.hash = some (.bundle paired) := by
  have hsome : ((pairedEvents.foldlM (step twoShards) {}).bind fun node =>
      node.pool.orders paired.hash).isSome = true := by decide +kernel
  obtain ⟨order, horder⟩ := Option.isSome_iff_exists.mp hsome
  obtain ⟨node, hnode, hstored⟩ := Option.bind_eq_some_iff.mp horder
  have hrun : Path (Steps twoShards) {} pairedEvents node := path_of_foldlM hnode
  have haccounts := pool_accounted twoShards pairedEvents node hrun
  obtain ⟨t, bundle, asked, waiting, kept, _, _, _, _, rfl, -, hevents, -⟩ := (haccounts.stored _ _).mp hstored
  have hmem : .sendBundle t bundle ∈ pairedEvents := by
    rw [hevents]
    exact List.mem_append_left _ (List.mem_append_right _ List.mem_cons_self)
  obtain ⟨rfl, rfl⟩ : t = 0 ∧ bundle = paired := by simpa [pairedEvents] using hmem
  exact ⟨node, hrun, haccounts, hstored⟩

end Examples

end Node

end Rblib.Pool
