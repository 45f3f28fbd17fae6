import Rblib.Library.MultiMap
import Rblib.Payload.Checkpoint
import Rblib.Pipelines.Executor

/-! The step that sorts the staged orders by a score while it keeps the nonce order of every signer,
`steps/ordering/mod.rs`. `HashMap`s that are iterated are lists of entries visited in an arbitrary
order; the two loops are bounded by the number of entries they can still look at, and `blocked` is
the nonce loop of `pop_best`, `none` for an early return. -/

namespace Rblib.Steps

open Platform PlatformTypes Payload Pipelines Library

variable {P Score ε : Type} [PlatformTypes P] [LinearOrder Score]

structure MapOrder (α : Type) where
  list : List α → List α
  perm : ∀ l, (list l).Perm l

instance {α : Type} : Inhabited (MapOrder α) := ⟨⟨id, fun _ => .refl _⟩⟩

structure SortedOrders (P Score : Type) [PlatformTypes P] where
  bySigner : MultiMap Address B256
  byScore : MultiMap Score B256
  nonces : MultiMap Address ℕ
  allOrders : List (B256 × Checkpoint P)

namespace SortedOrders

def insertOrder (orders : List (B256 × Checkpoint P)) (e : B256 × Checkpoint P) : List (B256 × Checkpoint P) :=
  orders.filter (fun o => o.1 ≠ e.1) ++ [e]

def executables (span : List (Checkpoint P)) : List (Checkpoint P) :=
  span.filter fun checkpoint => !checkpoint.isBarrier

def collectOrders (span : List (Checkpoint P)) : List (B256 × Checkpoint P) :=
  ((executables span).filterMap fun checkpoint => checkpoint.hash.map (·, checkpoint)).foldl insertOrder []

def indexScores (score : Checkpoint P → Except ε Score) :
    List (B256 × Checkpoint P) → MultiMap Score B256 → Except ε (MultiMap Score B256)
  | [], byScore => .ok byScore
  | (hash, checkpoint) :: rest, byScore =>
    match score checkpoint with
    | .error e => .error e
    | .ok s => indexScores score rest (byScore.insert s hash)

def tryFrom (score : Checkpoint P → Except ε Score) (visit : MapOrder (B256 × Checkpoint P))
    (span : List (Checkpoint P)) : Except ε (SortedOrders P Score) := do
  let allOrders := collectOrders span
  let bySigner := ((visit.list allOrders).flatMap fun o => o.2.transactions.map fun tx => (signer tx, o.1)).foldl
    (fun acc e => acc.insert e.1 e.2) MultiMap.empty
  let byScore ← indexScores score (visit.list allOrders) MultiMap.empty
  let nonces := ((visit.list allOrders).flatMap fun o => o.2.nonces).foldl
    (fun acc e => acc.insert e.1 e.2) MultiMap.empty
  return { bySigner, byScore, nonces, allOrders }

def order (s : SortedOrders P Score) (hash : B256) : Option (Checkpoint P) :=
  (s.allOrders.find? fun o => o.1 = hash).map Prod.snd

def nthOrder : List (Score × Finset B256) → ℕ → Option (Score × B256)
  | [], _ => none
  | (score, orders) :: rest, skip =>
    if skip < orders.card then (ascending orders)[skip]?.map (score, ·)
    else nthOrder rest (skip - orders.card)

def nthOrderByScore (s : SortedOrders P Score) (skip : ℕ) : Option (Score × B256) :=
  nthOrder ((ascending s.byScore.keys).reverse.map fun score => (score, s.byScore.values score)) skip

def blocked (s : SortedOrders P Score) : List (Address × ℕ) → Option Bool
  | [] => some false
  | (signer, nonce) :: rest => do
    let nonces ← s.nonces.get? signer
    let lowest ← (ascending nonces).head?
    if lowest < nonce then return true else s.blocked rest

def bestOrder (s : SortedOrders P Score) : ℕ → ℕ → Option (Checkpoint P × Score)
  | 0, _ => none
  | fuel + 1, skip => do
    let (score, orderHash) ← s.nthOrderByScore skip
    let order ← s.order orderHash
    if ← s.blocked order.nonces then s.bestOrder fuel (skip + 1) else return (order, score)

def removeOrder (order : Checkpoint P) (score : Score) (s : SortedOrders P Score) : SortedOrders P Score :=
  match order.hash with
  | none => s
  | some orderHash =>
    { nonces := order.nonces.foldl (fun nonces e => nonces.erase e.1 e.2) s.nonces
      byScore := s.byScore.erase score orderHash
      bySigner := order.signers.foldl (fun bySigner signer => bySigner.erase signer orderHash) s.bySigner
      allOrders := s.allOrders.filter fun o => o.1 ≠ orderHash }

def popBest (s : SortedOrders P Score) : Option (Checkpoint P × SortedOrders P Score) :=
  (s.bestOrder s.byScore.ranking.length 0).map fun best => (best.1, s.removeOrder best.1 best.2)

def drain : ℕ → SortedOrders P Score → List (Checkpoint P)
  | 0, _ => []
  | fuel + 1, s =>
    match s.popBest with
    | none => []
    | some (order, s') => order :: drain fuel s'

def intoIter (s : SortedOrders P Score) : List (Checkpoint P) := drain s.allOrders.length s

end SortedOrders

inductive OrderByPanic
  | invalidIndex
  | lengthChanged
  deriving DecidableEq

inductive OrderByError (P ε : Type) [PlatformTypes P]
  | score (error : ε)
  | execution (error : ExecutionError P)

namespace OrderBy

def reapply (fresh : ℕ → ℕ × ℕ) : List (Checkpoint P) → Checkpoint P → Except (ExecutionError P) (Checkpoint P)
  | [], orderedPrefix => .ok orderedPrefix
  | item :: rest, orderedPrefix => do
    let executable ← item.tryIntoExecutable
    let checkpoint ← orderedPrefix.apply executable (fresh rest.length).1 (fresh rest.length).2
    reapply fresh rest checkpoint

def step (score : Checkpoint P → Except ε Score) (visit : MapOrder (B256 × Checkpoint P)) (fresh : ℕ → ℕ × ℕ)
    (payload : Checkpoint P) :
    Except OrderByPanic (ControlFlow (Checkpoint P) (OrderByError P ε)) :=
  let history := payload.historyStaging
  match SortedOrders.tryFrom score visit history with
  | .error e => .ok (.fail (.score e))
  | .ok sorted =>
    let ordered := sorted.intoIter
    match (history.zip ordered).findIdx? fun e => e.1.hash ≠ e.2.hash with
    | none => .ok (.ok payload)
    | some firstOutOfOrder =>
      match history[firstOutOfOrder]? with
      | none => .error .invalidIndex
      | some orderedPrefix =>
        match reapply fresh (ordered.drop firstOutOfOrder) orderedPrefix with
        | .error e => .ok (.fail (.execution e))
        | .ok orderedPrefix =>
          if orderedPrefix.depth = payload.depth then .ok (.ok orderedPrefix)
          else .error .lengthChanged

end OrderBy

end Rblib.Steps
