import Rblib.Orderpool2.SimTree

/-! The state of the simulation tree: what a lookup of the nonces of an order finds, and what
becomes of the orders that wait for a nonce. -/

namespace Rblib.Orderpool2.SimTree

open Payload OrderpoolOrder

section Required

variable (onchain : Address → ℕ)

def Stale (ns : List BundleNonce) : Prop := ∃ n ∈ ns, n.optional = false ∧ n.nonce < onchain n.address

def requiredFrom : List BundleNonce → Finset Address → List AccountNonce
  | [], _ => []
  | n :: ns, seen =>
    if onchain n.address = n.nonce then requiredFrom ns (insert n.address seen)
    else if n.nonce < onchain n.address then requiredFrom ns seen
    else if n.address ∈ seen then requiredFrom ns seen
    else n.accountNonce :: requiredFrom ns (insert n.address seen)

def required {ID Order : Type} [OrderpoolOrder Order ID] (order : Order) : List AccountNonce :=
  requiredFrom onchain (nonces order) ∅

variable {onchain}

lemma account_requiredFrom {ns : List BundleNonce} {seen : Finset Address} {k : AccountNonce}
    (h : k ∈ requiredFrom onchain ns seen) : k.account ∉ seen := by
  induction ns generalizing seen with
  | nil => cases h
  | cons n ns ih =>
    rw [requiredFrom] at h
    split at h
    · exact fun hk => ih h (Finset.mem_insert_of_mem hk)
    · split at h
      · exact ih h
      · split at h
        · exact ih h
        · next hseen =>
          obtain rfl | h := List.mem_cons.mp h
          · exact hseen
          · exact fun hk => ih h (Finset.mem_insert_of_mem hk)

lemma requiredFrom_nodup (ns : List BundleNonce) (seen : Finset Address) :
    (requiredFrom onchain ns seen).Nodup := by
  induction ns generalizing seen with
  | nil => exact List.nodup_nil
  | cons n ns ih =>
    rw [requiredFrom]
    split
    · exact ih _
    · split
      · exact ih _
      · split
        · exact ih _
        · rw [List.nodup_cons]
          refine ⟨fun hm => ?_, ih _⟩
          exact account_requiredFrom hm (Finset.mem_insert_self n.address seen)

lemma required_nodup {ID Order : Type} [OrderpoolOrder Order ID] (order : Order) :
    (required onchain order).Nodup :=
  requiredFrom_nodup (nonces order) ∅

end Required

variable {ID Order SimResult ScoreType ε : Type}

def Listed (tree : SimTree ID Order SimResult) (k : AccountNonce) (i : ID) : Prop :=
    i ∈ (tree.pendingNonces k).getD []

def missing (tree : SimTree ID Order SimResult) (keys : List AccountNonce) : List AccountNonce :=
  keys.filter fun k => (tree.simsThatUpdateOneNonce k).isNone

def SimsKnown (tree : SimTree ID Order SimResult) : Prop :=
  ∀ {k i}, tree.simsThatUpdateOneNonce k = some i → (tree.sims i).isSome = true

lemma mem_missing {tree : SimTree ID Order SimResult} {keys : List AccountNonce} {k : AccountNonce} :
    k ∈ tree.missing keys ↔ k ∈ keys ∧ tree.simsThatUpdateOneNonce k = none := by
  rw [missing, List.mem_filter, Option.isNone_iff_eq_none]

lemma missing_cons_none {tree : SimTree ID Order SimResult} {k : AccountNonce}
    (h : tree.simsThatUpdateOneNonce k = none) (keys : List AccountNonce) :
    tree.missing (k :: keys) = k :: tree.missing keys :=
  List.filter_cons_of_pos (Option.isNone_iff_eq_none.mpr h)

lemma missing_cons_some {tree : SimTree ID Order SimResult} {k : AccountNonce} {simId : SimulationId}
    (h : tree.simsThatUpdateOneNonce k = some simId) (keys : List AccountNonce) :
    tree.missing (k :: keys) = tree.missing keys :=
  List.filter_cons_of_neg (by simp [h])

section Lookups

variable {source : OrderpoolNonceSource ε}

def onchainOf (source : OrderpoolNonceSource ε) (a : Address) : ℕ := ((source a).toOption).getD 0

/-- A lookup fails before a nonce is found that makes the order invalid. -/
inductive Unanswered (source : OrderpoolNonceSource ε) : List BundleNonce → Prop
  | here {n : BundleNonce} {e : ε} (ns : List BundleNonce) (h : source n.address = .error e) :
      Unanswered source (n :: ns)
  | later {n : BundleNonce} {ns : List BundleNonce} {onchain : ℕ} (h : source n.address = .ok onchain)
      (hvalid : n.optional = false → onchain ≤ n.nonce) (hns : Unanswered source ns) : Unanswered source (n :: ns)

lemma unanswered_cons_ok {n : BundleNonce} {onchain : ℕ} (h : source n.address = .ok onchain)
    (ns : List BundleNonce) :
    Unanswered source (n :: ns) ↔ (n.optional = false → onchain ≤ n.nonce) ∧ Unanswered source ns := by
  constructor
  · intro hun
    cases hun with
    | here _ he =>
      rw [h] at he
      cases he
    | later h' hvalid hns =>
      rw [h] at h'
      cases h'
      exact ⟨hvalid, hns⟩
  · exact fun ⟨hvalid, hns⟩ => .later h hvalid hns

lemma onchainOf_eq {a : Address} {onchain : ℕ} (h : source a = .ok onchain) : onchainOf source a = onchain := by
  rw [onchainOf, h]
  rfl

def parentsOf (tree : SimTree ID Order SimResult) (k : AccountNonce) : List Order :=
  match (tree.simsThatUpdateOneNonce k).bind tree.sims with
  | none => []
  | some sim => sim.previousOrders ++ [sim.order]

variable (source) in
lemma nonceStateFrom_cases {tree : SimTree ID Order SimResult} (hknown : tree.SimsKnown) (ns : List BundleNonce)
    (seen : Finset Address) (pending : List AccountNonce) (parents : List Order) :
    (Unanswered source ns ∧ ∃ e, nonceStateFrom source tree ns seen pending parents = .ok (.error e)) ∨
    (¬ Unanswered source ns ∧ Stale (onchainOf source) ns ∧
      nonceStateFrom source tree ns seen pending parents = .ok (.ok .invalid)) ∨
    (¬ Unanswered source ns ∧ ¬ Stale (onchainOf source) ns ∧
      nonceStateFrom source tree ns seen pending parents = .ok (.ok (
        if (pending ++ tree.missing (requiredFrom (onchainOf source) ns seen)).isEmpty then
          .ready (parents ++ (requiredFrom (onchainOf source) ns seen).flatMap tree.parentsOf)
        else .pendingNonces (pending ++ tree.missing (requiredFrom (onchainOf source) ns seen))))) := by
  induction ns generalizing seen pending parents with
  | nil =>
    refine .inr (.inr ⟨nofun, by simp [Stale], ?_⟩)
    rw [requiredFrom, missing, List.filter_nil, List.append_nil, List.flatMap_nil, List.append_nil, nonceStateFrom]
  | cons n ns ih =>
    rw [nonceStateFrom, requiredFrom]
    cases hn : source n.address with
    | error e => exact .inl ⟨.here ns hn, e, rfl⟩
    | ok onchain =>
      rw [onchainOf_eq hn, unanswered_cons_ok hn]
      dsimp only
      by_cases heq : onchain = n.nonce
      · have hstale : Stale (onchainOf source) (n :: ns) ↔ Stale (onchainOf source) ns := by
          simp [Stale, onchainOf_eq hn, heq]
        rw [if_pos heq, if_pos heq, hstale, and_iff_right fun _ => heq.le]
        exact ih _ _ _
      by_cases hlt : n.nonce < onchain
      · rw [if_neg heq, if_neg heq, if_pos hlt, if_pos hlt]
        by_cases hopt : n.optional = true
        · have hstale : Stale (onchainOf source) (n :: ns) ↔ Stale (onchainOf source) ns := by simp [Stale, hopt]
          have hvalid : n.optional = false → onchain ≤ n.nonce := fun h => by
            rw [hopt] at h
            cases h
          rw [if_pos hopt, hstale, and_iff_right hvalid]
          exact ih _ _ _
        · have hopt' : n.optional = false := by simpa using hopt
          exact .inr (.inl ⟨fun h => (h.1 hopt').not_gt hlt,
            ⟨n, List.mem_cons_self, hopt', (onchainOf_eq hn).symm ▸ hlt⟩, if_neg hopt⟩)
      have hstale : Stale (onchainOf source) (n :: ns) ↔ Stale (onchainOf source) ns := by
        simp [Stale, onchainOf_eq hn, hlt]
      rw [if_neg heq, if_neg heq, if_neg hlt, if_neg hlt, hstale, and_iff_right fun _ => not_lt.mp hlt]
      by_cases hseen : n.address ∈ seen
      · rw [if_pos hseen, if_pos hseen]
        exact ih _ _ _
      rw [if_neg hseen, if_neg hseen, List.flatMap_cons, ← List.append_assoc]
      cases hsim : tree.simsThatUpdateOneNonce n.accountNonce with
      | none =>
        have hparents : tree.parentsOf n.accountNonce = [] := by rw [parentsOf, hsim]; rfl
        rw [missing_cons_none hsim, hparents, List.append_nil, List.append_cons _ _ (tree.missing _)]
        exact ih _ _ _
      | some simId =>
        obtain ⟨sim, hs⟩ := Option.isSome_iff_exists.mp (hknown hsim)
        have hparents : tree.parentsOf n.accountNonce = sim.previousOrders ++ [sim.order] := by
          rw [parentsOf, hsim, Option.bind_some, hs]
        rw [missing_cons_some hsim, hparents, ← List.append_assoc]
        simp only [hs]
        exact ih _ _ _

end Lookups

lemma pendingNonces_wait [DecidableEq ID] (i : ID) {keys : List AccountNonce} (hkeys : keys.Nodup)
    (tree : SimTree ID Order SimResult) (k : AccountNonce) :
    (tree.wait i keys).pendingNonces k =
      if k ∈ keys then some ((tree.pendingNonces k).getD [] ++ [i]) else tree.pendingNonces k := by
  induction keys generalizing tree with
  | nil => rfl
  | cons key keys ih =>
    obtain ⟨hnew, hkeys⟩ := List.nodup_cons.mp hkeys
    have hrest := ih hkeys (tree.wait i [key])
    have hone : (tree.wait i [key]).pendingNonces k =
        if k = key then some ((tree.pendingNonces key).getD [] ++ [i]) else tree.pendingNonces k :=
      Function.update_apply _ _ _ _
    change ((tree.wait i [key]).wait i keys).pendingNonces k = _
    rw [hrest, hone]
    by_cases hk : k = key
    · rw [if_neg (hk ▸ hnew), if_pos hk, if_pos (hk ▸ List.mem_cons_self), hk]
    · simp [hk]

def satisfyOne (p : PendingOrder Order) : Option (PendingOrder Order) :=
  if p.unsatisfiedNonces = 1 then none else some { p with unsatisfiedNonces := p.unsatisfiedNonces - 1 }

def last (tree : SimTree ID Order SimResult) (is : List ID) : List Order :=
  is.filterMap fun i => (tree.pendingOrders i).bind fun p => if p.unsatisfiedNonces = 1 then some p.order else none

lemma mem_last {tree : SimTree ID Order SimResult} {is : List ID} {order : Order} : order ∈ tree.last is ↔
    ∃ i ∈ is, ∃ p, tree.pendingOrders i = some p ∧ p.unsatisfiedNonces = 1 ∧ p.order = order := by
  simp only [last, List.mem_filterMap, Option.bind_eq_some_iff, Option.ite_none_right_eq_some, Option.some_inj]

lemma release_pending [DecidableEq ID] {is : List ID} (honce : is.Nodup) (tree : SimTree ID Order SimResult)
    (hpending : ∀ i ∈ is, ∃ p, tree.pendingOrders i = some p ∧ 0 < p.unsatisfiedNonces) :
    release is tree = .ok (tree.last is, { tree with
      pendingOrders := fun i =>
        if i ∈ is then (tree.pendingOrders i).bind satisfyOne else tree.pendingOrders i }) := by
  induction is generalizing tree with
  | nil => simp [release, last]
  | cons i is ih =>
    obtain ⟨hnew, honce⟩ := List.nodup_cons.mp honce
    obtain ⟨p, hp, hpos⟩ := hpending i List.mem_cons_self
    have hrest : ∀ q, ∀ j ∈ is, Function.update tree.pendingOrders i q j = tree.pendingOrders j := by
      intro q j hj
      exact Function.update_of_ne (by rintro rfl; exact hnew hj) _ _
    -- the rest of the list finds the entries it needs as they were
    have hrun := ih honce { tree with
      pendingOrders := Function.update tree.pendingOrders i (satisfyOne p) } (by
        intro j hj
        simp only [hrest _ j hj]
        exact hpending j (List.mem_cons_of_mem _ hj))
    have hmap : (fun j => if j ∈ is then (Function.update tree.pendingOrders i (satisfyOne p) j).bind
          satisfyOne else Function.update tree.pendingOrders i (satisfyOne p) j) =
        fun j => if j ∈ i :: is then (tree.pendingOrders j).bind satisfyOne
          else tree.pendingOrders j := by
      funext j
      by_cases hj : j = i
      · subst hj
        simp [hnew, hp]
      · simp [hj]
    have hlast :
        SimTree.last { tree with pendingOrders := Function.update tree.pendingOrders i (satisfyOne p) } is =
          tree.last is :=
      List.filterMap_congr fun j hj => by simp only [hrest _ j hj]
    simp only [hmap, hlast] at hrun
    rw [release, hp, last, List.filterMap_cons, hp]
    dsimp only [Option.bind_some]
    rw [if_neg hpos.ne']
    by_cases hone : p.unsatisfiedNonces = 1
    · have hdone : satisfyOne p = none := if_pos hone
      rw [hdone] at hrun
      rw [if_pos (by omega), if_pos hone, hrun]
      rfl
    · have hmore : satisfyOne p = some { p with unsatisfiedNonces := p.unsatisfiedNonces - 1 } := if_neg hone
      rw [hmore] at hrun
      rw [if_neg (by omega), if_neg hone, hrun]
      rfl

def provided [DecidableEq ID] (k : AccountNonce) (simId : SimulationId) (tree : SimTree ID Order SimResult) :
    SimTree ID Order SimResult :=
  { tree with
    simsThatUpdateOneNonce := Function.update tree.simsThatUpdateOneNonce k (some simId)
    pendingNonces := Function.update tree.pendingNonces k none
    pendingOrders := fun i => if i ∈ (tree.pendingNonces k).getD [] then (tree.pendingOrders i).bind satisfyOne
      else tree.pendingOrders i }

lemma listed_provided [DecidableEq ID] {k k' : AccountNonce} {simId : SimulationId}
    {tree : SimTree ID Order SimResult} {i : ID} :
    (tree.provided k simId).Listed k' i ↔ k' ≠ k ∧ tree.Listed k' i := by
  simp only [Listed, provided, Function.update_apply]
  split
  · next hk => simp [hk]
  · next hk => exact (and_iff_right hk).symm

lemma provide_unclaimed [DecidableEq ID] [LinearOrder ScoreType] [SimTreeResult SimResult ScoreType]
    (result : SimulatedResult Order SimResult) {k : AccountNonce} {tree : SimTree ID Order SimResult}
    (hk : tree.simsThatUpdateOneNonce k = none) :
    tree.provide result k = release ((tree.pendingNonces k).getD []) { tree with
      simsThatUpdateOneNonce := Function.update tree.simsThatUpdateOneNonce k (some result.id)
      pendingNonces := Function.update tree.pendingNonces k none } := by
  rw [SimTree.provide, hk]
  cases hlist : tree.pendingNonces k with
  | none =>
    have hsame : Function.update tree.pendingNonces k none = tree.pendingNonces := by
      rw [← hlist, Function.update_eq_self]
    rw [hsame]
    rfl
  | some orders => rfl

end Rblib.Orderpool2.SimTree
