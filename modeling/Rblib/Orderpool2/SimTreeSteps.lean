import Rblib.Orderpool2.SimTreeState

/-! What every call keeps of the simulation tree, whatever the nonce source answers: a pending order
is listed under the nonces it still waits for, its counter is their number, and no nonce with a
simulation has orders waiting for it. -/

namespace Rblib.Orderpool2.SimTree

open Payload OrderpoolOrder

variable {ID Order SimResult ScoreType ε : Type}

structure InStep (tree : SimTree ID Order SimResult) : Prop where
  known : tree.SimsKnown
  apart : ∀ {k}, tree.simsThatUpdateOneNonce k ≠ none → tree.pendingNonces k = none
  once : ∀ k, ((tree.pendingNonces k).getD []).Nodup
  listed : ∀ {k i}, tree.Listed k i → tree.pendingOrders i ≠ none
  counted : ∀ {i p}, tree.pendingOrders i = some p → ∃ keys : List AccountNonce,
    keys.Nodup ∧ (∀ k, tree.Listed k i ↔ k ∈ keys) ∧ p.unsatisfiedNonces = keys.length
  positive : ∀ {i p}, tree.pendingOrders i = some p → 0 < p.unsatisfiedNonces

def enqueue [DecidableEq ID] (i : ID) (order : Order) (keys : List AccountNonce)
    (tree : SimTree ID Order SimResult) : SimTree ID Order SimResult :=
  { tree.wait i keys with pendingOrders := Function.update tree.pendingOrders i (some ⟨order, keys.length⟩) }

def claim (k : AccountNonce) (simId : SimulationId) (tree : SimTree ID Order SimResult) :
    SimTree ID Order SimResult :=
  { tree with simsThatUpdateOneNonce := Function.update tree.simsThatUpdateOneNonce k (some simId) }

def record (result : SimulatedResult Order SimResult) (tree : SimTree ID Order SimResult) :
    SimTree ID Order SimResult :=
  { tree with sims := Function.update tree.sims result.id (some result) }

lemma claim_eq_none {tree : SimTree ID Order SimResult} {k : AccountNonce} {simId : SimulationId}
    (k' : AccountNonce) :
    (tree.claim k simId).simsThatUpdateOneNonce k' = none ↔ k' ≠ k ∧ tree.simsThatUpdateOneNonce k' = none := by
  simp only [claim, Function.update_apply]
  split
  · next heq => exact iff_of_false nofun fun h => h.1 heq
  · next hne => exact (and_iff_right hne).symm

lemma listed_enqueue [DecidableEq ID] {tree : SimTree ID Order SimResult} {i : ID} {order : Order}
    {keys : List AccountNonce} (hkeys : keys.Nodup) (k : AccountNonce) (j : ID) :
    (tree.enqueue i order keys).Listed k j ↔ tree.Listed k j ∨ j = i ∧ k ∈ keys := by
  rw [Listed, enqueue, pendingNonces_wait i hkeys]
  split
  · next hk => simp [Listed, hk]
  · next hk => simp [Listed, hk]

lemma pendingOrders_enqueue [DecidableEq ID] {tree : SimTree ID Order SimResult} {i j : ID} {order : Order}
    {keys : List AccountNonce} {p : PendingOrder Order}
    (hp : (tree.enqueue i order keys).pendingOrders j = some p) :
    j = i ∧ p = ⟨order, keys.length⟩ ∨ j ≠ i ∧ tree.pendingOrders j = some p := by
  simp only [enqueue, Function.update_apply] at hp
  split at hp
  · next hj => exact .inl ⟨hj, (Option.some.inj hp).symm⟩
  · next hj => exact .inr ⟨hj, hp⟩

namespace InStep

variable {tree : SimTree ID Order SimResult}

lemma new : InStep ({} : SimTree ID Order SimResult) where
  known := (nomatch ·)
  apart h := absurd rfl h
  once _ := List.nodup_nil
  listed h := absurd h List.not_mem_nil
  counted := (nomatch ·)
  positive := (nomatch ·)

lemma output (h : InStep tree) (ready : List (SimulationRequest Order)) (bugs : List SimTreeBug) (drawn : ℕ) :
    InStep { tree with readyOrders := ready, bugs := bugs, drawn := drawn } :=
  ⟨h.known, h.apart, h.once, h.listed, h.counted, h.positive⟩

lemma record (h : InStep tree) (result : SimulatedResult Order SimResult) : InStep (tree.record result) := by
  refine ⟨?_, h.apart, h.once, h.listed, h.counted, h.positive⟩
  intro k i hk
  simp only [SimTree.record, Function.update_apply]
  split
  · rfl
  · exact h.known hk

lemma claim (h : InStep tree) {k : AccountNonce} {simId : SimulationId} (hk : tree.simsThatUpdateOneNonce k ≠ none)
    (hsim : (tree.sims simId).isSome = true) : InStep (tree.claim k simId) := by
  refine ⟨?_, fun {k'} hk' => ?_, h.once, h.listed, h.counted, h.positive⟩
  · intro k' i hk'
    simp only [SimTree.claim, Function.update_apply] at hk'
    split at hk'
    · obtain rfl := Option.some.inj hk'
      exact hsim
    · exact h.known hk'
  · by_cases heq : k' = k
    · exact h.apart (heq ▸ hk)
    · exact h.apart fun hnone => hk' ((claim_eq_none k').mpr ⟨heq, hnone⟩)

variable [DecidableEq ID]

lemma enqueue (h : InStep tree) {i : ID} {order : Order} {keys : List AccountNonce}
    (hnew : tree.pendingOrders i = none)
    (hkeys : keys.Nodup) (hne : keys ≠ []) (hfree : ∀ k ∈ keys, tree.simsThatUpdateOneNonce k = none) :
    InStep (tree.enqueue i order keys) := by
  have hfresh : ∀ k, ¬ tree.Listed k i := fun k hk => h.listed hk hnew
  have hlisted : ∀ k j, (tree.enqueue i order keys).Listed k j ↔ tree.Listed k j ∨ j = i ∧ k ∈ keys :=
    listed_enqueue hkeys
  refine ⟨h.known, fun {k} hk => ?_, fun k => ?_, fun {k j} hj => ?_, fun {j p} hp => ?_, fun {j p} hp => ?_⟩
  · have hnot : k ∉ keys := fun hm => hk (hfree k hm)
    exact (pendingNonces_wait i hkeys tree k).trans ((if_neg hnot).trans (h.apart hk))
  · rw [SimTree.enqueue]
    dsimp only
    rw [pendingNonces_wait i hkeys]
    split
    · rw [Option.getD_some, List.nodup_append]
      exact ⟨h.once k, List.nodup_singleton _, fun j hj j' hj' heq =>
        hfresh k (List.mem_singleton.mp hj' ▸ heq ▸ hj)⟩
    · exact h.once k
  · simp only [SimTree.enqueue, Function.update_apply]
    obtain hj | ⟨rfl, -⟩ := (hlisted k j).mp hj
    · split
      · exact Option.some_ne_none _
      · exact h.listed hj
    · rw [if_pos rfl]
      exact Option.some_ne_none _
  · obtain ⟨rfl, rfl⟩ | ⟨hj, hp⟩ := pendingOrders_enqueue hp
    · refine ⟨keys, hkeys, fun k => (hlisted k j).trans ?_, rfl⟩
      exact ⟨fun hk => hk.elim (absurd · (hfresh k)) And.right, fun hk => .inr ⟨rfl, hk⟩⟩
    · obtain ⟨keys', hnodup, hiff, hlen⟩ := h.counted hp
      exact ⟨keys', hnodup, fun k => (hlisted k j).trans ((or_iff_left fun hk => hj hk.1).trans (hiff k)), hlen⟩
  · obtain ⟨-, rfl⟩ | ⟨-, hp⟩ := pendingOrders_enqueue hp
    · exact List.length_pos_iff.mpr hne
    · exact h.positive hp

omit [DecidableEq ID] in
lemma exists_listed (h : InStep tree) {i : ID} {p : PendingOrder Order} (hp : tree.pendingOrders i = some p) :
    ∃ k, tree.Listed k i := by
  obtain ⟨keys, -, hiff, hlen⟩ := h.counted hp
  obtain ⟨k, hk⟩ := List.exists_mem_of_length_pos (hlen ▸ h.positive hp)
  exact ⟨k, (hiff k).mpr hk⟩

omit [DecidableEq ID] in
lemma last_iff (h : InStep tree) {i : ID} {p : PendingOrder Order} (hp : tree.pendingOrders i = some p)
    {k : AccountNonce} (hk : tree.Listed k i) : p.unsatisfiedNonces = 1 ↔ ∀ k', tree.Listed k' i → k' = k := by
  obtain ⟨keys, hnodup, hiff, hlen⟩ := h.counted hp
  have hmem := (hiff k).mp hk
  rw [hlen]
  constructor
  · intro hone k' hk'
    obtain ⟨only, rfl⟩ := List.length_eq_one_iff.mp hone
    exact (List.mem_singleton.mp ((hiff k').mp hk')).trans (List.mem_singleton.mp hmem).symm
  · intro honly
    have hall : ∀ k' ∈ keys, k' = k := fun k' hk' => honly k' ((hiff k').mpr hk')
    rw [List.eq_replicate_of_mem hall, List.nodup_replicate] at hnodup
    have hpos := List.length_pos_of_mem hmem
    omega

lemma provided_some (h : InStep tree) {k : AccountNonce} {simId : SimulationId} {i : ID} {q : PendingOrder Order}
    (hq : (tree.provided k simId).pendingOrders i = some q) :
    ∃ p, tree.pendingOrders i = some p ∧ p.order = q.order ∧ 0 < q.unsatisfiedNonces ∧
      ∃ keys : List AccountNonce, keys.Nodup ∧ (∀ k', (tree.provided k simId).Listed k' i ↔ k' ∈ keys) ∧
        q.unsatisfiedNonces = keys.length := by
  rw [SimTree.provided] at hq
  dsimp only at hq
  split at hq
  · next hi =>
    obtain ⟨p, hp, hlow⟩ := Option.bind_eq_some_iff.mp hq
    obtain ⟨keys, hnodup, hiff, hlen⟩ := h.counted hp
    have hpos := h.positive hp
    rw [satisfyOne] at hlow
    split at hlow
    · cases hlow
    · next hone =>
      obtain rfl := Option.some.inj hlow
      refine ⟨p, hp, rfl, ?_, keys.erase k, hnodup.erase k, fun k' => ?_, ?_⟩
      · dsimp only
        omega
      · rw [listed_provided, hiff, hnodup.mem_erase_iff]
      · rw [List.length_erase_of_mem ((hiff k).mp hi), ← hlen]
  · next hi =>
    obtain ⟨keys, hnodup, hiff, hlen⟩ := h.counted hq
    refine ⟨q, hq, rfl, h.positive hq, keys, hnodup, fun k' => ?_, hlen⟩
    rw [listed_provided, hiff]
    exact and_iff_right_of_imp fun hmem heq => hi ((hiff k).mpr (heq ▸ hmem))

lemma provided_none (h : InStep tree) {k : AccountNonce} (simId : SimulationId) {i : ID} {p : PendingOrder Order}
    (hp : tree.pendingOrders i = some p) :
    (tree.provided k simId).pendingOrders i = none ↔ ∀ k', tree.Listed k' i → k' = k := by
  rw [SimTree.provided]
  dsimp only
  split
  · next hi =>
    rw [hp, Option.bind_some, satisfyOne, ← h.last_iff hp hi]
    split_ifs with hone
    · exact iff_of_true rfl hone
    · exact iff_of_false not_false hone
  · next hi =>
    refine iff_of_false (hp ▸ Option.some_ne_none p) fun honly => ?_
    obtain ⟨k', hlisted⟩ := h.exists_listed hp
    exact hi (honly k' hlisted ▸ hlisted)

lemma provided (h : InStep tree) {k : AccountNonce} {simId : SimulationId}
    (hsim : (tree.sims simId).isSome = true) : InStep (tree.provided k simId) where
  known := by
    intro k' i hk'
    simp only [SimTree.provided, Function.update_apply] at hk'
    split at hk'
    · obtain rfl := Option.some.inj hk'
      exact hsim
    · exact h.known hk'
  apart := by
    intro k' hk'
    simp only [SimTree.provided, Function.update_apply] at hk' ⊢
    split
    · rfl
    · next hne =>
      rw [if_neg hne] at hk'
      exact h.apart hk'
  once := by
    intro k'
    simp only [SimTree.provided, Function.update_apply]
    split
    · exact List.nodup_nil
    · exact h.once k'
  listed := by
    intro k' i hi hnone
    obtain ⟨hne, hi⟩ := listed_provided.mp hi
    obtain ⟨p, hp⟩ := Option.ne_none_iff_exists'.mp (h.listed hi)
    exact hne ((h.provided_none simId hp).mp hnone k' hi)
  counted := by
    intro i q hq
    obtain ⟨-, -, -, -, hkeys⟩ := h.provided_some hq
    exact hkeys
  positive := by
    intro i q hq
    obtain ⟨-, -, -, hpos, -⟩ := h.provided_some hq
    exact hpos

lemma provide [LinearOrder ScoreType] [SimTreeResult SimResult ScoreType] (h : InStep tree)
    {result : SimulatedResult Order SimResult} (hsim : (tree.sims result.id).isSome = true) (k : AccountNonce) :
    tree.simsThatUpdateOneNonce k = none ∧ InStep (tree.provided k result.id) ∧
      tree.provide result k = .ok (tree.last ((tree.pendingNonces k).getD []), tree.provided k result.id) ∨
    ∃ simId sim, tree.simsThatUpdateOneNonce k = some simId ∧ tree.sims simId = some sim ∧
      tree.pendingNonces k = none ∧
      InStep (tree.claim k result.id) ∧ tree.provide result k = .ok ([],
        if SimTreeResult.score sim.simulatedOrder < SimTreeResult.score result.simulatedOrder then
          tree.claim k result.id else tree) := by
  cases hk : tree.simsThatUpdateOneNonce k with
  | some simId =>
    obtain ⟨sim, hs⟩ := Option.isSome_iff_exists.mp (h.known hk)
    have hclaimed : tree.simsThatUpdateOneNonce k ≠ none := hk ▸ Option.some_ne_none _
    refine .inr ⟨simId, sim, rfl, hs, h.apart hclaimed, h.claim hclaimed hsim, ?_⟩
    rw [SimTree.provide, hk]
    simp only [hs]
    split <;> rfl
  | none =>
    refine .inl ⟨rfl, h.provided hsim, (provide_unclaimed result hk).trans ?_⟩
    refine release_pending (h.once k) _ fun i hi => ?_
    obtain ⟨p, hp⟩ := Option.ne_none_iff_exists'.mp (h.listed hi)
    exact ⟨p, hp, h.positive hp⟩

end InStep

section Results

variable [DecidableEq ID] [LinearOrder ScoreType] [SimTreeResult SimResult ScoreType]

def settle (result : SimulatedResult Order SimResult) (tree : SimTree ID Order SimResult) :
    SimTree ID Order SimResult :=
  let tree := tree.record result
  match result.noncesAfter with
  | [k] => match (tree.simsThatUpdateOneNonce k).bind tree.sims with
    | none => tree.provided k result.id
    | some sim =>
      if SimTreeResult.score sim.simulatedOrder < SimTreeResult.score result.simulatedOrder then
        tree.claim k result.id
      else tree
  | _ => tree

def releasedBy (result : SimulatedResult Order SimResult) (tree : SimTree ID Order SimResult) : List Order :=
  match result.noncesAfter with
  | [k] => tree.last ((tree.pendingNonces k).getD [])
  | _ => []

variable {tree : SimTree ID Order SimResult}

lemma settle_of_ne {result : SimulatedResult Order SimResult} (hne : ∀ k, result.noncesAfter ≠ [k]) :
    tree.settle result = tree.record result ∧ tree.releasedBy result = [] := by
  rw [settle, releasedBy]
  split
  · next k hk => exact absurd hk (hne k)
  · exact ⟨rfl, rfl⟩

lemma settle_of_unclaimed {result : SimulatedResult Order SimResult} {k : AccountNonce}
    (hk : result.noncesAfter = [k]) (hnone : tree.simsThatUpdateOneNonce k = none) :
    tree.settle result = (tree.record result).provided k result.id ∧
      tree.releasedBy result = tree.last ((tree.pendingNonces k).getD []) := by
  have hrecord : (tree.record result).simsThatUpdateOneNonce k = none := hnone
  rw [settle, releasedBy, hk]
  dsimp only
  rw [hrecord]
  exact ⟨rfl, rfl⟩

lemma settle_of_claimed (h : InStep tree) {result : SimulatedResult Order SimResult} {k : AccountNonce}
    (hk : result.noncesAfter = [k]) (hsome : tree.simsThatUpdateOneNonce k ≠ none) :
    ∃ simId sim, tree.simsThatUpdateOneNonce k = some simId ∧ (tree.record result).sims simId = some sim ∧
      tree.settle result =
          (if SimTreeResult.score sim.simulatedOrder < SimTreeResult.score result.simulatedOrder then
        (tree.record result).claim k result.id else tree.record result) ∧ tree.releasedBy result = [] := by
  obtain ⟨simId, hsim⟩ := Option.ne_none_iff_exists'.mp hsome
  have hrecord : (tree.record result).simsThatUpdateOneNonce k = some simId := hsim
  obtain ⟨sim, hs⟩ := Option.isSome_iff_exists.mp ((h.record result).known hrecord)
  refine ⟨simId, sim, hsim, hs, ?_, ?_⟩
  · rw [settle, hk]
    dsimp only
    rw [hrecord, Option.bind_some, hs]
  · rw [releasedBy, hk]
    dsimp only
    rw [h.apart hsome]
    rfl

lemma settle_provide (h : InStep tree) {result : SimulatedResult Order SimResult} {k : AccountNonce}
    (hk : result.noncesAfter = [k]) : InStep (tree.settle result) ∧
      (tree.record result).provide result k = .ok (tree.releasedBy result, tree.settle result) := by
  have hrecord := h.record result
  have hsim : ((tree.record result).sims result.id).isSome = true := by simp [record]
  obtain ⟨hnone, hstep, hprovide⟩ | ⟨simId, sim, hsome, hs, -, hstep, hprovide⟩ := hrecord.provide hsim k
  · have hunclaimed : tree.simsThatUpdateOneNonce k = none := hnone
    obtain ⟨hsettle, hreleased⟩ := settle_of_unclaimed hk hunclaimed
    rw [hsettle, hreleased]
    exact ⟨hstep, hprovide⟩
  · have hclaimed : tree.simsThatUpdateOneNonce k = some simId := hsome
    obtain ⟨_, sim', hsome', hs', hsettle, hreleased⟩ :=
      settle_of_claimed h hk (hclaimed ▸ Option.some_ne_none simId)
    cases hsome'.symm.trans hclaimed
    cases hs'.symm.trans hs
    rw [hsettle, hreleased]
    refine ⟨?_, hprovide⟩
    split
    · exact hstep
    · exact hrecord

lemma settle_inStep (h : InStep tree) (result : SimulatedResult Order SimResult) :
    InStep (tree.settle result) := by
  by_cases hone : ∃ k, result.noncesAfter = [k]
  · obtain ⟨k, hk⟩ := hone
    exact (settle_provide h hk).1
  · rw [(settle_of_ne (not_exists.mp hone)).1]
    exact h.record result

lemma processSimulationTaskResult_eq [OrderpoolOrder Order ID] (h : InStep tree) (source : OrderpoolNonceSource ε)
    (random : ℕ → SimulationId) (result : SimulatedResult Order SimResult) :
    tree.processSimulationTaskResult source random result =
      (tree.settle result).pushReady source random (tree.releasedBy result) := by
  rw [SimTree.processSimulationTaskResult]
  split
  · next k hk =>
    have hprovide := (settle_provide h hk).2
    rw [record] at hprovide
    rw [hprovide]
  · next hne =>
    rw [(settle_of_ne hne).1, (settle_of_ne hne).2]
    rfl

lemma settle_claimed (h : InStep tree) (result : SimulatedResult Order SimResult) (k : AccountNonce) :
    (tree.settle result).simsThatUpdateOneNonce k ≠ none ↔
      tree.simsThatUpdateOneNonce k ≠ none ∨ result.noncesAfter = [k] := by
  by_cases hone : ∃ k', result.noncesAfter = [k']
  · obtain ⟨k', hk'⟩ := hone
    rw [hk', List.singleton_inj, eq_comm (a := k')]
    by_cases hnone : tree.simsThatUpdateOneNonce k' = none
    · rw [(settle_of_unclaimed hk' hnone).1, provided]
      simp only [Function.update_apply]
      split <;> simp_all [record]
    · obtain ⟨simId, sim, -, -, hsettle, -⟩ := settle_of_claimed h hk' hnone
      rw [hsettle]
      split
      · rw [ne_eq, claim_eq_none]
        simp only [record]
        tauto
      · exact ⟨.inl, fun hor => hor.elim id fun heq => heq ▸ hnone⟩
  · rw [(settle_of_ne (not_exists.mp hone)).1]
    exact (or_iff_left (not_exists.mp hone k)).symm

lemma settle_pendingNonces (h : InStep tree) (result : SimulatedResult Order SimResult) (k : AccountNonce) :
    (tree.settle result).pendingNonces k = if result.noncesAfter = [k] then none else tree.pendingNonces k := by
  by_cases hone : ∃ k', result.noncesAfter = [k']
  · obtain ⟨k', hk'⟩ := hone
    by_cases hnone : tree.simsThatUpdateOneNonce k' = none
    · rw [(settle_of_unclaimed hk' hnone).1, provided, hk']
      simp only [Function.update_apply, List.singleton_inj, eq_comm (a := k')]
      rfl
    · obtain ⟨simId, sim, -, -, hsettle, -⟩ := settle_of_claimed h hk' hnone
      have hsame : (tree.settle result).pendingNonces k = tree.pendingNonces k := by
        rw [hsettle]
        split <;> rfl
      rw [hsame, hk']
      split
      · next heq => exact List.singleton_inj.mp heq ▸ h.apart hnone
      · rfl
  · rw [(settle_of_ne (not_exists.mp hone)).1, if_neg (not_exists.mp hone k)]
    rfl

lemma listed_settle (h : InStep tree) {result : SimulatedResult Order SimResult} {k : AccountNonce} {i : ID} :
    (tree.settle result).Listed k i ↔ tree.Listed k i ∧ result.noncesAfter ≠ [k] := by
  rw [Listed, settle_pendingNonces h]
  split
  · next hk => simp [hk]
  · next hk => exact (and_iff_left hk).symm

lemma settle_rest (result : SimulatedResult Order SimResult) :
    (tree.settle result).sims = Function.update tree.sims result.id (some result) ∧
      (tree.settle result).readyOrders = tree.readyOrders ∧ (tree.settle result).bugs = tree.bugs := by
  rw [settle]
  split
  · split
    · exact ⟨rfl, rfl, rfl⟩
    · split <;> exact ⟨rfl, rfl, rfl⟩
  · exact ⟨rfl, rfl, rfl⟩

lemma settle_some (h : InStep tree) {result : SimulatedResult Order SimResult} {i : ID} {q : PendingOrder Order}
    (hq : (tree.settle result).pendingOrders i = some q) :
    ∃ p, tree.pendingOrders i = some p ∧ p.order = q.order := by
  by_cases hone : ∃ k, result.noncesAfter = [k]
  · obtain ⟨k, hk⟩ := hone
    by_cases hnone : tree.simsThatUpdateOneNonce k = none
    · rw [(settle_of_unclaimed hk hnone).1] at hq
      obtain ⟨p, hp, horder, -⟩ := (h.record result).provided_some hq
      exact ⟨p, hp, horder⟩
    · obtain ⟨simId, sim, -, -, hsettle, -⟩ := settle_of_claimed h hk hnone
      rw [hsettle] at hq
      split at hq
      · exact ⟨q, hq, rfl⟩
      · exact ⟨q, hq, rfl⟩
  · rw [(settle_of_ne (not_exists.mp hone)).1] at hq
    exact ⟨q, hq, rfl⟩

lemma settle_none (h : InStep tree) (result : SimulatedResult Order SimResult) {i : ID} {p : PendingOrder Order}
    (hp : tree.pendingOrders i = some p) :
    (tree.settle result).pendingOrders i = none ↔ ∀ k, tree.Listed k i → result.noncesAfter = [k] := by
  -- an order is listed under some nonce, and under none that is claimed
  obtain ⟨some, hlisted⟩ := h.exists_listed hp
  have hunclaimed : tree.simsThatUpdateOneNonce some = none := by
    by_contra hclaimed
    rw [Listed, h.apart hclaimed] at hlisted
    cases hlisted
  have hkept : ∀ kept : SimTree ID Order SimResult, kept.pendingOrders = tree.pendingOrders →
      result.noncesAfter ≠ [some] →
      (kept.pendingOrders i = none ↔ ∀ k, tree.Listed k i → result.noncesAfter = [k]) := by
    intro kept hpending hne
    rw [hpending, hp]
    exact iff_of_false (Option.some_ne_none p) fun hall => hne (hall some hlisted)
  by_cases hone : ∃ k, result.noncesAfter = [k]
  · obtain ⟨k, hk⟩ := hone
    by_cases hnone : tree.simsThatUpdateOneNonce k = none
    · rw [(settle_of_unclaimed hk hnone).1, (h.record result).provided_none result.id hp, hk]
      simp only [List.singleton_inj, eq_comm (a := k)]
      rfl
    · obtain ⟨simId, sim, -, -, hsettle, -⟩ := settle_of_claimed h hk hnone
      refine hkept _ ?_ fun heq => hnone ?_
      · rw [hsettle]
        split <;> rfl
      · rw [List.singleton_inj.mp (hk.symm.trans heq)]
        exact hunclaimed
  · exact hkept _ (by rw [(settle_of_ne (not_exists.mp hone)).1]; rfl) (not_exists.mp hone some)

end Results

section Requests

variable [OrderpoolOrder Order ID] {tree : SimTree ID Order SimResult}

structure ReadyNow (source : OrderpoolNonceSource ε) (tree : SimTree ID Order SimResult)
    (order : Order) : Prop where
  answered : ¬ Unanswered source (nonces order)
  valid : ¬ Stale (onchainOf source) (nonces order)
  provided : tree.missing (required (onchainOf source) order) = []

def parentsFor (source : OrderpoolNonceSource ε) (tree : SimTree ID Order SimResult) (order : Order) :
    List Order :=
  (required (onchainOf source) order).flatMap tree.parentsOf

lemma getOrderNonceState_cases (hknown : tree.SimsKnown) (source : OrderpoolNonceSource ε) (order : Order) :
    (Unanswered source (nonces order) ∧ ∃ e, tree.getOrderNonceState source order = .ok (.error e)) ∨
    (¬ Unanswered source (nonces order) ∧ ¬ ReadyNow source tree order ∧
      tree.getOrderNonceState source order = .ok (.ok .invalid)) ∨
    (ReadyNow source tree order ∧
      tree.getOrderNonceState source order = .ok (.ok (.ready (parentsFor source tree order)))) ∨
    (¬ Unanswered source (nonces order) ∧ ¬ ReadyNow source tree order ∧
      tree.missing (required (onchainOf source) order) ≠ [] ∧ ¬ Stale (onchainOf source) (nonces order) ∧
      tree.getOrderNonceState source order =
        .ok (.ok (.pendingNonces (tree.missing (required (onchainOf source) order))))) := by
  obtain h | ⟨hun, hstale, h⟩ | ⟨hun, hstale, h⟩ := nonceStateFrom_cases source hknown (nonces order) ∅ [] []
  · exact .inl h
  · exact .inr (.inl ⟨hun, fun hready => hready.valid hstale, h⟩)
  · by_cases hnil : tree.missing (required (onchainOf source) order) = []
    · refine .inr (.inr (.inl ⟨⟨hun, hstale, hnil⟩, ?_⟩))
      refine h.trans ?_
      rw [if_pos (by rw [List.nil_append]; exact List.isEmpty_iff.mpr hnil), List.nil_append]
      rfl
    · refine .inr (.inr (.inr ⟨hun, fun hready => hnil hready.provided, hnil, hstale, ?_⟩))
      refine h.trans ?_
      rw [if_neg (by rw [List.nil_append]; exact mt List.isEmpty_iff.mp hnil)]
      rfl

lemma readyNow_output {source : OrderpoolNonceSource ε} {ready : List (SimulationRequest Order)}
    {bugs : List SimTreeBug} {drawn : ℕ} {order : Order} :
    ReadyNow source { tree with readyOrders := ready, bugs := bugs, drawn := drawn } order ↔
      ReadyNow source tree order :=
  ⟨fun h => ⟨h.answered, h.valid, h.provided⟩, fun h => ⟨h.answered, h.valid, h.provided⟩⟩

def Reached (source : OrderpoolNonceSource ε) (orders : List Order) (order : Order) : Prop :=
  ∃ ahead behind, orders = ahead ++ order :: behind ∧ ∀ u ∈ ahead, ¬ Unanswered source (nonces u)

lemma reached_cons {source : OrderpoolNonceSource ε} {first order : Order} {orders : List Order} :
    Reached source (first :: orders) order ↔
      order = first ∨ ¬ Unanswered source (nonces first) ∧ Reached source orders order := by
  constructor
  · rintro ⟨ahead, behind, heq, hahead⟩
    cases ahead with
    | nil => exact .inl (List.cons.inj heq).1.symm
    | cons u ahead =>
      obtain ⟨rfl, rfl⟩ := List.cons.inj heq
      obtain ⟨hfirst, hahead⟩ := List.forall_mem_cons.mp hahead
      exact .inr ⟨hfirst, ahead, behind, rfl, hahead⟩
  · rintro (rfl | ⟨hfirst, ahead, behind, rfl, hahead⟩)
    · exact ⟨[], orders, rfl, nofun⟩
    · exact ⟨first :: ahead, behind, rfl, List.forall_mem_cons.mpr ⟨hfirst, hahead⟩⟩

lemma pushReady_cons (hknown : tree.SimsKnown) (source : OrderpoolNonceSource ε) (random : ℕ → SimulationId)
    (first : Order) (orders : List Order) :
    (Unanswered source (nonces first) ∧
      ∃ e, tree.pushReady source random (first :: orders) = .ok (.error e, tree)) ∨
    (¬ Unanswered source (nonces first) ∧ ¬ ReadyNow source tree first ∧
      ∃ bug, tree.pushReady source random (first :: orders) = (tree.log bug).pushReady source random orders) ∨
    (ReadyNow source tree first ∧ tree.pushReady source random (first :: orders) =
      (tree.request random first (parentsFor source tree first)).pushReady source random orders) := by
  rw [pushReady]
  obtain ⟨hun, e, hstate⟩ | ⟨hun, hnot, hstate⟩ | ⟨hready, hstate⟩ | ⟨hun, hnot, -, -, hstate⟩ :=
    getOrderNonceState_cases hknown source first
  · exact .inl ⟨hun, e, by rw [hstate]⟩
  · exact .inr (.inl ⟨hun, hnot, .becameInvalid, by rw [hstate]⟩)
  · exact .inr (.inr ⟨hready, by rw [hstate]⟩)
  · exact .inr (.inl ⟨hun, hnot, .becamePendingAgain, by rw [hstate]⟩)

lemma pushReady_cases (hknown : tree.SimsKnown) (source : OrderpoolNonceSource ε) (random : ℕ → SimulationId)
    (orders : List Order) : ∃ out new bugs drawn,
      tree.pushReady source random orders =
        .ok (out, { tree with readyOrders := tree.readyOrders ++ new, bugs := bugs, drawn := drawn }) ∧
      ((∃ e, out = .error e) ↔ ∃ order ∈ orders, Unanswered source (nonces order)) ∧
      (∀ order, (∃ q ∈ new, q.order = order) ↔ Reached source orders order ∧ ReadyNow source tree order) ∧
      ∀ q ∈ new, q.parents = parentsFor source tree q.order := by
  induction orders generalizing tree with
  | nil =>
    refine ⟨.ok (), [], tree.bugs, tree.drawn, by rw [pushReady, List.append_nil], ?_, fun order => ?_, nofun⟩
    · exact iff_of_false nofun nofun
    · exact iff_of_false nofun fun ⟨⟨ahead, behind, hnil, _⟩, _⟩ => by simp at hnil
  | cons first orders ih =>
    obtain ⟨hun, e, hpush⟩ | ⟨hun, hnot, bug, hpush⟩ | ⟨hready, hpush⟩ :=
      pushReady_cons hknown source random first orders
    · refine ⟨.error e, [], tree.bugs, tree.drawn, by rw [hpush, List.append_nil], ?_, fun order => ?_, nofun⟩
      · exact iff_of_true ⟨e, rfl⟩ ⟨first, List.mem_cons_self, hun⟩
      · rw [reached_cons]
        refine iff_of_false nofun ?_
        rintro ⟨rfl | ⟨hanswered, -⟩, hready⟩
        · exact hready.answered hun
        · exact hanswered hun
    · have hlog : (tree.log bug).SimsKnown := hknown
      obtain ⟨out, new, bugs, drawn, hrest, herror, hnew, hparents⟩ := ih hlog
      refine ⟨out, new, bugs, drawn, hpush.trans hrest, ?_, fun order => ?_, hparents⟩
      · rw [herror, List.exists_mem_cons_iff, or_iff_right hun]
      · rw [hnew, reached_cons, and_iff_right hun, or_and_right]
        refine (and_congr_right fun _ => readyNow_output).trans (or_iff_right ?_).symm
        rintro ⟨rfl, hready⟩
        exact hnot hready
    · have hrequest : (tree.request random first (parentsFor source tree first)).SimsKnown := hknown
      obtain ⟨out, new, bugs, drawn, hrest, herror, hnew, hparents⟩ := ih hrequest
      refine ⟨out, ⟨random tree.drawn, first, parentsFor source tree first⟩ :: new, bugs, drawn, ?_,
        ?_, fun order => ?_, List.forall_mem_cons.mpr ⟨rfl, hparents⟩⟩
      · rw [hpush, hrest, List.append_cons]
        rfl
      · rw [herror, List.exists_mem_cons_iff, or_iff_right hready.answered]
      · rw [List.exists_mem_cons_iff, hnew, reached_cons, and_iff_right hready.answered, or_and_right]
        refine or_congr ⟨?_, fun h => h.1.symm⟩ (and_congr_right fun _ => readyNow_output)
        rintro rfl
        exact ⟨rfl, hready⟩

variable [DecidableEq ID]

lemma pushOrder_cases (h : InStep tree) (source : OrderpoolNonceSource ε) (random : ℕ → SimulationId)
    (order : Order) :
    ∃ out tree', tree.pushOrder source random order = .ok (out, tree') ∧
      (∀ e, out = .error e → Unanswered source (nonces order)) ∧
      (tree' = tree ∨
        (ReadyNow source tree order ∧ tree' = tree.request random order (parentsFor source tree order)) ∨
        (tree.pendingOrders (orderId order) = none ∧ tree.missing (required (onchainOf source) order) ≠ [] ∧
          ¬ Stale (onchainOf source) (nonces order) ∧
          tree' = tree.enqueue (orderId order) order (tree.missing (required (onchainOf source) order)))) := by
  rw [SimTree.pushOrder]
  split
  · exact ⟨_, tree, rfl, nofun, .inl rfl⟩
  · next hnew =>
    obtain ⟨hun, e, hstate⟩ | ⟨-, -, hstate⟩ | ⟨hready, hstate⟩ | ⟨-, -, hne, hvalid, hstate⟩ :=
      getOrderNonceState_cases h.known source order
    · rw [hstate]
      exact ⟨_, tree, rfl, fun _ _ => hun, .inl rfl⟩
    · rw [hstate]
      exact ⟨_, tree, rfl, nofun, .inl rfl⟩
    · rw [hstate]
      exact ⟨_, _, rfl, nofun, .inr (.inl ⟨hready, rfl⟩)⟩
    · rw [hstate]
      exact ⟨_, _, rfl, nofun, .inr (.inr ⟨Option.not_isSome_iff_eq_none.mp hnew, hne, hvalid, rfl⟩)⟩

end Requests

def Keyed [OrderpoolOrder Order ID] (tree : SimTree ID Order SimResult) : Prop :=
  ∀ {i p}, tree.pendingOrders i = some p → orderId p.order = i

lemma Keyed.enqueue [DecidableEq ID] [OrderpoolOrder Order ID] {tree : SimTree ID Order SimResult}
    (hkeyed : Keyed tree)
    (order : Order) (keys : List AccountNonce) : Keyed (tree.enqueue (orderId order) order keys) := by
  intro i p hp
  obtain ⟨rfl, rfl⟩ | ⟨-, hp⟩ := pendingOrders_enqueue hp
  · rfl
  · exact hkeyed hp

lemma Keyed.settle [DecidableEq ID] [OrderpoolOrder Order ID] [LinearOrder ScoreType]
    [SimTreeResult SimResult ScoreType]
    {tree : SimTree ID Order SimResult} (hkeyed : Keyed tree) (h : InStep tree)
    (result : SimulatedResult Order SimResult) : Keyed (tree.settle result) := by
  intro i q hq
  obtain ⟨p, hp, horder⟩ := settle_some h hq
  exact horder ▸ hkeyed hp

/-- The trees that calls lead to, whatever they ask the source in `sources` that answers at the
time, with the results that they have taken up so far. -/
inductive History [DecidableEq ID] [OrderpoolOrder Order ID] [LinearOrder ScoreType]
    [SimTreeResult SimResult ScoreType] (sources : Set (OrderpoolNonceSource ε)) :
    SimTree ID Order SimResult → List (SimulatedResult Order SimResult) → Prop
  | new : History sources {} []
  | push {tree tree' : SimTree ID Order SimResult} {taken : List (SimulatedResult Order SimResult)}
      {source : OrderpoolNonceSource ε} {random : ℕ → SimulationId} {order : Order} {out : Except ε Unit}
      (h : History sources tree taken) (hs : source ∈ sources)
      (hpush : tree.pushOrder source random order = .ok (out, tree')) : History sources tree' taken
  | result {tree tree' : SimTree ID Order SimResult} {taken : List (SimulatedResult Order SimResult)}
      {source : OrderpoolNonceSource ε} {random : ℕ → SimulationId} {result : SimulatedResult Order SimResult}
      {out : Except ε Unit} (h : History sources tree taken) (hs : source ∈ sources)
      (hresult : tree.processSimulationTaskResult source random result = .ok (out, tree')) :
      History sources tree' (taken ++ [result])
  | pop {tree : SimTree ID Order SimResult} {taken : List (SimulatedResult Order SimResult)} (limit : ℕ)
      (h : History sources tree taken) : History sources (tree.popSimulationTasks limit).2 taken

namespace History

variable [DecidableEq ID] [OrderpoolOrder Order ID] [LinearOrder ScoreType] [SimTreeResult SimResult ScoreType]
  {sources : Set (OrderpoolNonceSource ε)} {tree tree' : SimTree ID Order SimResult}
  {taken : List (SimulatedResult Order SimResult)}

lemma keeps {Q : SimTree ID Order SimResult → List (SimulatedResult Order SimResult) → Prop} (hnew : Q {} [])
    (houtput : ∀ {tree taken} ready bugs drawn, Q tree taken →
      Q { tree with readyOrders := ready, bugs := bugs, drawn := drawn } taken)
    (henqueue : ∀ {tree taken} {source : OrderpoolNonceSource ε} {order : Order}, source ∈ sources → InStep tree →
      tree.pendingOrders (orderId order) = none → Q tree taken →
      Q (tree.enqueue (orderId order) order (tree.missing (required (onchainOf source) order))) taken)
    (hsettle : ∀ {tree taken} result, InStep tree → Q tree taken → Q (tree.settle result) (taken ++ [result]))
    (h : History sources tree taken) : (InStep tree ∧ Keyed tree) ∧ Q tree taken := by
  induction h with
  | new => exact ⟨⟨.new, nofun⟩, hnew⟩
  | @push tree tree' taken source random order out h hs hpush ih =>
    obtain ⟨⟨hstep, hkeyed⟩, hq⟩ := ih
    obtain ⟨_, _, heq, -, hcases⟩ := pushOrder_cases hstep source random order
    cases hpush.symm.trans heq
    obtain rfl | ⟨-, rfl⟩ | ⟨hfresh, hne, -, rfl⟩ := hcases
    · exact ⟨⟨hstep, hkeyed⟩, hq⟩
    · exact ⟨⟨hstep.output _ _ _, hkeyed⟩, houtput _ _ _ hq⟩
    · have hunclaimed : ∀ k ∈ tree.missing (required (onchainOf source) order),
        tree.simsThatUpdateOneNonce k = none :=
        fun k hk => (mem_missing.mp hk).2
      exact ⟨⟨hstep.enqueue hfresh ((required_nodup order).filter _) hne hunclaimed, hkeyed.enqueue order _⟩,
        henqueue hs hstep hfresh hq⟩
  | @result tree tree' taken source random result out h hs hresult ih =>
    obtain ⟨⟨hstep, hkeyed⟩, hq⟩ := ih
    have hstep' := settle_inStep hstep result
    rw [processSimulationTaskResult_eq hstep] at hresult
    obtain ⟨_, new, bugs, drawn, heq, -⟩ := pushReady_cases hstep'.known source random (tree.releasedBy result)
    cases hresult.symm.trans heq
    exact ⟨⟨hstep'.output _ _ _, hkeyed.settle hstep result⟩, houtput _ _ _ (hsettle result hstep hq)⟩
  | pop limit h ih => exact ⟨⟨ih.1.1.output _ _ _, ih.1.2⟩, houtput _ _ _ ih.2⟩

lemma inStep (h : History sources tree taken) : InStep tree ∧ Keyed tree :=
  (keeps (Q := fun _ _ => True) trivial (fun _ _ _ _ => trivial) (fun _ _ _ _ => trivial)
    (fun _ _ _ => trivial) h).1

lemma submit (h : History sources tree taken) {source : OrderpoolNonceSource ε} (hs : source ∈ sources)
    {random : ℕ → SimulationId} {results : List (SimulatedResult Order SimResult)} {out : Except ε Unit}
    (hsubmit : tree.submitSimulationTasksResults source random results = .ok (out, tree')) :
    ∃ now, now <+: results ∧ (out = .ok () → now = results) ∧ History sources tree' (taken ++ now) := by
  induction results generalizing tree taken with
  | nil =>
    cases hsubmit
    exact ⟨[], List.prefix_rfl, fun _ => rfl, by rwa [List.append_nil]⟩
  | cons result results ih =>
    rw [submitSimulationTasksResults] at hsubmit
    split at hsubmit
    · cases hsubmit
    · next e next hresult =>
      cases hsubmit
      exact ⟨[result], List.prefix_append [result] results, nofun, h.result hs hresult⟩
    · next next hresult =>
      obtain ⟨now, hprefix, hall, hhistory⟩ := ih (h.result hs hresult) hsubmit
      refine ⟨result :: now, List.cons_prefix_cons.mpr ⟨rfl, hprefix⟩, fun hout => by rw [hall hout], ?_⟩
      rwa [List.append_cons]

end History

section Example

structure PlainOrder where
  id : ℕ
  nonces : List BundleNonce

instance : OrderpoolOrder PlainOrder ℕ where
  orderId := PlainOrder.id
  nonces := PlainOrder.nonces

instance : SimTreeResult ℕ ℕ := ⟨id⟩

def second : PlainOrder := ⟨1, [⟨7, 1, false⟩]⟩

def first : PlainOrder := ⟨0, [⟨7, 0, false⟩]⟩

def firstSimulated : SimulatedResult PlainOrder ℕ := ⟨5, 100, first, [], [⟨7, 1⟩]⟩

def unused : OrderpoolNonceSource String := fun _ => .ok 0

def down : OrderpoolNonceSource String := fun _ => .error "unreachable"

def secondWaits : SimTree ℕ PlainOrder ℕ := enqueue 1 second [⟨7, 1⟩] {}

lemma history_secondWaits : History {unused, down} secondWaits [] := by
  have hpush : pushOrder unused (fun _ => 0) second {} = .ok (.ok (), secondWaits) := rfl
  exact History.new.push (Set.mem_insert unused _) hpush

end Example

end Rblib.Orderpool2.SimTree
