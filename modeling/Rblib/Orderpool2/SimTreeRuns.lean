import Rblib.Orderpool2.SimTreeSteps

namespace Rblib.Orderpool2.SimTree

open Payload OrderpoolOrder

variable {ID Order SimResult ScoreType ε : Type} [OrderpoolOrder Order ID]

lemma not_unanswered (onchain : Address → ℕ) (ns : List BundleNonce) :
    ¬ Unanswered (fun a => (.ok (onchain a) : Except ε ℕ)) ns := by
  intro hun
  induction hun with
  | here ns h => cases h
  | later h hvalid hns ih => exact ih

structure Synced (onchain : Address → ℕ) (tree : SimTree ID Order SimResult) : Prop where
  known : tree.SimsKnown
  apart : ∀ {k}, tree.simsThatUpdateOneNonce k ≠ none → tree.pendingNonces k = none
  once : ∀ k, ((tree.pendingNonces k).getD []).Nodup
  listed : ∀ {k i}, tree.Listed k i → tree.pendingOrders i ≠ none
  valid : ∀ {i p}, tree.pendingOrders i = some p → ¬ Stale onchain (nonces p.order)
  waiting : ∀ {i p}, tree.pendingOrders i = some p →
    ∀ k, tree.Listed k i ↔ k ∈ tree.missing (required onchain p.order)
  counted : ∀ {i p}, tree.pendingOrders i = some p →
    p.unsatisfiedNonces = (tree.missing (required onchain p.order)).length
  positive : ∀ {i p}, tree.pendingOrders i = some p → 0 < p.unsatisfiedNonces
  clean : tree.bugs = []

namespace Synced

variable {onchain : Address → ℕ} {tree : SimTree ID Order SimResult}

variable (onchain tree) in
lemma missing_nodup (order : Order) : (tree.missing (required onchain order)).Nodup :=
  (required_nodup order).filter _

lemma inStep (h : Synced onchain tree) : InStep tree where
  known := h.known
  apart := h.apart
  once := h.once
  listed := h.listed
  counted hp := ⟨_, missing_nodup onchain tree _, h.waiting hp, h.counted hp⟩
  positive := h.positive

lemma of_inStep (h : InStep tree)
    (hvalid : ∀ {i p}, tree.pendingOrders i = some p → ¬ Stale onchain (nonces p.order))
    (hwaiting : ∀ {i p}, tree.pendingOrders i = some p →
      ∀ k, tree.Listed k i ↔ k ∈ tree.missing (required onchain p.order))
    (hclean : tree.bugs = []) : Synced onchain tree := by
  refine ⟨h.known, h.apart, h.once, h.listed, hvalid, hwaiting, fun {i p} hp => ?_, h.positive, hclean⟩
  obtain ⟨keys, hnodup, hiff, hlen⟩ := h.counted hp
  have hperm : keys.Perm (tree.missing (required onchain p.order)) :=
    (List.perm_ext_iff_of_nodup hnodup (missing_nodup onchain tree p.order)).mpr fun k =>
      (hiff k).symm.trans (hwaiting hp k)
  exact hlen.trans hperm.length_eq

lemma new : Synced onchain ({} : SimTree ID Order SimResult) := of_inStep .new nofun nofun rfl

lemma request (h : Synced onchain tree) (random : ℕ → SimulationId) (order : Order) (parents : List Order) :
    Synced onchain (tree.request random order parents) :=
  ⟨h.known, h.apart, h.once, h.listed, h.valid, h.waiting, h.counted, h.positive, h.clean⟩

lemma popSimulationTasks (h : Synced onchain tree) (limit : ℕ) :
    Synced onchain (tree.popSimulationTasks limit).2 :=
  ⟨h.known, h.apart, h.once, h.listed, h.valid, h.waiting, h.counted, h.positive, h.clean⟩

variable [DecidableEq ID]

lemma enqueue (h : Synced onchain tree) {order : Order} (hnew : tree.pendingOrders (orderId order) = none)
    (hvalid : ¬ Stale onchain (nonces order)) (hne : tree.missing (required onchain order) ≠ []) :
    Synced onchain (tree.enqueue (orderId order) order (tree.missing (required onchain order))) := by
  have hkeys := missing_nodup onchain tree order
  have hfresh : ∀ k, ¬ tree.Listed k (orderId order) := fun k hk => h.listed hk hnew
  refine of_inStep (h.inStep.enqueue hnew hkeys hne fun k hk => (mem_missing.mp hk).2) ?_ ?_ h.clean
  · intro i p hp
    obtain ⟨-, rfl⟩ | ⟨-, hp⟩ := pendingOrders_enqueue hp
    · exact hvalid
    · exact h.valid hp
  · intro i p hp k
    refine (listed_enqueue hkeys k i).trans ?_
    obtain ⟨rfl, rfl⟩ | ⟨hi, hp⟩ := pendingOrders_enqueue hp
    · exact ⟨fun hk => hk.elim (absurd · (hfresh k)) And.right, fun hk => .inr ⟨rfl, hk⟩⟩
    · exact (or_iff_left fun hk => hi hk.1).trans (h.waiting hp k)

lemma pushOrder (h : Synced onchain tree) (random : ℕ → SimulationId) (order : Order) :
    ∃ tree', tree.pushOrder (fun a => (.ok (onchain a) : Except ε ℕ)) random order = .ok (.ok (), tree') ∧
      Synced onchain tree' := by
  obtain ⟨out, tree', hpush, herror, hcases⟩ :=
    pushOrder_cases h.inStep (fun a => (.ok (onchain a) : Except ε ℕ)) random order
  cases out with
  | error e => exact absurd (herror e rfl) (not_unanswered onchain _)
  | ok =>
    refine ⟨tree', hpush, ?_⟩
    obtain rfl | ⟨-, rfl⟩ | ⟨hnew, hne, hvalid, rfl⟩ := hcases
    · exact h
    · exact h.request random order _
    · exact h.enqueue hnew hvalid hne

lemma pushOrders (h : Synced onchain tree) (random : ℕ → SimulationId) (orders : List Order) :
    ∃ tree', tree.pushOrders (fun a => (.ok (onchain a) : Except ε ℕ)) random orders = .ok (.ok (), tree') ∧
      Synced onchain tree' := by
  induction orders generalizing tree with
  | nil => exact ⟨tree, rfl, h⟩
  | cons order orders ih =>
    obtain ⟨next, hpush, hnext⟩ := h.pushOrder (ε := ε) random order
    rw [SimTree.pushOrders, hpush]
    exact ih hnext

omit [DecidableEq ID] in
lemma pushReady (h : Synced onchain tree) (random : ℕ → SimulationId) {orders : List Order}
    (hready : ∀ order ∈ orders, ¬ Stale onchain (nonces order) ∧ tree.missing (required onchain order) = []) :
    ∃ tree', tree.pushReady (fun a => (.ok (onchain a) : Except ε ℕ)) random orders = .ok (.ok (), tree') ∧
      Synced onchain tree' := by
  induction orders generalizing tree with
  | nil => exact ⟨tree, rfl, h⟩
  | cons order orders ih =>
    obtain ⟨hvalid, hmissing⟩ := hready order List.mem_cons_self
    have hnow : ReadyNow (fun a => (.ok (onchain a) : Except ε ℕ)) tree order :=
      ⟨not_unanswered onchain _, hvalid, hmissing⟩
    obtain ⟨hun, -⟩ | ⟨-, hnot, -⟩ | ⟨-, hpush⟩ := pushReady_cons h.known
      (fun a => (.ok (onchain a) : Except ε ℕ)) random order orders
    · exact absurd hun hnow.answered
    · exact absurd hnow hnot
    · rw [hpush]
      exact ih (h.request random order _) fun o ho => hready o (List.mem_cons_of_mem _ ho)

variable [LinearOrder ScoreType] [SimTreeResult SimResult ScoreType]

lemma settle (h : Synced onchain tree) (result : SimulatedResult Order SimResult) :
    Synced onchain (tree.settle result) := by
  refine of_inStep (settle_inStep h.inStep result) ?_ ?_ ((settle_rest result).2.2.trans h.clean)
  · intro i q hq
    obtain ⟨p, hp, horder⟩ := settle_some h.inStep hq
    exact horder ▸ h.valid hp
  · intro i q hq k
    obtain ⟨p, hp, horder⟩ := settle_some h.inStep hq
    have hnone := not_congr (settle_claimed h.inStep result k)
    rw [not_or, not_not, not_not] at hnone
    rw [listed_settle h.inStep, h.waiting hp, mem_missing, mem_missing, horder, and_assoc]
    exact and_congr_right fun _ => hnone.symm

lemma releasedBy (h : Synced onchain tree) (result : SimulatedResult Order SimResult) :
    ∀ order ∈ tree.releasedBy result,
      ¬ Stale onchain (nonces order) ∧ (tree.settle result).missing (required onchain order) = [] := by
  intro order ho
  rw [SimTree.releasedBy] at ho
  split at ho
  · next k hk =>
    obtain ⟨i, hi, p, hp, hone, rfl⟩ := mem_last.mp ho
    refine ⟨h.valid hp, List.eq_nil_iff_forall_not_mem.mpr fun k' hk' => ?_⟩
    obtain ⟨hneeds, hnone⟩ := mem_missing.mp hk'
    have hclaimed := mt (settle_claimed h.inStep result k').mpr (not_not.mpr hnone)
    rw [not_or, not_not] at hclaimed
    -- the nonce would be another one that the order waits for
    have hlisted := (h.waiting hp k').mpr (mem_missing.mpr ⟨hneeds, hclaimed.1⟩)
    exact hclaimed.2 (hk.trans (congrArg (fun k => [k]) ((h.inStep.last_iff hp hi).mp hone k' hlisted).symm))
  · cases ho

lemma processSimulationTaskResult (h : Synced onchain tree) (random : ℕ → SimulationId)
    (result : SimulatedResult Order SimResult) :
    ∃ tree', tree.processSimulationTaskResult (fun a => (.ok (onchain a) : Except ε ℕ)) random result =
      .ok (.ok (), tree') ∧ Synced onchain tree' := by
  rw [processSimulationTaskResult_eq h.inStep]
  exact (h.settle result).pushReady random (h.releasedBy result)

lemma submitSimulationTasksResults (h : Synced onchain tree) (random : ℕ → SimulationId)
    (results : List (SimulatedResult Order SimResult)) :
    ∃ tree', tree.submitSimulationTasksResults (fun a => (.ok (onchain a) : Except ε ℕ)) random results =
      .ok (.ok (), tree') ∧ Synced onchain tree' := by
  induction results generalizing tree with
  | nil => exact ⟨tree, rfl, h⟩
  | cons result results ih =>
    obtain ⟨next, hresult, hnext⟩ := h.processSimulationTaskResult (ε := ε) random result
    rw [SimTree.submitSimulationTasksResults, hresult]
    exact ih hnext

lemma call (h : Synced onchain tree) (random : ℕ → SimulationId) (c : Call Order SimResult) :
    ∃ tree', tree.call (fun a => (.ok (onchain a) : Except ε ℕ)) random c = .ok tree' ∧ Synced onchain tree' := by
  cases c with
  | pushOrder order =>
    obtain ⟨tree', hpush, hsynced⟩ := h.pushOrder (ε := ε) random order
    exact ⟨tree', by rw [SimTree.call, hpush]; rfl, hsynced⟩
  | pushOrders orders =>
    obtain ⟨tree', hpush, hsynced⟩ := h.pushOrders (ε := ε) random orders
    exact ⟨tree', by rw [SimTree.call, hpush]; rfl, hsynced⟩
  | popSimulationTasks limit => exact ⟨_, rfl, h.popSimulationTasks limit⟩
  | submitSimulationTasksResults results =>
    obtain ⟨tree', hsubmit, hsynced⟩ := h.submitSimulationTasksResults (ε := ε) random results
    exact ⟨tree', by rw [SimTree.call, hsubmit]; rfl, hsynced⟩

lemma run (h : Synced onchain tree) (random : ℕ → SimulationId) (calls : List (Call Order SimResult)) :
    ∃ tree', SimTree.run (fun a => (.ok (onchain a) : Except ε ℕ)) random calls tree = .ok tree' ∧
      Synced onchain tree' := by
  induction calls generalizing tree with
  | nil => exact ⟨tree, rfl, h⟩
  | cons c calls ih =>
    obtain ⟨next, hcall, hnext⟩ := h.call (ε := ε) random c
    rw [SimTree.run, hcall]
    exact ih hnext

omit [DecidableEq ID] [LinearOrder ScoreType] [SimTreeResult SimResult ScoreType] in
lemma ncard_listed {i : ID} {p : PendingOrder Order} (h : Synced onchain tree)
    (hp : tree.pendingOrders i = some p) :
    {k | tree.Listed k i}.ncard = p.unsatisfiedNonces := by
  have hset : {k | tree.Listed k i} = ((tree.missing (required onchain p.order)).toFinset : Set AccountNonce) := by
    ext k
    rw [List.coe_toFinset]
    exact h.waiting hp k
  rw [hset, Set.ncard_coe_finset, List.toFinset_card_of_nodup (missing_nodup onchain tree p.order), h.counted hp]

end Synced

section Runs

variable [DecidableEq ID] [LinearOrder ScoreType] [SimTreeResult SimResult ScoreType]

/-- No call panics or meets one of the branches the source calls a bug, and the maps agree after every run. -/
theorem run_in_step (onchain : Address → ℕ) (random : ℕ → SimulationId) (calls : List (Call Order SimResult)) :
    ∃ tree : SimTree ID Order SimResult,
      run (fun a => (.ok (onchain a) : Except ε ℕ)) random calls {} = .ok tree ∧ tree.bugs = [] ∧
      (∀ i p, tree.pendingOrders i = some p →
        1 ≤ p.unsatisfiedNonces ∧ p.unsatisfiedNonces = {k | tree.Listed k i}.ncard) ∧
      (∀ k is, tree.pendingNonces k = some is → is.Nodup ∧ ∀ i ∈ is, tree.pendingOrders i ≠ none) ∧
      (∀ k simId, tree.simsThatUpdateOneNonce k = some simId →
        tree.pendingNonces k = none ∧ tree.sims simId ≠ none) := by
  have hnew : Synced onchain ({} : SimTree ID Order SimResult) := .new
  obtain ⟨tree, hrun, h⟩ := hnew.run (ε := ε) random calls
  refine ⟨tree, hrun, h.clean, ?_, ?_, ?_⟩
  · intro i p hp
    exact ⟨h.positive hp, (h.ncard_listed hp).symm⟩
  · intro k is his
    have hlist : (tree.pendingNonces k).getD [] = is := by rw [his, Option.getD_some]
    refine ⟨hlist ▸ h.once k, ?_⟩
    intro i hi
    apply h.listed (k := k)
    rw [Listed, hlist]
    exact hi
  · intro k simId hk
    exact ⟨h.apart (hk ▸ Option.some_ne_none _), Option.isSome_iff_ne_none.mp (h.known hk)⟩

end Runs

end Rblib.Orderpool2.SimTree
