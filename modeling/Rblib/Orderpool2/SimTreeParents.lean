import Rblib.Library.FirstMax
import Rblib.Orderpool2.SimTreeSteps

/-! Which simulation stands for a nonce: of the results taken up so far that leave just this nonce
behind, the first one with the highest score. -/

namespace Rblib.Orderpool2.SimTree

open Payload OrderpoolOrder Library

variable {ID Order SimResult ScoreType ε : Type} [LinearOrder ScoreType] [SimTreeResult SimResult ScoreType]

/-- The earliest result with the maximal score among those with `k` as their only nonce afterwards. -/
def Best (taken : List (SimulatedResult Order SimResult)) (k : AccountNonce)
    (result : SimulatedResult Order SimResult) : Prop :=
  FirstMax (fun r => r.noncesAfter = [k]) (fun r => SimTreeResult.score r.simulatedOrder) taken result

lemma best_of_mem {taken : List (SimulatedResult Order SimResult)} {k : AccountNonce}
    {r : SimulatedResult Order SimResult} (hr : r ∈ taken) (hk : r.noncesAfter = [k]) : ∃ m, Best taken k m :=
  FirstMax.exists_of_mem hr hk

def HasParents [OrderpoolOrder Order ID] (source : OrderpoolNonceSource ε)
    (taken : List (SimulatedResult Order SimResult)) (q : SimulationRequest Order) : Prop :=
  ∃ best, List.Forall₂ (Best taken) (required (onchainOf source) q.order) best ∧
    q.parents = best.flatMap fun r => r.previousOrders ++ [r.order]

section Settle

variable [DecidableEq ID] {tree : SimTree ID Order SimResult} {result : SimulatedResult Order SimResult}
    {k : AccountNonce}

lemma settle_other (h : InStep tree) (hk : result.noncesAfter ≠ [k]) :
    (tree.settle result).simsThatUpdateOneNonce k = tree.simsThatUpdateOneNonce k := by
  by_cases hone : ∃ k', result.noncesAfter = [k']
  · obtain ⟨k', hk'⟩ := hone
    have hne : k ≠ k' := by
      rintro rfl
      exact hk hk'
    by_cases hnone : tree.simsThatUpdateOneNonce k' = none
    · rw [(settle_of_unclaimed hk' hnone).1]
      exact Function.update_of_ne hne _ _
    · obtain ⟨simId, sim, -, -, hsettle, -⟩ := settle_of_claimed h hk' hnone
      rw [hsettle]
      split
      · exact Function.update_of_ne hne _ _
      · rfl
  · rw [(settle_of_ne (not_exists.mp hone)).1]
    rfl

lemma settle_first (hk : result.noncesAfter = [k]) (hnone : tree.simsThatUpdateOneNonce k = none) :
    (tree.settle result).simsThatUpdateOneNonce k = some result.id := by
  rw [(settle_of_unclaimed hk hnone).1]
  exact Function.update_self _ _ _

lemma settle_next (h : InStep tree) (hk : result.noncesAfter = [k]) {sim : SimulatedResult Order SimResult}
    (hne : sim.id ≠ result.id) (hsim : tree.simsThatUpdateOneNonce k = some sim.id)
    (hknown : tree.sims sim.id = some sim) :
    (tree.settle result).simsThatUpdateOneNonce k =
      if SimTreeResult.score sim.simulatedOrder < SimTreeResult.score result.simulatedOrder then some result.id
      else some sim.id := by
  have hrecord : (tree.record result).sims sim.id = some sim := (Function.update_of_ne hne _ _).trans hknown
  obtain ⟨simId, sim', hsim', hs, hsettle, -⟩ := settle_of_claimed h hk (hsim ▸ Option.some_ne_none sim.id)
  cases hsim.symm.trans hsim'
  cases hrecord.symm.trans hs
  rw [hsettle]
  split
  · exact Function.update_self _ _ _
  · exact hsim

end Settle

structure Tracks (tree : SimTree ID Order SimResult) (taken : List (SimulatedResult Order SimResult)) : Prop where
  best : ∀ {k r}, Best taken k r → tree.simsThatUpdateOneNonce k = some r.id ∧ tree.sims r.id = some r
  free : ∀ {k}, (∀ r ∈ taken, r.noncesAfter ≠ [k]) → tree.simsThatUpdateOneNonce k = none

namespace Tracks

variable {tree : SimTree ID Order SimResult} {taken : List (SimulatedResult Order SimResult)}

lemma new : Tracks ({} : SimTree ID Order SimResult) [] where
  best h := absurd h.mem List.not_mem_nil
  free _ := rfl

lemma eq_none_iff (ht : Tracks tree taken) (k : AccountNonce) :
    tree.simsThatUpdateOneNonce k = none ↔ ∀ r ∈ taken, r.noncesAfter ≠ [k] := by
  refine ⟨fun hnone r hr hk => ?_, ht.free⟩
  obtain ⟨m, hm⟩ := best_of_mem hr hk
  rw [(ht.best hm).1] at hnone
  cases hnone

lemma exists_best (ht : Tracks tree taken) {k : AccountNonce} (hk : tree.simsThatUpdateOneNonce k ≠ none) :
    ∃ r, Best taken k r := by
  rw [ne_eq, ht.eq_none_iff] at hk
  push Not at hk
  obtain ⟨r, hr, hafter⟩ := hk
  exact best_of_mem hr hafter

lemma eq_some_iff (ht : Tracks tree taken) (k : AccountNonce) (simId : SimulationId) :
    tree.simsThatUpdateOneNonce k = some simId ↔ ∃ r, Best taken k r ∧ r.id = simId := by
  constructor
  · intro hsim
    obtain ⟨r, hr⟩ := ht.exists_best (hsim ▸ Option.some_ne_none simId)
    exact ⟨r, hr, Option.some.inj ((ht.best hr).1.symm.trans hsim)⟩
  · rintro ⟨r, hr, rfl⟩
    exact (ht.best hr).1

lemma parents (ht : Tracks tree taken) {keys : List AccountNonce} (hkeys : tree.missing keys = []) :
    ∃ best, List.Forall₂ (Best taken) keys best ∧
      keys.flatMap tree.parentsOf = best.flatMap fun r => r.previousOrders ++ [r.order] := by
  induction keys with
  | nil => exact ⟨[], .nil, rfl⟩
  | cons k keys ih =>
    have hall := List.filter_eq_nil_iff.mp hkeys
    have hk : tree.simsThatUpdateOneNonce k ≠ none := fun hnone =>
      hall k List.mem_cons_self (Option.isNone_iff_eq_none.mpr hnone)
    obtain ⟨r, hr⟩ := ht.exists_best hk
    obtain ⟨hsim, hknown⟩ := ht.best hr
    obtain ⟨best, hbest, hparents⟩ :=
      ih (List.filter_eq_nil_iff.mpr fun k' hk' => hall k' (List.mem_cons_of_mem k hk'))
    refine ⟨r :: best, .cons hr hbest, ?_⟩
    rw [List.flatMap_cons, List.flatMap_cons, hparents, parentsOf, hsim, Option.bind_some, hknown]

lemma hasParents [OrderpoolOrder Order ID] (ht : Tracks tree taken) {source : OrderpoolNonceSource ε}
    {q : SimulationRequest Order} (hready : ReadyNow source tree q.order)
    (hq : q.parents = parentsFor source tree q.order) : HasParents source taken q := by
  obtain ⟨best, hbest, hparents⟩ := ht.parents hready.provided
  exact ⟨best, hbest, hq.trans hparents⟩

lemma settle [DecidableEq ID] (ht : Tracks tree taken) (h : InStep tree) {result : SimulatedResult Order SimResult}
    (hnew : ∀ r ∈ taken, r.id ≠ result.id) : Tracks (tree.settle result) (taken ++ [result]) := by
  have hself : (tree.settle result).sims result.id = some result := by
    rw [(settle_rest result).1, Function.update_self]
  have hold : ∀ {k r}, Best taken k r → (tree.settle result).sims r.id = some r := fun {k r} hr => by
    rw [(settle_rest result).1, Function.update_of_ne (hnew r hr.mem)]
    exact (ht.best hr).2
  refine ⟨fun {k r} hr => ?_, fun {k} hfree => ?_⟩
  · suffices hbest : ∃ m, Best (taken ++ [result]) k m ∧
      (tree.settle result).simsThatUpdateOneNonce k = some m.id ∧
        (tree.settle result).sims m.id = some m by
      obtain ⟨m, hm, hchosen⟩ := hbest
      cases hr.unique hm
      exact hchosen
    by_cases hk : result.noncesAfter = [k]
    · by_cases hnone : tree.simsThatUpdateOneNonce k = none
      · have hfirst : Best (taken ++ [result]) k result :=
          .replace hk fun x hx hafter => absurd hafter ((ht.eq_none_iff k).mp hnone x hx)
        exact ⟨result, hfirst, settle_first hk hnone, hself⟩
      · obtain ⟨m, hm⟩ := ht.exists_best hnone
        obtain ⟨hsim, hknown⟩ := ht.best hm
        have hnext := settle_next h hk (hnew m hm.mem) hsim hknown
        by_cases hlt : SimTreeResult.score m.simulatedOrder < SimTreeResult.score result.simulatedOrder
        · rw [if_pos hlt] at hnext
          exact ⟨result, .replace hk fun x hx hafter => (hm.le hx hafter).trans_lt hlt, hnext, hself⟩
        · rw [if_neg hlt] at hnext
          exact ⟨m, hm.keep fun _ => not_lt.mp hlt, hnext, hold hm⟩
    · have hother := settle_other h hk
      have hmem : r ∈ taken := by
        obtain hmem | hmem := List.mem_append.mp hr.mem
        · exact hmem
        · exact absurd (List.mem_singleton.mp hmem ▸ hr.kind) hk
      obtain ⟨m, hm⟩ := best_of_mem hmem hr.kind
      exact ⟨m, hm.keep fun hafter => absurd hafter hk, hother.trans (ht.best hm).1, hold hm⟩
  · have hk : result.noncesAfter ≠ [k] := hfree result (List.mem_append_right taken List.mem_cons_self)
    rw [settle_other h hk]
    exact ht.free fun r hr => hfree r (List.mem_append_left [result] hr)

end Tracks

def Awaited [OrderpoolOrder Order ID] (sources : Set (OrderpoolNonceSource ε))
    (tree : SimTree ID Order SimResult) : Prop :=
  ∀ {i p}, tree.pendingOrders i = some p →
    ∃ source ∈ sources, ∀ k, tree.Listed k i → k ∈ required (onchainOf source) p.order

namespace History

variable [DecidableEq ID] [OrderpoolOrder Order ID] {sources : Set (OrderpoolNonceSource ε)}
  {tree : SimTree ID Order SimResult} {taken : List (SimulatedResult Order SimResult)}

lemma awaited (h : History sources tree taken) : Awaited sources tree := by
  refine (keeps (Q := fun tree _ => Awaited sources tree) nofun (fun _ _ _ hq => hq) ?_ ?_ h).2
  · intro tree _ source order hs hstep hnew hq i p hp
    have hkeys : (tree.missing (required (onchainOf source) order)).Nodup := (required_nodup order).filter _
    obtain ⟨rfl, rfl⟩ | ⟨hi, hp⟩ := pendingOrders_enqueue hp
    · refine ⟨source, hs, fun k hk => ?_⟩
      obtain hk | ⟨-, hk⟩ := (listed_enqueue hkeys k _).mp hk
      · exact absurd hnew (hstep.listed hk)
      · exact (mem_missing.mp hk).1
    · obtain ⟨s, hmem, hall⟩ := hq hp
      exact ⟨s, hmem, fun k hk => hall k (((listed_enqueue hkeys k i).mp hk).resolve_right fun heq => hi heq.1)⟩
  · intro tree _ result hstep hq i q hi
    obtain ⟨p, hp, horder⟩ := settle_some hstep hi
    obtain ⟨s, hmem, hall⟩ := hq hp
    exact ⟨s, hmem, fun k hk => horder ▸ hall k ((listed_settle hstep).mp hk).1⟩

lemma tracks (h : History sources tree taken) (hids : (taken.map SimulatedResult.id).Nodup) :
    Tracks tree taken := by
  refine (keeps (Q := fun tree taken => (taken.map SimulatedResult.id).Nodup → Tracks tree taken) (fun _ => .new)
    (fun _ _ _ hq hids => ⟨(hq hids).best, (hq hids).free⟩) ?_ ?_ h).2 hids
  · intro _ _ _ _ _ _ _ hq hids
    exact ⟨(hq hids).best, (hq hids).free⟩
  · intro _ _ result hstep hq hids
    rw [List.map_append, List.nodup_append] at hids
    obtain ⟨hids, -, hnew⟩ := hids
    exact (hq hids).settle hstep fun r hr => hnew _ (List.mem_map_of_mem hr) _ List.mem_cons_self

end History

section Requests

variable [DecidableEq ID] [OrderpoolOrder Order ID] {tree tree' : SimTree ID Order SimResult}
  {taken : List (SimulatedResult Order SimResult)} {source : OrderpoolNonceSource ε} {random : ℕ → SimulationId}
  {out : Except ε Unit}

lemma pushed_parents (ht : Tracks tree taken) (h : InStep tree) {order : Order}
    (hpush : tree.pushOrder source random order = .ok (out, tree')) :
    ∃ new, tree'.readyOrders = tree.readyOrders ++ new ∧ ∀ q ∈ new, q.order = order ∧
      HasParents source taken q := by
  obtain ⟨_, _, heq, -, hcases⟩ := pushOrder_cases h source random order
  cases hpush.symm.trans heq
  obtain rfl | ⟨hready, rfl⟩ | ⟨-, -, -, rfl⟩ := hcases
  · exact ⟨[], (List.append_nil _).symm, nofun⟩
  · refine ⟨[⟨random tree.drawn, order, parentsFor source tree order⟩], rfl, fun q hq => ?_⟩
    obtain rfl := List.mem_singleton.mp hq
    exact ⟨rfl, ht.hasParents hready rfl⟩
  · exact ⟨[], (List.append_nil _).symm, nofun⟩

lemma released_parents (ht : Tracks tree taken) (h : InStep tree) (hkeyed : Keyed tree)
    {result : SimulatedResult Order SimResult} (hnew : ∀ r ∈ taken, r.id ≠ result.id)
    (hresult : tree.processSimulationTaskResult source random result = .ok (out, tree')) :
    ∃ new, tree'.readyOrders = tree.readyOrders ++ new ∧ ∀ q ∈ new, (∃ p k,
      tree.pendingOrders (orderId q.order) = some p ∧ p.order = q.order ∧ tree.Listed k (orderId q.order) ∧
        result.noncesAfter = [k]) ∧ HasParents source (taken ++ [result]) q := by
  rw [processSimulationTaskResult_eq h] at hresult
  obtain ⟨_, new, bugs, drawn, heq, -, hrequests, hparents⟩ :=
    pushReady_cases (settle_inStep h result).known source random (tree.releasedBy result)
  cases hresult.symm.trans heq
  refine ⟨new, by rw [(settle_rest result).2.1], fun q hq => ?_⟩
  obtain ⟨⟨ahead, behind, hreleased, -⟩, hready⟩ := (hrequests q.order).mp ⟨q, hq, rfl⟩
  refine ⟨?_, (ht.settle h hnew).hasParents hready (hparents q hq)⟩
  have hmem : q.order ∈ tree.releasedBy result := hreleased ▸ List.mem_append_right ahead List.mem_cons_self
  rw [releasedBy] at hmem
  split at hmem
  · next k hk =>
    obtain ⟨i, hi, p, hp, -, horder⟩ := mem_last.mp hmem
    obtain rfl : orderId q.order = i := horder ▸ hkeyed hp
    exact ⟨p, k, hp, horder, hi, hk⟩
  · cases hmem

/-- After every run, a nonce maps to the best result taken up so far, and the requests that the next
order or the next result leads to have the best results at that time as parents. -/
theorem best_stands {sources : Set (OrderpoolNonceSource ε)} (h : History sources tree taken)
    (hids : (taken.map SimulatedResult.id).Nodup) :
    (∀ k, tree.simsThatUpdateOneNonce k = none ↔ ∀ r ∈ taken, r.noncesAfter ≠ [k]) ∧
    (∀ k simId, tree.simsThatUpdateOneNonce k = some simId ↔ ∃ r, Best taken k r ∧ r.id = simId) ∧
    (∀ source ∈ sources, ∀ random order out tree', tree.pushOrder source random order = .ok (out, tree') →
      ∃ new, tree'.readyOrders = tree.readyOrders ++ new ∧ ∀ q ∈ new, q.order = order ∧
        HasParents source taken q) ∧
    (∀ source ∈ sources, ∀ random (results : List (SimulatedResult Order SimResult)) out tree',
      tree.submitSimulationTasksResults source random results = .ok (out, tree') →
      ∃ now, now <+: results ∧ (out = .ok () → now = results) ∧ History sources tree' (taken ++ now)) ∧
    ∀ source ∈ sources, ∀ random (result : SimulatedResult Order SimResult) out tree',
      result.id ∉ taken.map SimulatedResult.id →
      tree.processSimulationTaskResult source random result = .ok (out, tree') →
      ∃ new, tree'.readyOrders = tree.readyOrders ++ new ∧ ∀ q ∈ new, (∃ p k,
        tree.pendingOrders (orderId q.order) = some p ∧ p.order = q.order ∧ tree.Listed k (orderId q.order) ∧
          result.noncesAfter = [k]) ∧
        (∃ pushed ∈ sources, ∀ k, tree.Listed k (orderId q.order) → k ∈ required (onchainOf pushed) q.order) ∧
        HasParents source (taken ++ [result]) q := by
  have ht := h.tracks hids
  obtain ⟨hstep, hkeyed⟩ := h.inStep
  refine ⟨ht.eq_none_iff, ht.eq_some_iff, ?_, ?_, ?_⟩
  · intro source _ random order out tree' hpush
    exact pushed_parents ht hstep hpush
  · intro source hs random results out tree' hsubmit
    exact h.submit hs hsubmit
  · intro source _ random result out tree' hfresh hresult
    have hnew : ∀ r ∈ taken, r.id ≠ result.id := fun r hr heq => hfresh (heq ▸ List.mem_map_of_mem hr)
    obtain ⟨new, hready, hrequests⟩ := released_parents ht hstep hkeyed hnew hresult
    refine ⟨new, hready, fun q hq => ?_⟩
    obtain ⟨hpending, hparents⟩ := hrequests q hq
    obtain ⟨p, -, hp, horder, -⟩ := hpending
    have hawaited := h.awaited hp
    rw [horder] at hawaited
    exact ⟨(hrequests q hq).1, hawaited, hparents⟩

end Requests

section Example

def otherSimulated : SimulatedResult PlainOrder ℕ := ⟨6, 100, ⟨2, [⟨8, 0, false⟩]⟩, [], [⟨8, 1⟩]⟩

def reached : OrderpoolNonceSource String := fun _ => .ok 1

theorem first_stands : ∃ r, Best [firstSimulated] ⟨7, 1⟩ r ∧ r.id = 5 := by
  obtain ⟨tree, hresult, hsim⟩ : ∃ tree,
      secondWaits.processSimulationTaskResult unused (fun _ => 0) firstSimulated = .ok (.ok (), tree) ∧
        tree.simsThatUpdateOneNonce ⟨7, 1⟩ = some 5 := ⟨_, rfl, rfl⟩
  have hhistory := history_secondWaits.result (Set.mem_insert unused _) hresult
  obtain ⟨-, hstands, -⟩ := best_stands hhistory (by decide)
  exact (hstands ⟨7, 1⟩ 5).mp hsim

theorem batch_cut_short : (∃ tree', secondWaits.submitSimulationTasksResults down (fun _ => 0)
      [firstSimulated, otherSimulated] = .ok (.error "unreachable", tree') ∧
        tree'.simsThatUpdateOneNonce ⟨8, 1⟩ = none) ∧
    ∃ tree', secondWaits.submitSimulationTasksResults reached (fun _ => 0) [firstSimulated] = .ok (.ok (), tree') ∧
      tree'.readyOrders = [⟨0, second, []⟩] :=
  ⟨⟨_, rfl, rfl⟩, ⟨_, rfl, rfl⟩⟩

end Example

end Rblib.Orderpool2.SimTree
