import Rblib.Orderpool2.SimTreeSteps

/-! What a batch of results does when the nonce source fails. -/

namespace Rblib.Orderpool2.SimTree

open Payload OrderpoolOrder

variable {ID Order SimResult ScoreType ε : Type}

def Provides (results : List (SimulatedResult Order SimResult)) (k : AccountNonce) : Prop :=
  ∃ result ∈ results, result.noncesAfter = [k]

def Unblocked (tree : SimTree ID Order SimResult) (results : List (SimulatedResult Order SimResult))
    (i : ID) : Prop :=
  tree.pendingOrders i ≠ none ∧ ∀ k, tree.Listed k i → Provides results k

section Defs

variable [OrderpoolOrder Order ID]

def Failing (source : OrderpoolNonceSource ε) (tree : SimTree ID Order SimResult) (i : ID) : Prop :=
  ∃ p, tree.pendingOrders i = some p ∧ Unanswered source (nonces p.order)

/-- By the answers of the source, the order needs nothing but what the tree has and what the results provide. -/
def Requestable (source : OrderpoolNonceSource ε) (tree : SimTree ID Order SimResult)
    (results : List (SimulatedResult Order SimResult)) (i : ID) : Prop :=
  ∃ p, tree.pendingOrders i = some p ∧ ¬ Unanswered source (nonces p.order) ∧
    ¬ Stale (onchainOf source) (nonces p.order) ∧
    ∀ k ∈ required (onchainOf source) p.order, tree.simsThatUpdateOneNonce k ≠ none ∨ Provides results k

def DroppedAt (source : OrderpoolNonceSource ε) (tree : SimTree ID Order SimResult)
    (before : List (SimulatedResult Order SimResult)) (result : SimulatedResult Order SimResult) (i : ID) : Prop :=
  Unblocked tree (before ++ [result]) i ∧ ∃ k ahead behind, result.noncesAfter = [k] ∧ ¬ Provides before k ∧
    (tree.pendingNonces k).getD [] = ahead ++ i :: behind ∧
    ((∃ j ∈ ahead, Unblocked tree (before ++ [result]) j ∧ Failing source tree j) ∨
      ¬ Requestable source tree (before ++ [result]) i)

/-- Some result of the batch drops the order, and no lookup fails before the batch comes to it. -/
def Dropped (source : OrderpoolNonceSource ε) (tree : SimTree ID Order SimResult)
    (results : List (SimulatedResult Order SimResult)) (i : ID) : Prop :=
  ∃ before result after, results = before ++ result :: after ∧
    (∀ j, Unblocked tree before j → ¬ Failing source tree j) ∧ DroppedAt source tree before result i

end Defs

lemma provides_singleton {result : SimulatedResult Order SimResult} {k : AccountNonce} :
    Provides [result] k ↔ result.noncesAfter = [k] := by
  simp [Provides]

lemma provides_cons {result : SimulatedResult Order SimResult} {results : List (SimulatedResult Order SimResult)}
    {k : AccountNonce} : Provides (result :: results) k ↔ result.noncesAfter = [k] ∨ Provides results k :=
  List.exists_mem_cons_iff ..

section OneResult

variable {tree : SimTree ID Order SimResult} {result : SimulatedResult Order SimResult}

lemma unblocked_singleton {i : ID} : Unblocked tree [result] i ↔
    tree.pendingOrders i ≠ none ∧ ∀ k, tree.Listed k i → result.noncesAfter = [k] :=
  and_congr_right fun _ => forall₂_congr fun _ _ => provides_singleton

lemma not_unblocked_nil (h : InStep tree) (i : ID) : ¬ Unblocked tree [] i := by
  rintro ⟨hpending, hall⟩
  obtain ⟨p, hp⟩ := Option.ne_none_iff_exists'.mp hpending
  obtain ⟨k, hk⟩ := h.exists_listed hp
  obtain ⟨_, hnil, -⟩ := hall k hk
  cases hnil

lemma unblocked_of_listed (h : InStep tree) {k : AccountNonce} (hk : result.noncesAfter = [k]) {i : ID}
    {p : PendingOrder Order} (hp : tree.pendingOrders i = some p) (hi : tree.Listed k i) :
    Unblocked tree [result] i ↔ p.unsatisfiedNonces = 1 := by
  rw [unblocked_singleton, h.last_iff hp hi, hp, hk]
  simp only [List.singleton_inj, eq_comm (a := k)]
  exact and_iff_right (Option.some_ne_none p)

lemma Unblocked.listed (h : InStep tree) {i : ID} (hu : Unblocked tree [result] i) :
    ∃ k, result.noncesAfter = [k] ∧ tree.Listed k i := by
  obtain ⟨hpending, hall⟩ := unblocked_singleton.mp hu
  obtain ⟨p, hp⟩ := Option.ne_none_iff_exists'.mp hpending
  obtain ⟨k, hk⟩ := h.exists_listed hp
  exact ⟨k, hall k hk, hk⟩

lemma mem_releasedBy (h : InStep tree) {order : Order} : order ∈ tree.releasedBy result ↔
    ∃ i p, tree.pendingOrders i = some p ∧ p.order = order ∧ Unblocked tree [result] i := by
  constructor
  · intro ho
    rw [releasedBy] at ho
    split at ho
    · next k hk =>
      obtain ⟨i, hi, p, hp, hone, horder⟩ := mem_last.mp ho
      exact ⟨i, p, hp, horder, (unblocked_of_listed h hk hp hi).mpr hone⟩
    · cases ho
  · rintro ⟨i, p, hp, rfl, hu⟩
    obtain ⟨k, hk, hi⟩ := hu.listed h
    rw [releasedBy, hk]
    exact mem_last.mpr ⟨i, hi, p, hp, (unblocked_of_listed h hk hp hi).mp hu, rfl⟩

variable [OrderpoolOrder Order ID] {source : OrderpoolNonceSource ε}

lemma reached_releasedBy (h : InStep tree) (hkeyed : Keyed tree) {k : AccountNonce} (hk : result.noncesAfter = [k])
    {i : ID} {p : PendingOrder Order} (hp : tree.pendingOrders i = some p) (hu : Unblocked tree [result] i)
    {ahead behind : List ID} (hlist : (tree.pendingNonces k).getD [] = ahead ++ i :: behind) :
    Reached source (tree.releasedBy result) p.order ↔
      ¬ ∃ j ∈ ahead, Unblocked tree [result] j ∧ Failing source tree j := by
  have hlisted : ∀ j ∈ ahead ++ i :: behind, tree.Listed k j := fun j hj => by rwa [Listed, hlist]
  have hmem : i ∈ ahead ++ i :: behind := List.mem_append_right _ List.mem_cons_self
  have hone : p.unsatisfiedNonces = 1 := (unblocked_of_listed h hk hp (hlisted i hmem)).mp hu
  have hnodup : (ahead ++ i :: behind).Nodup := hlist ▸ h.once k
  have hsplit : tree.releasedBy result = tree.last ahead ++ p.order :: tree.last behind := by
    rw [releasedBy, hk]
    dsimp only
    rw [hlist, last, List.filterMap_append, List.filterMap_cons_some]
    · rfl
    · rw [hp, Option.bind_some, if_pos hone]
  have hid : ∀ is : List ID, p.order ∈ tree.last is → i ∈ is := by
    intro is ho
    obtain ⟨j, hj, q, hq, -, horder⟩ := mem_last.mp ho
    have hij : j = i := (hkeyed hq).symm.trans ((congrArg orderId horder).trans (hkeyed hp))
    exact hij ▸ hj
  have hahead : p.order ∉ tree.last ahead :=
    fun ho => List.disjoint_of_nodup_append hnodup (hid _ ho) List.mem_cons_self
  have hbehind : p.order ∉ tree.last behind := fun ho =>
    (List.nodup_cons.mp (List.nodup_append.mp hnodup).2.1).1 (hid _ ho)
  have hreached : Reached source (tree.releasedBy result) p.order ↔
      ∀ u ∈ tree.last ahead, ¬ Unanswered source (nonces u) := by
    constructor
    · rintro ⟨ahead', behind', heq, hall⟩
      obtain ⟨rfl, -, -⟩ := (List.append_cons_inj_of_notMem hahead hbehind).mp (hsplit.symm.trans heq)
      exact hall
    · exact fun hall => ⟨_, _, hsplit, hall⟩
  rw [hreached]
  constructor
  · rintro hall ⟨j, hj, huj, q, hq, hun⟩
    have hqone := (unblocked_of_listed h hk hq (hlisted j (List.mem_append_left _ hj))).mp huj
    exact hall q.order (mem_last.mpr ⟨j, hj, q, hq, hqone, rfl⟩) hun
  · rintro hnot u hu' hun
    obtain ⟨j, hj, q, hq, hqone, rfl⟩ := mem_last.mp hu'
    exact hnot ⟨j, hj, (unblocked_of_listed h hk hq (hlisted j (List.mem_append_left _ hj))).mpr hqone, q, hq, hun⟩

variable [DecidableEq ID] [LinearOrder ScoreType] [SimTreeResult SimResult ScoreType]

omit [OrderpoolOrder Order ID] in
lemma unblocked_iff_settle_none (h : InStep tree) {i : ID} {p : PendingOrder Order}
    (hp : tree.pendingOrders i = some p) :
    Unblocked tree [result] i ↔ (tree.settle result).pendingOrders i = none := by
  rw [unblocked_singleton, settle_none h result hp, hp]
  exact and_iff_right (Option.some_ne_none p)

lemma readyNow_settle (h : InStep tree) {i : ID} {p : PendingOrder Order} (hp : tree.pendingOrders i = some p) :
    ReadyNow source (tree.settle result) p.order ↔ Requestable source tree [result] i := by
  have hmissing : (tree.settle result).missing (required (onchainOf source) p.order) = [] ↔
      ∀ k ∈ required (onchainOf source) p.order, tree.simsThatUpdateOneNonce k ≠ none ∨ Provides [result] k := by
    rw [missing, List.filter_eq_nil_iff]
    refine forall₂_congr fun k _ => ?_
    rw [provides_singleton, ← settle_claimed h result k, Option.isNone_iff_eq_none]
  constructor
  · intro hready
    exact ⟨p, hp, hready.answered, hready.valid, hmissing.mp hready.provided⟩
  · rintro ⟨q, hq, hun, hstale, hall⟩
    cases hp.symm.trans hq
    exact ⟨hun, hstale, hmissing.mpr hall⟩

lemma requested_iff (h : InStep tree) (hkeyed : Keyed tree) {i : ID} {p : PendingOrder Order}
    (hp : tree.pendingOrders i = some p) (hu : Unblocked tree [result] i) :
    Reached source (tree.releasedBy result) p.order ∧ ReadyNow source (tree.settle result) p.order ↔
      ¬ DroppedAt source tree [] result i := by
  obtain ⟨k, hk, hi⟩ := hu.listed h
  obtain ⟨ahead, behind, hlist⟩ := List.append_of_mem hi
  rw [reached_releasedBy h hkeyed hk hp hu hlist, readyNow_settle h hp, DroppedAt, List.nil_append,
    and_iff_right hu]
  constructor
  · rintro ⟨hnone, hready⟩ ⟨k', ahead', behind', hk', -, hlist', hbad⟩
    cases List.singleton_inj.mp (hk.symm.trans hk')
    have hnodup : (ahead ++ i :: behind).Nodup := hlist ▸ h.once k
    have hahead : i ∉ ahead := fun hm => List.disjoint_of_nodup_append hnodup hm List.mem_cons_self
    have hbehind : i ∉ behind := (List.nodup_cons.mp (List.nodup_append.mp hnodup).2.1).1
    obtain ⟨rfl, -, -⟩ := (List.append_cons_inj_of_notMem hahead hbehind).mp (hlist.symm.trans hlist')
    exact hbad.elim hnone fun hnot => hnot hready
  · intro hnot
    constructor
    · exact fun hfail => hnot ⟨k, ahead, behind, hk, nofun, hlist, .inl hfail⟩
    · by_contra hready
      exact hnot ⟨k, ahead, behind, hk, nofun, hlist, .inr hready⟩

lemma process_cases (h : InStep tree) (hkeyed : Keyed tree) (source : OrderpoolNonceSource ε)
    (random : ℕ → SimulationId) (result : SimulatedResult Order SimResult) : ∃ out new bugs drawn,
      tree.processSimulationTaskResult source random result =
        .ok (out,
          { tree.settle result with readyOrders := tree.readyOrders ++ new, bugs := bugs, drawn := drawn }) ∧
      ((∃ e, out = .error e) ↔ ∃ j, Unblocked tree [result] j ∧ Failing source tree j) ∧
      (∀ order, (∃ q ∈ new, q.order = order) → Unblocked tree [result] (orderId order)) ∧
      ∀ p, tree.pendingOrders (orderId p.order) = some p → ((∃ q ∈ new, q.order = p.order) ↔
        Unblocked tree [result] (orderId p.order) ∧ ¬ DroppedAt source tree [] result (orderId p.order)) := by
  obtain ⟨out, new, bugs, drawn, hpush, herror, hnew, -⟩ :=
    pushReady_cases (settle_inStep h result).known source random (tree.releasedBy result)
  rw [(settle_rest result).2.1] at hpush
  have hunblocked : ∀ order, (∃ q ∈ new, q.order = order) → Unblocked tree [result] (orderId order) := by
    intro order hq
    obtain ⟨ahead, behind, hsplit, -⟩ := ((hnew order).mp hq).1
    have hmem : order ∈ tree.releasedBy result := hsplit.symm ▸ List.mem_append_right ahead List.mem_cons_self
    obtain ⟨i, p, hp, rfl, hu⟩ := (mem_releasedBy h).mp hmem
    rwa [hkeyed hp]
  refine ⟨out, new, bugs, drawn, (processSimulationTaskResult_eq h source random result).trans hpush,
    ?_, hunblocked, fun p hp => ?_⟩
  · rw [herror]
    constructor
    · rintro ⟨order, ho, hun⟩
      obtain ⟨i, p, hp, rfl, hu⟩ := (mem_releasedBy h).mp ho
      exact ⟨i, hu, p, hp, hun⟩
    · rintro ⟨i, hu, p, hp, hun⟩
      exact ⟨p.order, (mem_releasedBy h).mpr ⟨i, p, hp, rfl, hu⟩, hun⟩
  · constructor
    · intro hq
      have hu := hunblocked p.order hq
      exact ⟨hu, (requested_iff h hkeyed hp hu).mp ((hnew p.order).mp hq)⟩
    · rintro ⟨hu, hnot⟩
      exact (hnew p.order).mpr ((requested_iff h hkeyed hp hu).mpr hnot)

omit [OrderpoolOrder Order ID] in
lemma unblocked_cons (h : InStep tree) {results : List (SimulatedResult Order SimResult)} {i : ID} :
    Unblocked tree (result :: results) i ↔ Unblocked tree [result] i ∨
      Unblocked (tree.settle result) results i := by
  constructor
  · rintro ⟨hpending, hall⟩
    obtain ⟨p, hp⟩ := Option.ne_none_iff_exists'.mp hpending
    refine or_iff_not_imp_left.mpr fun hnot => ⟨mt (unblocked_iff_settle_none h hp).mpr hnot, fun k hk => ?_⟩
    obtain ⟨hk, hne⟩ := (listed_settle h).mp hk
    exact (provides_cons.mp (hall k hk)).resolve_left hne
  · rintro (⟨hpending, hall⟩ | ⟨hpending, hall⟩)
    · exact ⟨hpending, fun k hk => provides_cons.mpr (.inl (provides_singleton.mp (hall k hk)))⟩
    · obtain ⟨q, hq⟩ := Option.ne_none_iff_exists'.mp hpending
      obtain ⟨p, hp, -⟩ := settle_some h hq
      refine ⟨hp ▸ Option.some_ne_none p, fun k hk => provides_cons.mpr ?_⟩
      exact or_iff_not_imp_left.mpr fun hne => hall k ((listed_settle h).mpr ⟨hk, hne⟩)

lemma failing_settle (h : InStep tree) {i : ID} (hpending : (tree.settle result).pendingOrders i ≠ none) :
    Failing source (tree.settle result) i ↔ Failing source tree i := by
  obtain ⟨q, hq⟩ := Option.ne_none_iff_exists'.mp hpending
  obtain ⟨p, hp, horder⟩ := settle_some h hq
  constructor
  · rintro ⟨q', hq', hun⟩
    cases hq.symm.trans hq'
    exact ⟨p, hp, horder ▸ hun⟩
  · rintro ⟨p', hp', hun⟩
    cases hp.symm.trans hp'
    exact ⟨q, hq, horder ▸ hun⟩

lemma requestable_settle (h : InStep tree) {results : List (SimulatedResult Order SimResult)} {i : ID}
    (hpending : (tree.settle result).pendingOrders i ≠ none) :
    Requestable source (tree.settle result) results i ↔ Requestable source tree (result :: results) i := by
  obtain ⟨q, hq⟩ := Option.ne_none_iff_exists'.mp hpending
  obtain ⟨p, hp, horder⟩ := settle_some h hq
  have hneeds : ∀ k, (tree.settle result).simsThatUpdateOneNonce k ≠ none ∨ Provides results k ↔
      tree.simsThatUpdateOneNonce k ≠ none ∨ Provides (result :: results) k := fun k => by
    rw [settle_claimed h, provides_cons, or_assoc]
  constructor
  · rintro ⟨q', hq', hun, hstale, hall⟩
    cases hq.symm.trans hq'
    rw [← horder] at hun hstale hall
    exact ⟨p, hp, hun, hstale, fun k hk => (hneeds k).mp (hall k hk)⟩
  · rintro ⟨p', hp', hun, hstale, hall⟩
    cases hp.symm.trans hp'
    rw [horder] at hun hstale hall
    exact ⟨q, hq, hun, hstale, fun k hk => (hneeds k).mpr (hall k hk)⟩

omit [OrderpoolOrder Order ID] in
lemma unblocked_behind (h : InStep tree) (results : List (SimulatedResult Order SimResult)) {k : AccountNonce}
    (hne : result.noncesAfter ≠ [k]) {j : ID} (hj : tree.Listed k j) :
    (tree.settle result).pendingOrders j ≠ none ∧
      (Unblocked tree (result :: results) j ↔ Unblocked (tree.settle result) results j) := by
  have hnot : ¬ Unblocked tree [result] j := fun hu => hne ((unblocked_singleton.mp hu).2 k hj)
  obtain ⟨p, hp⟩ := Option.ne_none_iff_exists'.mp (h.listed hj)
  exact ⟨mt (unblocked_iff_settle_none h hp).mpr hnot, (unblocked_cons h).trans (or_iff_right hnot)⟩

lemma droppedAt_cons (h : InStep tree) {before : List (SimulatedResult Order SimResult)}
    {later : SimulatedResult Order SimResult} {i : ID} :
    DroppedAt source tree (result :: before) later i ↔ DroppedAt source (tree.settle result) before later i := by
  have hlist : ∀ {k}, result.noncesAfter ≠ [k] →
      ((tree.settle result).pendingNonces k).getD [] = (tree.pendingNonces k).getD [] := fun hne => by
    rw [settle_pendingNonces h, if_neg hne]
  have hsame : ∀ {k ahead behind}, result.noncesAfter ≠ [k] →
      (tree.pendingNonces k).getD [] = ahead ++ i :: behind →
      (Unblocked tree (result :: (before ++ [later])) i ∧
          ((∃ j ∈ ahead, Unblocked tree (result :: (before ++ [later])) j ∧ Failing source tree j) ∨
            ¬ Requestable source tree (result :: (before ++ [later])) i) ↔
        Unblocked (tree.settle result) (before ++ [later]) i ∧
          ((∃ j ∈ ahead, Unblocked (tree.settle result) (before ++ [later]) j ∧
            Failing source (tree.settle result) j) ∨
            ¬ Requestable source (tree.settle result) (before ++ [later]) i)) := by
    intro k ahead behind hne hwaiting
    have hlisted : ∀ j ∈ ahead ++ i :: behind, tree.Listed k j := fun j hj => by rwa [Listed, hwaiting]
    have hi := unblocked_behind h (before ++ [later]) hne (hlisted i (by simp))
    rw [hi.2, ← requestable_settle h hi.1]
    refine and_congr_right fun _ => or_congr_left (exists_congr fun j => and_congr_right fun hj => ?_)
    have hj := unblocked_behind h (before ++ [later]) hne (hlisted j (List.mem_append_left _ hj))
    rw [hj.2, failing_settle h hj.1]
  constructor
  · rintro ⟨hu, k, ahead, behind, hk, hfirst, hwaiting, hbad⟩
    rw [provides_cons, not_or] at hfirst
    obtain ⟨hu, hbad⟩ := (hsame hfirst.1 hwaiting).mp ⟨hu, hbad⟩
    exact ⟨hu, k, ahead, behind, hk, hfirst.2, (hlist hfirst.1).trans hwaiting, hbad⟩
  · rintro ⟨hu, k, ahead, behind, hk, hfirst, hwaiting, hbad⟩
    have hne : result.noncesAfter ≠ [k] := by
      intro heq
      rw [settle_pendingNonces h, if_pos heq] at hwaiting
      simp at hwaiting
    rw [hlist hne] at hwaiting
    obtain ⟨hu, hbad⟩ := (hsame hne hwaiting).mpr ⟨hu, hbad⟩
    exact ⟨hu, k, ahead, behind, hk, fun hp => (provides_cons.mp hp).elim hne hfirst, hwaiting, hbad⟩

lemma dropped_cons (h : InStep tree) {results : List (SimulatedResult Order SimResult)} {i : ID} :
    Dropped source tree (result :: results) i ↔ DroppedAt source tree [] result i ∨
      (∀ j, Unblocked tree [result] j → ¬ Failing source tree j) ∧
        Dropped source (tree.settle result) results i := by
  constructor
  · rintro ⟨before, later, after, heq, hreach, hat⟩
    cases before with
    | nil =>
      cases heq
      exact .inl hat
    | cons first before =>
      cases heq
      refine .inr ⟨fun j hj => hreach j ((unblocked_cons h).mpr (.inl hj)), before, later, after,
        rfl, fun j hj => ?_, (droppedAt_cons h).mp hat⟩
      rw [failing_settle h hj.1]
      exact hreach j ((unblocked_cons h).mpr (.inr hj))
  · rintro (hat | ⟨hfirst, before, later, after, rfl, hreach, hat⟩)
    · exact ⟨[], result, results, rfl, fun j hj => absurd hj (not_unblocked_nil h j), hat⟩
    · refine ⟨result :: before, later, after, rfl, fun j hj => ?_, (droppedAt_cons h).mpr hat⟩
      obtain hj | hj := (unblocked_cons h).mp hj
      · exact hfirst j hj
      · rw [← failing_settle h hj.1]
        exact hreach j hj

lemma not_dropped_later (h : InStep tree) (results : List (SimulatedResult Order SimResult)) {i : ID}
    (hu : Unblocked tree [result] i) : ¬ Dropped source (tree.settle result) results i := by
  rintro ⟨_, _, _, _, _, hat⟩
  obtain ⟨p, hp⟩ := Option.ne_none_iff_exists'.mp hu.1
  exact hat.1.1 ((unblocked_iff_settle_none h hp).mp hu)

end OneResult

section Batch

variable [DecidableEq ID] [OrderpoolOrder Order ID] [LinearOrder ScoreType] [SimTreeResult SimResult ScoreType]
  {source : OrderpoolNonceSource ε} {random : ℕ → SimulationId} {tree tree' : SimTree ID Order SimResult}
  {results : List (SimulatedResult Order SimResult)} {out : Except ε Unit}

lemma submit_absent (h : InStep tree) (hkeyed : Keyed tree)
    (hsubmit : tree.submitSimulationTasksResults source random results = .ok (out, tree')) {order : Order}
    (habsent : tree.pendingOrders (orderId order) = none) : tree'.pendingOrders (orderId order) = none ∧
      ((∃ q ∈ tree'.readyOrders, q.order = order) ↔ ∃ q ∈ tree.readyOrders, q.order = order) := by
  induction results generalizing tree with
  | nil =>
    cases hsubmit
    exact ⟨habsent, Iff.rfl⟩
  | cons result results ih =>
    obtain ⟨out₁, new, bugs, drawn, hprocess, -, hunblocked, -⟩ := process_cases h hkeyed source random result
    have hgone : (tree.settle result).pendingOrders (orderId order) = none := by
      by_contra hpending
      obtain ⟨q, hq⟩ := Option.ne_none_iff_exists'.mp hpending
      obtain ⟨p, hp, -⟩ := settle_some h hq
      rw [habsent] at hp
      cases hp
    have hready : (∃ q ∈ tree.readyOrders ++ new, q.order = order) ↔ ∃ q ∈ tree.readyOrders, q.order = order := by
      simp only [List.mem_append, or_and_right, exists_or]
      exact or_iff_left fun hq => (hunblocked order hq).1 habsent
    rw [submitSimulationTasksResults, hprocess] at hsubmit
    cases out₁ with
    | error e =>
      cases hsubmit
      exact ⟨hgone, hready⟩
    | ok =>
      have hstep := (settle_inStep h result).output (tree.readyOrders ++ new) bugs drawn
      obtain ⟨habsent', hiff⟩ := ih hstep (hkeyed.settle h result) hsubmit hgone
      exact ⟨habsent', hiff.trans hready⟩

lemma submit_error_iff (h : InStep tree) (hkeyed : Keyed tree)
    (hsubmit : tree.submitSimulationTasksResults source random results = .ok (out, tree')) :
    (∃ e, out = .error e) ↔ ∃ j, Unblocked tree results j ∧ Failing source tree j := by
  induction results generalizing tree with
  | nil =>
    cases hsubmit
    refine iff_of_false ?_ ?_
    · rintro ⟨e, he⟩
      cases he
    · rintro ⟨j, hj, -⟩
      exact not_unblocked_nil h j hj
  | cons result results ih =>
    obtain ⟨out₁, new, bugs, drawn, hprocess, herror, -⟩ := process_cases h hkeyed source random result
    rw [submitSimulationTasksResults, hprocess] at hsubmit
    cases out₁ with
    | error e =>
      cases hsubmit
      obtain ⟨j, hj, hfailing⟩ := herror.mp ⟨e, rfl⟩
      exact iff_of_true ⟨e, rfl⟩ ⟨j, (unblocked_cons h).mpr (.inl hj), hfailing⟩
    | ok =>
      have hstep := (settle_inStep h result).output (tree.readyOrders ++ new) bugs drawn
      rw [ih hstep (hkeyed.settle h result) hsubmit]
      constructor
      · rintro ⟨j, hj, hfailing⟩
        exact ⟨j, (unblocked_cons h).mpr (.inr hj), (failing_settle h hj.1).mp hfailing⟩
      · rintro ⟨j, hj, hfailing⟩
        obtain hj | hj := (unblocked_cons h).mp hj
        · obtain ⟨e, he⟩ := herror.mpr ⟨j, hj, hfailing⟩
          cases he
        · exact ⟨j, hj, (failing_settle h hj.1).mpr hfailing⟩

def Kept (tree : SimTree ID Order SimResult) (i : ID) (order : Order) : Prop :=
  (∃ q, tree.pendingOrders i = some q ∧ q.order = order) ∨ ∃ q ∈ tree.readyOrders, q.order = order

omit [DecidableEq ID] [OrderpoolOrder Order ID] [LinearOrder ScoreType] [SimTreeResult SimResult ScoreType] in
lemma kept_of_gone {i : ID} {order : Order} (hgone : tree.pendingOrders i = none) :
    Kept tree i order ↔ ∃ q ∈ tree.readyOrders, q.order = order := by
  refine or_iff_right ?_
  rintro ⟨q, hq, -⟩
  cases hgone.symm.trans hq

lemma submit_kept_iff (h : InStep tree) (hkeyed : Keyed tree)
    (hsubmit : tree.submitSimulationTasksResults source random results = .ok (out, tree')) {p : PendingOrder Order}
    (hp : tree.pendingOrders (orderId p.order) = some p) : Kept tree' (orderId p.order) p.order ↔
      ¬ Dropped source tree results (orderId p.order) ∨ ∃ q ∈ tree.readyOrders, q.order = p.order := by
  induction results generalizing tree p with
  | nil =>
    cases hsubmit
    refine iff_of_true (.inl ⟨p, hp, rfl⟩) (.inl ?_)
    rintro ⟨before, result, after, hnil, -⟩
    simp at hnil
  | cons result results ih =>
    obtain ⟨out₁, new, bugs, drawn, hprocess, herror, -, hnew⟩ := process_cases h hkeyed source random result
    have hready : (∃ q ∈ tree.readyOrders ++ new, q.order = p.order) ↔
      (∃ q ∈ tree.readyOrders, q.order = p.order) ∨
        Unblocked tree [result] (orderId p.order) ∧ ¬ DroppedAt source tree [] result (orderId p.order) := by
      rw [← hnew p hp]
      simp only [List.mem_append, or_and_right, exists_or]
    have hstep := (settle_inStep h result).output (tree.readyOrders ++ new) bugs drawn
    have hkeyed' : Keyed
        { tree.settle result with readyOrders := tree.readyOrders ++ new, bugs := bugs, drawn := drawn } :=
      hkeyed.settle h result
    rw [submitSimulationTasksResults, hprocess] at hsubmit
    by_cases hu : Unblocked tree [result] (orderId p.order)
    · -- the order leaves the map with this result, and no later one comes back to it
      have hgone := (unblocked_iff_settle_none h hp).mp hu
      rw [and_iff_right hu, or_comm] at hready
      have honly : Dropped source tree (result :: results) (orderId p.order) ↔
          DroppedAt source tree [] result (orderId p.order) :=
        (dropped_cons h).trans (or_iff_left fun hrest => not_dropped_later h results hu hrest.2)
      rw [honly, ← hready]
      cases out₁ with
      | error e =>
        cases hsubmit
        exact kept_of_gone hgone
      | ok =>
        obtain ⟨habsent, hsame⟩ := submit_absent hstep hkeyed' hsubmit hgone
        exact (kept_of_gone habsent).trans hsame
    · obtain ⟨q, hq⟩ := Option.ne_none_iff_exists'.mp (mt (unblocked_iff_settle_none h hp).mpr hu)
      obtain ⟨p', hp', horder⟩ := settle_some h hq
      cases hp.symm.trans hp'
      rw [or_iff_left fun hboth => hu hboth.1] at hready
      have honly : Dropped source tree (result :: results) (orderId p.order) ↔
          (∀ j, Unblocked tree [result] j → ¬ Failing source tree j) ∧
            Dropped source (tree.settle result) results (orderId p.order) :=
        (dropped_cons h).trans (or_iff_right fun hat => hu hat.1)
      rw [honly, ← hready]
      cases out₁ with
      | error e =>
        cases hsubmit
        obtain ⟨j, hj, hfailing⟩ := herror.mp ⟨e, rfl⟩
        exact iff_of_true (.inl ⟨q, hq, horder.symm⟩) (.inl fun hdropped => hdropped.1 j hj hfailing)
      | ok =>
        have hno : ∀ j, Unblocked tree [result] j → ¬ Failing source tree j := by
          intro j hj hfailing
          obtain ⟨e, he⟩ := herror.mpr ⟨j, hj, hfailing⟩
          cases he
        rw [horder] at hq ⊢
        rw [and_iff_right hno]
        exact ih hstep hkeyed' hsubmit hq

lemma submit_total (h : InStep tree) (hkeyed : Keyed tree) (source : OrderpoolNonceSource ε)
    (random : ℕ → SimulationId) (results : List (SimulatedResult Order SimResult)) :
    ∃ out tree', tree.submitSimulationTasksResults source random results = .ok (out, tree') := by
  induction results generalizing tree with
  | nil => exact ⟨.ok (), tree, rfl⟩
  | cons result results ih =>
    obtain ⟨out, new, bugs, drawn, hprocess, -⟩ := process_cases h hkeyed source random result
    have hstep := (settle_inStep h result).output (tree.readyOrders ++ new) bugs drawn
    rw [submitSimulationTasksResults, hprocess]
    cases out with
    | error e => exact ⟨.error e, _, rfl⟩
    | ok => exact ih hstep (hkeyed.settle h result)

/-- No order is lost by a failing batch just if every order it drops had been requested before. -/
theorem failed_submit_keeps_iff {sources : Set (OrderpoolNonceSource ε)}
    {taken : List (SimulatedResult Order SimResult)} (h : History sources tree taken)
    (source : OrderpoolNonceSource ε) (random : ℕ → SimulationId)
    (results : List (SimulatedResult Order SimResult)) :
    (∀ e tree', tree.submitSimulationTasksResults source random results = .ok (.error e, tree') →
      ∀ i p, tree.pendingOrders i = some p → Kept tree' i p.order) ↔
    ((∃ j, Unblocked tree results j ∧ Failing source tree j) →
      ∀ i p, tree.pendingOrders i = some p → Dropped source tree results i →
        ∃ q ∈ tree.readyOrders, q.order = p.order) := by
  obtain ⟨hstep, hkeyed⟩ := h.inStep
  obtain ⟨out, tree', hsubmit⟩ := submit_total hstep hkeyed source random results
  have herror := submit_error_iff hstep hkeyed hsubmit
  constructor
  · intro hall hfails i p hp hdropped
    obtain ⟨e, rfl⟩ := herror.mpr hfails
    obtain rfl := hkeyed hp
    exact ((submit_kept_iff hstep hkeyed hsubmit hp).mp (hall e tree' hsubmit _ p hp)).resolve_left
      (not_not.mpr hdropped)
  · intro hcond e tree'' hsubmit' i p hp
    cases hsubmit.symm.trans hsubmit'
    obtain rfl := hkeyed hp
    exact (submit_kept_iff hstep hkeyed hsubmit hp).mpr (or_iff_not_imp_left.mpr fun hnot =>
      hcond (herror.mp ⟨e, rfl⟩) _ p hp (not_not.mp hnot))

end Batch

section Example

theorem second_lost : ∃ tree', secondWaits.pendingOrders 1 = some ⟨second, 1⟩ ∧
    secondWaits.submitSimulationTasksResults down (fun _ => 0) [firstSimulated] =
        .ok (.error "unreachable", tree') ∧
      tree'.pendingOrders 1 = none ∧ tree'.readyOrders = [] :=
  ⟨_, rfl, rfl, rfl, rfl⟩

theorem second_dropped : ¬ ((∃ j, Unblocked secondWaits [firstSimulated] j ∧ Failing down secondWaits j) →
    ∀ i p, secondWaits.pendingOrders i = some p → Dropped down secondWaits [firstSimulated] i →
      ∃ q ∈ secondWaits.readyOrders, q.order = p.order) := by
  rw [← failed_submit_keeps_iff history_secondWaits down (fun _ => 0) [firstSimulated]]
  intro hkept
  obtain ⟨q, hq, -⟩ | ⟨q, hq, -⟩ := hkept "unreachable" _ rfl 1 ⟨second, 1⟩ rfl
  · cases hq
  · cases hq

end Example

end Rblib.Orderpool2.SimTree
