import Rblib.Steps.OrderingBest

namespace Rblib.Steps

open Platform PlatformTypes Payload Library

variable {P Score ε : Type} [PlatformTypes P]

namespace SortedOrders

variable [LinearOrder Score] {s s' : SortedOrders P Score} {o : Checkpoint P}

omit [LinearOrder Score] in
lemma order_mem {hash : B256} (h : s.order hash = some o) : (hash, o) ∈ s.allOrders := by
  obtain ⟨e, he, rfl⟩ := Option.map_eq_some_iff.mp h
  have hkey : e.1 = hash := by simpa using List.find?_some he
  exact hkey ▸ List.mem_of_find?_eq_some he

lemma drain_hashed (n : ℕ) (h : ∀ e ∈ s.allOrders, e.2.hash = some e.1) :
    ∀ c ∈ drain n s, ∃ hash, c.hash = some hash := by
  refine drain_forall (fun s => ∀ e ∈ s.allOrders, e.2.hash = some e.1) ?_ n h
  intro s best h hp
  obtain ⟨sc, hash, i, hs', -, horder, -⟩ := popBest_eq hp
  have hhash := h _ (order_mem horder)
  refine ⟨⟨hash, hhash⟩, fun e he => ?_⟩
  rw [hs', removeOrder, hhash] at he
  exact h e (List.mem_of_mem_filter he)

lemma sorted_hashed {score : Checkpoint P → Except ε Score} {visit : MapOrder (B256 × Checkpoint P)}
    {span : List (Checkpoint P)} (h : tryFrom score visit span = .ok s) :
    ∀ c ∈ s.intoIter, ∃ hash, c.hash = some hash := by
  obtain ⟨byScore, -, h⟩ := bind_eq_ok.mp h
  obtain rfl := Except.ok.inj h
  exact drain_hashed _ fun e he => collectOrders_keyed he

end SortedOrders

namespace OrderBy

variable {block : BlockContext P} {c q p first : Checkpoint P} {orders : List (Checkpoint P)}

def New (c : Checkpoint P) (fresh : ℕ → ℕ × ℕ) : Prop := ∀ n, ∀ x ∈ c.history, x.data.id ≠ (fresh n).1

def sharedPrefix (orders sorted : List (Checkpoint P)) : ℕ :=
  ((orders.zip sorted).takeWhile fun e => e.1.hash = e.2.hash).length

lemma exists_new (c : Checkpoint P) : ∃ fresh, New c fresh := by
  obtain ⟨id, hid⟩ := Infinite.exists_notMem_finset (c.history.map fun x => x.data.id).toFinset
  refine ⟨fun _ => (id, 0), fun n x hx heq => hid ?_⟩
  rw [List.mem_toFinset]
  exact List.mem_map.mpr ⟨x, hx, heq⟩

lemma reapply_staged (fresh : ℕ → ℕ × ℕ) {items : List (Checkpoint P)} (h : Staged q first orders)
    (hr : reapply fresh items q = .ok p) :
    ∃ added, Staged p first (orders ++ added) ∧ added.length = items.length ∧
      ∀ x ∈ added, ∃ n, x.data.id = (fresh n).1 := by
  induction items generalizing q orders with
  | nil =>
    obtain rfl := Except.ok.inj hr
    exact ⟨[], by rwa [List.append_nil], rfl, fun x hx => absurd hx List.not_mem_nil⟩
  | cons item items ih =>
    obtain ⟨executable, -, q', ha, hrest⟩ := reapply_cons_ok.mp hr
    obtain ⟨result, -, rfl⟩ := Checkpoint.apply_eq ha
    obtain ⟨added, hst, hlen, hid⟩ := ih (h.applied h.exists_barrier result _ _) hrest
    rw [List.append_assoc] at hst
    refine ⟨_, hst, ?_, List.forall_mem_cons.mpr ⟨⟨items.length, rfl⟩, hid⟩⟩
    rw [List.singleton_append, List.length_cons, List.length_cons, hlen]

variable [LinearOrder Score] {score : Checkpoint P → Except ε Score} {visit : MapOrder (B256 × Checkpoint P)}
  {s : SortedOrders P Score}

lemma step_rebuilt (hst : Staged c first orders) (hs : SortedOrders.tryFrom score visit c.historyStaging = .ok s)
    (hne : s.intoIter ≠ []) {fresh : ℕ → ℕ × ℕ} (hp : step score visit fresh c = .ok (.ok p)) :
    reapply fresh s.intoIter first = .ok p ∧ s.intoIter.length = orders.length ∧
      ∃ added, Staged p first added ∧ added.length = orders.length ∧
        ∀ x ∈ added, ∃ n, x.data.id = (fresh n).1 := by
  obtain ⟨item, items, hsorted⟩ := List.exists_cons_of_ne_nil hne
  obtain ⟨hash, hh⟩ := SortedOrders.sorted_hashed hs item (hsorted ▸ List.mem_cons_self)
  rw [step_sorted hst visit fresh hs hsorted hh, ← hsorted] at hp
  cases hr : reapply fresh s.intoIter first with
  | error e =>
    simp only [hr] at hp
    cases hp
  | ok q =>
    simp only [hr] at hp
    by_cases hdepth : q.depth = c.depth
    · rw [if_pos hdepth] at hp
      cases hp
      have hlen : s.intoIter.length = orders.length := by
        have hq := reapply_depth fresh hr
        rw [hdepth, hst.depth] at hq
        omega
      obtain ⟨added, hadded, hcount, hid⟩ := reapply_staged fresh (staged_first hst.barrier) hr
      exact ⟨rfl, hlen, added, hadded, hcount.trans hlen, hid⟩
    · rw [if_neg hdepth] at hp
      cases hp

lemma step_of_reapply (hst : Staged c first orders)
    (hs : SortedOrders.tryFrom score visit c.historyStaging = .ok s)
    {fresh : ℕ → ℕ × ℕ} (hlen : s.intoIter.length = orders.length) (hr : reapply fresh s.intoIter first = .ok p) :
    step score visit fresh c = .ok (.ok p) := by
  have hdepth : p.depth = c.depth := by rw [reapply_depth fresh hr, hlen, hst.depth]
  cases hsorted : s.intoIter with
  | nil =>
    rw [hsorted] at hr hlen
    obtain rfl := Except.ok.inj hr
    obtain rfl := List.length_eq_zero_iff.mp hlen.symm
    rw [step_empty hst visit fresh hs hsorted, hst.alone]
  | cons item items =>
    obtain ⟨hash, hh⟩ := SortedOrders.sorted_hashed hs item (hsorted ▸ List.mem_cons_self)
    rw [hsorted] at hr
    rw [step_sorted hst visit fresh hs hsorted hh, hr]
    dsimp only
    rw [if_pos hdepth]

lemma sharedPrefix_self {orders : List (Checkpoint P)} (h : sharedPrefix orders orders = 0) : orders = [] := by
  cases orders with
  | nil => rfl
  | cons x rest =>
    rw [sharedPrefix, List.zip_cons_cons, List.takeWhile_cons_of_pos (by simp)] at h
    cases h

lemma prefix_rebuilt (hst : Staged c first orders) (hs : SortedOrders.tryFrom score visit c.historyStaging = .ok s)
    (hshared : sharedPrefix orders s.intoIter ≠ 0) {fresh : ℕ → ℕ × ℕ} (hnew : New c fresh)
    (hp : step score visit fresh c = .ok (.ok p)) :
    ¬ c.historyStaging.take (sharedPrefix orders s.intoIter + 1) <+: p.historyStaging := by
  have hne : s.intoIter ≠ [] := by
    intro hnil
    rw [hnil, sharedPrefix, List.zip_nil_right] at hshared
    exact hshared rfl
  obtain ⟨x, rest, rfl⟩ : ∃ x rest, orders = x :: rest := by
    cases orders with
    | nil => exact absurd rfl hshared
    | cons x rest => exact ⟨x, rest, rfl⟩
  obtain ⟨k, hk⟩ := Nat.exists_eq_succ_of_ne_zero hshared
  obtain ⟨-, -, added, hadded, hlen, hid⟩ := step_rebuilt hst hs hne hp
  rw [hk, hst.staging, hadded.staging, List.take_succ_cons, List.take_succ_cons, List.cons_prefix_cons]
  rintro ⟨-, hpre⟩
  obtain ⟨n, hn⟩ := hid x (hpre.subset List.mem_cons_self)
  have hx : x ∈ c.history := by
    apply (staging_within_history c).subset
    rw [hst.staging]
    exact List.mem_cons_of_mem _ List.mem_cons_self
  exact hnew n x hx hn

/-- The step keeps what is in order: the payload itself, or the staged checkpoints in front of the first order
that is out of order. -/
structure Reuses (score : Checkpoint P → Except ε Score) (visit : MapOrder (B256 × Checkpoint P))
    (c : Checkpoint P) (orders sorted : List (Checkpoint P)) : Prop where
  fast : orders = sorted → ∀ fresh, New c fresh → step score visit fresh c = .ok (.ok c)
  shared : ∀ fresh p, New c fresh → step score visit fresh c = .ok (.ok p) →
    c.historyStaging.take (sharedPrefix orders sorted + 1) <+: p.historyStaging

/-- The orders are not in order, and no payload is built from them: some got lost or do not apply any more. -/
structure Unbuildable (c first : Checkpoint P) (orders sorted : List (Checkpoint P)) : Prop where
  unsorted : orders ≠ sorted
  refused : sorted.length ≠ orders.length ∨ ∀ fresh, New c fresh → ∃ e, reapply fresh sorted first = .error e

theorem prefix_reused_iff (hb : Checkpoint.Built block c) (score : Checkpoint P → Except ε Score)
    (visit : MapOrder (B256 × Checkpoint P)) : ∃ first orders, Staged c first orders ∧
      ∀ s, SortedOrders.tryFrom score visit c.historyStaging = .ok s →
        (Reuses score visit c orders s.intoIter ↔
          sharedPrefix orders s.intoIter = 0 ∨ Unbuildable c first orders s.intoIter) := by
  obtain ⟨first, orders, hst⟩ := staged hb
  refine ⟨first, orders, hst, fun s hs => ⟨fun h => ?_, ?_⟩⟩
  · by_cases hshared : sharedPrefix orders s.intoIter = 0
    · exact .inl hshared
    · refine .inr ⟨fun hsorted => ?_, ?_⟩
      · obtain ⟨fresh, hnew⟩ := exists_new c
        have hkept := h.fast hsorted fresh hnew
        exact prefix_rebuilt hst hs hshared hnew hkept (List.take_prefix _ _)
      · by_contra hbuilt
        rw [not_or, not_not] at hbuilt
        apply hbuilt.2
        intro fresh hnew
        cases hr : reapply fresh s.intoIter first with
        | error e => exact ⟨e, rfl⟩
        | ok p =>
          have hp := step_of_reapply hst hs hbuilt.1 hr
          exact absurd (h.shared fresh p hnew hp) (prefix_rebuilt hst hs hshared hnew hp)
  · intro hcond
    refine ⟨fun hsorted fresh _ => ?_, fun fresh p hnew hp => ?_⟩
    · obtain hshared | hrefused := hcond
      · apply step_empty hst visit fresh hs
        rw [← hsorted] at hshared ⊢
        exact sharedPrefix_self hshared
      · exact absurd hsorted hrefused.unsorted
    · by_cases hne : s.intoIter = []
      · rw [step_empty hst visit fresh hs hne] at hp
        cases hp
        exact List.take_prefix _ _
      · obtain ⟨hr, hlen, added, hadded, -, -⟩ := step_rebuilt hst hs hne hp
        obtain hshared | hrefused := hcond
        · rw [hshared, hst.staging, hadded.staging]
          exact ⟨added, rfl⟩
        · obtain hlost | hfails := hrefused.refused
          · exact absurd hlen hlost
          · obtain ⟨e, he⟩ := hfails fresh hnew
            cases hr.symm.trans he

section Examples

def hashScore (c : Checkpoint Devnet) : Except Unit B256 := .ok (c.hash.getD 0)

theorem loosePayload_reuses : ∃ first orders s, Staged loosePayload first orders ∧
    SortedOrders.tryFrom hashScore default loosePayload.historyStaging = .ok s ∧
    Reuses hashScore default loosePayload orders s.intoIter := by
  have hb : Checkpoint.Built Devnet.block loosePayload :=
    built_extend (built_extend (built_extend (.start 0 0) trivial) trivial) trivial
  obtain ⟨first, orders, hst, hreuses⟩ := prefix_reused_iff hb hashScore default
  have hshared : (SortedOrders.tryFrom hashScore default loosePayload.historyStaging).map
      (fun s => sharedPrefix (SortedOrders.executables loosePayload.historyStaging) s.intoIter) = .ok 0 := by
    decide +kernel
  rw [executables_staging hst] at hshared
  cases hs : SortedOrders.tryFrom hashScore default loosePayload.historyStaging with
  | error e =>
    rw [hs] at hshared
    cases hshared
  | ok s =>
    rw [hs] at hshared
    exact ⟨first, orders, s, hst, rfl, (hreuses s hs).mpr (.inl (Except.ok.inj hshared))⟩

def singlePayload : Checkpoint Devnet :=
  extend (Checkpoint.newAtBlock Devnet.block 0 0) (.transaction (PlainTx.mk 1 7 0))

theorem singlePayload_rebuilt : Checkpoint.Built Devnet.block singlePayload ∧
    New singlePayload (fun n => (n + 2, n)) ∧
    (SortedOrders.tryFrom flatScore default singlePayload.historyStaging).map
      (fun s => s.intoIter.map Checkpoint.hash) =
      .ok ((SortedOrders.executables singlePayload.historyStaging).map Checkpoint.hash) ∧
    (step flatScore default (fun n => (n + 2, n)) singlePayload).map
      (fun flow => flow.checkpoint.map fun p => p.data.id) = .ok (some 2) ∧
    step flatScore default (fun n => (n + 2, n)) singlePayload ≠ .ok (.ok singlePayload) := by
  have hid : (step flatScore default (fun n => (n + 2, n)) singlePayload).map
      (fun flow => flow.checkpoint.map fun p => p.data.id) = .ok (some 2) := by decide +kernel
  refine ⟨built_extend (.start 0 0) trivial, fun n x hx => ?_, by decide +kernel, hid, fun hsame => ?_⟩
  · have hids : singlePayload.history.map (fun x => x.data.id) = [0, 1] := by decide +kernel
    have hid : x.data.id ∈ [0, 1] := hids ▸ List.mem_map_of_mem hx
    simp only [List.mem_cons, List.not_mem_nil, or_false] at hid
    dsimp only
    omega
  · rw [hsame] at hid
    revert hid
    decide +kernel

end Examples

end OrderBy

end Rblib.Steps
