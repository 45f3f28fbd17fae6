import Rblib.Library.Fallible
import Rblib.Steps.OrderingDrain

namespace Rblib.Steps

open Platform PlatformTypes Payload Library

variable {P Score ε : Type}

namespace SortedOrders

variable [PlatformTypes P] {score : Checkpoint P → Except ε Score} {span : List (Checkpoint P)}

lemma hash_of_executable {c : Checkpoint P} (h : c ∈ executables span) : ∃ hash, c.hash = some hash := by
  have hb : c.isBarrier = false := by simpa using (List.mem_filter.mp h).2
  rw [Checkpoint.isBarrier, Option.isNone_eq_false_iff, Option.isSome_iff_exists] at hb
  obtain ⟨r, hr⟩ := hb
  cases hs : r.source with
  | transaction tx => exact ⟨txHash tx, by simp [Checkpoint.hash, Checkpoint.asTransaction, hr, hs]⟩
  | bundle b =>
    exact ⟨b.hash, by simp [Checkpoint.hash, Checkpoint.asTransaction, Checkpoint.asBundle, hr, hs]⟩

def entries (span : List (Checkpoint P)) : List (B256 × Checkpoint P) :=
  (executables span).filterMap fun checkpoint => checkpoint.hash.map (·, checkpoint)

lemma mem_entries {hash : B256} {c : Checkpoint P} :
    (hash, c) ∈ entries span ↔ c ∈ executables span ∧ c.hash = some hash := by
  simp only [entries, List.mem_filterMap, Option.map_eq_some_iff, Prod.mk.injEq]
  constructor
  · rintro ⟨c', hc', h, hh, rfl, rfl⟩
    exact ⟨hc', hh⟩
  · exact fun ⟨hc, hh⟩ => ⟨c, hc, hash, hh, rfl, rfl⟩

lemma entries_keys (span : List (Checkpoint P)) :
    (entries span).map (fun e => some e.1) = (executables span).map Checkpoint.hash := by
  have hall : ∀ l : List (Checkpoint P), (∀ c ∈ l, ∃ hash, c.hash = some hash) →
      (l.filterMap fun c => c.hash.map (·, c)).map (fun e => some e.1) = l.map Checkpoint.hash := by
    intro l hl
    induction l with
    | nil => rfl
    | cons c l ih =>
      obtain ⟨hash, hh⟩ := hl c List.mem_cons_self
      rw [List.filterMap_cons, hh]
      simp only [Option.map_some, List.map_cons, hh, ih fun c hc => hl c (List.mem_cons_of_mem _ hc)]
  exact hall _ fun c hc => hash_of_executable hc

lemma entries_nodup : ((entries span).map Prod.fst).Nodup ↔ ((executables span).map Checkpoint.hash).Nodup := by
  have hmap : (entries span).map (fun e => some e.1) = ((entries span).map Prod.fst).map some := by
    rw [List.map_map]
    rfl
  rw [← entries_keys, hmap, List.nodup_map_iff (Option.some_injective _)]

lemma foldl_insertOrder (acc l : List (B256 × Checkpoint P)) (hacc : (acc.map Prod.fst).Nodup) :
    ((l.foldl insertOrder acc).map Prod.fst).Nodup ∧ ∀ e ∈ l.foldl insertOrder acc, e ∈ acc ∨ e ∈ l := by
  induction l generalizing acc with
  | nil => exact ⟨hacc, fun e he => .inl he⟩
  | cons x l ih =>
    have hstep : ((insertOrder acc x).map Prod.fst).Nodup := by
      rw [insertOrder, List.map_append, List.nodup_append]
      refine ⟨hacc.sublist (List.filter_sublist.map _), by simp, ?_⟩
      intro a ha b hb
      obtain ⟨e, he, rfl⟩ := List.mem_map.mp ha
      rw [List.map_singleton, List.mem_singleton] at hb
      simpa [hb] using (List.mem_filter.mp he).2
    obtain ⟨hnd, hmem⟩ := ih _ hstep
    refine ⟨hnd, fun e he => ?_⟩
    obtain he | he := hmem e he
    · obtain he | he := List.mem_append.mp he
      · exact .inl (List.mem_of_mem_filter he)
      · exact .inr (List.mem_singleton.mp he ▸ List.mem_cons_self)
    · exact .inr (List.mem_cons_of_mem _ he)

lemma foldl_insertOrder_distinct (acc l : List (B256 × Checkpoint P)) (h : ((acc ++ l).map Prod.fst).Nodup) :
    l.foldl insertOrder acc = acc ++ l := by
  induction l generalizing acc with
  | nil => simp
  | cons x l ih =>
    have hkeep : insertOrder acc x = acc ++ [x] := by
      rw [insertOrder, List.filter_eq_self.mpr]
      intro e he
      rw [List.map_append, List.nodup_append] at h
      simpa using h.2.2 e.1 (List.mem_map_of_mem he) x.1 (List.mem_map_of_mem List.mem_cons_self)
    rw [List.foldl_cons, hkeep, ih]
    · simp
    · simpa using h

lemma collectOrders_mem {e : B256 × Checkpoint P} (h : e ∈ collectOrders span) : e ∈ entries span :=
  ((foldl_insertOrder [] (entries span) List.nodup_nil).2 e h).resolve_left List.not_mem_nil

lemma collectOrders_eq (h : ((executables span).map Checkpoint.hash).Nodup) :
    collectOrders span = entries span :=
  foldl_insertOrder_distinct [] (entries span) (entries_nodup.mpr h)

lemma entries_length (span : List (Checkpoint P)) : (entries span).length = (executables span).length := by
  have h := congrArg List.length (entries_keys span)
  simpa using h

lemma collectOrders_length_lt (h : ¬ ((executables span).map Checkpoint.hash).Nodup) :
    (collectOrders span).length < (executables span).length := by
  by_contra hlen
  have hnd : ((collectOrders span).map Prod.fst).Nodup := (foldl_insertOrder [] (entries span) List.nodup_nil).1
  have hsub : (collectOrders span).map Prod.fst ⊆ (entries span).map Prod.fst :=
    List.map_subset _ fun e he => collectOrders_mem he
  have hperm := (hnd.subperm hsub).perm_of_length_le (by
    rw [List.length_map, List.length_map, entries_length]
    omega)
  exact h (entries_nodup.mp (hperm.nodup_iff.mp hnd))

lemma find_entry {l : List (B256 × Checkpoint P)} (h : (l.map Prod.fst).Nodup) (hash : B256) (c : Checkpoint P) :
    (l.find? fun o => decide (o.1 = hash)).map Prod.snd = some c ↔ (hash, c) ∈ l := by
  rw [Option.map_eq_some_iff]
  constructor
  · rintro ⟨e, he, rfl⟩
    have hk : e.1 = hash := by simpa using List.find?_some he
    rw [← hk]
    exact List.mem_of_find?_eq_some he
  · intro hm
    have hsome : (l.find? fun o => decide (o.1 = hash)).isSome := by
      rw [List.find?_isSome]
      exact ⟨_, hm, by simp⟩
    obtain ⟨e, he⟩ := Option.isSome_iff_exists.mp hsome
    have hk : e.1 = hash := by simpa using List.find?_some he
    have heq := List.inj_on_of_nodup_map h (List.mem_of_find?_eq_some he) hm hk
    exact ⟨e, he, by rw [heq]⟩

lemma holds_of_distinct {s : SortedOrders P Score} (hd : ((executables span).map Checkpoint.hash).Nodup)
    (ho : s.allOrders = collectOrders span)
    (hs : ∀ sc hash, hash ∈ s.byScore.values sc ↔ ∃ e ∈ collectOrders span, e.1 = hash ∧ score e.2 = .ok sc)
    (hn : ∀ a n, n ∈ s.nonces.values a ↔ ∃ e ∈ collectOrders span, (a, n) ∈ e.2.nonces) :
    Holds score s (executables span) := by
  rw [collectOrders_eq hd] at ho
  simp only [collectOrders_eq hd] at hs hn
  refine ⟨fun hash c => ?_, fun sc hash => ?_, fun a n => ?_⟩
  · rw [order, ho, find_entry (entries_nodup.mpr hd), mem_entries]
  · rw [hs]
    constructor
    · rintro ⟨⟨h, c⟩, he, rfl, hsc⟩
      obtain ⟨hc, hh⟩ := mem_entries.mp he
      exact ⟨c, hc, hh, hsc⟩
    · rintro ⟨c, hc, hh, hsc⟩
      exact ⟨(hash, c), mem_entries.mpr ⟨hc, hh⟩, rfl, hsc⟩
  · rw [hn]
    constructor
    · rintro ⟨⟨h, c⟩, he, hm⟩
      exact ⟨c, (mem_entries.mp he).1, hm⟩
    · rintro ⟨c, hc, hm⟩
      obtain ⟨hash, hh⟩ := hash_of_executable hc
      exact ⟨(hash, c), mem_entries.mpr ⟨hc, hh⟩, hm⟩

variable [LinearOrder Score]

lemma indexScores_ok {l : List (B256 × Checkpoint P)} (h : ∀ e ∈ l, ∃ sc, score e.2 = .ok sc)
    (m : MultiMap Score B256) : ∃ m', indexScores score l m = .ok m' ∧
      ∀ sc hash, hash ∈ m'.values sc ↔ hash ∈ m.values sc ∨ ∃ e ∈ l, e.1 = hash ∧ score e.2 = .ok sc := by
  induction l generalizing m with
  | nil => exact ⟨m, rfl, by simp⟩
  | cons e l ih =>
    obtain ⟨sc, hs⟩ := h e List.mem_cons_self
    obtain ⟨m', hm', hmem⟩ := ih (fun e' he' => h e' (List.mem_cons_of_mem _ he')) (m.insert sc e.1)
    refine ⟨m', ?_, fun sc' hash => ?_⟩
    · rw [indexScores, hs]
      exact hm'
    · rw [hmem, MultiMap.mem_insert, List.exists_mem_cons_iff, hs, Except.ok.injEq]
      constructor
      · rintro ((⟨rfl, rfl⟩ | h) | h)
        · exact .inr (.inl ⟨rfl, rfl⟩)
        · exact .inl h
        · exact .inr (.inr h)
      · rintro (h | ⟨rfl, rfl⟩ | h)
        · exact .inl (.inr h)
        · exact .inl (.inl ⟨rfl, rfl⟩)
        · exact .inr h

lemma tryFrom_collected (hscore : ∀ e ∈ collectOrders span, ∃ sc, score e.2 = .ok sc)
    (visit : MapOrder (B256 × Checkpoint P)) :
    ∃ s, tryFrom score visit span = .ok s ∧ s.allOrders = collectOrders span ∧
      (∀ sc hash, hash ∈ s.byScore.values sc ↔ ∃ e ∈ collectOrders span, e.1 = hash ∧ score e.2 = .ok sc) ∧
      ∀ a n, n ∈ s.nonces.values a ↔ ∃ e ∈ collectOrders span, (a, n) ∈ e.2.nonces := by
  have hvisit : ∀ e, e ∈ visit.list (collectOrders span) ↔ e ∈ collectOrders span :=
    fun e => (visit.perm _).mem_iff
  have hall : ∀ e ∈ visit.list (collectOrders span), ∃ sc, score e.2 = .ok sc :=
    fun e he => hscore e ((hvisit e).mp he)
  obtain ⟨m, hm, hmem⟩ := indexScores_ok hall MultiMap.empty
  refine ⟨_, by rw [tryFrom, hm]; rfl, rfl, fun sc hash => ?_, fun a n => ?_⟩
  · rw [hmem]
    simp [hvisit]
  · rw [MultiMap.mem_foldl_insert]
    simp [hvisit]

lemma tryFrom_ok (hscore : ∀ c ∈ executables span, ∃ sc, score c = .ok sc)
    (visit : MapOrder (B256 × Checkpoint P)) :
    ∃ s, tryFrom score visit span = .ok s ∧ s.allOrders = collectOrders span ∧
      (∀ sc hash, hash ∈ s.byScore.values sc ↔ ∃ e ∈ collectOrders span, e.1 = hash ∧ score e.2 = .ok sc) ∧
      ∀ a n, n ∈ s.nonces.values a ↔ ∃ e ∈ collectOrders span, (a, n) ∈ e.2.nonces := by
  apply tryFrom_collected
  exact fun e he => hscore e.2 (mem_entries.mp (collectOrders_mem he)).1

lemma intoIter_perm_iff {s : SortedOrders P Score} (hsep : Separable score (executables span) ∨
      ¬ ((executables span).map Checkpoint.hash).Nodup) (ho : s.allOrders = collectOrders span)
    (hs : ∀ sc hash, hash ∈ s.byScore.values sc ↔ ∃ e ∈ collectOrders span, e.1 = hash ∧ score e.2 = .ok sc)
    (hn : ∀ a n, n ∈ s.nonces.values a ↔ ∃ e ∈ collectOrders span, (a, n) ∈ e.2.nonces) :
    s.intoIter.Perm (executables span) ↔ ((executables span).map Checkpoint.hash).Nodup ∧
      ∀ c ∈ executables span, (c.transactions.map signer).Nodup := by
  obtain hsep | hdup := hsep
  · have hholds := holds_of_distinct hsep.distinct ho hs hn
    have hlen : (executables span).length ≤ s.allOrders.length := by
      rw [ho, collectOrders_eq hsep.distinct, entries_length]
    constructor
    · intro hperm
      refine ⟨hsep.distinct, fun c hc => ?_⟩
      exact hholds.drain_signers hsep s.allOrders.length c (hperm.mem_iff.mpr hc)
    · exact fun hcond => hholds.drain_perm hsep hcond.2 hlen
  · constructor
    · intro hperm
      have hlt := collectOrders_length_lt hdup
      have hle := drain_length s.allOrders.length s
      rw [ho] at hle
      have heq := hperm.length_eq
      rw [intoIter, ho] at heq
      omega
    · exact fun hcond => absurd hcond.1 hdup

end SortedOrders

namespace OrderBy

variable [PlatformTypes P] {block : BlockContext P} {c : Checkpoint P}

structure Staged (c : Checkpoint P) (first : Checkpoint P) (orders : List (Checkpoint P)) : Prop where
  staging : c.historyStaging = first :: orders
  barrier : first.isBarrier = true
  executable : ∀ x ∈ orders, x.isBarrier = false
  depth : c.depth = first.depth + orders.length
  depths : ∀ i x, (first :: orders)[i]? = some x → x.depth = first.depth + i

lemma staging_within_history (c : Checkpoint P) : c.historyStaging <:+: c.history :=
  (List.drop_suffix _ _).isInfix

lemma staging_of_findIdx {i : ℕ} (h : c.iter.findIdx? Checkpoint.isBarrier = some i) :
    c.historyStaging = c.history.drop (c.iter.length - 1 - i) := by
  simp only [Checkpoint.historyStaging, Checkpoint.history, List.reverse_reverse, h, List.length_reverse]

lemma staging_barrier {d : CheckpointData P} (h : (Checkpoint.next c d).isBarrier = true) :
    (Checkpoint.next c d).historyStaging = [.next c d] := by
  have hi : (Checkpoint.next c d).iter.findIdx? Checkpoint.isBarrier = some 0 := by
    rw [Checkpoint.iter, List.findIdx?_cons, if_pos h]
  have hlen : (Checkpoint.next c d).iter.length - 1 - 0 = c.history.length := by
    simp [Checkpoint.iter, Checkpoint.history]
  rw [staging_of_findIdx hi, hlen, Checkpoint.history_next, List.drop_left]

lemma staged_barrier {d : CheckpointData P} (h : (Checkpoint.next c d).isBarrier = true) :
    Staged (.next c d) (.next c d) [] := by
  refine ⟨staging_barrier h, h, by simp, rfl, fun i x hx => ?_⟩
  obtain ⟨rfl, rfl⟩ : i = 0 ∧ Checkpoint.next c d = x := by
    cases i with
    | zero => exact ⟨rfl, by simpa using hx⟩
    | succ i => simp at hx
  rfl

lemma staging_executable {d : CheckpointData P} (h : (Checkpoint.next c d).isBarrier = false)
    (hc : ∃ b ∈ c.iter, b.isBarrier = true) :
    (Checkpoint.next c d).historyStaging = c.historyStaging ++ [.next c d] := by
  have hsome : (c.iter.findIdx? Checkpoint.isBarrier).isSome := by
    rw [List.findIdx?_isSome, List.any_eq_true]
    exact hc
  obtain ⟨i, hi⟩ := Option.isSome_iff_exists.mp hsome
  have hi' : (Checkpoint.next c d).iter.findIdx? Checkpoint.isBarrier = some (i + 1) := by
    rw [Checkpoint.iter, List.findIdx?_cons, if_neg (by simp [h]), hi]
    rfl
  have hlen : (Checkpoint.next c d).iter.length = c.iter.length + 1 := rfl
  have hdrop : c.iter.length + 1 - 1 - (i + 1) = c.iter.length - 1 - i := by omega
  have hle : c.iter.length - 1 - i ≤ c.history.length := by
    rw [Checkpoint.history, List.length_reverse]
    omega
  rw [staging_of_findIdx hi', staging_of_findIdx hi, hlen, hdrop, Checkpoint.history_next,
    List.drop_append_of_le_length hle]

lemma exists_barrier (hb : Checkpoint.Built block c) : ∃ b ∈ c.iter, b.isBarrier = true := by
  induction hb with
  | start id now => exact ⟨_, List.mem_singleton.mpr rfl, rfl⟩
  | apply hb hwf ha ih =>
    obtain ⟨result, -, rfl⟩ := Checkpoint.apply_eq ha
    obtain ⟨b, hm, hbar⟩ := ih
    exact ⟨b, List.mem_cons_of_mem _ hm, hbar⟩
  | barrier id now hb ih => exact ⟨_, List.mem_cons_self, rfl⟩

lemma Staged.exists_barrier {first : Checkpoint P} {orders : List (Checkpoint P)} (h : Staged c first orders) :
    ∃ b ∈ c.iter, b.isBarrier = true := by
  refine ⟨first, ?_, h.barrier⟩
  rw [← List.mem_reverse]
  exact (staging_within_history c).subset (h.staging ▸ List.mem_cons_self)

lemma Staged.applied {first : Checkpoint P} {orders : List (Checkpoint P)} (h : Staged c first orders)
    (hc : ∃ b ∈ c.iter, b.isBarrier = true) (result : ExecutionResult P) (id now : ℕ) :
    Staged (c.applyWith (.executable result) id now) first
      (orders ++ [c.applyWith (.executable result) id now]) := by
  have hdepth : (c.applyWith (.executable result) id now).depth = c.depth + 1 := rfl
  refine ⟨?_, h.barrier, ?_, ?_, ?_⟩
  · rw [Checkpoint.applyWith, staging_executable rfl hc, h.staging]
    rfl
  · intro x hx
    obtain hx | hx := List.mem_append.mp hx
    · exact h.executable x hx
    · rw [List.mem_singleton.mp hx]
      rfl
  · rw [hdepth, h.depth, List.length_append, List.length_singleton]
    omega
  · intro i x hx
    rw [← List.cons_append] at hx
    by_cases hi : i < (first :: orders).length
    · rw [List.getElem?_append_left hi] at hx
      exact h.depths i x hx
    · rw [List.getElem?_append_right (by omega)] at hx
      obtain ⟨hlen, hval⟩ := List.getElem?_eq_some_iff.mp hx
      simp only [List.length_cons, List.length_nil] at hlen hi
      rw [List.getElem_singleton] at hval
      rw [← hval, hdepth, h.depth]
      omega

lemma staged_first {first : Checkpoint P} (h : first.isBarrier = true) : Staged first first [] := by
  cases first with
  | base b d =>
    refine ⟨?_, h, by simp, rfl, fun i x hx => ?_⟩
    · simp [Checkpoint.historyStaging, Checkpoint.history, Checkpoint.iter, h]
    · cases i with
      | zero =>
        obtain rfl := Option.some.inj hx
        rfl
      | succ i => cases hx
  | next p d => exact staged_barrier h

lemma staged_start (block : BlockContext P) (id now : ℕ) :
    Staged (Checkpoint.newAtBlock block id now) (Checkpoint.newAtBlock block id now) [] := staged_first rfl

lemma staged (hb : Checkpoint.Built block c) : ∃ first orders, Staged c first orders := by
  induction hb with
  | start id now => exact ⟨_, _, staged_start block id now⟩
  | @apply c c' executable id now hb hwf ha ih =>
    obtain ⟨result, -, rfl⟩ := Checkpoint.apply_eq ha
    obtain ⟨first, orders, h⟩ := ih
    exact ⟨_, _, h.applied (exists_barrier hb) result id now⟩
  | barrier id now hb ih => exact ⟨_, _, staged_barrier rfl⟩

lemma Staged.alone {first : Checkpoint P} (h : Staged c first []) : c = first := by
  have hlast : c.historyStaging.getLast? = some c := by
    have hne : c.historyStaging ≠ [] := by simp [h.staging]
    have hhist : c.history.getLast? = some c := by
      rw [Checkpoint.history, List.getLast?_reverse]
      cases c <;> rfl
    rw [Checkpoint.historyStaging] at hne ⊢
    rw [List.getLast?_drop, if_neg (by simpa using hne), hhist]
  rw [h.staging] at hlast
  exact (Option.some.inj hlast).symm

lemma reapply_cons_ok {fresh : ℕ → ℕ × ℕ} {item : Checkpoint P} {items : List (Checkpoint P)}
    {p p' : Checkpoint P} : reapply fresh (item :: items) p = .ok p' ↔
      ∃ executable, item.tryIntoExecutable = .ok executable ∧
        ∃ q, p.apply executable (fresh items.length).1 (fresh items.length).2 = .ok q ∧
          reapply fresh items q = .ok p' := by
  simp only [reapply, bind_eq_ok]

lemma reapply_depth (fresh : ℕ → ℕ × ℕ) {items : List (Checkpoint P)} {p p' : Checkpoint P}
    (h : reapply fresh items p = .ok p') : p'.depth = p.depth + items.length := by
  induction items generalizing p with
  | nil =>
    rw [Except.ok.inj h]
    rfl
  | cons item items ih =>
    obtain ⟨executable, -, q, ha, hrest⟩ := reapply_cons_ok.mp h
    obtain ⟨result, -, rfl⟩ := Checkpoint.apply_eq ha
    have hq : (p.applyWith (.executable result) (fresh items.length).1 (fresh items.length).2).depth =
        p.depth + 1 := rfl
    rw [ih hrest, hq, List.length_cons]
    omega

variable {score : Checkpoint P → Except ε Score}

lemma separable_executables (laws : NonceLaws block.evm) (hb : Checkpoint.Built block c)
    {span : List (Checkpoint P)} (hspan : span <:+: c.history)
    (hscore : ∀ ck ∈ SortedOrders.executables span, ∃ sc, score ck = .ok sc)
    (hdistinct : ((SortedOrders.executables span).map Checkpoint.hash).Nodup) :
    SortedOrders.Separable score (SortedOrders.executables span) := by
  have hsub : (SortedOrders.executables span).Sublist c.history := List.filter_sublist.trans hspan.sublist
  have hordered := hb.nonceOrdered laws
  refine ⟨hordered.before.sublist hsub, hdistinct, fun ck hck => ?_, hscore, fun ck hck => ?_⟩
  · exact SortedOrders.hash_of_executable hck
  · exact hordered.nodup ck (hsub.subset hck)

variable [LinearOrder Score]

lemma executables_staging {first : Checkpoint P} {orders : List (Checkpoint P)} (h : Staged c first orders) :
    SortedOrders.executables c.historyStaging = orders := by
  rw [h.staging, SortedOrders.executables, List.filter_cons_of_neg (by simp [h.barrier]),
    List.filter_eq_self]
  intro x hx
  simp [h.executable x hx]

lemma hash_of_barrier {first : Checkpoint P} (h : first.isBarrier = true) : first.hash = none := by
  have hnone : first.result = none := by simpa [Checkpoint.isBarrier] using h
  simp [Checkpoint.hash, Checkpoint.asTransaction, Checkpoint.asBundle, hnone]

lemma step_sorted {first : Checkpoint P} {orders : List (Checkpoint P)} (hst : Staged c first orders)
    (visit : MapOrder (B256 × Checkpoint P)) (fresh : ℕ → ℕ × ℕ) {s : SortedOrders P Score}
    (hs : SortedOrders.tryFrom score visit c.historyStaging = .ok s) {item : Checkpoint P}
    {items : List (Checkpoint P)}
    (hsorted : s.intoIter = item :: items) {hash : B256} (hh : item.hash = some hash) :
    step score visit fresh c = match reapply fresh (item :: items) first with
      | .error e => .ok (.fail (.execution e))
      | .ok p => if p.depth = c.depth then .ok (.ok p) else .error .lengthChanged := by
  have hzero : ((c.historyStaging.zip (item :: items)).findIdx? fun e => e.1.hash ≠ e.2.hash) = some 0 := by
    rw [hst.staging, List.zip_cons_cons, List.findIdx?_cons]
    simp [hash_of_barrier hst.barrier, hh]
  rw [step]
  dsimp only
  rw [hs]
  dsimp only
  rw [hsorted, hzero, hst.staging]
  rfl

lemma step_empty {first : Checkpoint P} {orders : List (Checkpoint P)} (hst : Staged c first orders)
    (visit : MapOrder (B256 × Checkpoint P)) (fresh : ℕ → ℕ × ℕ) {s : SortedOrders P Score}
    (hs : SortedOrders.tryFrom score visit c.historyStaging = .ok s) (hsorted : s.intoIter = []) :
    step score visit fresh c = .ok (.ok c) := by
  rw [step]
  dsimp only
  rw [hs]
  dsimp only
  rw [hsorted, hst.staging, List.zip_nil_right]
  rfl

lemma step_eq {first : Checkpoint P} {orders : List (Checkpoint P)} (hst : Staged c first orders)
    (visit : MapOrder (B256 × Checkpoint P)) (fresh : ℕ → ℕ × ℕ) {s : SortedOrders P Score}
    (hs : SortedOrders.tryFrom score visit c.historyStaging = .ok s) (hperm : s.intoIter.Perm orders) :
    step score visit fresh c = .ok (match reapply fresh s.intoIter first with
      | .error e => .fail (.execution e)
      | .ok p => .ok p) := by
  cases hsorted : s.intoIter with
  | nil =>
    rw [step_empty hst visit fresh hs hsorted]
    rw [hsorted] at hperm
    obtain rfl := List.nil_perm.mp hperm
    obtain rfl := hst.alone
    rfl
  | cons item items =>
    rw [hsorted] at hperm
    obtain ⟨hash, hh⟩ : ∃ hash, item.hash = some hash := by
      apply SortedOrders.hash_of_executable
      rw [executables_staging hst]
      exact hperm.mem_iff.mp List.mem_cons_self
    rw [step_sorted hst visit fresh hs hsorted hh]
    cases hr : reapply fresh (item :: items) first with
    | error e => rfl
    | ok p =>
      have hdepth : p.depth = c.depth := by
        rw [reapply_depth fresh hr, hst.depth, hperm.length_eq]
      dsimp only
      rw [if_pos hdepth]

/-- Sorting a span keeps every order exactly once, and the check on the length of the payload passes, when
no two orders of the span have one hash and no order has two transactions of one signer. -/
theorem sorting_keeps_orders_iff (laws : NonceLaws block.evm) (hb : Checkpoint.Built block c)
    {span : List (Checkpoint P)} (hspan : span <:+: c.history)
    (hscore : ∀ ck ∈ SortedOrders.executables span, ∃ sc, score ck = .ok sc)
    (visit : MapOrder (B256 × Checkpoint P)) :
    ∃ s, SortedOrders.tryFrom score visit span = .ok s ∧
      ((s.intoIter.Perm (SortedOrders.executables span) ∧
          (span = c.historyStaging → ∀ fresh, ∃ flow, step score visit fresh c = .ok flow)) ↔
        ((SortedOrders.executables span).map Checkpoint.hash).Nodup ∧
          ∀ ck ∈ SortedOrders.executables span, (ck.transactions.map signer).Nodup) := by
  obtain ⟨s, hs, ho, hscores, hnonces⟩ := SortedOrders.tryFrom_ok hscore visit
  have hsep : SortedOrders.Separable score (SortedOrders.executables span) ∨
      ¬ ((SortedOrders.executables span).map Checkpoint.hash).Nodup := by
    by_cases hd : ((SortedOrders.executables span).map Checkpoint.hash).Nodup
    · exact .inl (separable_executables laws hb hspan hscore hd)
    · exact .inr hd
  have hiff := SortedOrders.intoIter_perm_iff hsep ho hscores hnonces
  refine ⟨s, hs, fun h => hiff.mp h.1, fun h => ⟨hiff.mpr h, ?_⟩⟩
  rintro rfl fresh
  obtain ⟨first, orders, hst⟩ := staged hb
  exact ⟨_, step_eq hst visit fresh hs (executables_staging hst ▸ hiff.mpr h)⟩

section Examples

def flatScore (_ : Checkpoint Devnet) : Except Unit ℕ := .ok 0

def extend (c : Checkpoint Devnet) (executable : Executable Devnet) : Checkpoint Devnet :=
  match c.apply executable (c.depth + 1) 0 with
  | .ok c' => c'
  | .error _ => c

lemma built_extend {block : BlockContext Devnet} {c : Checkpoint Devnet} {executable : Executable Devnet}
    (hb : Checkpoint.Built block c) (hwf : executable.WellFormed) :
    Checkpoint.Built block (extend c executable) := by
  rw [extend]
  cases h : c.apply executable (c.depth + 1) 0 with
  | ok c' => exact hb.apply hwf h
  | error e => exact hb

def loosePayload : Checkpoint Devnet :=
  extend (extend (extend (Checkpoint.newAtBlock Devnet.block 0 0) (.transaction (PlainTx.mk 1 7 0)))
    (.transaction (PlainTx.mk 2 7 1))) (.transaction (PlainTx.mk 3 8 0))

theorem loosePayload_sorted : ∃ s, SortedOrders.tryFrom flatScore default loosePayload.historyStaging = .ok s ∧
    s.intoIter.Perm (SortedOrders.executables loosePayload.historyStaging) ∧
    (SortedOrders.executables loosePayload.historyStaging).length = 3 := by
  have hb : Checkpoint.Built Devnet.block loosePayload :=
    built_extend (built_extend (built_extend (.start 0 0) trivial) trivial) trivial
  obtain ⟨s, hs, hiff⟩ := sorting_keeps_orders_iff Devnet.laws hb (staging_within_history loosePayload)
    (fun ck _ => ⟨0, rfl⟩) default
  have hcond := hiff.mpr ⟨by decide +kernel, by decide +kernel⟩
  exact ⟨s, hs, hcond.1, by decide +kernel⟩

def consecutiveBundle : FlashbotsBundle Devnet :=
  ⟨{ txs := [[], []] }, [PlainTx.mk 1 7 0, PlainTx.mk 2 7 1]⟩

def bundlePayload : Checkpoint Devnet :=
  extend (extend (Checkpoint.newAtBlock Devnet.block 0 0) (.bundle consecutiveBundle))
    (.transaction (PlainTx.mk 3 8 0))

lemma consecutiveBundle_wellFormed : BundleWellFormed consecutiveBundle := by
  refine ⟨rfl, fun tx ht other ho h => ?_⟩
  have hall : ∀ tx ∈ [PlainTx.mk 1 7 0, PlainTx.mk 2 7 1], ∀ other ∈ [PlainTx.mk 1 7 0, PlainTx.mk 2 7 1],
      tx.hash = other.hash → (tx.signer, tx.nonce) = (other.signer, other.nonce) := by decide
  exact hall tx ht other ho h

theorem bundlePayload_loses_bundle : Checkpoint.Built Devnet.block bundlePayload ∧
    (∃ s, SortedOrders.tryFrom flatScore default bundlePayload.historyStaging = .ok s ∧
      s.intoIter.map Checkpoint.hash = [some 3] ∧
      ¬ s.intoIter.Perm (SortedOrders.executables bundlePayload.historyStaging)) ∧
    (step flatScore default (fun n => (n, n)) bundlePayload).map (fun _ => ()) = .error .lengthChanged := by
  refine ⟨built_extend (built_extend (.start 0 0) consecutiveBundle_wellFormed) trivial, ?_, by decide +kernel⟩
  have hlen : (SortedOrders.executables bundlePayload.historyStaging).length = 2 := by decide +kernel
  have hsorted : (SortedOrders.tryFrom flatScore default bundlePayload.historyStaging).map
      (fun s => s.intoIter.map Checkpoint.hash) = .ok [some 3] := by decide +kernel
  cases hs : SortedOrders.tryFrom flatScore default bundlePayload.historyStaging with
  | error e =>
    rw [hs] at hsorted
    exact absurd hsorted (by simp [Except.map])
  | ok s =>
    rw [hs] at hsorted
    have hhash : s.intoIter.map Checkpoint.hash = [some 3] := Except.ok.inj hsorted
    refine ⟨s, rfl, hhash, fun hperm => ?_⟩
    have hone := congrArg List.length hhash
    rw [List.length_map, hperm.length_eq, hlen] at hone
    exact absurd hone (by decide)

end Examples

end OrderBy

end Rblib.Steps
