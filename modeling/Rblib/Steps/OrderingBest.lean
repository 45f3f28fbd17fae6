import Rblib.Steps.OrderingCorrect

namespace Rblib.Steps

open Platform PlatformTypes Payload Library

variable {P Score ε : Type}

namespace SortedOrders

variable [PlatformTypes P] {score : Checkpoint P → Except ε Score} {span : List (Checkpoint P)}
  {s s' : SortedOrders P Score} {o : Checkpoint P}

def remaining (s : SortedOrders P Score) : List (Checkpoint P) := s.allOrders.map Prod.snd

def Unblocked (s : SortedOrders P Score) (c : Checkpoint P) : Prop :=
  ∀ other ∈ s.remaining, other ≠ c → ∀ a n m, (a, n) ∈ c.nonces → (a, m) ∈ other.nonces → n ≤ m

structure Indexed (score : Checkpoint P → Except ε Score) (s : SortedOrders P Score) : Prop where
  keyed : ∀ e ∈ s.allOrders, e.2.hash = some e.1
  apart : Apart s.remaining
  scored : ∀ c ∈ s.remaining, ∃ sc, score c = .ok sc
  holds : Holds score s s.remaining

lemma Holds.congr {rest rest' : List (Checkpoint P)} (h : Holds score s rest) (hmem : ∀ c, c ∈ rest ↔ c ∈ rest') :
    Holds score s rest' := by
  refine ⟨fun hash c => ?_, fun sc hash => ?_, fun a n => ?_⟩
  · rw [h.orders, hmem]
  · simp only [h.scores, hmem]
  · simp only [h.nonces, hmem]

lemma collectOrders_keyed {e : B256 × Checkpoint P} (h : e ∈ collectOrders span) : e.2.hash = some e.1 :=
  (mem_entries.mp (collectOrders_mem h)).2

lemma collectOrders_nodup (span : List (Checkpoint P)) : ((collectOrders span).map Prod.fst).Nodup :=
  (foldl_insertOrder [] (entries span) List.nodup_nil).1

lemma collected_hashes (span : List (Checkpoint P)) :
    ((collectOrders span).map Prod.snd).map Checkpoint.hash = ((collectOrders span).map Prod.fst).map some := by
  rw [List.map_map, List.map_map]
  exact List.map_congr_left fun e he => collectOrders_keyed he

lemma collected_apart (hspan : (span.flatMap Checkpoint.nonces).Nodup) :
    Apart ((collectOrders span).map Prod.snd) := by
  have hdistinct : (((collectOrders span).map Prod.snd).map Checkpoint.hash).Nodup := by
    rw [collected_hashes, List.nodup_map_iff (Option.some_injective _)]
    exact collectOrders_nodup span
  refine ⟨hdistinct, ?_⟩
  have hdisjoint := (List.nodup_flatMap.mp hspan).2
  have hsymm : Std.Symm (Function.onFun List.Disjoint (Checkpoint.nonces (P := P))) :=
    ⟨fun _ _ h => List.Disjoint.symm h⟩
  have hmem : ∀ c ∈ (collectOrders span).map Prod.snd, c ∈ span := by
    intro c hc
    obtain ⟨e, he, rfl⟩ := List.mem_map.mp hc
    exact List.mem_of_mem_filter (mem_entries.mp (collectOrders_mem he)).1
  apply List.Pairwise.imp_of_mem _ hdistinct.of_map
  intro c c' hc hc' hne
  exact hdisjoint.forall (hmem c hc) (hmem c' hc') hne

lemma indexScores_scored [LinearOrder Score] {l : List (B256 × Checkpoint P)} {m m' : MultiMap Score B256}
    (h : indexScores score l m = .ok m') : ∀ e ∈ l, ∃ sc, score e.2 = .ok sc := by
  induction l generalizing m with
  | nil => exact fun e he => absurd he List.not_mem_nil
  | cons e l ih =>
    rw [indexScores] at h
    cases hs : score e.2 with
    | error err =>
      simp only [hs] at h
      cases h
    | ok sc =>
      simp only [hs] at h
      exact List.forall_mem_cons.mpr ⟨⟨sc, hs⟩, ih h⟩

lemma mem_remaining {c : Checkpoint P} (ho : s.allOrders = collectOrders span) :
    c ∈ s.remaining ↔ ∃ e ∈ collectOrders span, e.2 = c := by
  rw [remaining, ho, List.mem_map]

lemma holds_of_collected (ho : s.allOrders = collectOrders span)
    (hs : ∀ sc hash, hash ∈ s.byScore.values sc ↔ ∃ e ∈ collectOrders span, e.1 = hash ∧ score e.2 = .ok sc)
    (hn : ∀ a n, n ∈ s.nonces.values a ↔ ∃ e ∈ collectOrders span, (a, n) ∈ e.2.nonces) :
    Holds score s s.remaining := by
  refine ⟨fun hash c => ?_, fun sc hash => ?_, fun a n => ?_⟩
  · rw [order, ho, find_entry (collectOrders_nodup span), mem_remaining ho]
    constructor
    · exact fun he => ⟨⟨(hash, c), he, rfl⟩, collectOrders_keyed he⟩
    · rintro ⟨⟨e, he, rfl⟩, hh⟩
      have hkey : e.1 = hash := Option.some.inj ((collectOrders_keyed he).symm.trans hh)
      exact hkey ▸ he
  · rw [hs]
    constructor
    · rintro ⟨e, he, rfl, hsc⟩
      exact ⟨e.2, (mem_remaining ho).mpr ⟨e, he, rfl⟩, collectOrders_keyed he, hsc⟩
    · rintro ⟨c, hc, hh, hsc⟩
      obtain ⟨e, he, rfl⟩ := (mem_remaining ho).mp hc
      exact ⟨e, he, Option.some.inj ((collectOrders_keyed he).symm.trans hh), hsc⟩
  · rw [hn]
    constructor
    · rintro ⟨e, he, hm⟩
      exact ⟨e.2, (mem_remaining ho).mpr ⟨e, he, rfl⟩, hm⟩
    · rintro ⟨c, hc, hm⟩
      obtain ⟨e, he, rfl⟩ := (mem_remaining ho).mp hc
      exact ⟨e, he, hm⟩

variable [LinearOrder Score]

lemma indexed_start {visit : MapOrder (B256 × Checkpoint P)} (hspan : (span.flatMap Checkpoint.nonces).Nodup)
    (h : tryFrom score visit span = .ok s) : Indexed score s := by
  have hscored : ∀ e ∈ collectOrders span, ∃ sc, score e.2 = .ok sc := by
    obtain ⟨byScore, hindex, -⟩ := bind_eq_ok.mp h
    intro e he
    exact indexScores_scored hindex e ((visit.perm _).mem_iff.mpr he)
  obtain ⟨s₀, hs₀, ho, hs, hn⟩ := tryFrom_collected hscored visit
  obtain rfl : s₀ = s := Except.ok.inj (hs₀.symm.trans h)
  refine ⟨fun e he => ?_, ?_, fun c hc => ?_, holds_of_collected ho hs hn⟩
  · rw [ho] at he
    exact collectOrders_keyed he
  · rw [remaining, ho]
    exact collected_apart hspan
  · obtain ⟨e, he, rfl⟩ := (mem_remaining ho).mp hc
    exact hscored e he

lemma removeOrder_remaining {c : Checkpoint P} (sc : Score) {hash : B256}
    (hkeyed : ∀ e ∈ s.allOrders, e.2.hash = some e.1)
    (hc : c.hash = some hash) :
    (s.removeOrder c sc).remaining = s.remaining.filter fun o => o.hash ≠ some hash := by
  rw [removeOrder, hc, remaining, remaining, List.filter_map]
  apply congrArg
  apply List.filter_congr
  intro e he
  simp [hkeyed e he]

lemma popBest_eq (hp : s.popBest = some (o, s')) : ∃ best hash, ∃ i : ℕ, s' = s.removeOrder o best ∧
    s.byScore.ranking[i]? = some (best, hash) ∧ s.order hash = some o ∧
    ∀ j e, j < i → s.byScore.ranking[j]? = some e → ∃ c, s.order e.2 = some c ∧
      s.blocked c.nonces = some true := by
  rw [popBest, Option.map_eq_some_iff] at hp
  obtain ⟨⟨c, best⟩, hbest, heq⟩ := hp
  obtain ⟨rfl, rfl⟩ := Prod.mk.inj heq
  obtain ⟨hash, i, -, hrank, horder, -, hbefore⟩ := bestOrder_free hbest
  exact ⟨best, hash, i, rfl, hrank, horder, fun j e => hbefore j e (Nat.zero_le j)⟩

lemma Indexed.popped (h : Indexed score s) (hp : s.popBest = some (o, s')) :
    o ∈ s.remaining ∧ s'.remaining.Sublist s.remaining ∧ ∀ c, c ∈ s'.remaining ↔ c ∈ s.remaining ∧ c ≠ o := by
  obtain ⟨best, hash, i, rfl, -, horder, -⟩ := popBest_eq hp
  obtain ⟨ho, hhash⟩ := (h.holds.orders hash o).mp horder
  rw [removeOrder_remaining best h.keyed hhash]
  refine ⟨ho, List.filter_sublist, fun c => ?_⟩
  rw [List.mem_filter, decide_eq_true_eq]
  apply and_congr_right
  intro hc
  apply not_congr
  constructor
  · exact fun hh => h.holds.unique hc hh ho hhash
  · rintro rfl
    exact hhash

lemma Indexed.popBest (h : Indexed score s) (hp : s.popBest = some (o, s')) : Indexed score s' := by
  obtain ⟨ho, hsub, hrest⟩ := h.popped hp
  obtain ⟨-, l, r, hsplit, hholds⟩ := h.holds.popBest h.apart hp
  have hapart := h.apart
  rw [hsplit] at hapart
  refine ⟨fun e he => ?_, h.apart.sublist hsub, fun c hc => h.scored c (hsub.subset hc), hholds.congr fun c => ?_⟩
  · obtain ⟨best, hash, i, rfl, -, horder, -⟩ := popBest_eq hp
    rw [removeOrder, ((h.holds.orders hash o).mp horder).2] at he
    exact h.keyed e (List.mem_of_mem_filter he)
  · rw [hrest, hsplit, List.perm_middle.mem_iff, List.mem_cons]
    constructor
    · intro hc
      refine ⟨.inr hc, ?_⟩
      rintro rfl
      exact hapart.hash_ne hc rfl
    · rintro ⟨rfl | hc, hne⟩
      · exact absurd rfl hne
      · exact hc

lemma Indexed.ranked (h : Indexed score s) {c : Checkpoint P} (hc : c ∈ s.remaining) :
    ∃ sc hash, score c = .ok sc ∧ c.hash = some hash ∧ (sc, hash) ∈ s.byScore.ranking := by
  obtain ⟨sc, hsc⟩ := h.scored c hc
  obtain ⟨e, he, rfl⟩ := List.mem_map.mp hc
  have hhash := h.keyed e he
  exact ⟨sc, e.1, hsc, hhash, MultiMap.mem_ranking.mpr ((h.holds.scores sc e.1).mpr ⟨e.2, hc, hhash, hsc⟩)⟩

inductive Popped (score : Checkpoint P → Except ε Score) (visit : MapOrder (B256 × Checkpoint P))
    (span : List (Checkpoint P)) : SortedOrders P Score → Prop
  | start {s : SortedOrders P Score} (h : tryFrom score visit span = .ok s) : Popped score visit span s
  | pop {s s' : SortedOrders P Score} {o : Checkpoint P} (h : Popped score visit span s)
    (hp : s.popBest = some (o, s')) : Popped score visit span s'

lemma Popped.indexed {visit : MapOrder (B256 × Checkpoint P)} (h : Popped score visit span s)
    (hspan : (span.flatMap Checkpoint.nonces).Nodup) : Indexed score s := by
  induction h with
  | start h => exact indexed_start hspan h
  | pop h hp ih => exact ih.popBest hp

lemma Popped.subset {visit : MapOrder (B256 × Checkpoint P)} (h : Popped score visit span s)
    (hspan : (span.flatMap Checkpoint.nonces).Nodup) : s.remaining ⊆ span := by
  induction h with
  | @start s h =>
    obtain ⟨byScore, -, h⟩ := bind_eq_ok.mp h
    obtain rfl := Except.ok.inj h
    intro c hc
    obtain ⟨e, he, rfl⟩ := List.mem_map.mp hc
    exact List.mem_of_mem_filter (mem_entries.mp (collectOrders_mem he)).1
  | pop h hp ih => exact fun c hc => ih (((h.indexed hspan).popped hp).2.1.subset hc)

theorem pop_best_first {visit : MapOrder (B256 × Checkpoint P)} (hspan : (span.flatMap Checkpoint.nonces).Nodup)
    (hs : Popped score visit span s) (hp : s.popBest = some (o, s')) :
    o ∈ s.remaining ∧ (∀ c, c ∈ s'.remaining ↔ c ∈ s.remaining ∧ c ≠ o) ∧ s.Unblocked o ∧
      ((∀ c ∈ span, (c.transactions.map signer).Nodup) → ∃ best hash, score o = .ok best ∧ o.hash = some hash ∧
        ∀ c ∈ s.remaining, s.Unblocked c → ∃ sc h, score c = .ok sc ∧ c.hash = some h ∧
          (sc < best ∨ sc = best ∧ hash ≤ h)) := by
  have hindexed := hs.indexed hspan
  obtain ⟨hmem, -, hrest⟩ := hindexed.popped hp
  obtain ⟨hlow, -⟩ := hindexed.holds.popBest hindexed.apart hp
  refine ⟨hmem, hrest, fun c hc _ a n m hn hm => hlow a n m hn c hc hm, fun hsingle => ?_⟩
  obtain ⟨best, hash, i, -, hrank, horder, hbefore⟩ := popBest_eq hp
  obtain ⟨ho, hhash⟩ := (hindexed.holds.orders hash o).mp horder
  obtain ⟨o', ho', hhash', hbest⟩ := (hindexed.holds.scores best hash).mp
    (MultiMap.mem_ranking.mp (List.mem_of_getElem? hrank))
  obtain rfl := hindexed.holds.unique ho' hhash' ho hhash
  refine ⟨best, hash, hbest, hhash, fun c hc hfree => ?_⟩
  obtain ⟨sc, h, hsc, hh, hentry⟩ := hindexed.ranked hc
  refine ⟨sc, h, hsc, hh, ?_⟩
  obtain ⟨j, hj⟩ := List.mem_iff_getElem?.mp hentry
  have hge : i ≤ j := by
    by_contra hlt
    obtain ⟨c', horder', hblocked⟩ := hbefore j _ (by omega) hj
    obtain rfl := Option.some.inj (horder'.symm.trans ((hindexed.holds.orders h c).mpr ⟨hc, hh⟩))
    have hopen := hindexed.holds.free hc (hsingle c' (hs.subset hspan hc)) hfree
    cases hblocked.symm.trans hopen
  obtain rfl | hlt := Nat.eq_or_lt_of_le hge
  · obtain ⟨rfl, rfl⟩ := Prod.mk.inj (Option.some.inj (hrank.symm.trans hj))
    exact .inr ⟨rfl, le_rfl⟩
  · obtain ⟨hi, hi'⟩ := List.getElem?_eq_some_iff.mp hrank
    obtain ⟨hj, hj'⟩ := List.getElem?_eq_some_iff.mp hj
    have hsorted := List.pairwise_iff_getElem.mp s.byScore.ranking_pairwise i j hi hj hlt
    rw [hi', hj'] at hsorted
    exact hsorted.imp_right fun h => ⟨h.1.symm, h.2.le⟩

end SortedOrders

namespace OrderBy

def nonceScore (c : Checkpoint Devnet) : Except Unit ℕ := .ok (c.nonces.map Prod.snd).sum

theorem loosePayload_first : ∃ s o s',
    SortedOrders.tryFrom nonceScore default loosePayload.historyStaging = .ok s ∧
    s.popBest = some (o, s') ∧ o.hash = some 1 ∧ s.Unblocked o := by
  have hpop : (SortedOrders.tryFrom nonceScore default loosePayload.historyStaging).map
      (fun s => s.popBest.map fun best => best.1.hash) = .ok (some (some 1)) := by decide +kernel
  cases hs : SortedOrders.tryFrom nonceScore default loosePayload.historyStaging with
  | error e =>
    rw [hs] at hpop
    cases hpop
  | ok s =>
    rw [hs] at hpop
    obtain ⟨⟨o, s'⟩, hbest, hhash⟩ := Option.map_eq_some_iff.mp (Except.ok.inj hpop)
    exact ⟨s, o, s', rfl, hbest, hhash,
      (SortedOrders.pop_best_first (by decide +kernel) (.start hs) hbest).2.2.1⟩

end OrderBy

end Rblib.Steps
