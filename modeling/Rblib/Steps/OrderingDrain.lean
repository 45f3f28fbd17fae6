import Rblib.Payload.Nonces
import Rblib.Steps.Ordering

namespace Rblib.Steps

open Platform PlatformTypes Payload Library

variable {P Score ε : Type}

namespace SortedOrders

lemma nthOrder_eq (l : List (Score × Finset B256)) (skip : ℕ) :
    nthOrder l skip = (l.flatMap fun e => (ascending e.2).map fun h => (e.1, h))[skip]? := by
  induction l generalizing skip with
  | nil => rfl
  | cons e l ih =>
    have hlen : ((ascending e.2).map fun h => (e.1, h)).length = e.2.card := by simp
    rw [nthOrder, List.flatMap_cons]
    split
    · next h => rw [List.getElem?_append_left (by omega), List.getElem?_map]
    · next h => rw [ih, List.getElem?_append_right (by omega), hlen]

lemma blocked_eq [PlatformTypes P] (s : SortedOrders P Score) {ns : List (Address × ℕ)}
    (h : ∀ e ∈ ns, e.2 ∈ s.nonces.values e.1) :
    s.blocked ns = some (ns.any fun e => decide (∃ n ∈ s.nonces.values e.1, n < e.2)) := by
  induction ns with
  | nil => rfl
  | cons e ns ih =>
    have he := h e List.mem_cons_self
    obtain ⟨m, hm⟩ : ∃ m, (ascending (s.nonces.values e.1)).head? = some m := by
      apply Option.ne_none_iff_exists'.mp
      intro hnil
      rw [List.head?_eq_none_iff] at hnil
      have hmem := mem_ascending.mpr he
      rw [hnil] at hmem
      exact absurd hmem List.not_mem_nil
    obtain ⟨hmem, hle⟩ := head_ascending hm
    have hlow : m < e.2 ↔ ∃ n ∈ s.nonces.values e.1, n < e.2 :=
      ⟨fun hlt => ⟨m, hmem, hlt⟩, fun ⟨n, hn, hlt⟩ => (hle n hn).trans_lt hlt⟩
    rw [blocked, MultiMap.get?_of_mem he, List.any_cons]
    simp only [Option.bind_eq_bind, Option.bind_some, hm]
    split
    · next hlt => simp [hlow.mp hlt]
    · next hlt =>
      rw [ih (fun e' he' => h e' (List.mem_cons_of_mem _ he'))]
      simp [mt hlow.mpr hlt]

section Loops

variable [PlatformTypes P] [LinearOrder Score] {s : SortedOrders P Score}

lemma nthOrderByScore_eq (s : SortedOrders P Score) (skip : ℕ) :
    s.nthOrderByScore skip = s.byScore.ranking[skip]? := by
  rw [nthOrderByScore, nthOrder_eq, List.flatMap_map, MultiMap.ranking]

lemma bestOrder_free {fuel skip : ℕ} {c : Checkpoint P} {sc : Score}
    (h : s.bestOrder fuel skip = some (c, sc)) :
    ∃ hash i, skip ≤ i ∧ s.byScore.ranking[i]? = some (sc, hash) ∧ s.order hash = some c ∧
      s.blocked c.nonces = some false ∧
      ∀ j e, skip ≤ j → j < i → s.byScore.ranking[j]? = some e →
        ∃ c', s.order e.2 = some c' ∧ s.blocked c'.nonces = some true := by
  induction fuel generalizing skip with
  | zero => exact absurd h (by simp [bestOrder])
  | succ fuel ih =>
    rw [bestOrder, nthOrderByScore_eq] at h
    cases hr : s.byScore.ranking[skip]? with
    | none => simp [hr] at h
    | some e =>
      cases ho : s.order e.2 with
      | none => simp [hr, ho] at h
      | some c' =>
        cases hb : s.blocked c'.nonces with
        | none => simp [hr, ho, hb] at h
        | some b =>
          cases b with
          | true =>
            obtain ⟨hash, i, hi, hrank, horder, hfree, hbefore⟩ := ih (by simpa [hr, ho, hb] using h)
            refine ⟨hash, i, by omega, hrank, horder, hfree, fun j e' hj hlt he' => ?_⟩
            obtain rfl | hskip := Nat.eq_or_lt_of_le hj
            · obtain rfl := Option.some.inj (hr.symm.trans he')
              exact ⟨c', ho, hb⟩
            · exact hbefore j e' hskip hlt he'
          | false =>
            obtain ⟨rfl, rfl⟩ : c' = c ∧ e.1 = sc := by simpa [hr, ho, hb] using h
            exact ⟨e.2, skip, le_rfl, hr, ho, hb, fun j _ hj hlt => absurd hj (by omega)⟩

lemma bestOrder_isSome {fuel skip i : ℕ} (hgood : ∀ e ∈ s.byScore.ranking, ∃ c, s.order e.2 = some c ∧
      ∃ b, s.blocked c.nonces = some b) {e : Score × B256} {c : Checkpoint P}
    (hi : s.byScore.ranking[i]? = some e) (ho : s.order e.2 = some c) (hb : s.blocked c.nonces = some false)
    (hskip : skip ≤ i) (hfuel : i < skip + fuel) : (s.bestOrder fuel skip).isSome := by
  induction fuel generalizing skip with
  | zero => omega
  | succ fuel ih =>
    rw [bestOrder, nthOrderByScore_eq]
    by_cases hlt : skip = i
    · subst hlt
      simp [hi, ho, hb]
    · have hlen : i < s.byScore.ranking.length := (List.getElem?_eq_some_iff.mp hi).1
      have hs : s.byScore.ranking[skip]? = some s.byScore.ranking[skip] := List.getElem?_eq_getElem (by omega)
      obtain ⟨c', hc', b, hb'⟩ := hgood s.byScore.ranking[skip] (List.getElem_mem _)
      cases b with
      | false => simp [hs, hc', hb']
      | true =>
        have hrest : (s.bestOrder fuel (skip + 1)).isSome := ih (by omega) (by omega)
        simpa [hs, hc', hb'] using hrest

lemma drain_length (n : ℕ) (s : SortedOrders P Score) : (drain n s).length ≤ n := by
  induction n generalizing s with
  | zero => exact le_refl 0
  | succ n ih =>
    rw [drain]
    cases s.popBest with
    | none => simp
    | some best => simpa using ih best.2

lemma drain_forall (Inv : SortedOrders P Score → Prop) {Q : Checkpoint P → Prop}
    (hpop : ∀ s best, Inv s → s.popBest = some best → Q best.1 ∧ Inv best.2) (n : ℕ) (h : Inv s) :
    ∀ c ∈ drain n s, Q c := by
  induction n generalizing s with
  | zero => exact fun c hc => absurd hc List.not_mem_nil
  | succ n ih =>
    rw [drain]
    cases hp : s.popBest with
    | none => exact fun c hc => absurd hc List.not_mem_nil
    | some best =>
      obtain ⟨hbest, hrest⟩ := hpop s best h hp
      exact List.forall_mem_cons.mpr ⟨hbest, ih hrest⟩

end Loops

section Remaining

variable [PlatformTypes P] {score : Checkpoint P → Except ε Score} {rest : List (Checkpoint P)}

lemma order_removed (l : List (B256 × Checkpoint P)) (hash other : B256) :
    (((l.filter fun o => decide (o.1 ≠ hash)).find? fun o => decide (o.1 = other)).map Prod.snd) =
      if other = hash then none else (l.find? fun o => decide (o.1 = other)).map Prod.snd := by
  rw [List.find?_filter]
  split
  · next h =>
    rw [Option.map_eq_none_iff, List.find?_eq_none]
    intro o _
    simp [h]
  · next h =>
    congr 2
    funext o
    by_cases ho : o.1 = other
    · simp [ho, h]
    · simp [ho]

structure Separable (score : Checkpoint P → Except ε Score) (rest : List (Checkpoint P)) : Prop where
  before : rest.Pairwise Checkpoint.Before
  distinct : (rest.map Checkpoint.hash).Nodup
  hashed : ∀ c ∈ rest, ∃ hash, c.hash = some hash
  scored : ∀ c ∈ rest, ∃ sc, score c = .ok sc
  nodup : ∀ c ∈ rest, c.nonces.Nodup

lemma Separable.sublist {rest' : List (Checkpoint P)} (h : Separable score rest) (hs : rest'.Sublist rest) :
    Separable score rest' where
  before := h.before.sublist hs
  distinct := h.distinct.sublist (hs.map _)
  hashed c hc := h.hashed c (hs.subset hc)
  scored c hc := h.scored c (hs.subset hc)
  nodup c hc := h.nodup c (hs.subset hc)

structure Apart (rest : List (Checkpoint P)) : Prop where
  distinct : (rest.map Checkpoint.hash).Nodup
  disjoint : rest.Pairwise fun c c' => c.nonces.Disjoint c'.nonces

lemma Separable.apart (h : Separable score rest) : Apart rest := by
  refine ⟨h.distinct, h.before.imp ?_⟩
  rintro c c' hbefore ⟨a, n⟩ hn hn'
  exact absurd (hbefore a n n hn hn') (lt_irrefl n)

lemma Apart.sublist {rest' : List (Checkpoint P)} (h : Apart rest) (hs : rest'.Sublist rest) : Apart rest' :=
  ⟨h.distinct.sublist (hs.map _), h.disjoint.sublist hs⟩

lemma Apart.hash_ne {l r : List (Checkpoint P)} {c c' : Checkpoint P} (h : Apart (l ++ c :: r))
    (hc' : c' ∈ l ++ r) :
    c'.hash ≠ c.hash := by
  intro he
  have hd := h.distinct
  rw [(List.perm_middle.map Checkpoint.hash).nodup_iff, List.map_cons, List.nodup_cons, ← he] at hd
  exact hd.1 (List.mem_map_of_mem hc')

lemma Apart.nonces_apart {l r : List (Checkpoint P)} {c c' : Checkpoint P} (h : Apart (l ++ c :: r))
    (hc' : c' ∈ l ++ r) {a : Address} {n : ℕ} (hn : (a, n) ∈ c'.nonces) : (a, n) ∉ c.nonces := by
  intro hn'
  obtain ⟨-, hr, hl⟩ := List.pairwise_append.mp h.disjoint
  obtain hc' | hc' := List.mem_append.mp hc'
  · exact hl c' hc' c List.mem_cons_self hn hn'
  · exact (List.pairwise_cons.mp hr).1 c' hc' hn' hn

variable {s : SortedOrders P Score}

structure Holds (score : Checkpoint P → Except ε Score) (s : SortedOrders P Score)
    (rest : List (Checkpoint P)) : Prop where
  orders : ∀ hash c, s.order hash = some c ↔ c ∈ rest ∧ c.hash = some hash
  scores : ∀ sc hash, hash ∈ s.byScore.values sc ↔ ∃ c ∈ rest, c.hash = some hash ∧ score c = .ok sc
  nonces : ∀ a n, n ∈ s.nonces.values a ↔ ∃ c ∈ rest, (a, n) ∈ c.nonces

lemma signers_eq (c : Checkpoint P) : c.transactions.map signer = c.nonces.map Prod.fst := by
  rw [Checkpoint.nonces, List.map_map]
  rfl

lemma Holds.unique (h : Holds score s rest) {c c' : Checkpoint P} {hash : B256} (hc : c ∈ rest)
    (hh : c.hash = some hash) (hc' : c' ∈ rest) (hh' : c'.hash = some hash) : c = c' :=
  Option.some.inj (((h.orders hash c).mpr ⟨hc, hh⟩).symm.trans ((h.orders hash c').mpr ⟨hc', hh'⟩))

lemma Holds.blocked_eq (h : Holds score s rest) {c : Checkpoint P} (hc : c ∈ rest) :
    s.blocked c.nonces = some (c.nonces.any fun e => decide (∃ n ∈ s.nonces.values e.1, n < e.2)) := by
  apply SortedOrders.blocked_eq
  intro e he
  exact (h.nonces e.1 e.2).mpr ⟨c, hc, he⟩

lemma Holds.free (h : Holds score s rest) {c : Checkpoint P} (hc : c ∈ rest)
    (hsingle : (c.transactions.map signer).Nodup)
    (hlow : ∀ other ∈ rest, other ≠ c → ∀ a n m, (a, n) ∈ c.nonces → (a, m) ∈ other.nonces → n ≤ m) :
    s.blocked c.nonces = some false := by
  rw [h.blocked_eq hc, Option.some.injEq, List.any_eq_false]
  rintro ⟨a, n⟩ hn
  simp only [decide_eq_true_eq, not_exists, not_and, not_lt]
  intro m hm
  obtain ⟨other, hother, hm⟩ := (h.nonces a m).mp hm
  obtain rfl | hne := eq_or_ne other c
  · rw [signers_eq] at hsingle
    have heq := List.inj_on_of_nodup_map hsingle hn hm rfl
    rw [(Prod.mk.inj heq).2]
  · exact hlow other hother hne a n m hn hm

lemma Holds.lowest (h : Holds score s rest) {c c' : Checkpoint P} (hc : c ∈ rest)
    (hb : s.blocked c.nonces = some false) {a : Address} {n m : ℕ} (hn : (a, n) ∈ c.nonces) (hc' : c' ∈ rest)
    (hm : (a, m) ∈ c'.nonces) : n ≤ m := by
  rw [h.blocked_eq hc, Option.some.injEq, List.any_eq_false] at hb
  by_contra hlt
  have hlow : ∃ k ∈ s.nonces.values a, k < n := ⟨m, (h.nonces a m).mpr ⟨c', hc', hm⟩, by omega⟩
  exact hb (a, n) hn (by simpa using hlow)

lemma Separable.signers_nodup (hsep : Separable score rest) {c : Checkpoint P} (hc : c ∈ rest)
    (hlow : ∀ a n m, (a, n) ∈ c.nonces → ∀ c' ∈ rest, (a, m) ∈ c'.nonces → n ≤ m) :
    (c.transactions.map signer).Nodup := by
  rw [signers_eq]
  apply (hsep.nodup c hc).map_on
  rintro ⟨a, n⟩ hn ⟨a', m⟩ hm rfl
  rw [le_antisymm (hlow a n m hn c hc hm) (hlow a m n hm c hc hn)]

variable [LinearOrder Score]

lemma Holds.removeOrder {l r : List (Checkpoint P)} {c : Checkpoint P} {sc : Score} {hash : B256}
    (h : Holds score s (l ++ c :: r)) (hapart : Apart (l ++ c :: r)) (hc : c.hash = some hash)
    (hs : score c = .ok sc) : Holds score (s.removeOrder c sc) (l ++ r) := by
  have hsplit : ∀ c', c' ∈ l ++ c :: r ↔ c' = c ∨ c' ∈ l ++ r := by
    intro c'
    simp only [List.mem_append, List.mem_cons]
    tauto
  have hother : ∀ c' ∈ l ++ r, c'.hash ≠ some hash := fun c' hc' => hc ▸ hapart.hash_ne hc'
  rw [SortedOrders.removeOrder, hc]
  refine ⟨?_, ?_, ?_⟩
  · intro other c'
    have hremoved := order_removed s.allOrders hash other
    rw [order, hremoved]
    split
    · next ho =>
      subst ho
      simp only [reduceCtorEq, false_iff, not_and]
      exact fun hc' => hother c' hc'
    · next ho =>
      rw [← order, h.orders, hsplit]
      constructor
      · rintro ⟨rfl | hc', hh⟩
        · exact absurd (Option.some.inj (hh.symm.trans hc)) ho
        · exact ⟨hc', hh⟩
      · exact fun ⟨hc', hh⟩ => ⟨.inr hc', hh⟩
  · intro sc' hash'
    rw [MultiMap.mem_erase, h.scores]
    constructor
    · rintro ⟨⟨c', hc', hh, hsc⟩, hne⟩
      obtain rfl | hc' := (hsplit c').mp hc'
      · exact absurd ⟨Except.ok.inj (hsc.symm.trans hs), Option.some.inj (hh.symm.trans hc)⟩ hne
      · exact ⟨c', hc', hh, hsc⟩
    · rintro ⟨c', hc', hh, hsc⟩
      refine ⟨⟨c', (hsplit c').mpr (.inr hc'), hh, hsc⟩, ?_⟩
      rintro ⟨-, rfl⟩
      exact hother c' hc' hh
  · intro a n
    rw [MultiMap.mem_foldl_erase, h.nonces]
    constructor
    · rintro ⟨⟨c', hc', hn⟩, hnot⟩
      obtain rfl | hc' := (hsplit c').mp hc'
      · exact absurd hn hnot
      · exact ⟨c', hc', hn⟩
    · rintro ⟨c', hc', hn⟩
      exact ⟨⟨c', (hsplit c').mpr (.inr hc'), hn⟩, hapart.nonces_apart hc' hn⟩

lemma Holds.popBest (h : Holds score s rest) (hapart : Apart rest) {c : Checkpoint P}
    {s' : SortedOrders P Score} (hp : s.popBest = some (c, s')) :
    (∀ a n m, (a, n) ∈ c.nonces → ∀ c' ∈ rest, (a, m) ∈ c'.nonces → n ≤ m) ∧
      ∃ l r, rest = l ++ c :: r ∧ Holds score s' (l ++ r) := by
  rw [SortedOrders.popBest, Option.map_eq_some_iff] at hp
  obtain ⟨⟨c', sc⟩, hbest, heq⟩ := hp
  obtain ⟨rfl, rfl⟩ := Prod.mk.inj heq
  obtain ⟨hash, i, -, hrank, horder, hfree, -⟩ := bestOrder_free hbest
  have hscore := MultiMap.mem_ranking.mp (List.mem_of_getElem? hrank)
  obtain ⟨hc, hh⟩ := (h.orders hash c').mp horder
  obtain ⟨c₀, hc₀, hh₀, hs₀⟩ := (h.scores sc hash).mp hscore
  obtain rfl := h.unique hc₀ hh₀ hc hh
  refine ⟨fun a n m hn other ho hm => h.lowest hc hfree hn ho hm, ?_⟩
  obtain ⟨l, r, rfl⟩ := List.append_of_mem hc
  exact ⟨l, r, rfl, h.removeOrder hapart hh hs₀⟩

lemma Holds.popBest_isSome {c : Checkpoint P} (h : Holds score s (c :: rest))
    (hsep : Separable score (c :: rest)) (hsingle : (c.transactions.map signer).Nodup) :
    s.popBest.isSome := by
  have hc : c ∈ c :: rest := List.mem_cons_self
  obtain ⟨hash, hh⟩ := hsep.hashed c hc
  obtain ⟨sc, hs⟩ := hsep.scored c hc
  have hmem : (sc, hash) ∈ s.byScore.ranking := MultiMap.mem_ranking.mpr ((h.scores sc hash).mpr ⟨c, hc, hh, hs⟩)
  obtain ⟨i, hi⟩ := List.mem_iff_getElem?.mp hmem
  -- nothing that is left can come before the first order of the chain
  have hfree : s.blocked c.nonces = some false := by
    apply h.free hc hsingle
    intro c' hc' hne a n m hn hm
    exact ((List.pairwise_cons.mp hsep.before).1 c' ((List.mem_cons.mp hc').resolve_left hne) a n m hn hm).le
  have hgood : ∀ e ∈ s.byScore.ranking, ∃ c', s.order e.2 = some c' ∧ ∃ b, s.blocked c'.nonces = some b := by
    rintro ⟨sc', hash'⟩ he
    obtain ⟨c', hc', hh', -⟩ := (h.scores sc' hash').mp (MultiMap.mem_ranking.mp he)
    exact ⟨c', (h.orders hash' c').mpr ⟨hc', hh'⟩, _, h.blocked_eq hc'⟩
  have hlen := (List.getElem?_eq_some_iff.mp hi).1
  rw [SortedOrders.popBest, Option.isSome_map]
  exact bestOrder_isSome hgood hi ((h.orders hash c).mpr ⟨hc, hh⟩) hfree (Nat.zero_le i) (by omega)

lemma Holds.drain_signers (h : Holds score s rest) (hsep : Separable score rest) (n : ℕ) :
    ∀ c ∈ drain n s, (c.transactions.map signer).Nodup := by
  refine drain_forall (fun s => ∃ rest, Holds score s rest ∧ Separable score rest) ?_ n ⟨rest, h, hsep⟩
  rintro s best ⟨rest, h, hsep⟩ hp
  obtain ⟨hlow, l, r, rfl, h'⟩ := h.popBest hsep.apart hp
  have hsub : (l ++ r).Sublist (l ++ best.1 :: r) := (List.sublist_cons_self _ _).append_left l
  exact ⟨hsep.signers_nodup (by simp) hlow, l ++ r, h', hsep.sublist hsub⟩

lemma Holds.drain_perm (h : Holds score s rest) (hsep : Separable score rest)
    (hsingle : ∀ c ∈ rest, (c.transactions.map signer).Nodup) {n : ℕ} (hn : rest.length ≤ n) :
    (drain n s).Perm rest := by
  induction n generalizing s rest with
  | zero =>
    obtain rfl := List.length_eq_zero_iff.mp (Nat.le_zero.mp hn)
    exact .refl _
  | succ n ih =>
    rw [drain]
    cases hp : s.popBest with
    | none =>
      cases rest with
      | nil => exact .refl _
      | cons c rest =>
        have hsome := h.popBest_isSome hsep (hsingle c List.mem_cons_self)
        rw [hp] at hsome
        exact absurd hsome (by simp)
    | some best =>
      obtain ⟨-, l, r, rfl, h'⟩ := h.popBest hsep.apart hp
      have hsub : (l ++ r).Sublist (l ++ best.1 :: r) := (List.sublist_cons_self _ _).append_left l
      have hlen : (l ++ r).length ≤ n := by
        simp only [List.length_append, List.length_cons] at hn ⊢
        omega
      have hrest := ih h' (hsep.sublist hsub) (fun c hc => hsingle c (hsub.subset hc)) hlen
      exact (hrest.cons best.1).trans List.perm_middle.symm

lemma Holds.drain_subset (h : Holds score s rest) (hsep : Separable score rest) (n : ℕ) :
    drain n s ⊆ rest := by
  refine fun c hc => drain_forall (fun s => ∃ left ⊆ rest, Holds score s left ∧ Separable score left) ?_ n
    ⟨rest, List.Subset.refl _, h, hsep⟩ c hc
  rintro s best ⟨left, hleft, h, hsep⟩ hp
  obtain ⟨-, l, r, rfl, h'⟩ := h.popBest hsep.apart hp
  have hsub : (l ++ r).Sublist (l ++ best.1 :: r) := (List.sublist_cons_self _ _).append_left l
  exact ⟨hleft (by simp), l ++ r, List.Subset.trans hsub.subset hleft, h', hsep.sublist hsub⟩

lemma Holds.drain_before (h : Holds score s rest) (hsep : Separable score rest) (n : ℕ) :
    (drain n s).Pairwise Checkpoint.Before := by
  induction n generalizing s rest with
  | zero => exact .nil
  | succ n ih =>
    rw [drain]
    cases hp : s.popBest with
    | none => exact .nil
    | some best =>
      obtain ⟨hlow, l, r, rfl, h'⟩ := h.popBest hsep.apart hp
      have hsub : (l ++ r).Sublist (l ++ best.1 :: r) := (List.sublist_cons_self _ _).append_left l
      refine List.pairwise_cons.mpr ⟨fun c hc a n m hn hm => ?_, ih h' (hsep.sublist hsub)⟩
      have hc' : c ∈ l ++ r := h'.drain_subset (hsep.sublist hsub) _ hc
      have hle := hlow a n m hn c (hsub.subset hc') hm
      have hne : n ≠ m := by
        rintro rfl
        exact hsep.apart.nonces_apart hc' hm hn
      omega

end Remaining

end SortedOrders

end Rblib.Steps
