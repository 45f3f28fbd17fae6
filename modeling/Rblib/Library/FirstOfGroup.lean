import Mathlib.Data.List.Destutter
import Mathlib.Data.List.MinMax

/-! A list sorted stably by a key and then by a rank, of which the first element of each key is
kept: what stays for a key is the earliest of its elements of least rank. -/

namespace Rblib.Library

variable {α K N : Type}

lemma filter_mergeSort {le : α → α → Bool} (trans : ∀ a b c, le a b → le b c → le a c)
    (total : ∀ a b, le a b || le b a) {p : α → Bool} (hp : ∀ a b, p a → p b → le a b) (l : List α) :
    (l.mergeSort le).filter p = l.filter p := by
  have hsorted : (l.filter p).Pairwise fun a b => le a b := by
    apply List.pairwise_of_forall_mem_list
    intro a ha b hb
    exact hp a b (List.mem_filter.mp ha).2 (List.mem_filter.mp hb).2
  have hsub : (l.filter p).Sublist (l.mergeSort le) :=
    List.sublist_mergeSort trans total hsorted List.filter_sublist
  have hsub' : (l.filter p).Sublist ((l.mergeSort le).filter p) := by
    simpa only [List.filter_filter, Bool.and_self] using hsub.filter p
  have hlength := ((List.mergeSort_perm l le).filter p).length_eq
  exact (hsub'.eq_of_length hlength.symm).symm

lemma mem_destutter_of_first {r : α → α → Prop} [DecidableRel r] {p q : List α} {e : α} (h : ∀ m ∈ p, r m e) :
    e ∈ (p ++ e :: q).destutter r := by
  have hfrom : ∀ (p : List α) (b : α), r b e → (∀ m ∈ p, r m e) → e ∈ (p ++ e :: q).destutter' r b := by
    intro p
    induction p with
    | nil =>
      intro b hb _
      rw [List.nil_append, List.destutter'_cons_pos _ hb]
      exact List.mem_cons_of_mem _ (List.mem_destutter' _ _ _)
    | cons m p ih =>
      intro b hb hp
      rw [List.forall_mem_cons] at hp
      rw [List.cons_append]
      by_cases hbm : r b m
      · rw [List.destutter'_cons_pos _ hbm]
        exact List.mem_cons_of_mem _ (ih m hp.1 hp.2)
      · rw [List.destutter'_cons_neg _ hbm]
        exact ih b hb hp.2
  cases p with
  | nil => exact List.mem_destutter' _ _ _
  | cons m p =>
    rw [List.forall_mem_cons] at h
    exact hfrom p m h.1 h.2

variable [LinearOrder N]

lemma head?_filter_argmin {rank : α → N} {l : List α} {e : α} (h : l.argmin rank = some e) :
    (l.filter fun a => decide (rank a = rank e)).head? = some e := by
  induction l generalizing e with
  | nil => cases h
  | cons a l ih =>
    rw [List.argmin_cons] at h
    cases hl : l.argmin rank with
    | none =>
      rw [hl] at h
      cases h
      rw [List.filter_cons_of_pos (by simp)]
      rfl
    | some c =>
      rw [hl] at h
      dsimp only at h
      split at h
      · next hlt =>
        cases h
        rw [List.filter_cons_of_neg (by simpa using hlt.ne')]
        exact ih hl
      · cases h
        rw [List.filter_cons_of_pos (by simp)]
        rfl

variable [LinearOrder K]

variable (key : α → K) (rank : α → N)

def before (a b : α) : Bool :=
  decide (key a < key b ∨ key a = key b ∧ rank a ≤ rank b)

lemma before_trans (a b c : α) (hab : before key rank a b) (hbc : before key rank b c) : before key rank a c := by
  rw [before, decide_eq_true_eq] at *
  rcases hab with hab | ⟨hab, hr⟩
  · rcases hbc with hbc | ⟨hbc, -⟩
    · exact .inl (hab.trans hbc)
    · exact .inl (hbc ▸ hab)
  · rcases hbc with hbc | ⟨hbc, hr'⟩
    · exact .inl (hab ▸ hbc)
    · exact .inr ⟨hab.trans hbc, hr.trans hr'⟩

lemma before_total (a b : α) : before key rank a b || before key rank b a := by
  rw [Bool.or_eq_true, before, before, decide_eq_true_eq, decide_eq_true_eq]
  rcases lt_trichotomy (key a) (key b) with h | h | h
  · exact .inl (.inl h)
  · exact (le_total (rank a) (rank b)).imp (fun hr => .inr ⟨h, hr⟩) (fun hr => .inr ⟨h.symm, hr⟩)
  · exact .inr (.inl h)

variable {key rank}

lemma argmin_mem_destutter {l : List α} {k : K} {e : α}
    (h : (l.filter fun a => decide (key a = k)).argmin rank = some e) :
    e ∈ (l.mergeSort (before key rank)).destutter fun a b => key a ≠ key b := by
  obtain ⟨hel, hek⟩ := List.mem_filter.mp (List.argmin_mem h)
  have hek : key e = k := of_decide_eq_true hek
  have hmin : ∀ a ∈ l, key a = k → rank e ≤ rank a := fun a ha hk =>
    List.le_of_mem_argmin (List.mem_filter.mpr ⟨ha, decide_eq_true hk⟩) h
  have hsorted := List.pairwise_mergeSort (before_trans key rank) (before_total key rank) l
  have hem : e ∈ l.mergeSort (before key rank) := List.mem_mergeSort.mpr hel
  obtain ⟨first, hfirst⟩ :
      ∃ first, (l.mergeSort (before key rank)).find? (fun a => decide (key a = k)) = some first := by
    apply Option.isSome_iff_exists.mp
    exact List.find?_isSome.mpr ⟨e, hem, decide_eq_true hek⟩
  obtain ⟨hkey, p, q, heq, hp⟩ := List.find?_eq_some_iff_append.mp hfirst
  have hkey : key first = k := of_decide_eq_true hkey
  have hp : ∀ m ∈ p, key m ≠ k := by
    intro m hm
    simpa using hp m hm
  rw [heq] at hem hsorted
  have hrank : rank first = rank e := by
    apply le_antisymm
    · rcases List.mem_append.mp hem with hep | hef
      · exact absurd hek (hp e hep)
      · rcases List.mem_cons.mp hef with rfl | heq'
        · exact le_rfl
        · have hbefore := (List.pairwise_cons.mp (List.pairwise_append.mp hsorted).2.1).1 e heq'
          rw [before, decide_eq_true_eq, hkey, hek] at hbefore
          exact (hbefore.resolve_left (lt_irrefl k)).2
    · have hfl := List.mem_mergeSort.mp (heq ▸ List.mem_append_right p List.mem_cons_self :
        first ∈ l.mergeSort (before key rank))
      exact hmin first hfl hkey
  have hstable := filter_mergeSort (before_trans key rank) (before_total key rank)
    (p := fun a => decide (rank a = rank e) && decide (key a = k)) (by
      intro a b ha hb
      simp only [Bool.and_eq_true, decide_eq_true_eq] at ha hb
      rw [before, decide_eq_true_eq]
      exact .inr ⟨ha.2.trans hb.2.symm, (ha.1.trans hb.1.symm).le⟩) l
  have hhead := head?_filter_argmin h
  rw [List.filter_filter, ← hstable, heq, List.filter_append, List.filter_eq_nil_iff.mpr, List.nil_append,
    List.filter_cons_of_pos (by simp [hrank, hkey])] at hhead
  · obtain rfl : first = e := Option.some.inj hhead
    rw [heq]
    apply mem_destutter_of_first
    intro m hm
    rw [hek]
    exact hp m hm
  · intro m hm
    simp [hp m hm]

lemma key_inj_destutter {l : List α} {a b : α}
    (ha : a ∈ (l.mergeSort (before key rank)).destutter fun a b => key a ≠ key b)
    (hb : b ∈ (l.mergeSort (before key rank)).destutter fun a b => key a ≠ key b) (h : key a = key b) : a = b := by
  have hsorted := (List.pairwise_mergeSort (before_trans key rank) (before_total key rank) l).sublist
    (List.destutter_sublist (fun a b => key a ≠ key b) _)
  have hrises : ((l.mergeSort (before key rank)).destutter fun a b => key a ≠ key b).IsChain
      fun a b => key a < key b := by
    refine List.isChain_iff_getElem.mpr fun i hi => ?_
    have hne := List.isChain_iff_getElem.mp (List.isChain_destutter (fun a b => key a ≠ key b) _) i hi
    have hle := List.isChain_iff_getElem.mp hsorted.isChain i hi
    rw [before, decide_eq_true_eq] at hle
    exact hle.resolve_right fun heq => hne heq.1
  have hpairwise := List.isChain_iff_pairwise.mp ((List.isChain_map key).mpr hrises)
  have hnodup : (((l.mergeSort (before key rank)).destutter fun a b => key a ≠ key b).map key).Nodup :=
    hpairwise.imp fun hlt => hlt.ne
  exact List.inj_on_of_nodup_map hnodup ha hb h

lemma mem_destutter_iff {l : List α} {e : α} :
    e ∈ (l.mergeSort (before key rank)).destutter (fun a b => key a ≠ key b) ↔
      (l.filter fun a => decide (key a = key e)).argmin rank = some e := by
  refine ⟨fun he => ?_, argmin_mem_destutter⟩
  have hel : e ∈ l := List.mem_mergeSort.mp ((List.destutter_sublist _ _).subset he)
  have hmem : e ∈ l.filter fun a => decide (key a = key e) := List.mem_filter.mpr ⟨hel, decide_eq_true rfl⟩
  obtain ⟨first, hfirst⟩ : ∃ first, (l.filter fun a => decide (key a = key e)).argmin rank = some first := by
    apply Option.ne_none_iff_exists'.mp
    rw [ne_eq, List.argmin_eq_none]
    exact List.ne_nil_of_mem hmem
  have hkey : key first = key e := of_decide_eq_true (List.mem_filter.mp (List.argmin_mem hfirst)).2
  rw [hfirst, key_inj_destutter (argmin_mem_destutter hfirst) he hkey]

end Rblib.Library
