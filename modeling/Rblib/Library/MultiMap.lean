import Mathlib.Data.Finset.Sort

/-! Maps from keys to sets that are filled entry by entry and drop a key with its last value, so
that a key is present exactly when its set is not empty. -/

namespace Rblib.Library

section Ascending

variable {V : Type} [LinearOrder V]

def ascending (s : Finset V) : List V :=
  Quot.liftOn s.val (fun l => l.insertionSort (· ≤ ·)) fun l l' h =>
    (((l.perm_insertionSort _).trans h).trans (l'.perm_insertionSort _).symm).eq_of_pairwise'
      (l.pairwise_insertionSort _) (l'.pairwise_insertionSort _)

lemma ascending_eq_sort (s : Finset V) : ascending s = s.sort := by
  obtain ⟨⟨l⟩, hl⟩ := s
  have hsort : (Finset.sort ⟨Quot.mk _ l, hl⟩).Perm l := by
    rw [← Multiset.coe_eq_coe, Finset.sort_eq]
    rfl
  have hinsert : (l.insertionSort (· ≤ ·)).Pairwise (· ≤ ·) := l.pairwise_insertionSort _
  exact ((l.perm_insertionSort (· ≤ ·)).trans hsort.symm).eq_of_pairwise' hinsert (Finset.pairwise_sort _ _)

@[simp] lemma mem_ascending {s : Finset V} {v : V} : v ∈ ascending s ↔ v ∈ s := by
  rw [ascending_eq_sort, Finset.mem_sort]

@[simp] lemma length_ascending (s : Finset V) : (ascending s).length = s.card := by
  rw [ascending_eq_sort, Finset.length_sort]

lemma ascending_pairwise (s : Finset V) : (ascending s).Pairwise (· < ·) := by
  rw [ascending_eq_sort]
  exact s.sortedLT_sort.pairwise

lemma head_ascending {s : Finset V} {m : V} (h : (ascending s).head? = some m) :
    m ∈ s ∧ ∀ n ∈ s, m ≤ n := by
  have hs := Finset.pairwise_sort s (· ≤ ·)
  rw [← ascending_eq_sort] at hs
  cases hl : ascending s with
  | nil => simp [hl] at h
  | cons x xs =>
    obtain rfl : x = m := by simpa [hl] using h
    rw [hl, List.pairwise_cons] at hs
    refine ⟨mem_ascending.mp (hl ▸ List.mem_cons_self), fun n hn => ?_⟩
    have hmem : n ∈ x :: xs := hl ▸ mem_ascending.mpr hn
    obtain rfl | hmem := List.mem_cons.mp hmem
    · exact le_refl _
    · exact hs.1 n hmem

end Ascending

structure MultiMap (K V : Type) where
  keys : Finset K
  values : K → Finset V
  mem_keys : ∀ k, k ∈ keys ↔ (values k).Nonempty

namespace MultiMap

variable {K V : Type}

def empty : MultiMap K V := ⟨∅, fun _ => ∅, fun k => by simp⟩

@[simp] lemma values_empty (k : K) : (empty : MultiMap K V).values k = ∅ := rfl

lemma ext_values {m m' : MultiMap K V} (h : ∀ k, m.values k = m'.values k) : m = m' := by
  have hkeys : m.keys = m'.keys := by
    ext k
    rw [m.mem_keys, m'.mem_keys, h]
  have hvalues : m.values = m'.values := funext h
  cases m
  cases m'
  cases hkeys
  cases hvalues
  rfl

variable [DecidableEq K]

def get? (m : MultiMap K V) (k : K) : Option (Finset V) := if k ∈ m.keys then some (m.values k) else none

lemma get?_of_mem {m : MultiMap K V} {k : K} {v : V} (h : v ∈ m.values k) :
    m.get? k = some (m.values k) :=
  if_pos ((m.mem_keys k).mpr ⟨v, h⟩)

variable [DecidableEq V]

def insert (m : MultiMap K V) (k : K) (v : V) : MultiMap K V where
  keys := Insert.insert k m.keys
  values := Function.update m.values k (Insert.insert v (m.values k))
  mem_keys j := by
    by_cases h : j = k
    · simp [h]
    · rw [Finset.mem_insert, Function.update_of_ne h, m.mem_keys j]
      simp [h]

def erase (m : MultiMap K V) (k : K) (v : V) : MultiMap K V where
  keys := if (m.values k).erase v = ∅ then m.keys.erase k else m.keys
  values := Function.update m.values k ((m.values k).erase v)
  mem_keys j := by
    by_cases h : j = k
    · subst h
      rw [Function.update_self]
      split
      · next he => simp [he]
      · next he =>
        have hne := Finset.nonempty_iff_ne_empty.mpr he
        simp only [hne, iff_true]
        exact (m.mem_keys j).mpr (hne.mono (Finset.erase_subset v _))
    · rw [Function.update_of_ne h, ← m.mem_keys j]
      split
      · simp [h]
      · rfl

lemma mem_insert {m : MultiMap K V} {k j : K} {v w : V} :
    w ∈ (m.insert k v).values j ↔ j = k ∧ w = v ∨ w ∈ m.values j := by
  by_cases h : j = k
  · subst h
    simp [insert]
  · simp [insert, h]

lemma mem_erase {m : MultiMap K V} {k j : K} {v w : V} :
    w ∈ (m.erase k v).values j ↔ w ∈ m.values j ∧ ¬ (j = k ∧ w = v) := by
  by_cases h : j = k
  · subst h
    simp [erase, and_comm]
  · simp [erase, h]

lemma mem_foldl_insert {m : MultiMap K V} {entries : List (K × V)} {k : K} {v : V} :
    v ∈ (entries.foldl (fun m e => m.insert e.1 e.2) m).values k ↔ v ∈ m.values k ∨ (k, v) ∈ entries := by
  induction entries generalizing m with
  | nil => simp
  | cons e entries ih =>
    rw [List.foldl_cons, ih, mem_insert, List.mem_cons, Prod.ext_iff]
    tauto

lemma mem_foldl_erase {m : MultiMap K V} {entries : List (K × V)} {k : K} {v : V} :
    v ∈ (entries.foldl (fun m e => m.erase e.1 e.2) m).values k ↔ v ∈ m.values k ∧ (k, v) ∉ entries := by
  induction entries generalizing m with
  | nil => simp
  | cons e entries ih =>
    rw [List.foldl_cons, ih, mem_erase, List.mem_cons, Prod.ext_iff]
    tauto

def ranking {K V : Type} [LinearOrder K] [LinearOrder V] (m : MultiMap K V) : List (K × V) :=
  (ascending m.keys).reverse.flatMap fun k => (ascending (m.values k)).map fun v => (k, v)

lemma mem_ranking {K V : Type} [LinearOrder K] [LinearOrder V] {m : MultiMap K V} {k : K} {v : V} :
    (k, v) ∈ m.ranking ↔ v ∈ m.values k := by
  simp only [ranking, List.mem_flatMap, List.mem_reverse, mem_ascending, List.mem_map, Prod.mk.injEq]
  constructor
  · rintro ⟨j, -, w, hw, rfl, rfl⟩
    exact hw
  · intro h
    exact ⟨k, (m.mem_keys k).mpr ⟨v, h⟩, v, h, rfl, rfl⟩

lemma ranking_pairwise {K V : Type} [LinearOrder K] [LinearOrder V] (m : MultiMap K V) :
    m.ranking.Pairwise fun e e' => e'.1 < e.1 ∨ e.1 = e'.1 ∧ e.2 < e'.2 := by
  rw [ranking, List.pairwise_flatMap, List.pairwise_reverse]
  constructor
  · intro k _
    rw [List.pairwise_map]
    exact (ascending_pairwise (m.values k)).imp fun h => .inr ⟨rfl, h⟩
  · apply (ascending_pairwise m.keys).imp
    intro k k' h e he e' he'
    obtain ⟨v, -, rfl⟩ := List.mem_map.mp he
    obtain ⟨v', -, rfl⟩ := List.mem_map.mp he'
    exact .inl h

end MultiMap

end Rblib.Library
