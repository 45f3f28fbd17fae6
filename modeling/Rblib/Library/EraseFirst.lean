import Mathlib.Tactic

namespace Rblib.Library

variable {α κ : Type} [DecidableEq κ] (key : α → κ)

def eraseFirst (l : List α) (k : κ) : List α := l.eraseP fun a => key a == k

def kept (marks : List (α × Bool)) : List α := (marks.filter fun m => m.2).map Prod.fst

def dropped (marks : List (α × Bool)) : List α := (marks.filter fun m => !m.2).map Prod.fst

/-- Between two elements with the same key, where that key may be dropped, there is nothing but copies of
them. -/
def Adjacent (droppable : κ → Bool) (l : List α) : Prop :=
  ∀ before x between y after, l = before ++ x :: (between ++ y :: after) → key x = key y →
    droppable (key y) = true → ∀ z ∈ x :: between, z = y

lemma dropped_length_le (marks : List (α × Bool)) : (dropped marks).length ≤ marks.length := by
  rw [dropped, List.length_map]
  exact List.length_filter_le _ _

lemma eraseFirst_length (keys : List κ) (l : List α) :
    l.length ≤ (keys.foldl (eraseFirst key) l).length + keys.length := by
  induction keys generalizing l with
  | nil => exact le_rfl
  | cons k keys ih =>
    have hone : l.length ≤ (eraseFirst key l k).length + 1 := by
      rw [eraseFirst, List.length_eraseP]
      split
      · omega
      · omega
    have hrest := ih (eraseFirst key l k)
    rw [List.foldl_cons, List.length_cons]
    omega

lemma eraseFirst_map (l : List α) (k : κ) : (eraseFirst key l k).map key = (l.map key).erase k := by
  rw [eraseFirst, List.erase_eq_eraseP', List.eraseP_map]
  rfl

lemma eraseFirst_length_eq {keys : List κ} {l : List α} (h : keys.Subperm (l.map key)) :
    (keys.foldl (eraseFirst key) l).length + keys.length = l.length := by
  induction keys generalizing l with
  | nil => rfl
  | cons k keys ih =>
    have hmem : k ∈ l.map key := h.subset List.mem_cons_self
    have hone : (eraseFirst key l k).length + 1 = l.length := by
      have hlen := congrArg List.length (eraseFirst_map key l k)
      rw [List.length_map] at hlen
      rw [hlen, List.length_erase_add_one hmem, List.length_map]
    have hrest : keys.Subperm ((eraseFirst key l k).map key) := by
      rw [eraseFirst_map]
      simpa using h.erase k
    have hkeys := ih hrest
    rw [List.foldl_cons, List.length_cons]
    omega

lemma eraseFirst_sublist (keys : List κ) (l : List α) : (keys.foldl (eraseFirst key) l).Sublist l := by
  induction keys generalizing l with
  | nil => exact List.Sublist.refl l
  | cons k keys ih =>
    rw [List.foldl_cons]
    exact (ih _).trans List.eraseP_sublist

lemma filter_eraseFirst {keep : α → Bool} (keys : List κ) (l : List α)
    (h : ∀ k ∈ keys, ∀ a, key a = k → keep a = false) :
    (keys.foldl (eraseFirst key) l).filter keep = l.filter keep := by
  have hone : ∀ (k : κ) (l : List α), (∀ a, key a = k → keep a = false) →
      (eraseFirst key l k).filter keep = l.filter keep := by
    intro k l hk
    induction l with
    | nil => rfl
    | cons a l ih =>
      rw [eraseFirst] at ih
      rw [eraseFirst, List.eraseP_cons]
      by_cases ha : key a = k
      · simp [ha, hk a ha]
      · rw [beq_eq_false_iff_ne.mpr ha, cond_false, List.filter_cons, List.filter_cons, ih]
  induction keys generalizing l with
  | nil => rfl
  | cons k keys ih =>
    obtain ⟨hk, hrest⟩ := List.forall_mem_cons.mp h
    rw [List.foldl_cons, ih _ hrest, hone k l hk]

lemma eraseFirst_all (l : List α) : (l.map key).foldl (eraseFirst key) l = [] := by
  induction l with
  | nil => rfl
  | cons a l ih =>
    rw [List.map_cons, List.foldl_cons, eraseFirst, List.eraseP_cons_of_pos (by simp)]
    exact ih

variable {key}

omit [DecidableEq κ] in
lemma adjacent_of_nodup {l : List α} (h : (l.map key).Nodup) (droppable : κ → Bool) :
    Adjacent key droppable l := by
  rintro before x between y after rfl hk
  simp only [List.map_append, List.map_cons, List.nodup_append, List.nodup_cons, List.mem_append,
    List.mem_cons, hk] at h
  exact absurd (.inr (.inl trivial)) h.2.1.1

omit [DecidableEq κ] in
lemma Adjacent.sublist {droppable droppable' : κ → Bool} {l l' : List α} (h : Adjacent key droppable l)
    (hsub : l'.Sublist l) (hdrop : ∀ k, droppable' k = true → droppable k = true) :
    Adjacent key droppable' l' := by
  rintro before x between y after rfl hk hd z hz
  obtain ⟨l₁, rest, rfl, -, hrest⟩ := List.append_sublist_iff.mp hsub
  obtain ⟨l₂, rest, rfl, hx, hrest⟩ := List.cons_sublist_iff.mp hrest
  obtain ⟨l₃, rest, rfl, hbetween, hrest⟩ := List.append_sublist_iff.mp hrest
  obtain ⟨l₄, rest, rfl, hy, -⟩ := List.cons_sublist_iff.mp hrest
  obtain ⟨l₅, l₆, rfl⟩ := List.append_of_mem hx
  obtain ⟨l₇, l₈, rfl⟩ := List.append_of_mem hy
  refine h (l₁ ++ l₅) x (l₆ ++ l₃ ++ l₇) y (l₈ ++ rest) (by simp) hk (hdrop _ hd) z ?_
  obtain rfl | hz := List.mem_cons.mp hz
  · exact List.mem_cons_self
  · have hmem := hbetween.subset hz
    simp [hmem]

lemma eq_of_append_singleton {l : List α} {a b : α} (h : l ++ [b] = a :: l) : ∀ z ∈ a :: l, z = b := by
  induction l generalizing a with
  | nil => simpa using h.symm
  | cons c l ih =>
    obtain ⟨rfl, hl⟩ := List.cons.inj h
    intro z hz
    rcases List.mem_cons.mp hz with rfl | hz
    · exact ih hl _ List.mem_cons_self
    · exact ih hl z hz

lemma append_singleton_of_eq {l : List α} {a b : α} (h : ∀ z ∈ a :: l, z = b) : l ++ [b] = a :: l := by
  have hl : l = List.replicate l.length b :=
    List.eq_replicate_of_mem fun z hz => h z (List.mem_cons_of_mem a hz)
  rw [h a List.mem_cons_self, hl, ← List.replicate_succ', List.replicate_succ]

lemma exists_first {l : List α} {k : κ} (h : ∃ a ∈ l, key a = k) :
    ∃ left a right, l = left ++ a :: right ∧ key a = k ∧ (∀ z ∈ left, key z ≠ k) ∧
      ∀ rest, eraseFirst key (l ++ rest) k = left ++ right ++ rest := by
  induction l with
  | nil => simp at h
  | cons b l ih =>
    by_cases hb : key b = k
    · refine ⟨[], b, l, rfl, hb, by simp, fun rest => ?_⟩
      rw [eraseFirst, List.cons_append, List.eraseP_cons_of_pos (by simpa using hb), List.nil_append]
    · obtain ⟨a, ha, hk⟩ := h
      have hal : a ∈ l := (List.mem_cons.mp ha).resolve_left fun he => hb (he ▸ hk)
      obtain ⟨left, c, right, rfl, hc, hleft, herase⟩ := ih ⟨a, hal, hk⟩
      refine ⟨b :: left, c, right, rfl, hc, ?_, fun rest => ?_⟩
      · exact List.forall_mem_cons.mpr ⟨hb, hleft⟩
      · have hrest := herase rest
        rw [eraseFirst] at hrest ⊢
        rw [List.cons_append, List.eraseP_cons_of_neg (by simpa using hb), hrest]
        rfl

lemma eraseFirst_append {l rest : List α} {x : α}
    (h : ∀ left a right, l = left ++ a :: right → key a = key x → ∀ z ∈ a :: right, z = x) :
    eraseFirst key (l ++ x :: rest) (key x) = l ++ rest := by
  by_cases hk : ∃ a ∈ l, key a = key x
  · obtain ⟨left, a, right, hl, ha, -, herase⟩ := exists_first hk
    have hrun := append_singleton_of_eq (h left a right hl ha)
    calc eraseFirst key (l ++ x :: rest) (key x) = left ++ right ++ x :: rest := herase _
      _ = left ++ (right ++ [x]) ++ rest := by simp
      _ = l ++ rest := by rw [hrun, hl]
  · rw [eraseFirst, List.eraseP_append_right, List.eraseP_cons_of_pos (by simp)]
    intro a ha
    simpa using fun he => hk ⟨a, ha, he⟩

section Marks

variable {droppable : κ → Bool}

@[simp] lemma kept_cons (m : α × Bool) (marks : List (α × Bool)) :
    kept (m :: marks) = if m.2 then m.1 :: kept marks else kept marks := by
  cases hm : m.2 <;> simp [kept, hm]

@[simp] lemma dropped_cons (m : α × Bool) (marks : List (α × Bool)) :
    dropped (m :: marks) = if m.2 then dropped marks else m.1 :: dropped marks := by
  cases hm : m.2 <;> simp [dropped, hm]

lemma erase_dropped_after (marks : List (α × Bool)) {seen left : List α} (hs : left.Sublist seen)
    (hd : ∀ m ∈ marks, m.2 = false → droppable (key m.1) = true)
    (h : Adjacent key droppable (seen ++ marks.map Prod.fst)) :
    ((dropped marks).map key).foldl (eraseFirst key) (left ++ marks.map Prod.fst) = left ++ kept marks := by
  induction marks generalizing seen left with
  | nil => rfl
  | cons m marks ih =>
    have hd' : ∀ m ∈ marks, m.2 = false → droppable (key m.1) = true :=
      fun m hm => hd m (List.mem_cons_of_mem _ hm)
    have hadj : Adjacent key droppable ((seen ++ [m.1]) ++ marks.map Prod.fst) := by
      simpa using h
    cases hm : m.2 with
    | true =>
      have hrest := ih (hs.append (List.Sublist.refl [m.1])) hd' hadj
      simpa [hm] using hrest
    | false =>
      -- what is erased is a copy of `m.1` at the end of `left`
      have herase : eraseFirst key (left ++ m.1 :: marks.map Prod.fst) (key m.1) =
          left ++ marks.map Prod.fst := by
        apply eraseFirst_append
        rintro before a after rfl hk z hz
        obtain ⟨s₁, s₂, rfl, -, hs₂⟩ := List.append_sublist_iff.mp hs
        obtain ⟨t₁, t₂, rfl, ha, hafter⟩ := List.cons_sublist_iff.mp hs₂
        obtain ⟨u, v, rfl⟩ := List.append_of_mem ha
        refine h (s₁ ++ u) a (v ++ t₂) m.1 (marks.map Prod.fst) (by simp) hk
          (hd m List.mem_cons_self hm) z ?_
        rcases List.mem_cons.mp hz with rfl | hz
        · exact List.mem_cons_self
        · exact List.mem_cons_of_mem _ (List.mem_append_right v (hafter.subset hz))
      have hrest := ih (hs.trans (List.sublist_append_left seen [m.1])) hd' hadj
      simpa [hm, herase] using hrest

theorem erase_dropped {marks : List (α × Bool)}
    (hd : ∀ m ∈ marks, m.2 = false → droppable (key m.1) = true)
    (h : Adjacent key droppable (marks.map Prod.fst)) :
    ((dropped marks).map key).foldl (eraseFirst key) (marks.map Prod.fst) = kept marks :=
  erase_dropped_after marks (List.Sublist.refl []) hd h

theorem eraseFirst_ne {before between after : List α} {x y z : α} (hk : key x = key y)
    (hz : z ∈ x :: between) (hne : z ≠ y) :
    eraseFirst key (before ++ x :: (between ++ y :: after)) (key y) ≠
      before ++ x :: (between ++ after) := by
  intro he
  obtain ⟨left, a, right, hl, ha, hleft, herase⟩ :=
    exists_first (l := before ++ x :: between) ⟨x, by simp, hk⟩
  have hall : before ++ x :: (between ++ y :: after) = (before ++ x :: between) ++ (y :: after) := by simp
  have hkept : before ++ x :: (between ++ after) = (left ++ a :: right) ++ after := by
    rw [← hl]
    simp
  rw [hall, herase, hkept, List.append_assoc, List.append_assoc, List.append_right_inj,
    ← List.singleton_append, ← List.append_assoc, List.append_left_inj] at he
  have hrun := eq_of_append_singleton he
  apply hne
  apply hrun
  -- `x` is not in `left`, so the stretch from `x` on is part of the run
  rcases List.append_eq_append_iff.mp hl with ⟨c, rfl, hc⟩ | ⟨c, -, hc⟩
  · cases c with
    | nil =>
      rw [List.nil_append] at hc
      exact hc ▸ hz
    | cons b c =>
      obtain ⟨rfl, -⟩ := List.cons.inj hc
      exact absurd hk (hleft x (by simp))
  · rw [hc]
    exact List.mem_append_right c hz

omit [DecidableEq κ] in
lemma exists_apart {l : List α} (h : ¬ Adjacent key droppable l) :
    ∃ before x between y after z, l = before ++ x :: (between ++ y :: after) ∧ key x = key y ∧
      droppable (key y) = true ∧ z ∈ x :: between ∧ z ≠ y ∧ after.head? ≠ some y := by
  simp only [Adjacent] at h
  push Not at h
  obtain ⟨before, x, between, y, after, hl, hk, hd, z, hz, hne⟩ := h
  induction after generalizing between with
  | nil => exact ⟨before, x, between, y, [], z, hl, hk, hd, hz, hne, by simp⟩
  | cons a after ih =>
    by_cases ha : a = y
    · subst ha
      exact ih (between ++ [a]) (by simpa using hl) (List.mem_append_left [a] hz)
    · exact ⟨before, x, between, y, a :: after, z, hl, hk, hd, hz, hne, by simpa using ha⟩

end Marks

end Rblib.Library
