import Mathlib.Tactic

namespace Rblib.Library

variable {α β γ ε : Type}

lemma bind_eq_ok {x : Except ε α} {f : α → Except ε β} {b : β} :
    x >>= f = .ok b ↔ ∃ a, x = .ok a ∧ f a = .ok b := by
  cases x with
  | error e => simp [bind, Except.bind]
  | ok a => simp [bind, Except.bind]

lemma map_eq_ok {f : α → β} {x : Except ε α} {b : β} (h : x.map f = .ok b) : ∃ a, x = .ok a ∧ f a = b := by
  cases x with
  | error e => simp [Except.map] at h
  | ok a => exact ⟨a, rfl, Except.ok.inj h⟩

lemma map_eq_error {f : α → β} {x : Except ε α} {e : ε} (h : x.map f = .error e) : x = .error e := by
  cases x with
  | error e' => exact congrArg Except.error (Except.error.inj h)
  | ok a => simp [Except.map] at h

lemma foldlM_cons_eq_ok {f : β → α → Except ε β} {a : α} {l : List α} {b b' : β} :
    (a :: l).foldlM f b = .ok b' ↔ ∃ b₁, f b a = .ok b₁ ∧ l.foldlM f b₁ = .ok b' := by
  rw [List.foldlM_cons, bind_eq_ok]

lemma bind_eq_error {x : Except ε α} {f : α → Except ε β} {e : ε} :
    x >>= f = .error e ↔ x = .error e ∨ ∃ a, x = .ok a ∧ f a = .error e := by
  cases x with
  | error e' => simp [bind, Except.bind]
  | ok a => simp [bind, Except.bind]

lemma foldlM_eq_error {f : β → α → Except ε β} {l : List α} {b : β} {e : ε} (h : l.foldlM f b = .error e) :
    ∃ a ∈ l, ∃ b', f b' a = .error e := by
  induction l generalizing b with
  | nil => cases h
  | cons a l ih =>
    rw [List.foldlM_cons, bind_eq_error] at h
    obtain hfirst | ⟨next, -, hrest⟩ := h
    · exact ⟨a, List.mem_cons_self, b, hfirst⟩
    · obtain ⟨a', ha', hlater⟩ := ih hrest
      exact ⟨a', List.mem_cons_of_mem _ ha', hlater⟩

lemma mapM_cons_eq_ok {f : α → Except ε β} {a : α} {l : List α} {l' : List β} :
    (a :: l).mapM f = .ok l' ↔ ∃ b bs, f a = .ok b ∧ l.mapM f = .ok bs ∧ l' = b :: bs := by
  simp only [List.mapM_cons, bind_eq_ok, pure, Except.pure, Except.ok.injEq, exists_and_left, eq_comm (a := l')]

lemma length_of_mapM_ok {f : α → Except ε β} {l : List α} {l' : List β} (h : l.mapM f = .ok l') :
    l'.length = l.length := by
  induction l generalizing l' with
  | nil =>
    cases h
    rfl
  | cons a l ih =>
    obtain ⟨b, bs, -, hbs, rfl⟩ := mapM_cons_eq_ok.mp h
    rw [List.length_cons, List.length_cons, ih hbs]

lemma mapM_mapM_eq_ok {f : α → Except ε β} {g : β → Except ε γ} {l : List α} {l'' : List γ} :
    (∃ l', l.mapM f = .ok l' ∧ l'.mapM g = .ok l'') ↔
      List.Forall₂ (fun a c => ∃ b, f a = .ok b ∧ g b = .ok c) l l'' := by
  induction l generalizing l'' with
  | nil =>
    rw [List.forall₂_nil_left_iff]
    constructor
    · rintro ⟨l', hf, hg⟩
      cases hf
      exact (Except.ok.inj hg).symm
    · rintro rfl
      exact ⟨[], rfl, rfl⟩
  | cons a l ih =>
    rw [List.forall₂_cons_left_iff]
    constructor
    · rintro ⟨l', hf, hg⟩
      obtain ⟨b, bs, hb, hbs, rfl⟩ := mapM_cons_eq_ok.mp hf
      obtain ⟨c, cs, hc, hcs, rfl⟩ := mapM_cons_eq_ok.mp hg
      exact ⟨c, cs, ⟨b, hb, hc⟩, ih.mp ⟨bs, hbs, hcs⟩, rfl⟩
    · rintro ⟨c, cs, ⟨b, hb, hc⟩, hrest, rfl⟩
      obtain ⟨bs, hbs, hcs⟩ := ih.mpr hrest
      exact ⟨b :: bs, mapM_cons_eq_ok.mpr ⟨b, bs, hb, hbs, rfl⟩, mapM_cons_eq_ok.mpr ⟨c, cs, hc, hcs, rfl⟩⟩

lemma forall₂_eraseIdx {R : α → β → Prop} {l : List α} {l' : List β} (h : List.Forall₂ R l l') (i : ℕ) :
    List.Forall₂ R (l.eraseIdx i) (l'.eraseIdx i) := by
  rw [List.eraseIdx_eq_take_drop_succ, List.eraseIdx_eq_take_drop_succ]
  exact List.rel_append (List.forall₂_take i h) (List.forall₂_drop (i + 1) h)

end Rblib.Library
