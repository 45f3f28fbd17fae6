import Mathlib.Tactic

namespace Rblib.Library

variable {α β : Type*} [LinearOrder β]

structure FirstMax (p : α → Prop) (f : α → β) (l : List α) (m : α) : Prop where
  kind : p m
  splits : ∃ before after, l = before ++ m :: after ∧ (∀ x ∈ before, p x → f x < f m) ∧
    ∀ x ∈ after, p x → f x ≤ f m

namespace FirstMax

variable {p : α → Prop} {f : α → β} {l : List α} {m x : α}

lemma mem (h : FirstMax p f l m) : m ∈ l := by
  obtain ⟨before, after, rfl, -⟩ := h.splits
  exact List.mem_append_right before List.mem_cons_self

lemma le (h : FirstMax p f l m) (hx : x ∈ l) (hkind : p x) : f x ≤ f m := by
  obtain ⟨before, after, rfl, hbefore, hafter⟩ := h.splits
  obtain hx | hx := List.mem_append.mp hx
  · exact (hbefore x hx hkind).le
  · obtain rfl | hx := List.mem_cons.mp hx
    · exact le_rfl
    · exact hafter x hx hkind

lemma keep (h : FirstMax p f l m) (hx : p x → f x ≤ f m) : FirstMax p f (l ++ [x]) m := by
  obtain ⟨before, after, rfl, hbefore, hafter⟩ := h.splits
  refine ⟨h.kind, before, after ++ [x], List.append_assoc _ _ _, hbefore, fun y hy hkind => ?_⟩
  obtain hy | hy := List.mem_append.mp hy
  · exact hafter y hy hkind
  · obtain rfl := List.mem_singleton.mp hy
    exact hx hkind

lemma replace (hkind : p x) (hx : ∀ y ∈ l, p y → f y < f x) : FirstMax p f (l ++ [x]) x :=
  ⟨hkind, l, [], rfl, hx, nofun⟩

lemma unique (h : FirstMax p f l m) (h' : FirstMax p f l x) : m = x := by
  -- the one that comes later is larger than the one ahead of it, which is not smaller
  have hordered : ∀ {a b : α} {before between after : List α}, p a → p b →
      (∀ y ∈ before ++ a :: between, p y → f y < f b) →
      (∀ y ∈ between ++ b :: after, p y → f y ≤ f a) → False := by
    intro a b before between after ha hb hlt hle
    have hab : f a < f b := hlt a (List.mem_append_right before List.mem_cons_self) ha
    exact (hle b (List.mem_append_right between List.mem_cons_self) hb).not_gt hab
  obtain ⟨before, after, rfl, hbefore, hafter⟩ := h.splits
  obtain ⟨before', after', heq, hbefore', hafter'⟩ := h'.splits
  obtain ⟨between, rfl, hrest⟩ | ⟨between, rfl, hrest⟩ := List.append_eq_append_iff.mp heq
  · cases between with
    | nil => exact (List.cons.inj hrest).1
    | cons _ between =>
      obtain ⟨rfl, rfl⟩ := List.cons.inj hrest
      exact (hordered h.kind h'.kind hbefore' hafter).elim
  · cases between with
    | nil => exact (List.cons.inj hrest).1.symm
    | cons _ between =>
      obtain ⟨rfl, rfl⟩ := List.cons.inj hrest
      exact (hordered h'.kind h.kind hbefore hafter').elim

lemma exists_of_mem (hx : x ∈ l) (hkind : p x) : ∃ m, FirstMax p f l m := by
  induction l using List.reverseRecOn generalizing x with
  | nil => cases hx
  | append_singleton l last ih =>
    by_cases hsome : ∃ y ∈ l, p y
    · obtain ⟨y, hy, hykind⟩ := hsome
      obtain ⟨m, hm⟩ := ih hy hykind
      by_cases hlarger : p last ∧ f m < f last
      · exact ⟨last, .replace hlarger.1 fun z hz hzkind => (hm.le hz hzkind).trans_lt hlarger.2⟩
      · exact ⟨m, hm.keep fun hlast => not_lt.mp fun hlt => hlarger ⟨hlast, hlt⟩⟩
    · obtain hx | hx := List.mem_append.mp hx
      · exact absurd ⟨x, hx, hkind⟩ hsome
      · obtain rfl := List.mem_singleton.mp hx
        exact ⟨x, .replace hkind fun y hy hykind => absurd ⟨y, hy, hykind⟩ hsome⟩

end FirstMax

end Rblib.Library
