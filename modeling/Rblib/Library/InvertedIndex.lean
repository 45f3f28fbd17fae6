import Mathlib.Data.List.Infix

/-! An index from tags to keys beside a store of tagged values. -/

namespace Rblib.Library

section Runs

variable {S A : Type} {step : S → A → S} {I : S → Prop} {C : S → A → Prop}

theorem kept_throughout_iff (hstep : ∀ s a, I s → (I (step s a) ↔ C s a)) {s : S} (hs : I s) (as : List A) :
    (∀ done, done <+: as → I (done.foldl step s)) ↔ ∀ done a, done ++ [a] <+: as → C (done.foldl step s) a := by
  constructor
  · intro h done a hdone
    have hbefore : I (done.foldl step s) := h done ((List.prefix_append done [a]).trans hdone)
    have hafter := h (done ++ [a]) hdone
    rw [List.foldl_concat] at hafter
    exact (hstep _ a hbefore).mp hafter
  · intro h done
    induction done using List.reverseRecOn with
    | nil => exact fun _ => hs
    | append_singleton done a ih =>
      intro hdone
      have hbefore := ih ((List.prefix_append done [a]).trans hdone)
      rw [List.foldl_concat]
      exact (hstep _ a hbefore).mpr (h done a hdone)

end Runs

namespace InvertedIndex

variable {K V T : Type} {tagged : V → T → Prop} {stored stored' : K → Option V} {listed listed' : K → T → Prop}

/-- A key is listed under the tags of the value stored at it and under no other tag. -/
def Exact (tagged : V → T → Prop) (stored : K → Option V) (listed : K → T → Prop) : Prop :=
  ∀ k t, listed k t ↔ ∃ v, stored k = some v ∧ tagged v t

lemma Exact.listed_iff (h : Exact tagged stored listed) {k : K} {v : V} (hv : stored k = some v) (t : T) :
    listed k t ↔ tagged v t := by
  rw [h, hv]
  constructor
  · rintro ⟨w, hw, ht⟩
    obtain rfl := Option.some.inj hw
    exact ht
  · exact fun ht => ⟨v, rfl, ht⟩

theorem Exact.store_iff (h : Exact tagged stored listed) {k : K} {v : V} (hself : stored' k = some v)
    (hother : ∀ k', k' ≠ k → stored' k' = stored k')
    (hlisted : ∀ k' t, listed' k' t ↔ listed k' t ∨ k' = k ∧ tagged v t) :
    Exact tagged stored' listed' ↔ ∀ old, stored k = some old → ∀ t, tagged old t → tagged v t := by
  constructor
  · intro h' old hold t ht
    have hkept : listed' k t := (hlisted k t).mpr (.inl ((h.listed_iff hold t).mpr ht))
    exact (h'.listed_iff hself t).mp hkept
  · intro hcovers k' t
    rw [hlisted]
    by_cases hk : k' = k
    · subst hk
      rw [hself]
      constructor
      · rintro (hold | ⟨-, ht⟩)
        · obtain ⟨old, hold, ht⟩ := (h k' t).mp hold
          exact ⟨v, rfl, hcovers old hold t ht⟩
        · exact ⟨v, rfl, ht⟩
      · rintro ⟨w, hw, ht⟩
        obtain rfl := Option.some.inj hw
        exact .inr ⟨rfl, ht⟩
    · rw [hother k' hk, ← h]
      simp [hk]

theorem Exact.discard_iff (h : Exact tagged stored listed) (gone : K → V → Prop) (cleared : T → Prop)
    (hstored : ∀ k v, stored' k = some v ↔ stored k = some v ∧ ¬ gone k v)
    (hlisted : ∀ k t, listed' k t ↔ listed k t ∧ ¬ cleared t)
    (hgone : ∀ k v t, stored k = some v → tagged v t → cleared t → gone k v) :
    Exact tagged stored' listed' ↔ ∀ k v, stored k = some v → gone k v → ∀ t, tagged v t → cleared t := by
  constructor
  · intro h' k v hv hdiscarded t ht
    by_contra hnot
    obtain ⟨w, hw, -⟩ := (h' k t).mp ((hlisted k t).mpr ⟨(h.listed_iff hv t).mpr ht, hnot⟩)
    obtain ⟨hstill, hlive⟩ := (hstored k w).mp hw
    rw [hv] at hstill
    cases hstill
    exact hlive hdiscarded
  · intro hclean k t
    rw [hlisted, h]
    constructor
    · rintro ⟨⟨v, hv, ht⟩, hnot⟩
      exact ⟨v, (hstored k v).mpr ⟨hv, fun hdiscarded => hnot (hclean k v hv hdiscarded t ht)⟩, ht⟩
    · rintro ⟨v, hv, ht⟩
      obtain ⟨hv, hlive⟩ := (hstored k v).mp hv
      exact ⟨⟨v, hv, ht⟩, fun hcleared => hlive (hgone k v t hv ht hcleared)⟩

end InvertedIndex

end Rblib.Library
