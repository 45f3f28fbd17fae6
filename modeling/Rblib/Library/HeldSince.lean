import Rblib.Library.HiddenSteps

/-! What a system holds after a run. -/

namespace Rblib.Library

variable {S E V : Type} (step : S → E → S → Prop) (puts drops : S → E → V → Prop)

def Leaving (v : V) (s : S) (e : E) (s' : S) : Prop := step s e s' ∧ ¬ drops s e v

def PutSince (s : S) (es : List E) (t : S) (v : V) : Prop :=
  ∃ before e after s₁ s₂, es = before ++ e :: after ∧ Path step s before s₁ ∧ step s₁ e s₂ ∧ puts s₁ e v ∧
    Path (Leaving step drops v) s₂ after t

lemma path_of_foldlM {step : S → E → Option S} {s t : S} {es : List E} (h : es.foldlM step s = some t) :
    Path (fun s e s' => step s e = some s') s es t := by
  induction es generalizing s with
  | nil =>
    cases h
    exact .nil _
  | cons e es ih =>
    rw [List.foldlM_cons, Option.bind_eq_bind, Option.bind_eq_some_iff] at h
    obtain ⟨s', hstep, hrest⟩ := h
    exact .cons hstep (ih hrest)

variable {step puts drops} {s s' t : S} {e : E} {es : List E} {v : V}

lemma path_of_leaving (h : Path (Leaving step drops v) s es t) : Path step s es t := by
  induction h with
  | nil s => exact .nil s
  | cons hstep _ ih => exact .cons hstep.1 ih

lemma PutSince.cons (hstep : step s e s') (h : PutSince step puts drops s' es t v) :
    PutSince step puts drops s (e :: es) t v := by
  obtain ⟨before, e', after, s₁, s₂, rfl, hbefore, hput⟩ := h
  exact ⟨e :: before, e', after, s₁, s₂, rfl, .cons hstep hbefore, hput⟩

section Held

variable {I : S → Prop} {holds : S → V → Prop}

lemma held_of_leaving (hI : ∀ s e s', I s → e ∈ es → step s e s' → I s')
    (hstep : ∀ s e s' v, I s → step s e s' → (holds s' v ↔ puts s e v ∨ holds s v ∧ ¬ drops s e v))
    (hs : I s) (hv : holds s v) (h : Path (Leaving step drops v) s es t) : holds t v := by
  induction h with
  | nil s => exact hv
  | cons hone _ ih =>
    apply ih (fun _ _ _ hs hmem => hI _ _ _ hs (List.mem_cons_of_mem _ hmem))
    · exact hI _ _ _ hs List.mem_cons_self hone.1
    · exact (hstep _ _ _ v hs hone.1).mpr (.inr ⟨hv, hone.2⟩)

theorem held_iff (hI : ∀ s e s', I s → e ∈ es → step s e s' → I s')
    (hstep : ∀ s e s' v, I s → step s e s' → (holds s' v ↔ puts s e v ∨ holds s v ∧ ¬ drops s e v))
    (hs : I s) (h : Path step s es t) :
    holds t v ↔ PutSince step puts drops s es t v ∨ holds s v ∧ Path (Leaving step drops v) s es t := by
  constructor
  · intro hv
    induction h with
    | nil s => exact .inr ⟨hv, .nil s⟩
    | @cons s s' t e es hone hrest ih =>
      have hs' : I s' := hI _ _ _ hs List.mem_cons_self hone
      obtain hput | ⟨hheld, hleft⟩ := ih (fun _ _ _ hs hmem => hI _ _ _ hs (List.mem_cons_of_mem _ hmem)) hs' hv
      · exact .inl (hput.cons hone)
      · obtain hput | ⟨hheld, hkept⟩ := (hstep _ _ _ v hs hone).mp hheld
        · exact .inl ⟨[], e, es, s, s', rfl, .nil s, hone, hput, hleft⟩
        · exact .inr ⟨hheld, .cons ⟨hone, hkept⟩ hleft⟩
  · rintro (⟨before, e, after, s₁, s₂, rfl, hbefore, hone, hput, hleft⟩ | ⟨hv, hleft⟩)
    · have hs₁ : I s₁ := (hbefore.forall_mem (Q := fun _ => True) hs fun hs hmem hone =>
        ⟨hI _ _ _ hs (List.mem_append_left _ hmem) hone, trivial⟩).1
      have hv : holds s₂ v := (hstep _ _ _ v hs₁ hone).mpr (.inl hput)
      have hs₂ : I s₂ := hI _ _ _ hs₁ (List.mem_append_right _ List.mem_cons_self) hone
      apply held_of_leaving ?_ hstep hs₂ hv hleft
      exact fun s e s' hs hmem => hI s e s' hs (List.mem_append_right _ (List.mem_cons_of_mem _ hmem))
    · exact held_of_leaving hI hstep hs hv hleft

end Held

end Rblib.Library
