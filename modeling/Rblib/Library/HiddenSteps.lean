import Mathlib.Data.List.Basic

/-! Runs of a labelled step relation. -/

namespace Rblib.Library

variable {S T E : Type}

inductive Path (step : S → E → S → Prop) : S → List E → S → Prop
  | nil (s : S) : Path step s [] s
  | cons {s s' t : S} {e : E} {es : List E} (h : step s e s') (hs : Path step s' es t) : Path step s (e :: es) t

namespace Path

variable {step : S → E → S → Prop} {s s' t : S} {e : E} {es es' : List E}

lemma append (h : Path step s es s') (h' : Path step s' es' t) : Path step s (es ++ es') t := by
  induction h with
  | nil s => exact h'
  | cons hstep _ ih => exact .cons hstep (ih h')

lemma split (h : Path step s (es ++ es') t) : ∃ u, Path step s es u ∧ Path step u es' t := by
  induction es generalizing s with
  | nil => exact ⟨s, .nil s, h⟩
  | cons e es ih =>
    cases h with
    | cons hstep hrest =>
      obtain ⟨u, hu, ht⟩ := ih hrest
      exact ⟨u, .cons hstep hu, ht⟩

lemma forall_mem {P : S → Prop} {Q : E → Prop} (h : Path step s es t) (hs : P s)
    (hstep : ∀ {s e s'}, P s → e ∈ es → step s e s' → P s' ∧ Q e) : P t ∧ ∀ e ∈ es, Q e := by
  induction h with
  | nil s => exact ⟨hs, by simp⟩
  | cons h _ ih =>
    obtain ⟨hs', he⟩ := hstep hs List.mem_cons_self h
    obtain ⟨ht, hes⟩ := ih hs' fun hp hm => hstep hp (List.mem_cons_of_mem _ hm)
    exact ⟨ht, List.forall_mem_cons.mpr ⟨he, hes⟩⟩

lemma accumulate {I : List E → S → Prop} (h : Path step s es t) (hs : I es' s)
    (hstep : ∀ {es s e s'}, I es s → step s e s' → I (es ++ [e]) s') : I (es' ++ es) t := by
  induction h generalizing es' with
  | nil s => rwa [List.append_nil]
  | cons h _ ih => simpa using ih (hstep hs h)

lemma restrict_iff {p : E → Prop} :
    Path (fun s e s' => p e ∧ step s e s') s es t ↔ (∀ e ∈ es, p e) ∧ Path step s es t := by
  constructor
  · intro h
    induction h with
    | nil s => exact ⟨by simp, .nil s⟩
    | cons hstep _ ih => exact ⟨List.forall_mem_cons.mpr ⟨hstep.1, ih.1⟩, .cons hstep.2 ih.2⟩
  · rintro ⟨hall, h⟩
    induction h with
    | nil s => exact .nil s
    | cons hstep _ ih =>
      rw [List.forall_mem_cons] at hall
      exact .cons ⟨hall.1, hstep⟩ (ih hall.2)

end Path

structure Hides (step : S → E → S → Prop) (step' : T → E → T → Prop) (hidden : E → Bool) (R : S → T → Prop) :
    Prop where
  follow : ∀ {s s' t e}, R s t → step s e s' →
    hidden e = true ∧ R s' t ∨ hidden e = false ∧ ∃ t', step' t e t' ∧ R s' t'
  catch_up : ∀ {s t t' e}, R s t → step' t e t' → hidden e = false ∧ ∃ es s', (∀ e ∈ es, hidden e = true) ∧
    Path step s (es ++ [e]) s' ∧ R s' t'

namespace Hides

variable {step : S → E → S → Prop} {step' : T → E → T → Prop} {hidden : E → Bool} {R : S → T → Prop}
  {s s' : S} {t t' : T} {es : List E}

lemma down (h : Hides step step' hidden R) (hR : R s t) (hs : Path step s es s') :
    ∃ t', Path step' t (es.filter fun e => !hidden e) t' ∧ R s' t' := by
  induction hs generalizing t with
  | nil s => exact ⟨t, .nil t, hR⟩
  | cons hstep _ ih =>
    rcases h.follow hR hstep with ⟨he, hR'⟩ | ⟨he, t', ht', hR'⟩
    · rw [List.filter_cons_of_neg (by simp [he])]
      exact ih hR'
    · obtain ⟨u, hu, hRu⟩ := ih hR'
      rw [List.filter_cons_of_pos (by simp [he])]
      exact ⟨u, .cons ht' hu, hRu⟩

lemma up (h : Hides step step' hidden R) (hR : R s t) (ht : Path step' t es t') :
    ∃ es' s', Path step s es' s' ∧ (es'.filter fun e => !hidden e) = es ∧ R s' t' := by
  induction ht generalizing s with
  | nil t => exact ⟨[], s, .nil s, rfl, hR⟩
  | cons hstep _ ih =>
    obtain ⟨he, hs, s₁, hhidden, hpath, hR₁⟩ := h.catch_up hR hstep
    obtain ⟨rest, s₂, hrest, hfilter, hR₂⟩ := ih hR₁
    have hnone : (hs.filter fun e => !hidden e) = [] := by
      rw [List.filter_eq_nil_iff]
      intro e hmem
      simp [hhidden e hmem]
    refine ⟨hs ++ [_] ++ rest, s₂, hpath.append hrest, ?_, hR₂⟩
    rw [List.filter_append, List.filter_append, hnone, List.filter_cons_of_pos (by simp [he]), hfilter]
    rfl

lemma path_iff (h : Hides step step' hidden R) (es : List E) (hR : R s t) :
    (∃ t', Path step' t es t') ↔ ∃ es', (∃ s', Path step s es' s') ∧ (es'.filter fun e => !hidden e) = es := by
  constructor
  · rintro ⟨t', ht⟩
    obtain ⟨es', s', hs, hfilter, -⟩ := h.up hR ht
    exact ⟨es', ⟨s', hs⟩, hfilter⟩
  · rintro ⟨es', ⟨s', hs⟩, rfl⟩
    obtain ⟨t', ht, -⟩ := h.down hR hs
    exact ⟨t', ht⟩

end Hides

end Rblib.Library
