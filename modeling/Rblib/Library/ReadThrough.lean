import Mathlib.Logic.Function.Basic

namespace Rblib.Library

variable {K V ε : Type} [DecidableEq K]

def readThrough (cache : K → Option V) (fetch : K → Except ε V) (k : K) :
    Except ε V × (K → Option V) :=
  match cache k with
  | some v => (.ok v, cache)
  | none => match fetch k with
    | .ok v => (.ok v, Function.update cache k (some v))
    | .error e => (.error e, cache)

def insertAll (cache : K → Option V) (entries : List (K × V)) : K → Option V :=
  entries.foldl (fun cache e => Function.update cache e.1 (some e.2)) cache

def Coherent (Answers : K → V → Prop) (cache : K → Option V) : Prop := ∀ k v, cache k = some v → Answers k v

variable {Answers : K → V → Prop} {cache : K → Option V} {fetch : K → Except ε V} {k : K}

omit [DecidableEq K] in
lemma coherent_empty : Coherent Answers fun _ => none := by
  intro k v h
  cases h

lemma Coherent.update (h : Coherent Answers cache) {v : V} (hv : Answers k v) :
    Coherent Answers (Function.update cache k (some v)) := by
  intro k' v' h'
  by_cases hk : k' = k
  · subst hk
    rw [Function.update_self] at h'
    cases h'
    exact hv
  · rw [Function.update_of_ne hk] at h'
    exact h k' v' h'

lemma update_none_some {k' : K} {v : V} (h : Function.update cache k none k' = some v) : cache k' = some v := by
  by_cases hk : k' = k
  · subst hk
    rw [Function.update_self] at h
    cases h
  · rwa [Function.update_of_ne hk] at h

lemma insertAll_some {entries : List (K × V)} {v : V} (h : insertAll cache entries k = some v) :
    (k, v) ∈ entries ∨ cache k = some v ∧ ∀ w, (k, w) ∉ entries := by
  induction entries generalizing cache with
  | nil => exact .inr ⟨h, by simp⟩
  | cons e entries ih =>
    have h' : insertAll (Function.update cache e.1 (some e.2)) entries k = some v := h
    rcases ih h' with hm | ⟨hs, hn⟩
    · exact .inl (List.mem_cons_of_mem _ hm)
    · by_cases hk : k = e.1
      · subst hk
        rw [Function.update_self] at hs
        cases hs
        exact .inl List.mem_cons_self
      · rw [Function.update_of_ne hk] at hs
        refine .inr ⟨hs, fun w hw => ?_⟩
        rcases List.mem_cons.mp hw with rfl | hw
        · exact hk rfl
        · exact hn w hw

lemma insertAll_isSome {entries : List (K × V)} (h : (cache k).isSome) : (insertAll cache entries k).isSome := by
  induction entries generalizing cache with
  | nil => exact h
  | cons e entries ih =>
    apply ih
    by_cases hk : k = e.1
    · simp [hk]
    · simpa [hk] using h

lemma Coherent.readThrough (h : Coherent Answers cache) (hf : ∀ v, fetch k = .ok v → Answers k v) :
    Coherent Answers (readThrough cache fetch k).2 := by
  rw [Library.readThrough]
  cases hc : cache k with
  | some v => exact h
  | none =>
    cases hk : fetch k with
    | error e => exact h
    | ok v => exact h.update (hf v hk)

lemma readThrough_answers (h : Coherent Answers cache) (hf : ∀ v, fetch k = .ok v → Answers k v) {v : V}
    (hv : (readThrough cache fetch k).1 = .ok v) : Answers k v := by
  rw [readThrough] at hv
  cases hc : cache k with
  | some w =>
    rw [hc] at hv
    cases hv
    exact h k v hc
  | none =>
    rw [hc] at hv
    cases hk : fetch k with
    | error e =>
      rw [hk] at hv
      cases hv
    | ok w =>
      rw [hk] at hv
      cases hv
      exact hf v hk

lemma readThrough_error {e : ε} (he : (readThrough cache fetch k).1 = .error e) : fetch k = .error e := by
  rw [readThrough] at he
  cases hc : cache k with
  | some w =>
    rw [hc] at he
    cases he
  | none =>
    rw [hc] at he
    cases hk : fetch k with
    | error e' =>
      rw [hk] at he
      cases he
      rfl
    | ok w =>
      rw [hk] at he
      cases he

end Rblib.Library
