import Rblib.Platform.Limits

/-! When clamping computes the greatest lower bound. -/

namespace Rblib.Platform

inductive Dimension
  | gasLimit
  | maxTransactions
  | deadline
  | maxBlobCount
  | maxBlobsPerTx

inductive OpDimension
  | maxTxDa
  | maxBlockDa
  | maxBlockDaFootprint

def bounded (x : Option ℕ) : WithTop ℕ := x

def SameBounds (x y : Option ℕ) : Prop := x.isSome = y.isSome

lemma bounded_eq_top {x : Option ℕ} : bounded x = ⊤ ↔ x.isSome = false := by
  cases x with
  | none => exact iff_of_true rfl rfl
  | some n => exact iff_of_false (WithTop.coe_ne_top (a := n)) (by simp)

lemma sameBounds_iff {x y : Option ℕ} : SameBounds x y ↔ (bounded x = ⊤ ↔ bounded y = ⊤) := by
  cases x <;> cases y <;> simp [SameBounds, bounded_eq_top]

lemma bounded_min_eq_top (x y : Option ℕ) :
    bounded (min x y) = ⊤ ↔ bounded x = ⊤ ∨ bounded y = ⊤ := by
  cases x <;> cases y <;> simp [bounded_eq_top]

lemma bounded_min_of_ne_top {x y : Option ℕ} (hx : bounded x ≠ ⊤) (hy : bounded y ≠ ⊤) :
    bounded (min x y) = bounded x ⊓ bounded y := by
  cases x with
  | none => exact absurd (bounded_eq_top.mpr rfl) hx
  | some m =>
    cases y with
    | none => exact absurd (bounded_eq_top.mpr rfl) hy
    | some n => exact WithTop.coe_inf m n

/-- The bounds an extension sets. Its clamp keeps a bound only if both sides set it. -/
class ExtensionBounds (ε : Type) extends LimitExtension ε where
  Dim : Type
  bound : ε → Dim → Option ℕ
  bound_clamp : ∀ a b d, bound (clamp a b) d = min (bound a d) (bound b d)

instance : ExtensionBounds Unit where
  Dim := Empty
  bound _ d := d.elim
  bound_clamp _ _ d := d.elim

instance : ExtensionBounds OpLimitsExt where
  Dim := OpDimension
  bound e
    | .maxTxDa => e.maxTxDa
    | .maxBlockDa => e.maxBlockDa
    | .maxBlockDaFootprint => e.maxBlockDaFootprint
  bound_clamp a b d := by cases d <;> rfl

namespace Limits

variable {ε : Type} [ExtensionBounds ε]

def bound (l : Limits ε) : Dimension ⊕ ExtensionBounds.Dim ε → WithTop ℕ
  | .inl .gasLimit => l.gasLimit
  | .inl .maxTransactions => bounded l.maxTransactions
  | .inl .deadline => bounded l.deadline
  | .inl .maxBlobCount => bounded (l.blobParams.map BlobParams.maxBlobCount)
  | .inl .maxBlobsPerTx => bounded (l.blobParams.map BlobParams.maxBlobsPerTx)
  | .inr d => bounded (ExtensionBounds.bound l.ext d)

instance : Preorder (Limits ε) := Preorder.lift bound

def optional : Dimension ⊕ ExtensionBounds.Dim ε → Bool
  | .inl .maxTransactions => true
  | .inl .deadline => true
  | .inr _ => true
  | _ => false

lemma bound_clamp_optional {a b : Limits ε} {d : Dimension ⊕ ExtensionBounds.Dim ε}
    (hd : optional d = true) :
    ∃ x y : Option ℕ, a.bound d = bounded x ∧ b.bound d = bounded y ∧
      (a.clamp b).bound d = bounded (min x y) := by
  rcases d with d | d
  · cases d with
    | maxTransactions => exact ⟨a.maxTransactions, b.maxTransactions, rfl, rfl, rfl⟩
    | deadline => exact ⟨a.deadline, b.deadline, rfl, rfl, rfl⟩
    | _ => cases hd
  · exact ⟨ExtensionBounds.bound a.ext d, ExtensionBounds.bound b.ext d, rfl, rfl,
      congrArg bounded (ExtensionBounds.bound_clamp a.ext b.ext d)⟩

lemma blob_clamp (f : BlobParams → ℕ) (hf : ∀ p q : BlobParams, f (p.clamp q) = min (f p) (f q))
    (a b : Limits ε) :
    bounded ((a.clamp b).blobParams.map f) =
      bounded (a.blobParams.map f) ⊓ bounded (b.blobParams.map f) := by
  cases ha : a.blobParams with
  | none =>
    have hn : bounded none = ⊤ := rfl
    cases hb : b.blobParams <;> simp [clamp, ha, hb, hn]
  | some p =>
    cases hb : b.blobParams with
    | none =>
      have hn : bounded none = ⊤ := rfl
      simp [clamp, ha, hb, hn]
    | some q =>
      simp only [clamp, ha, hb, Option.map_some, hf]
      exact WithTop.coe_inf (f p) (f q)

lemma bound_clamp_required (a b : Limits ε) {d : Dimension ⊕ ExtensionBounds.Dim ε}
    (hd : optional d = false) : (a.clamp b).bound d = a.bound d ⊓ b.bound d := by
  rcases d with d | d
  · cases d with
    | gasLimit => exact WithTop.coe_inf a.gasLimit b.gasLimit
    | maxBlobCount => exact blob_clamp BlobParams.maxBlobCount (fun _ _ => rfl) a b
    | maxBlobsPerTx => exact blob_clamp BlobParams.maxBlobsPerTx (fun _ _ => rfl) a b
    | _ => cases hd
  · cases hd

def SamePattern (a b : Limits ε) : Prop :=
  ∀ d, optional d = true → (a.bound d = ⊤ ↔ b.bound d = ⊤)

lemma bound_clamp_of_samePattern {a b : Limits ε} (h : SamePattern a b)
    (d : Dimension ⊕ ExtensionBounds.Dim ε) : (a.clamp b).bound d = a.bound d ⊓ b.bound d := by
  cases hd : optional d with
  | false => exact bound_clamp_required a b hd
  | true =>
    have hp := h d hd
    obtain ⟨x, y, hx, hy, hxy⟩ := bound_clamp_optional (a := a) (b := b) hd
    rw [hx, hy] at hp
    rw [hx, hy, hxy]
    by_cases ht : bounded x = ⊤
    · rw [(bounded_min_eq_top x y).mpr (Or.inl ht), ht, hp.mp ht, inf_idem]
    · exact bounded_min_of_ne_top ht (fun h => ht (hp.mpr h))

lemma isGLB_of_samePattern {a b : Limits ε} (h : SamePattern a b) : IsGLB {a, b} (a.clamp b) := by
  constructor
  · rintro l (rfl | rfl) d
    · rw [bound_clamp_of_samePattern h]
      exact inf_le_left
    · rw [bound_clamp_of_samePattern h]
      exact inf_le_right
  · intro c hc d
    rw [bound_clamp_of_samePattern h]
    exact le_inf (hc (Set.mem_insert a {b}) d) (hc (Set.mem_insert_of_mem a rfl) d)

lemma bound_clamp_eq_top {a b : Limits ε} {d : Dimension ⊕ ExtensionBounds.Dim ε}
    (hd : optional d = true) : (a.clamp b).bound d = ⊤ ↔ a.bound d = ⊤ ∨ b.bound d = ⊤ := by
  obtain ⟨x, y, hx, hy, hxy⟩ := bound_clamp_optional (a := a) (b := b) hd
  rw [hx, hy, hxy, bounded_min_eq_top]

def nested (enclosing : Limits ε) (scopes : List (Limits ε)) : Limits ε :=
  scopes.foldl (fun enclosing scope => scope.clamp enclosing) enclosing

lemma nested_eq_top {d : Dimension ⊕ ExtensionBounds.Dim ε} (hd : optional d = true)
    (enclosing : Limits ε) (scopes : List (Limits ε)) :
    (nested enclosing scopes).bound d = ⊤ ↔
      enclosing.bound d = ⊤ ∨ ∃ l ∈ scopes, l.bound d = ⊤ := by
  induction scopes generalizing enclosing with
  | nil => simp [nested]
  | cons scope scopes ih =>
    have hs := ih (scope.clamp enclosing)
    rw [bound_clamp_eq_top hd] at hs
    change (nested (scope.clamp enclosing) scopes).bound d = ⊤ ↔ _
    rw [hs]
    simp only [List.exists_mem_cons_iff]
    tauto

theorem isGLB_nested_iff (enclosing : Limits ε) (scopes : List (Limits ε)) :
    IsGLB (insert enclosing {l | l ∈ scopes}) (nested enclosing scopes) ↔
      ∀ l ∈ scopes, SamePattern l enclosing := by
  constructor
  · intro h l hl d hd
    have hle : ∀ m ∈ insert enclosing {l | l ∈ scopes}, (nested enclosing scopes).bound d ≤ m.bound d :=
      fun m hm => h.1 hm d
    constructor
    · intro ht
      have hn := (nested_eq_top hd enclosing scopes).mpr (Or.inr ⟨l, hl, ht⟩)
      exact top_le_iff.mp (hn ▸ hle enclosing (Set.mem_insert _ _))
    · intro ht
      have hn := (nested_eq_top hd enclosing scopes).mpr (Or.inl ht)
      exact top_le_iff.mp (hn ▸ hle l (Set.mem_insert_of_mem _ hl))
  · intro h
    induction scopes generalizing enclosing with
    | nil => simp [nested]
    | cons scope scopes ih =>
      have hs := h scope List.mem_cons_self
      have hglb := isGLB_of_samePattern hs
      have hrest := ih (scope.clamp enclosing) fun l hl d hd => by
        rw [h l (List.mem_cons_of_mem _ hl) d hd, bound_clamp_eq_top hd, hs d hd, or_self]
      have hinner : nested (scope.clamp enclosing) scopes ≤ scope.clamp enclosing :=
        hrest.1 (Set.mem_insert _ _)
      constructor
      · intro m hm
        rcases hm with rfl | hm
        · exact hinner.trans (hglb.1 (Set.mem_insert_of_mem _ rfl))
        · rcases List.mem_cons.mp hm with rfl | hm
          · exact hinner.trans (hglb.1 (Set.mem_insert _ _))
          · exact hrest.1 (Set.mem_insert_of_mem _ hm)
      · intro c hc
        apply hrest.2
        intro m hm
        rcases hm with rfl | hm
        · apply hglb.2
          rintro l (rfl | rfl)
          · exact hc (Set.mem_insert_of_mem _ List.mem_cons_self)
          · exact hc (Set.mem_insert _ _)
        · exact hc (Set.mem_insert_of_mem _ (List.mem_cons_of_mem _ hm))

theorem isGLB_clamp_iff (a b : Limits ε) : IsGLB {a, b} (a.clamp b) ↔ SamePattern a b := by
  have h := isGLB_nested_iff b [a]
  have hset : insert b {l | l ∈ [a]} = ({a, b} : Set (Limits ε)) := by
    ext l
    simp [or_comm]
  rw [hset] at h
  simpa [nested] using h

def SetsSame (a b : Limits ε) : Prop :=
  SameBounds a.maxTransactions b.maxTransactions ∧ SameBounds a.deadline b.deadline

lemma samePattern_ethereum (a b : Limits Unit) : SamePattern a b ↔ a.SetsSame b := by
  constructor
  · intro h
    exact ⟨sameBounds_iff.mpr (h (.inl .maxTransactions) rfl),
      sameBounds_iff.mpr (h (.inl .deadline) rfl)⟩
  · rintro ⟨ht, hd⟩ (d | d) ho
    · cases d with
      | maxTransactions => exact sameBounds_iff.mp ht
      | deadline => exact sameBounds_iff.mp hd
      | _ => cases ho
    · cases d

end Limits

def OpLimitsExt.SetsSame (a b : OpLimitsExt) : Prop :=
  SameBounds a.maxTxDa b.maxTxDa ∧ SameBounds a.maxBlockDa b.maxBlockDa ∧
    SameBounds a.maxBlockDaFootprint b.maxBlockDaFootprint

lemma Limits.samePattern_optimism (a b : Limits OpLimitsExt) :
    SamePattern a b ↔ a.SetsSame b ∧ a.ext.SetsSame b.ext := by
  constructor
  · intro h
    have hd : ∀ d : Dimension ⊕ OpDimension, optional (ε := OpLimitsExt) d = true →
        (a.bound d = ⊤ ↔ b.bound d = ⊤) := h
    exact ⟨⟨sameBounds_iff.mpr (hd (.inl .maxTransactions) rfl),
        sameBounds_iff.mpr (hd (.inl .deadline) rfl)⟩,
      sameBounds_iff.mpr (hd (.inr .maxTxDa) rfl), sameBounds_iff.mpr (hd (.inr .maxBlockDa) rfl),
      sameBounds_iff.mpr (hd (.inr .maxBlockDaFootprint) rfl)⟩
  · rintro ⟨⟨ht, hd⟩, hx, hb, hf⟩ (d | d) ho
    · cases d with
      | maxTransactions => exact sameBounds_iff.mp ht
      | deadline => exact sameBounds_iff.mp hd
      | _ => cases ho
    · cases d with
      | maxTxDa => exact sameBounds_iff.mp hx
      | maxBlockDa => exact sameBounds_iff.mp hb
      | maxBlockDaFootprint => exact sameBounds_iff.mp hf

theorem clamp_meet_iff_same_bounds (a b : Limits Unit) (scopes : List (Limits Unit))
    (c d : Limits OpLimitsExt) (opScopes : List (Limits OpLimitsExt)) :
    (IsGLB {a, b} (a.clamp b) ↔ a.SetsSame b) ∧
    (IsGLB {c, d} (c.clamp d) ↔ c.SetsSame d ∧ c.ext.SetsSame d.ext) ∧
    (IsGLB (insert a {l | l ∈ scopes}) (Limits.nested a scopes) ↔ ∀ l ∈ scopes, l.SetsSame a) ∧
    (IsGLB (insert c {l | l ∈ opScopes}) (Limits.nested c opScopes) ↔
      ∀ l ∈ opScopes, l.SetsSame c ∧ l.ext.SetsSame c.ext) := by
  refine ⟨?_, ?_, ?_, ?_⟩
  · rw [Limits.isGLB_clamp_iff, Limits.samePattern_ethereum]
  · rw [Limits.isGLB_clamp_iff, Limits.samePattern_optimism]
  · simp only [Limits.isGLB_nested_iff, Limits.samePattern_ethereum]
  · simp only [Limits.isGLB_nested_iff, Limits.samePattern_optimism]

def platformLimits : Limits Unit := ⟨30000000, none, none, some 12000000000, ()⟩

def cappedLimits : Limits Unit := ⟨30000000, none, some 5, none, ()⟩

theorem clamp_loses_bounds :
    cappedLimits.clamp platformLimits = ⟨30000000, none, none, none, ()⟩ ∧
      ¬ cappedLimits.clamp platformLimits ≤ cappedLimits ∧
      ¬ cappedLimits.clamp platformLimits ≤ platformLimits ∧
      ¬ IsGLB {cappedLimits, platformLimits} (cappedLimits.clamp platformLimits) := by
  have hc : ¬ cappedLimits.clamp platformLimits ≤ cappedLimits := by
    intro h
    exact absurd (top_le_iff.mp (h (.inl .maxTransactions))) (WithTop.coe_ne_top (a := 5))
  have hp : ¬ cappedLimits.clamp platformLimits ≤ platformLimits := by
    intro h
    exact absurd (top_le_iff.mp (h (.inl .deadline))) (WithTop.coe_ne_top (a := 12000000000))
  exact ⟨rfl, hc, hp, fun h => hc (h.1 (Set.mem_insert _ _))⟩

end Rblib.Platform
