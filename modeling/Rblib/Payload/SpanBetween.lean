import Rblib.Library.ParentChain
import Rblib.Payload.Span

/-! The spans between two checkpoints, `Span::between` and the operations that cut a span in
`payload/span.rs` and `payload/ext/span.rs`. -/

namespace Rblib.Payload

open Library Platform

variable {P : Type} [PlatformTypes P]

namespace Checkpoint

def ptrEq (a b : Checkpoint P) : Bool := a.data.id == b.data.id

/-- All checkpoints built so far; an allocation is not used twice. -/
inductive AllBuilt : List (Checkpoint P) → Prop
  | nil : AllBuilt []
  | start {cs : List (Checkpoint P)} (block : BlockContext P) (id now : ℕ) (hcs : AllBuilt cs)
      (fresh : ∀ c ∈ cs, c.data.id ≠ id) : AllBuilt (newAtBlock block id now :: cs)
  | apply {cs : List (Checkpoint P)} {c c' : Checkpoint P} (executable : Executable P) (id now : ℕ)
      (hcs : AllBuilt cs)
      (fresh : ∀ c ∈ cs, c.data.id ≠ id) (hc : c ∈ cs) (happly : c.apply executable id now = .ok c') :
        AllBuilt (c' :: cs)
  | barrier {cs : List (Checkpoint P)} {c : Checkpoint P} (id now : ℕ) (hcs : AllBuilt cs)
      (fresh : ∀ c ∈ cs, c.data.id ≠ id) (hc : c ∈ cs) : AllBuilt (c.barrier id now :: cs)

lemma allBuilt_cases {cs : List (Checkpoint P)} (h : AllBuilt cs) :
    cs = [] ∨ ∃ c' older, cs = c' :: older ∧ AllBuilt older ∧
    (∀ c ∈ older, c.data.id ≠ c'.data.id) ∧
      ∀ p, c'.prev = some p → p ∈ older ∧ c'.depth = p.depth + 1 := by
  cases h with
  | nil => exact .inl rfl
  | @start older block id now hcs fresh => exact .inr ⟨_, older, rfl, hcs, fresh, nofun⟩
  | @apply older c _ executable id now hcs fresh hc happly =>
    obtain ⟨result, -, rfl⟩ := apply_eq happly
    refine .inr ⟨_, older, rfl, hcs, fresh, fun p hp => ?_⟩
    obtain rfl := Option.some.inj hp
    exact ⟨hc, rfl⟩
  | @barrier older c id now hcs fresh hc =>
    refine .inr ⟨_, older, rfl, hcs, fresh, fun p hp => ?_⟩
    obtain rfl := Option.some.inj hp
    exact ⟨hc, rfl⟩

lemma AllBuilt.layered {cs : List (Checkpoint P)} (h : AllBuilt cs) : Layered {c | c ∈ cs} prev depth := by
  induction cs with
  | nil => exact ⟨nofun, nofun⟩
  | cons c' older ih =>
    obtain hnil | ⟨_, _, heq, hcs, -, hprev⟩ := allBuilt_cases h
    · cases hnil
    · cases heq
      have hlayered := ih hcs
      refine ⟨List.forall_mem_cons.mpr ⟨fun p hp => List.mem_cons_of_mem _ (hprev p hp).1, fun c hc p hp => ?_⟩,
        List.forall_mem_cons.mpr ⟨fun p hp => (hprev p hp).2, fun c hc p hp => ?_⟩⟩
      · exact List.mem_cons_of_mem _ (hlayered.closed c hc p hp)
      · exact hlayered.child c hc p hp

lemma AllBuilt.eq_of_ptrEq {cs : List (Checkpoint P)} (h : AllBuilt cs) {a b : Checkpoint P}
    (ha : a ∈ cs) (hb : b ∈ cs) (hab : a.ptrEq b = true) : a = b := by
  rw [ptrEq, beq_iff_eq] at hab
  induction cs with
  | nil => cases ha
  | cons c' older ih =>
    obtain hnil | ⟨_, _, heq, hcs, hfresh, -⟩ := allBuilt_cases h
    · cases hnil
    · cases heq
      rw [List.mem_cons] at ha hb
      obtain ha | ha := ha <;> obtain hb | hb := hb
      · exact ha.trans hb.symm
      · exact absurd (ha ▸ hab).symm (hfresh b hb)
      · exact absurd (hb ▸ hab) (hfresh a ha)
      · exact ih hcs ha hb

lemma ptrEq_refl (a : Checkpoint P) : a.ptrEq a = true := beq_self_eq_true _

lemma ptrEq_comm (a b : Checkpoint P) : a.ptrEq b = b.ptrEq a := Bool.beq_comm

lemma history_eq (c : Checkpoint P) : c.history = c.history.dropLast ++ [c] := by
  cases c with
  | base => rfl
  | next p d => rw [history_next, List.dropLast_concat]

end Checkpoint

inductive SpanError
  | nonlinearHistory
  deriving DecidableEq

namespace Span

open Checkpoint

def walk (ancestor : Checkpoint P) : Checkpoint P → List (Checkpoint P) → Except SpanError (List (Checkpoint P))
  | .base _ _, _ => .error .nonlinearHistory
  | .next prev _, checkpoints =>
    if prev.depth < ancestor.depth then .error .nonlinearHistory
    else if prev.ptrEq ancestor then .ok (checkpoints ++ [prev]).reverse
    else walk ancestor prev (checkpoints ++ [prev])

lemma walk_suffix {ancestor current : Checkpoint P} {gathered l : List (Checkpoint P)}
    (h : walk ancestor current gathered = .ok l) : l <:+ current.history.dropLast ++ gathered.reverse := by
  induction current generalizing gathered with
  | base => cases h
  | next prev d ih =>
    have hgathered : (next prev d).history.dropLast ++ gathered.reverse =
        prev.history.dropLast ++ (gathered ++ [prev]).reverse := by
      rw [history_next, List.dropLast_concat, List.reverse_append, List.reverse_singleton, ← List.append_assoc,
        ← history_eq]
    rw [walk] at h
    rw [hgathered]
    split_ifs at h
    · cases h
      exact List.suffix_append _ _
    · exact ih h

lemma walk_infix {ancestor descendant : Checkpoint P} {l : List (Checkpoint P)}
    (h : walk ancestor descendant [descendant] = .ok l) : l <:+: descendant.history := by
  have hl := walk_suffix h
  rw [List.reverse_singleton, ← history_eq] at hl
  exact hl.isInfix

def search (ancestor descendant : Checkpoint P) : Except SpanError (Span P) :=
  match h : walk ancestor descendant [descendant] with
  | .ok checkpoints => .ok ⟨checkpoints, descendant, walk_infix h⟩
  | .error e => .error e

lemma walk_of_search {ancestor descendant : Checkpoint P} {span : Span P}
    (h : search ancestor descendant = .ok span) :
    walk ancestor descendant [descendant] = .ok span.checkpoints := by
  rw [search] at h
  split at h
  · cases h
    assumption
  · cases h

def between (start finish : Checkpoint P) : Except SpanError (Span P) :=
  if start.ptrEq finish then .ok ⟨[start], start, _, [], by rw [List.append_nil, ← history_eq]⟩
  else if start.depth < finish.depth then search start finish
  else search finish start

def popFirst (span : Span P) : Option (Checkpoint P) × Span P :=
  (span.checkpoints.head?, ⟨span.checkpoints.tail,
    span.linear.imp fun _ h => (List.tail_suffix _).isInfix.trans h⟩)

def popLast (span : Span P) : Option (Checkpoint P) × Span P :=
  (span.checkpoints.getLast?, ⟨span.checkpoints.dropLast,
    span.linear.imp fun _ h => (List.dropLast_prefix _).isInfix.trans h⟩)

def splitAt (span : Span P) (mid : ℕ) : Span P × Span P :=
  (⟨span.checkpoints.take mid, span.linear.imp fun _ h => (List.take_prefix mid _).isInfix.trans h⟩,
    ⟨span.checkpoints.drop mid, span.linear.imp fun _ h => (List.drop_suffix mid _).isInfix.trans h⟩)

def skip (span : Span P) (n : ℕ) : Span P := (span.splitAt n).2

def take (span : Span P) (n : ℕ) : Span P := (span.splitAt n).1

inductive Derived (span : Span P) : Span P → Prop
  | self : Derived span span
  | splitLeft {s : Span P} (mid : ℕ) (h : Derived span s) : Derived span (s.splitAt mid).1
  | splitRight {s : Span P} (mid : ℕ) (h : Derived span s) : Derived span (s.splitAt mid).2
  | skip {s : Span P} (n : ℕ) (h : Derived span s) : Derived span (s.skip n)
  | take {s : Span P} (n : ℕ) (h : Derived span s) : Derived span (s.take n)
  | popFirst {s : Span P} (h : Derived span s) : Derived span s.popFirst.2
  | popLast {s : Span P} (h : Derived span s) : Derived span s.popLast.2

abbrev Contiguous (checkpoints : List (Checkpoint P)) : Prop := checkpoints.IsChain fun p c => c.prev = some p

lemma contiguous_history (c : Checkpoint P) : Contiguous c.history := by
  induction c with
  | base => exact List.isChain_singleton _
  | next prev d ih =>
    rw [history_next]
    refine List.isChain_append.mpr ⟨ih, List.isChain_singleton _, fun p hp c hc => ?_⟩
    rw [history_eq, List.getLast?_concat] at hp
    cases hp
    cases hc
    rfl

lemma contiguous (span : Span P) : Contiguous span.checkpoints := by
  obtain ⟨c, before, after, hlinear⟩ := span.linear
  have hall : Contiguous (before ++ span.checkpoints ++ after) := hlinear ▸ contiguous_history c
  exact hall.left_of_append.right_of_append

section

variable {cs : List (Checkpoint P)} (h : AllBuilt cs)
include h

lemma walk_ends {ancestor current x : Checkpoint P} {gathered l : List (Checkpoint P)} (ha : ancestor ∈ cs)
    (hc : current ∈ cs) (hx : gathered.head? = some x) (hok : walk ancestor current gathered = .ok l) :
    l.head? = some ancestor ∧ l.getLast? = some x := by
  induction current generalizing gathered with
  | base => cases hok
  | next prev d ih =>
    have hprev : prev ∈ cs := h.layered.closed _ hc prev rfl
    have hne : gathered ≠ [] := fun hnil => by rw [hnil] at hx; cases hx
    have hx' : (gathered ++ [prev]).head? = some x := by rw [List.head?_append_of_ne_nil _ hne, hx]
    rw [walk] at hok
    split_ifs at hok with hdepth heq
    · cases hok
      rw [List.head?_reverse, List.getLast?_reverse, List.getLast?_concat, h.eq_of_ptrEq hprev ha heq]
      exact ⟨rfl, by rwa [h.eq_of_ptrEq hprev ha heq] at hx'⟩
    · exact ih hprev hx' hok

lemma walk_isOk_iff {ancestor current : Checkpoint P} (ha : ancestor ∈ cs) (hc : current ∈ cs)
    (gathered : List (Checkpoint P)) : (∃ l, walk ancestor current gathered = .ok l) ↔
      ∃ p, AncestorOrSelf prev ancestor p ∧ current.prev = some p := by
  induction current generalizing gathered with
  | base => exact iff_of_false nofun nofun
  | next prev d ih =>
    have hprev : prev ∈ cs := h.layered.closed _ hc prev rfl
    have hstep : (∃ p, AncestorOrSelf Checkpoint.prev ancestor p ∧ (next prev d).prev = some p) ↔
        AncestorOrSelf Checkpoint.prev ancestor prev :=
      ⟨fun ⟨_, hp, heq⟩ => Option.some.inj heq ▸ hp, fun hp => ⟨prev, hp, rfl⟩⟩
    rw [walk, hstep]
    split_ifs with hdepth heq
    · refine iff_of_false nofun fun hanc => ?_
      exact hdepth.not_ge (h.layered.depth_le hprev hanc)
    · rw [h.eq_of_ptrEq hprev ha heq]
      exact iff_of_true ⟨_, rfl⟩ .refl
    · rw [ih hprev, ancestorOrSelf_iff, or_iff_right]
      rintro rfl
      exact heq (ptrEq_refl _)

lemma search_isOk_iff {ancestor descendant : Checkpoint P} (ha : ancestor ∈ cs) (hd : descendant ∈ cs) :
    (∃ span, search ancestor descendant = .ok span) ↔
      ∃ p, AncestorOrSelf prev ancestor p ∧ descendant.prev = some p := by
  rw [← walk_isOk_iff h ha hd [descendant]]
  constructor
  · rintro ⟨span, hspan⟩
    exact ⟨_, walk_of_search hspan⟩
  · rintro ⟨l, hl⟩
    rw [search]
    split
    · exact ⟨_, rfl⟩
    · rename_i hwalk
      rw [hl] at hwalk
      cases hwalk

lemma search_eq_error {a b : Checkpoint P} (ha : a ∈ cs) (hb : b ∈ cs) (hle : b.depth ≤ a.depth) :
    search a b = .error .nonlinearHistory := by
  cases hs : search a b with
  | error e => rfl
  | ok span =>
    obtain ⟨p, hanc, hp⟩ := (search_isOk_iff h ha hb).mp ⟨span, hs⟩
    have hup := h.layered.child b hb p hp
    have hdown := h.layered.depth_le (h.layered.closed b hb p hp) hanc
    omega

lemma between_comm {a b : Checkpoint P} (ha : a ∈ cs) (hb : b ∈ cs) : between a b = between b a := by
  by_cases hab : a.ptrEq b = true
  · rw [h.eq_of_ptrEq ha hb hab]
  · rw [between, between, if_neg hab, ptrEq_comm b a, if_neg hab]
    obtain hlt | heq | hlt := Nat.lt_trichotomy a.depth b.depth
    · rw [if_pos hlt, if_neg hlt.not_gt]
    · rw [if_neg heq.not_lt, if_neg heq.not_gt, search_eq_error h hb ha heq.le, search_eq_error h ha hb heq.ge]
    · rw [if_neg hlt.not_gt, if_pos hlt]

lemma search_ends {ancestor descendant : Checkpoint P} {span : Span P} (ha : ancestor ∈ cs) (hd : descendant ∈ cs)
    (hs : search ancestor descendant = .ok span) :
    span.checkpoints.head? = some ancestor ∧ span.checkpoints.getLast? = some descendant :=
  walk_ends h ha hd rfl (walk_of_search hs)

lemma between_of_depth_le {a b : Checkpoint P} (ha : a ∈ cs) (hb : b ∈ cs) (hle : a.depth ≤ b.depth) :
    ((∃ span, between a b = .ok span) ↔ AncestorOrSelf prev a b) ∧ ∀ span, between a b = .ok span →
      span.checkpoints.head? = some a ∧ span.checkpoints.getLast? = some b := by
  by_cases hab : a.ptrEq b = true
  · obtain rfl := h.eq_of_ptrEq ha hb hab
    rw [between, if_pos hab]
    refine ⟨iff_of_true ⟨_, rfl⟩ .refl, fun span hspan => ?_⟩
    cases hspan
    exact ⟨rfl, rfl⟩
  · have hne : b ≠ a := fun heq => hab (heq ▸ ptrEq_refl b)
    have hsearch : between a b = search a b := by
      rw [between, if_neg hab]
      split_ifs with hlt
      · rfl
      · rw [search_eq_error h hb ha hle, search_eq_error h ha hb (not_lt.mp hlt)]
    rw [hsearch, search_isOk_iff h ha hb, ancestorOrSelf_iff, or_iff_right hne]
    exact ⟨Iff.rfl, fun span hs => search_ends h ha hb hs⟩

end

/-- `between` finds the checkpoints from one end to the other whenever there is such a line. -/
theorem between_exact {cs : List (Checkpoint P)} (h : AllBuilt cs) {a b : Checkpoint P} (ha : a ∈ cs)
    (hb : b ∈ cs) :
    ((∃ span, between a b = .ok span) ↔ AncestorOrSelf prev a b ∨ AncestorOrSelf prev b a) ∧
      between a b = between b a ∧
      ∀ span, between a b = .ok span →
        (∃ ancestor descendant, ((ancestor = a ∧ descendant = b) ∨ (ancestor = b ∧ descendant = a)) ∧
          AncestorOrSelf prev ancestor descendant ∧
          span.checkpoints.head? = some ancestor ∧ span.checkpoints.getLast? = some descendant) ∧
        Contiguous span.checkpoints ∧
        span.checkpoints.length = (a.depth - b.depth : ℤ).natAbs + 1 ∧
        ∀ derived, Derived span derived → Contiguous derived.checkpoints := by
  wlog hle : a.depth ≤ b.depth generalizing a b with H
  · obtain ⟨hok, hcomm, hspan⟩ := H hb ha (Nat.le_of_not_le hle)
    rw [← hcomm]
    refine ⟨hok.trans or_comm, rfl, fun span hs => ?_⟩
    obtain ⟨⟨ancestor, descendant, hends, hrest⟩, hchain, hlen, hderived⟩ := hspan span hs
    refine ⟨⟨ancestor, descendant, hends.symm, hrest⟩, hchain, ?_, hderived⟩
    rw [hlen, ← Int.natAbs_neg, neg_sub]
  · obtain ⟨hok, hends⟩ := between_of_depth_le h ha hb hle
    refine ⟨hok.trans ⟨.inl, ?_⟩, between_comm h ha hb, fun span hs => ?_⟩
    · rintro (hab | hba)
      · exact hab
      · rw [h.layered.eq_of_depth_le ha hba hle]
        exact .refl
    · obtain ⟨hhead, hlast⟩ := hends span hs
      have hlen := h.layered.length_of_isChain span.contiguous hhead hlast hb
      refine ⟨⟨a, b, .inl ⟨rfl, rfl⟩, hok.mp ⟨span, hs⟩, hhead, hlast⟩, span.contiguous, ?_,
        fun derived _ => derived.contiguous⟩
      omega

end Span

namespace Blobnet

def first : Checkpoint Blobnet := start.barrier 1 1

def second : Checkpoint Blobnet := first.barrier 2 2

def restart : Checkpoint Blobnet := .newAtBlock block 3 3

lemma built_forks : Checkpoint.AllBuilt [restart, second, first, start] :=
  .start _ _ _ (.barrier _ _ (.barrier _ _ (.start _ _ _ .nil nofun) (by decide) (.head _)) (by decide)
    (.head _)) (by decide)

theorem start_to_second :
    (∃ span, Span.between start second = .ok span) ∧
      ((∃ span, Span.between start second = .ok span) ↔
        AncestorOrSelf Checkpoint.prev start second ∨ AncestorOrSelf Checkpoint.prev second start) ∧
      Span.between start second = Span.between second start ∧
      Span.between restart second = .error .nonlinearHistory := by
  have h := Span.between_exact built_forks (show start ∈ _ by simp) (show second ∈ _ by simp)
  exact ⟨h.1.mpr (.inl (.tail (.tail .refl rfl) rfl)), h.1, h.2.1, rfl⟩

end Blobnet

end Rblib.Payload
