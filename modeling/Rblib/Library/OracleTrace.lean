import Mathlib.Data.Stream.Init
import Mathlib.Tactic
import Rblib.Library.HiddenSteps

/-! Programs that visit labels and receive an outcome from an oracle after each visit, and machines
driven by the same oracle. `andThen` appends the labels of what follows a program, `loop` iterates a
body until it answers `false`, `drive` collects the labels a machine visits (one more than there are
outcomes, unless it halts) and `stateAt` is its state after `n` outcomes. -/

namespace Rblib.Library.OracleTrace

variable {L O S T α β ε : Type}

/-- A program maps the outcomes it will receive to the labels it visits. It ends with a value and
the unused outcomes, or is cut when it visits a label whose outcome is not given. -/
def Prog (L O α : Type) : Type := List O → List L × Option (α × List O)

namespace Prog

protected def pure (a : α) : Prog L O α := fun os => ([], some (a, os))

protected def bind (r : Prog L O α) (k : α → Prog L O β) : Prog L O β := fun os =>
  match r os with
  | (v, none) => (v, none)
  | (v, some (a, rest)) => (v ++ (k a rest).1, (k a rest).2)

instance : Monad (Prog L O) where
  pure := Prog.pure
  bind := Prog.bind

def visit (l : L) : Prog L O O
  | [] => ([l], none)
  | o :: os => ([l], some (o, os))

def andThen (r : Prog L O α) (k : α → List O → Except ε (List L)) (os : List O) :
    Except ε (List L) :=
  match r os with
  | (v, none) => .ok v
  | (v, some (a, rest)) => (k a rest).map (v ++ ·)

@[simp] lemma map_nil_append (x : Except ε (List L)) : x.map ([] ++ ·) = x := by
  cases x <;> rfl

lemma map_append_append (x : Except ε (List L)) (v w : List L) :
    (x.map (w ++ ·)).map (v ++ ·) = x.map ((v ++ w) ++ ·) := by
  cases x with
  | error e => rfl
  | ok u => exact congrArg Except.ok (List.append_assoc v w u).symm

@[simp] lemma andThen_pure (a : α) (k : α → List O → Except ε (List L)) (os : List O) :
    (pure a : Prog L O α).andThen k os = k a os :=
  map_nil_append (k a os)

lemma andThen_bind (r : Prog L O α) (f : α → Prog L O β) (k : β → List O → Except ε (List L))
    (os : List O) :
    (r >>= f).andThen k os = r.andThen (fun a => (f a).andThen k) os := by
  change (Prog.bind r f).andThen k os = _
  rcases hr : r os with ⟨v, _ | ⟨a, rest⟩⟩
  · simp only [andThen, Prog.bind, hr]
  · rcases hf : f a rest with ⟨w, _ | ⟨b, tail⟩⟩
    · simp only [andThen, Prog.bind, hr, hf]
      rfl
    · simp only [andThen, Prog.bind, hr, hf, map_append_append]

@[simp] lemma andThen_visit_cons (l : L) (o : O) (os : List O)
    (k : O → List O → Except ε (List L)) :
    (visit l).andThen k (o :: os) = (k o os).map (l :: ·) := rfl

lemma andThen_nil (r : Prog L O α) (os : List O) :
    r.andThen (fun _ _ => (.ok [] : Except ε (List L))) os = .ok (r os).1 := by
  rcases hr : r os with ⟨v, _ | ⟨a, rest⟩⟩ <;> simp [andThen, hr, Except.map]

lemma andThen_congr (r : Prog L O α) {k l : α → List O → Except ε (List L)} {os : List O}
    (h : ∀ a rest, (r os).2 = some (a, rest) → k a rest = l a rest) :
    r.andThen k os = r.andThen l os := by
  rcases hr : r os with ⟨v, _ | ⟨a, rest⟩⟩
  · simp only [andThen, hr]
  · simp only [andThen, hr, h a rest (by rw [hr])]

def Productive (r : Prog L O α) : Prop :=
  ∀ os a rest, (r os).2 = some (a, rest) → rest.length < os.length

def Consuming (r : Prog L O α) : Prop :=
  ∀ os a rest, (r os).2 = some (a, rest) → rest.length ≤ os.length

lemma Productive.consuming {r : Prog L O α} (h : Productive r) : Consuming r :=
  fun os a rest hr => (h os a rest hr).le

lemma consuming_pure (a : α) : Consuming (pure a : Prog L O α) := by
  intro os b rest h
  cases h
  exact le_rfl

@[simp] lemma bind_of_pure (a : α) (f : α → Prog L O β) : (pure a >>= f : Prog L O β) = f a := rfl

lemma productive_visit (l : L) : Productive (visit l : Prog L O O) := by
  intro os a rest h
  cases os with
  | nil => cases h
  | cons o os => cases h; simp

lemma bind_apply (r : Prog L O α) (f : α → Prog L O β) (os : List O) :
    (r >>= f) os = match r os with
      | (v, none) => (v, none)
      | (v, some (a, rest)) => (v ++ (f a rest).1, (f a rest).2) := rfl

lemma bind_finished {r : Prog L O α} {f : α → Prog L O β} {os : List O} {b : β} {rest : List O}
    (h : ((r >>= f) os).2 = some (b, rest)) :
    ∃ a mid, (r os).2 = some (a, mid) ∧ (f a mid).2 = some (b, rest) := by
  change (Prog.bind r f os).2 = _ at h
  rcases hr : r os with ⟨v, _ | ⟨a, mid⟩⟩
  · simp [Prog.bind, hr] at h
  · exact ⟨a, mid, rfl, by simpa [Prog.bind, hr] using h⟩

lemma Consuming.bind {r : Prog L O α} {f : α → Prog L O β} (hr : Consuming r)
    (hf : ∀ a, Consuming (f a)) : Consuming (r >>= f) := by
  intro os b rest h
  obtain ⟨a, mid, h₁, h₂⟩ := bind_finished h
  exact (hf a mid b rest h₂).trans (hr os a mid h₁)

lemma Productive.bind_left {r : Prog L O α} {f : α → Prog L O β} (hr : Productive r)
    (hf : ∀ a, Consuming (f a)) : Productive (r >>= f) := by
  intro os b rest h
  obtain ⟨a, mid, h₁, h₂⟩ := bind_finished h
  exact (hf a mid b rest h₂).trans_lt (hr os a mid h₁)

lemma Productive.bind_right {r : Prog L O α} {f : α → Prog L O β} (hr : Consuming r)
    (hf : ∀ a, Productive (f a)) : Productive (r >>= f) := by
  intro os b rest h
  obtain ⟨a, mid, h₁, h₂⟩ := bind_finished h
  exact (hf a mid b rest h₂).trans_le (hr os a mid h₁)

def loopN : ℕ → Prog L O Bool → Prog L O Unit
  | 0, _ => fun _ => ([], none)
  | n + 1, body => body >>= fun again => if again then loopN n body else pure ()

/-- Iterate `body` until it answers `false`. Every iteration of a productive body consumes an
outcome, so one iteration more than there are outcomes is enough. -/
def loop (body : Prog L O Bool) : Prog L O Unit := fun os => loopN (os.length + 1) body os

lemma loopN_stable {body : Prog L O Bool} (hb : Productive body) (n m : ℕ) (os : List O)
    (hn : os.length < n) (hm : os.length < m) : loopN n body os = loopN m body os := by
  induction n generalizing m os with
  | zero => omega
  | succ n ih =>
    cases m with
    | zero => omega
    | succ m =>
      simp only [loopN, bind_apply]
      rcases hr : body os with ⟨v, _ | ⟨again, rest⟩⟩
      · rfl
      · have hl := hb os again rest (by rw [hr])
        cases again
        · rfl
        · simp only [if_true]
          rw [ih m rest (by omega) (by omega)]

lemma loop_unroll {body : Prog L O Bool} (hb : Productive body) :
    loop body = body >>= fun again => if again then loop body else pure () := by
  funext os
  simp only [loop, loopN, bind_apply]
  rcases hr : body os with ⟨v, _ | ⟨again, rest⟩⟩
  · rfl
  · have hl := hb os again rest (by rw [hr])
    cases again
    · rfl
    · simp only [if_true]
      rw [loopN_stable hb os.length (rest.length + 1) rest hl (by omega)]
      rfl

lemma Consuming.loop {body : Prog L O Bool} (hb : Consuming body) : Consuming (loop body) := by
  have hn : ∀ n, Consuming (loopN n body) := by
    intro n
    induction n with
    | zero =>
      intro os u rest h
      cases h
    | succ n ih =>
      apply hb.bind
      intro again
      cases again with
      | false => exact consuming_pure ()
      | true => exact ih
  intro os u rest h
  exact hn _ os u rest h

lemma Productive.loop {body : Prog L O Bool} (hb : Productive body) : Productive (loop body) := by
  intro os
  induction hn : os.length using Nat.strong_induction_on generalizing os with
  | _ n ih =>
    intro u rest h
    rw [loop_unroll hb] at h
    obtain ⟨again, mid, h₁, h₂⟩ := bind_finished h
    have hl := hb os again mid h₁
    cases again with
    | false => cases h₂; omega
    | true => exact (ih mid.length (by omega) mid rfl u rest h₂).trans (by omega)

def Starts (r : Prog L O α) : Prop := (r []).1 ≠ []

lemma starts_visit (l : L) : Starts (visit l : Prog L O O) := by
  simp [Starts, visit]

lemma Starts.bind_left {r : Prog L O α} (f : α → Prog L O β) (hr : Starts r) :
    Starts (r >>= f) := by
  unfold Starts at *
  rw [bind_apply]
  rcases h : r [] with ⟨v, _ | ⟨a, rest⟩⟩
  · simpa [h] using hr
  · have hv : v ≠ [] := by simpa [h] using hr
    simp [hv]

lemma Starts.loop {body : Prog L O Bool} (hb : Starts body) : Starts (loop body) :=
  Starts.bind_left _ hb

lemma Starts.andThen_ne {r : Prog L O α} (hr : Starts r) (k : α → List O → Except ε (List L)) :
    r.andThen k [] ≠ .ok [] := by
  unfold Starts at hr
  rcases h : r [] with ⟨v, _ | ⟨a, rest⟩⟩
  · simpa [andThen, h] using hr
  · have hv : v ≠ [] := by simpa [h] using hr
    intro hk
    simp only [andThen, h] at hk
    cases hx : k a rest with
    | error e => simp [hx, Except.map] at hk
    | ok w => simp [hx, Except.map, hv] at hk

def Exits (r : Prog L O α) (a : α) : Prop := ∃ pre v, ∀ os, r (pre ++ os) = (v, some (a, os))

lemma exits_pure (a : α) : Exits (pure a : Prog L O α) a := ⟨[], [], fun _ => rfl⟩

lemma exits_visit (l : L) (o : O) : Exits (visit l) o := ⟨[o], [l], fun _ => rfl⟩

lemma Exits.bind {r : Prog L O α} {f : α → Prog L O β} {a : α} {b : β} (hr : Exits r a)
    (hf : Exits (f a) b) : Exits (r >>= f) b := by
  obtain ⟨pre, v, hr⟩ := hr
  obtain ⟨mid, w, hf⟩ := hf
  refine ⟨pre ++ mid, v ++ w, ?_⟩
  intro os
  rw [bind_apply, List.append_assoc, hr]
  simp only [hf]

lemma Exits.loop {body : Prog L O Bool} (hb : Exits body false) : Exits (loop body) () := by
  obtain ⟨pre, v, hb⟩ := hb
  refine ⟨pre, v, ?_⟩
  intro os
  simp only [Prog.loop, loopN, bind_apply, hb, Bool.false_eq_true, if_false]
  change (v ++ [], some ((), os)) = _
  rw [List.append_nil]

lemma loop_never {body : Prog L O Bool}
    (hb : ∀ os again rest, (body os).2 = some (again, rest) → again = true) (os : List O) :
    (loop body os).2 = none := by
  have hn : ∀ n os, (loopN n body os).2 = none := by
    intro n
    induction n with
    | zero => exact fun _ => rfl
    | succ n ih =>
      intro os
      by_contra h
      obtain ⟨⟨u, rest⟩, h⟩ := Option.ne_none_iff_exists'.mp h
      obtain ⟨again, mid, h₁, h₂⟩ := bind_finished h
      rw [hb os again mid h₁, if_pos rfl, ih mid] at h₂
      cases h₂
  exact hn _ os

end Prog

section Machines

variable (label : S → L) (next : O → S → Except ε (Option S))

def drive : Option S → List O → Except ε (List L)
  | none, _ => .ok []
  | some s, [] => .ok [label s]
  | some s, o :: os => (next o s).bind fun t => (drive t os).map (label s :: ·)

@[simp] lemma drive_none (os : List O) : drive label next none os = .ok [] := by
  cases os <;> rfl

def stateAt (start : Except ε (Option S)) (o : Stream' O) : ℕ → Except ε (Option S)
  | 0 => start
  | n + 1 => (stateAt start o n).bind fun s => match s with
    | none => .ok none
    | some s => next (o.get n) s

lemma stateAt_succ (start : Except ε (Option S)) (o : Stream' O) (n : ℕ) :
    stateAt next start o (n + 1) =
      stateAt next (start.bind fun s => match s with
        | none => .ok none
        | some s => next o.head s) o.tail n := by
  induction n with
  | zero => rfl
  | succ n ih =>
    rw [stateAt, ih]
    rfl

lemma stateAt_of_drive (n : ℕ) (start : Except ε (Option S)) (o : Stream' O) (v : List L)
    (h : (start.bind fun s => drive label next s (o.take n)) = .ok v) :
    (stateAt next start o n).map (Option.map label) = .ok v[n]? := by
  induction n generalizing start o v with
  | zero =>
    rcases start with e | _ | s
    · cases h
    · cases h; rfl
    · cases h; rfl
  | succ n ih =>
    rw [stateAt_succ]
    rcases start with e | _ | s
    · cases h
    · cases h
      exact ih (.ok none) o.tail [] (drive_none label next _)
    · simp only [Except.bind, Stream'.take_succ, drive] at h ⊢
      rcases hs : next o.head s with e | t
      · simp [hs] at h
      · simp only [hs] at h
        rcases hd : drive label next t (o.tail.take n) with e | w
        · simp [hd, Except.map] at h
        · simp only [hd, Except.map, Except.ok.injEq] at h
          rw [← h]
          simpa using ih (.ok t) o.tail w hd

end Machines

section Runs

variable {label : S → L} {next : O → S → Except ε (Option S)} {s t : Option S} {log : List (L × O)}

def Takes (label : S → L) (next : O → S → Except ε (Option S)) (s : Option S) (e : L × O) (t : Option S) : Prop :=
  ∃ s', s = some s' ∧ label s' = e.1 ∧ next e.2 s' = .ok t

end Runs

lemma bind_map (x : Except ε α) (g : α → Except ε β) (f : β → L) :
    (x.bind fun a => (g a).map f) = (x.bind g).map f := by
  cases x <;> rfl

lemma drive_eq_of_stateAt [Inhabited O] {label : S → L} {next : O → S → Except ε (Option S)}
    {label' : T → L} {next' : O → T → Except ε (Option T)} (os : List O)
    (start : Except ε (Option S)) (start' : Except ε (Option T))
    (h : ∀ o n, (stateAt next start o n).map (Option.map label) =
      (stateAt next' start' o n).map (Option.map label')) :
    (start.bind fun s => drive label next s os) = start'.bind fun t => drive label' next' t os := by
  induction os generalizing start start' with
  | nil =>
    have h0 := h (Stream'.const default) 0
    rcases start with e | _ | s <;> rcases start' with e' | _ | t <;>
      simp_all [stateAt, Except.map, Except.bind, drive]
  | cons o os ih =>
    have h0 := h (Stream'.const default) 0
    have hn := fun o' n => h (Stream'.cons o o') (n + 1)
    simp only [stateAt_succ, Stream'.head_cons, Stream'.tail_cons] at hn
    have hi := ih _ _ hn
    rcases start with e | _ | s <;> rcases start' with e' | _ | t
    case ok.some.ok.some =>
      have hl : label s = label' t := by simpa [stateAt, Except.map] using h0
      change ((next o s).bind fun t => (drive label next t os).map (label s :: ·)) =
        (next' o t).bind fun t' => (drive label' next' t' os).map (label' t :: ·)
      rw [bind_map, bind_map, hl]
      exact congrArg _ hi
    all_goals simp_all [stateAt, Except.map, Except.bind, drive]

end Rblib.Library.OracleTrace
