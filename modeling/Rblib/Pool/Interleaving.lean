import Rblib.Pool.OrderIndex

/-! Calls that run against one order pool at the same time. An `insert` writes the order into the
index entry of each of its transactions and then stores it; a `remove_any_with` takes an index entry
and then removes the orders it found there, one by one and in any order. The updates of the maps are
atomic, and a schedule is a list of them. -/

namespace Rblib.Pool

open Platform PlatformTypes Payload

variable {T P : Type} [DecidableEq T] [PlatformTypes P]

inductive PendingCall (P : Type) [PlatformTypes P]
  | insert (order : Order P) (indexed rest : List B256)
  | removeAnyWith (tx : B256)
  | removing (listed : Finset B256)

inductive PoolAction (T P : Type) [PlatformTypes P]
  | insert (t : T) (order : Order P)
  | index (t : T)
  | store (t : T)
  | removeAnyWith (t : T) (tx : B256)
  | take (t : T)
  | remove (t : T) (hash : B256)
  | finish (t : T)

structure SharedPool (T P : Type) [PlatformTypes P] where
  pool : OrderPool P
  calls : T → Option (PendingCall P) := fun _ => none

def OrderPool.AllIndexed (pool : OrderPool P) : Prop :=
  ∀ h o, pool.orders h = some o → ∀ tx ∈ o.txHashes, h ∈ pool.listed tx

namespace SharedPool

def advance (t : T) (pool : OrderPool P) (call : Option (PendingCall P)) (s : SharedPool T P) : SharedPool T P :=
  ⟨pool, Function.update s.calls t call⟩

def step (s : SharedPool T P) : PoolAction T P → Option (SharedPool T P)
  | .insert t order => match s.calls t with
    | none => some (s.advance t s.pool (some (.insert order [] order.txHashes)))
    | _ => none
  | .index t => match s.calls t with
    | some (.insert order indexed (tx :: rest)) =>
      some (s.advance t (s.pool.indexUnder tx order.hash) (some (.insert order (indexed ++ [tx]) rest)))
    | _ => none
  | .store t => match s.calls t with
    | some (.insert order _ []) => some (s.advance t (s.pool.store order) none)
    | _ => none
  | .removeAnyWith t tx => match s.calls t with
    | none => some (s.advance t (s.pool.removeTransaction tx) (some (.removeAnyWith tx)))
    | _ => none
  | .take t => match s.calls t with
    | some (.removeAnyWith tx) => some (s.advance t (s.pool.takeIndex tx) (some (.removing (s.pool.listed tx))))
    | _ => none
  | .remove t hash => match s.calls t with
    | some (.removing listed) =>
      if hash ∈ listed then some (s.advance t (s.pool.remove hash) (some (.removing (listed.erase hash))))
        else none
    | _ => none
  | .finish t => match s.calls t with
    | some (.removing listed) => if listed = ∅ then some (s.advance t s.pool none) else none
    | _ => none

def run : List (PoolAction T P) → SharedPool T P → Option (SharedPool T P)
  | [], s => some s
  | a :: as, s => (s.step a).bind (run as)

def Quiescent (s : SharedPool T P) : Prop := ∀ t, s.calls t = none

def Doomed (s : SharedPool T P) (h : B256) : Prop := ∃ t listed, s.calls t = some (.removing listed) ∧ h ∈ listed

/-- The order `h` is about to be removed by `t`, which is the only call that still lists it, while an `insert`
of it is under way whose index entry under some transaction is gone and will not be written again. -/
def Overtakes (s : SharedPool T P) (t : T) (h : B256) : Prop :=
  (∀ t' listed, t' ≠ t → s.calls t' = some (.removing listed) → h ∉ listed) ∧
    ∃ t' order indexed rest tx, s.calls t' = some (.insert order indexed rest) ∧ order.hash = h ∧
      tx ∈ indexed ∧ tx ∉ rest ∧ h ∉ s.pool.listed tx

def Safe (s : SharedPool T P) : PoolAction T P → Prop
  | .remove t h => ¬ s.Overtakes t h
  | _ => True

def SafeAlong : List (PoolAction T P) → SharedPool T P → Prop
  | [], _ => True
  | a :: as, s => s.Safe a ∧ ∀ s', s.step a = some s' → SafeAlong as s'

def Accounted (s : SharedPool T P) (h tx : B256) : Prop := h ∈ s.pool.listed tx ∨ s.Doomed h

structure Covered (s : SharedPool T P) : Prop where
  stored : ∀ {h o tx}, s.pool.orders h = some o → tx ∈ o.txHashes → s.Accounted h tx
  whole : ∀ {t order indexed rest}, s.calls t = some (.insert order indexed rest) →
    indexed ++ rest = order.txHashes
  inserting : ∀ {t order indexed rest tx}, s.calls t = some (.insert order indexed rest) →
    tx ∈ indexed → tx ∉ rest → s.Accounted order.hash tx

section Steps

variable {s s' : SharedPool T P} {t : T}

lemma calls_advance (t' : T) (pool : OrderPool P) (call : Option (PendingCall P)) :
    (s.advance t pool call).calls t' = if t' = t then call else s.calls t' :=
  Function.update_apply s.calls t call t'

lemma step_cases {a : PoolAction T P} (h : s.step a = some s') :
    (∃ t order, a = .insert t order ∧ s.calls t = none ∧
      s' = s.advance t s.pool (some (.insert order [] order.txHashes))) ∨
    (∃ t order indexed tx rest, a = .index t ∧ s.calls t = some (.insert order indexed (tx :: rest)) ∧
      s' = s.advance t (s.pool.indexUnder tx order.hash) (some (.insert order (indexed ++ [tx]) rest))) ∨
    (∃ t order indexed, a = .store t ∧ s.calls t = some (.insert order indexed []) ∧
      s' = s.advance t (s.pool.store order) none) ∨
    (∃ t tx, a = .removeAnyWith t tx ∧ s.calls t = none ∧
      s' = s.advance t (s.pool.removeTransaction tx) (some (.removeAnyWith tx))) ∨
    (∃ t tx, a = .take t ∧ s.calls t = some (.removeAnyWith tx) ∧
      s' = s.advance t (s.pool.takeIndex tx) (some (.removing (s.pool.listed tx)))) ∨
    (∃ t hash listed, a = .remove t hash ∧ s.calls t = some (.removing listed) ∧ hash ∈ listed ∧
      s' = s.advance t (s.pool.remove hash) (some (.removing (listed.erase hash)))) ∨
    ∃ t, a = .finish t ∧ s.calls t = some (.removing ∅) ∧ s' = s.advance t s.pool none := by
  cases a with
  | insert t order =>
    simp only [step] at h
    split at h
    · next hc => exact .inl ⟨t, order, rfl, hc, (Option.some.inj h).symm⟩
    · cases h
  | index t =>
    simp only [step] at h
    split at h
    · next order indexed tx rest hc =>
      exact .inr (.inl ⟨t, order, indexed, tx, rest, rfl, hc, (Option.some.inj h).symm⟩)
    · cases h
  | store t =>
    simp only [step] at h
    split at h
    · next order indexed hc =>
      exact .inr (.inr (.inl ⟨t, order, indexed, rfl, hc, (Option.some.inj h).symm⟩))
    · cases h
  | removeAnyWith t tx =>
    simp only [step] at h
    split at h
    · next hc => exact .inr (.inr (.inr (.inl ⟨t, tx, rfl, hc, (Option.some.inj h).symm⟩)))
    · cases h
  | take t =>
    simp only [step] at h
    split at h
    · next tx hc => exact .inr (.inr (.inr (.inr (.inl ⟨t, tx, rfl, hc, (Option.some.inj h).symm⟩))))
    · cases h
  | remove t hash =>
    simp only [step] at h
    split at h
    · next listed hc =>
      split at h
      · next hm =>
        exact .inr (.inr (.inr (.inr (.inr (.inl ⟨t, hash, listed, rfl, hc, hm, (Option.some.inj h).symm⟩)))))
      · cases h
    · cases h
  | finish t =>
    simp only [step] at h
    split at h
    · next listed hc =>
      split at h
      · next he =>
        rw [he] at hc
        exact .inr (.inr (.inr (.inr (.inr (.inr ⟨t, rfl, hc, (Option.some.inj h).symm⟩)))))
      · cases h
    · cases h

lemma Doomed.advance {h : B256} (pool : OrderPool P) {call : Option (PendingCall P)} (hd : s.Doomed h)
    (hcall : ∀ listed, s.calls t = some (.removing listed) → h ∈ listed →
      ∃ listed', call = some (.removing listed') ∧ h ∈ listed') : (s.advance t pool call).Doomed h := by
  obtain ⟨t', listed, hc, hm⟩ := hd
  by_cases ht : t' = t
  · obtain ⟨listed', hc', hm'⟩ := hcall listed (ht ▸ hc) hm
    exact ⟨t, listed', by rw [calls_advance, if_pos rfl, hc'], hm'⟩
  · exact ⟨t', listed, by rw [calls_advance, if_neg ht, hc], hm⟩

lemma Covered.advance (h : Covered s) {pool : OrderPool P} {call : Option (PendingCall P)}
    (horders : pool.orders = s.pool.orders)
    (hkept : ∀ i tx, s.Accounted i tx → (s.advance t pool call).Accounted i tx)
    (hcall : ∀ order indexed rest, call = some (.insert order indexed rest) → indexed ++ rest = order.txHashes ∧
      ∀ tx ∈ indexed, tx ∉ rest → (s.advance t pool call).Accounted order.hash tx) :
    Covered (s.advance t pool call) := by
  refine ⟨fun {i o tx} ho htx => ?_, fun {t' order indexed rest} hc => ?_,
    fun {t' order indexed rest tx} hc hi hr => ?_⟩
  · apply hkept
    exact h.stored (horders ▸ ho) htx
  · rw [calls_advance] at hc
    split at hc
    · exact (hcall order indexed rest hc).1
    · exact h.whole hc
  · rw [calls_advance] at hc
    split at hc
    · exact (hcall order indexed rest hc).2 tx hi hr
    · exact hkept _ _ (h.inserting hc hi hr)

lemma Covered.insert (h : Covered s) {order : Order P} (hc : s.calls t = none) :
    Covered (s.advance t s.pool (some (.insert order [] order.txHashes))) := by
  apply h.advance
  · rfl
  · rintro i tx (hi | hi)
    · exact .inl hi
    · exact .inr (hi.advance _ fun listed hl => by rw [hc] at hl; cases hl)
  · intro order' indexed rest he
    cases he
    exact ⟨rfl, fun tx htx => absurd htx List.not_mem_nil⟩

lemma Covered.index (h : Covered s) {order : Order P} {indexed rest : List B256} {tx : B256}
    (hc : s.calls t = some (.insert order indexed (tx :: rest))) :
    Covered (s.advance t (s.pool.indexUnder tx order.hash) (some (.insert order (indexed ++ [tx]) rest))) := by
  have hkept : ∀ i x, s.Accounted i x →
      (s.advance t (s.pool.indexUnder tx order.hash)
        (some (.insert order (indexed ++ [tx]) rest))).Accounted i x := by
    rintro i x (hi | hi)
    · exact .inl ((OrderPool.mem_listed_indexUnder _ _ _ _ _).mpr (.inl hi))
    · exact .inr (hi.advance _ fun listed hl => by rw [hc] at hl; cases hl)
  apply h.advance
  · rfl
  · exact hkept
  · intro order' indexed' rest' he
    cases he
    refine ⟨by rw [List.append_assoc]; exact h.whole hc, fun x hx hr => ?_⟩
    by_cases hxt : x = tx
    · exact .inl ((OrderPool.mem_listed_indexUnder _ _ _ _ _).mpr (.inr ⟨rfl, hxt⟩))
    · apply hkept
      apply h.inserting hc
      · simpa [hxt] using hx
      · simpa [hxt] using hr

lemma Covered.store (h : Covered s) {order : Order P} {indexed : List B256}
    (hc : s.calls t = some (.insert order indexed [])) : Covered (s.advance t (s.pool.store order) none) := by
  have hkept : ∀ i x, s.Accounted i x → (s.advance t (s.pool.store order) none).Accounted i x := by
    rintro i x (hi | hi)
    · exact .inl hi
    · exact .inr (hi.advance _ fun listed hl => by rw [hc] at hl; cases hl)
  refine ⟨fun {i o tx} ho htx => ?_, fun {t' order' indexed' rest} hc' => ?_,
    fun {t' order' indexed' rest tx} hc' hi hr => ?_⟩
  · apply hkept
    simp only [SharedPool.advance, OrderPool.store, Function.update_apply] at ho
    split at ho
    · next hi =>
      cases ho
      rw [hi]
      apply h.inserting hc
      · rwa [← h.whole hc, List.append_nil] at htx
      · exact List.not_mem_nil
    · exact h.stored ho htx
  · rw [calls_advance] at hc'
    split at hc'
    · cases hc'
    · exact h.whole hc'
  · rw [calls_advance] at hc'
    split at hc'
    · cases hc'
    · exact hkept _ _ (h.inserting hc' hi hr)

lemma Covered.removeAnyWith (h : Covered s) {tx : B256} (hc : s.calls t = none) :
    Covered (s.advance t (s.pool.removeTransaction tx) (some (.removeAnyWith tx))) := by
  apply h.advance
  · rfl
  · rintro i x (hi | hi)
    · exact .inl hi
    · exact .inr (hi.advance _ fun listed hl => by rw [hc] at hl; cases hl)
  · intro order indexed rest he
    cases he

lemma Covered.take (h : Covered s) {tx : B256} (hc : s.calls t = some (.removeAnyWith tx)) :
    Covered (s.advance t (s.pool.takeIndex tx) (some (.removing (s.pool.listed tx)))) := by
  apply h.advance
  · rfl
  · rintro i x (hi | hi)
    · by_cases hx : x = tx
      · exact .inr ⟨t, _, by rw [calls_advance, if_pos rfl], hx ▸ hi⟩
      · left
        simpa only [SharedPool.advance, OrderPool.listed, OrderPool.takeIndex, Function.update_of_ne hx] using hi
    · exact .inr (hi.advance _ fun listed hl => by rw [hc] at hl; cases hl)
  · intro order indexed rest he
    cases he

lemma Covered.finish (h : Covered s) (hc : s.calls t = some (.removing ∅)) :
    Covered (s.advance t s.pool none) := by
  apply h.advance
  · rfl
  · rintro i x (hi | hi)
    · exact .inl hi
    · refine .inr (hi.advance _ fun listed hl hm => ?_)
      rw [hc] at hl
      cases hl
      exact absurd hm (Finset.notMem_empty i)
  · intro order indexed rest he
    cases he

lemma Covered.remove (h : Covered s) {hash : B256} {listed : Finset B256}
    (hc : s.calls t = some (.removing listed)) (hsafe : ¬ s.Overtakes t hash) :
    Covered (s.advance t (s.pool.remove hash) (some (.removing (listed.erase hash)))) := by
  have hkept : ∀ i x, i ≠ hash → s.Accounted i x →
      (s.advance t (s.pool.remove hash) (some (.removing (listed.erase hash)))).Accounted i x := by
    rintro i x hne (hi | hi)
    · exact .inl hi
    · refine .inr (hi.advance _ fun listed' hl hm => ?_)
      rw [hc] at hl
      cases hl
      exact ⟨_, rfl, Finset.mem_erase.mpr ⟨hne, hm⟩⟩
  refine ⟨fun {i o tx} ho htx => ?_, fun {t' order indexed rest} hc' => ?_,
    fun {t' order indexed rest tx} hc' hi hr => ?_⟩
  · have hstored : i ≠ hash ∧ s.pool.orders i = some o := by
      simp only [SharedPool.advance, OrderPool.orders_remove] at ho
      split at ho
      · cases ho
      · next hne => exact ⟨hne, ho⟩
    exact hkept i tx hstored.1 (h.stored hstored.2 htx)
  · rw [calls_advance] at hc'
    split at hc'
    · cases hc'
    · exact h.whole hc'
  · rw [calls_advance] at hc'
    split at hc'
    · cases hc'
    · by_cases hhash : order.hash = hash
      · -- the entry is still there, or another call is going to remove the order
        rw [Overtakes, not_and_or] at hsafe
        obtain hother | halone := hsafe
        · push Not at hother
          obtain ⟨t₂, listed₂, hne, hc₂, hm₂⟩ := hother
          exact .inr ⟨t₂, listed₂, by rw [calls_advance, if_neg hne, hc₂], hhash ▸ hm₂⟩
        · left
          by_contra hgone
          exact halone ⟨t', order, indexed, rest, tx, hc', hhash, hi, hr, hhash ▸ hgone⟩
      · exact hkept _ _ hhash (h.inserting hc' hi hr)

lemma Covered.step (h : Covered s) {a : PoolAction T P} (hsafe : s.Safe a) (hs : s.step a = some s') :
    Covered s' := by
  obtain ⟨t, order, rfl, hc, rfl⟩ | ⟨t, order, indexed, tx, rest, rfl, hc, rfl⟩ |
    ⟨t, order, indexed, rfl, hc, rfl⟩ | ⟨t, tx, rfl, hc, rfl⟩ | ⟨t, tx, rfl, hc, rfl⟩ |
    ⟨t, hash, listed, rfl, hc, hm, rfl⟩ | ⟨t, rfl, hc, rfl⟩ :=
      step_cases hs
  · exact h.insert hc
  · exact h.index hc
  · exact h.store hc
  · exact h.removeAnyWith hc
  · exact h.take hc
  · exact h.remove hc hsafe
  · exact h.finish hc

lemma Covered.run (h : Covered s) {acts : List (PoolAction T P)} (hsafe : SafeAlong acts s)
    (hs : run acts s = some s') : Covered s' := by
  induction acts generalizing s with
  | nil => exact Option.some.inj hs ▸ h
  | cons a acts ih =>
    obtain ⟨s₁, hs₁, hrest⟩ := Option.bind_eq_some_iff.mp hs
    exact ih (h.step hsafe.1 hs₁) (hsafe.2 s₁ hs₁) hrest

lemma not_doomed_advance {h : B256} (pool : OrderPool P) {call : Option (PendingCall P)} (hfree : ¬ s.Doomed h)
    (hcall : ∀ listed, call ≠ some (.removing listed)) : ¬ (s.advance t pool call).Doomed h := by
  rintro ⟨t', listed, hc, hm⟩
  rw [calls_advance] at hc
  split at hc
  · exact hcall listed hc
  · exact hfree ⟨t', listed, hc, hm⟩

-- the insert under way, left to itself, stores the order without the entry
lemma overtaken_stored {order : Order P} {indexed rest : List B256} {tx : B256}
    (hc : s.calls t = some (.insert order indexed rest)) (hr : tx ∉ rest)
    (hgone : order.hash ∉ s.pool.listed tx) (hfree : ¬ s.Doomed order.hash) :
    ∃ acts s', run acts s = some s' ∧ s'.pool.orders order.hash = some order ∧
      order.hash ∉ s'.pool.listed tx ∧ ¬ s'.Doomed order.hash := by
  induction rest generalizing s indexed with
  | nil =>
    refine ⟨[.store t], s.advance t (s.pool.store order) none, ?_, ?_, hgone, not_doomed_advance _ hfree (by simp)⟩
    · simp [run, step, hc]
    · exact Function.update_self order.hash _ _
  | cons next rest ih =>
    rw [List.mem_cons, not_or] at hr
    have hlost : order.hash ∉ (s.pool.indexUnder next order.hash).listed tx := by
      rw [OrderPool.mem_listed_indexUnder, not_or]
      exact ⟨hgone, fun hm => hr.1 hm.2⟩
    obtain ⟨acts, s', hrun, hend⟩ := ih (s := s.advance t (s.pool.indexUnder next order.hash)
      (some (.insert order (indexed ++ [next]) rest))) (by rw [calls_advance, if_pos rfl]) hr.2 hlost
      (not_doomed_advance _ hfree (by simp))
    refine ⟨.index t :: acts, s', ?_, hend⟩
    simpa [run, step, hc] using hrun

lemma Overtakes.stored {h : B256} (hcov : Covered s) (hs : s.step (.remove t h) = some s')
    (hover : s.Overtakes t h) :
    ∃ acts s'', run acts s' = some s'' ∧ ∃ o, s''.pool.orders h = some o ∧
      ∃ tx ∈ o.txHashes, h ∉ s''.pool.listed tx ∧ ¬ s''.Doomed h := by
  obtain ⟨halone, t', order, indexed, rest, tx, hc, rfl, hi, hr, hgone⟩ := hover
  have htx : tx ∈ order.txHashes := by
    rw [← hcov.whole hc]
    exact List.mem_append_left _ hi
  simp only [step] at hs
  split at hs
  · next listed hl =>
    have hne : t' ≠ t := by
      rintro rfl
      rw [hc] at hl
      cases hl
    split at hs
    · cases hs
      obtain ⟨acts, s'', hrun, hstored, hlost, hfree⟩ := overtaken_stored (s := s.advance t
        (s.pool.remove order.hash) (some (.removing (listed.erase order.hash)))) (t := t')
        (by rw [calls_advance, if_neg hne, hc]) hr hgone (by
          rintro ⟨t₂, listed₂, hc₂, hm₂⟩
          rw [calls_advance] at hc₂
          split at hc₂
          · cases hc₂
            exact Finset.notMem_erase _ _ hm₂
          · next hne₂ => exact halone t₂ listed₂ hne₂ hc₂ hm₂)
      exact ⟨acts, s'', hrun, order, hstored, tx, htx, hlost, hfree⟩
    · cases hs
  · cases hs

omit [DecidableEq T] in
lemma covered_fresh (host : Option HostNode) : Covered (⟨{ host := host }, fun _ => none⟩ : SharedPool T P) :=
  ⟨(nomatch ·), (nomatch ·), (nomatch ·)⟩

end Steps

theorem interleaved_calls_indexed (host : Option HostNode) (acts : List (PoolAction T P)) (s : SharedPool T P)
    (hrun : run acts ⟨{ host := host }, fun _ => none⟩ = some s)
    (hsafe : SafeAlong acts ⟨{ host := host }, fun _ => none⟩) :
    (s.Quiescent → s.pool.AllIndexed) ∧
      ∀ t h s', s.step (.remove t h) = some s' → s.Overtakes t h →
        ∃ acts' s'', run acts' s' = some s'' ∧ ∃ o, s''.pool.orders h = some o ∧
          ∃ tx ∈ o.txHashes, h ∉ s''.pool.listed tx ∧ ¬ s''.Doomed h := by
  have hcov : Covered s := (covered_fresh host).run hsafe hrun
  refine ⟨fun hq h o ho tx htx => ?_, fun t h s' hs hover => hover.stored hcov hs⟩
  obtain hm | ⟨t, listed, hc, -⟩ := hcov.stored ho htx
  · exact hm
  · rw [hq t] at hc
    cases hc

def fresh : SharedPool Bool Devnet := ⟨{}, fun _ => none⟩

def orderly : List (PoolAction Bool Devnet) :=
  [.insert true OrderPool.looseOrder, .index true, .removeAnyWith false OrderPool.thirdTx.hash, .take false,
    .store true, .remove false OrderPool.thirdTx.hash, .finish false]

theorem orderly_indexed : ∃ s, run orderly fresh = some s ∧ s.Quiescent ∧ s.pool.AllIndexed := by
  have hsafe : SafeAlong orderly fresh := by
    refine ⟨trivial, fun s₁ h₁ => ⟨trivial, fun s₂ h₂ => ⟨trivial, fun s₃ h₃ => ⟨trivial, fun s₄ h₄ =>
      ⟨trivial, fun s₅ h₅ => ⟨?_, fun s₆ h₆ => ⟨trivial, fun s₇ h₇ => trivial⟩⟩⟩⟩⟩⟩⟩
    obtain rfl := Option.some.inj h₁
    obtain rfl := Option.some.inj h₂
    obtain rfl := Option.some.inj h₃
    obtain rfl := Option.some.inj h₄
    obtain rfl := Option.some.inj h₅
    rintro ⟨-, t, order, indexed, rest, tx, hc, -⟩
    cases t <;> cases hc
  have hrun : ∃ s, run orderly fresh = some s ∧ s.Quiescent := by
    refine ⟨_, rfl, ?_⟩
    rintro (_ | _) <;> rfl
  obtain ⟨s, hs, hq⟩ := hrun
  exact ⟨s, hs, hq, (interleaved_calls_indexed none orderly s hs hsafe).1 hq⟩

def racing : List (PoolAction Bool Devnet) :=
  [.insert true OrderPool.looseOrder, .index true, .removeAnyWith false OrderPool.thirdTx.hash, .take false,
    .remove false OrderPool.thirdTx.hash, .finish false, .store true]

theorem racing_unindexed : ∃ s, run racing fresh = some s ∧ s.Quiescent ∧ ¬ s.pool.AllIndexed := by
  refine ⟨_, rfl, ?_, ?_⟩
  · rintro (_ | _) <;> rfl
  · intro h
    have hlost := h OrderPool.looseOrder.hash OrderPool.looseOrder rfl OrderPool.thirdTx.hash List.mem_cons_self
    revert hlost
    decide +kernel

end SharedPool

end Rblib.Pool
