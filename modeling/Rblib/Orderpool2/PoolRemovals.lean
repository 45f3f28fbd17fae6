import Rblib.Library.HiddenSteps
import Rblib.Orderpool2.PoolUpdates

namespace Rblib.Orderpool2.PrioritizedOrderpool

open Payload OrderpoolOrder PrioritizedOrderpoolPriority Library

section Reads

variable {ID Priority Order ε : Type} {s t : PrioritizedOrderpool ID Priority Order}

lemma nonce_congr (source : OrderpoolNonceSource ε) (a : Address) (h : s.onchainNonces = t.onchainNonces) :
    (s.nonce source a).1 = (t.nonce source a).1 ∧
      (s.nonce source a).2.onchainNonces = (t.nonce source a).2.onchainNonces := by
  simp only [nonce, h]
  cases t.onchainNonces a with
  | some v => exact ⟨rfl, h⟩
  | none =>
    cases source a with
    | error e => exact ⟨rfl, h⟩
    | ok v => exact ⟨rfl, rfl⟩

lemma pendingNonces_congr (source : OrderpoolNonceSource ε) (ns : List BundleNonce) (pending : List AccountNonce)
    (h : s.onchainNonces = t.onchainNonces) :
    (s.pendingNonces source ns pending).1 = (t.pendingNonces source ns pending).1 ∧
      (s.pendingNonces source ns pending).2.onchainNonces =
        (t.pendingNonces source ns pending).2.onchainNonces := by
  induction ns generalizing pending s t with
  | nil => exact ⟨rfl, h⟩
  | cons n ns ih =>
    obtain ⟨hr, ho⟩ := nonce_congr source n.address h
    rw [pendingNonces, pendingNonces]
    rcases hs : s.nonce source n.address with ⟨r, s₁⟩
    rcases ht : t.nonce source n.address with ⟨r', t₁⟩
    rw [hs, ht] at hr ho
    obtain rfl : r = r' := hr
    cases r with
    | error e => exact ⟨rfl, ho⟩
    | ok onchain =>
      dsimp only
      split
      · exact ⟨rfl, ho⟩
      · split
        · exact ih _ ho
        · exact ih _ ho

end Reads

section Agreement

variable {ID Priority Order : Type} [OrderpoolOrder Order ID] [PrioritizedOrderpoolPriority Priority Order]
  {s s' t t' : PrioritizedOrderpool ID Priority Order} {i j : ID} {order : Order}

structure AgreeOff (i : ID) (s t : PrioritizedOrderpool ID Priority Order) : Prop where
  left : Consistent s ∅ [] []
  right : Consistent t ∅ [] []
  onchain : s.onchainNonces = t.onchainNonces
  entry : ∀ j, j ≠ i → s.entry j = t.entry j

namespace AgreeOff

lemma symm (h : AgreeOff i s t) : AgreeOff i t s :=
  ⟨h.right, h.left, h.onchain.symm, fun j hj => (h.entry j hj).symm⟩

lemma orders_eq (h : AgreeOff i s t) (hj : j ≠ i) : s.orders j = t.orders j :=
  congrArg Entry.order (h.entry j hj)

lemma queued_iff (h : AgreeOff i s t) (hj : j ≠ i) : s.Queued j ↔ t.Queued j :=
  iff_of_eq (congrArg Entry.queued (h.entry j hj))

lemma ready_iff (h : AgreeOff i s t) : s.Ready order ↔ t.Ready order := by
  rw [Ready, Ready, h.onchain]

lemma evolves {f : ID → Entry Order → Entry Order}
    (h : AgreeOff i s t) (hs : s.Evolves s' f) (ht : t.Evolves t' f) (hl : Consistent s' ∅ [] [])
    (hr : Consistent t' ∅ [] []) : AgreeOff i s' t' :=
  ⟨hl, hr, by rw [hs.onchain, ht.onchain, h.onchain], fun j hj => by rw [hs.entry, ht.entry, h.entry j hj]⟩

end AgreeOff

end Agreement

section Effects

variable {ID Priority Order ε : Type} [DecidableEq ID] [OrderpoolOrder Order ID]
  [PrioritizedOrderpoolPriority Priority Order] {s s' t : PrioritizedOrderpool ID Priority Order} {i j : ID}
  {order : Order}

lemma Consistent.removeOrder_fst_iff (h : Consistent s ∅ [] []) (i : ID) :
    (s.removeOrder i).1 = s.orders i ↔ ¬ s.Queued i := by
  by_cases hq : s.Queued i
  · obtain ⟨order, hi, hremove⟩ := h.removeOrder_of_queued hq
    rw [hremove, hi]
    exact iff_of_false (by simp) (not_not.mpr hq)
  · rw [Consistent.removeOrder_of_not_queued hq]
    exact iff_of_true rfl hq

lemma Consistent.evolves_removeOrder (h : Consistent s ∅ [] []) (i : ID) :
    s.Evolves (s.removeOrder i).2 fun j e => if j = i then e.takenOut else e := by
  by_cases hq : s.Queued i
  · obtain ⟨order, hi, hremove⟩ := h.removeOrder_of_queued hq
    rw [hremove]
    exact ⟨rfl, entry_takeOut i order s⟩
  · rw [Consistent.removeOrder_of_not_queued hq]
    refine ⟨rfl, fun j => ?_⟩
    split
    · next hj =>
      subst hj
      apply Entry.ext
      · exact Function.update_self _ _ _
      · exact eq_false hq
      · rfl
    · next hj =>
      apply Entry.ext
      · exact Function.update_of_ne hj _ _
      · rfl
      · rfl

omit [PrioritizedOrderpoolPriority Priority Order] in
lemma evolves_takeOut (i : ID) (order : Order) (s : PrioritizedOrderpool ID Priority Order) :
    s.Evolves (s.takeOut i order) fun j e => if j = i then e.takenOut else e :=
  ⟨rfl, entry_takeOut i order s⟩

lemma orders_insertOrder_of_ne (source : OrderpoolNonceSource ε) (hi : orderId order ≠ i) :
    (s.insertOrder source order).2.orders i = s.orders i := by
  have hsame := (pendingNonces_extends source (nonces order) [] s).orders_eq
  rcases insertOrder_cases source order s with hs | hread | ⟨pending, -, -, hplace⟩
  · rw [hs]
  · rw [hread, hsame]
  · rw [hplace, ← hsame, place]
    dsimp only
    rw [Function.update_of_ne hi.symm]
    split
    · rfl
    · rfl

namespace AgreeOff

lemma takeOut (h : AgreeOff i s t) (ho : s.orders j = some order) (hj : j ≠ i) :
    AgreeOff i (s.takeOut j order) (t.takeOut j order) := by
  have ho' : t.orders j = some order := (h.orders_eq hj).symm.trans ho
  exact h.evolves (evolves_takeOut _ _ _) (evolves_takeOut _ _ _) (h.left.dequeue ho).2 (h.right.dequeue ho').2

lemma hide (h : AgreeOff i s t) (ho : s.orders i = some order) : AgreeOff i (s.takeOut i order) t := by
  refine ⟨(h.left.dequeue ho).2, h.right, h.onchain, fun j hj => ?_⟩
  rw [entry_takeOut, if_neg hj]
  exact h.entry j hj

lemma removeOrder (h : AgreeOff i s t) (hj : j ≠ i) : (s.removeOrder j).1 = (t.removeOrder j).1 ∧
    AgreeOff i (s.removeOrder j).2 (t.removeOrder j).2 := by
  refine ⟨?_, h.evolves (h.left.evolves_removeOrder j) (h.right.evolves_removeOrder j) (h.left.removeOrder j)
    (h.right.removeOrder j)⟩
  by_cases hq : s.Queued j
  · obtain ⟨o, -, hremove⟩ := h.left.removeOrder_of_queued hq
    obtain ⟨o', -, hremove'⟩ := h.right.removeOrder_of_queued ((h.queued_iff hj).mp hq)
    rw [hremove, hremove']
  · rw [Consistent.removeOrder_of_not_queued hq,
      Consistent.removeOrder_of_not_queued (fun hc => hq ((h.queued_iff hj).mpr hc))]
    exact h.orders_eq hj

lemma updateOnchainNonces (h : AgreeOff i s t) {visit : SetOrder ID} {newNonces : List AccountNonce}
    {source : OrderpoolNonceSource ε} (hs : s.updateOnchainNonces visit source newNonces = .ok (.ok (), s')) :
    ∃ t', t.updateOnchainNonces visit source newNonces = .ok (.ok (), t') ∧ AgreeOff i s' t' := by
  obtain ⟨s₁, hs₁, hl, honchain, hentry⟩ := h.left.updateOnchainNonces visit newNonces
  obtain ⟨t₁, ht₁, hr, honchain', hentry'⟩ := h.right.updateOnchainNonces visit newNonces
  obtain rfl : s₁ = s' := by
    have hsame := (hs₁ source).symm.trans hs
    cases hsame
    rfl
  rw [onchainNonces_trackNonces] at honchain honchain'
  have hnonces : s₁.onchainNonces = t₁.onchainNonces := by rw [honchain, honchain', h.onchain]
  refine ⟨t₁, ht₁ source, hl, hr, hnonces, fun j hj => ?_⟩
  rw [hentry, hentry', hnonces, h.entry j hj]

lemma insertOrder (h : AgreeOff i s t) (source : OrderpoolNonceSource ε) (hid : orderId order ≠ i) :
    AgreeOff i (s.insertOrder source order).2 (t.insertOrder source order).2 := by
  have hl := Consistent.insertOrder source h.left order
  have hr := Consistent.insertOrder source h.right order
  have horders := h.orders_eq hid
  obtain ⟨hresult, honchain⟩ := pendingNonces_congr source (nonces order) [] h.onchain
  have hext := pendingNonces_extends source (nonces order) [] s
  have hext' := pendingNonces_extends source (nonces order) [] t
  rw [PrioritizedOrderpool.insertOrder] at hl hr ⊢
  rw [PrioritizedOrderpool.insertOrder]
  rw [← horders] at hr ⊢
  by_cases hsome : (s.orders (orderId order)).isSome
  · rw [if_pos hsome, if_pos hsome]
    exact h
  · rw [if_neg hsome] at hl hr
    rw [if_neg hsome, if_neg hsome]
    rcases hs : s.pendingNonces source (nonces order) [] with ⟨r, s₁⟩
    rcases ht : t.pendingNonces source (nonces order) [] with ⟨r', t₁⟩
    rw [hs] at hext hresult honchain hl
    rw [ht] at hext' hresult honchain hr
    obtain rfl : r = r' := hresult
    have hentry : ∀ j, j ≠ i → s₁.entry j = t₁.entry j := by
      intro j hj
      have hs₁ : s₁.entry j = s.entry j := hext.entry_eq
      have ht₁ : t₁.entry j = t.entry j := hext'.entry_eq
      rw [hs₁, ht₁, h.entry j hj]
    rcases r with e | _ | pending
    · exact ⟨hl, hr, honchain, hentry⟩
    · exact ⟨hl, hr, honchain, hentry⟩
    · have hscan := pendingNonces_scanned hs
      have hscan' := pendingNonces_scanned ht
      refine ⟨hl, hr, ?_, fun j hj => ?_⟩
      · rw [onchainNonces_place, onchainNonces_place]
        exact honchain
      · have honchain' : s₁.onchainNonces = t₁.onchainNonces := honchain
        rw [entry_place hscan, entry_place hscan', hentry j hj, honchain']

end AgreeOff

end Effects

section Pops

variable {ID Priority Order : Type} [DecidableEq ID] [LinearOrder Priority]

def PopChoice.prefer (e : ID × Priority) (choice : PopChoice ID Priority) : PopChoice ID Priority where
  pick q := if e ∈ q ∧ ∀ e' ∈ q, e'.2 ≤ e.2 then some e else choice.pick q
  pick_none q := by
    split
    · next h => exact iff_of_false (by simp) (List.ne_nil_of_mem h.1)
    · exact choice.pick_none q
  pick_mem q e' h := by
    split at h
    · next hmax => exact Option.some.inj h ▸ hmax.1
    · exact choice.pick_mem q e' h
  pick_max q e' h := by
    split at h
    · next hmax => exact Option.some.inj h ▸ hmax.2
    · exact choice.pick_max q e' h

variable [OrderpoolOrder Order ID] [PrioritizedOrderpoolPriority Priority Order]
  {s s' : PrioritizedOrderpool ID Priority Order} {order : Order}

namespace Consistent

lemma pops_none_iff (h : Consistent s ∅ [] []) : (∃ choice, s.popOrder choice = .ok (none, s')) ↔
    (∀ i other, s.orders i = some other → ¬ s.Ready other) ∧ s' = s := by
  constructor
  · rintro ⟨choice, hpop⟩
    obtain ⟨r, s₁, hs₁, -, hr⟩ := h.popOrder choice
    cases hs₁.symm.trans hpop
    exact hr
  · rintro ⟨hnone, rfl⟩
    obtain ⟨r, s₁, hs₁, -, hr⟩ := h.popOrder default
    cases r with
    | none => exact ⟨default, hr.2 ▸ hs₁⟩
    | some order => exact absurd hr.1.2.1 (hnone _ _ hr.1.1)

lemma pops_some_iff (h : Consistent s ∅ [] []) : (∃ choice, s.popOrder choice = .ok (some order, s')) ↔
    (s.orders (orderId order) = some order ∧ s.Ready order ∧
      ∀ i other, s.orders i = some other → s.Ready other → (new other : Priority) ≤ new order) ∧
        s' = s.takeOut (orderId order) order := by
  constructor
  · rintro ⟨choice, hpop⟩
    obtain ⟨r, s₁, hs₁, -, hr⟩ := h.popOrder choice
    cases hs₁.symm.trans hpop
    exact hr
  · rintro ⟨⟨hi, hready, hmax⟩, rfl⟩
    obtain ⟨p, hp⟩ := (h.queued_iff_ready _).mpr ⟨order, hi, hready⟩
    have hbest : ∀ e ∈ s.mainQueue, e.2 ≤ p := by
      intro e he
      obtain ⟨other, ho, hr⟩ := (h.queued_iff_ready e.1).mp ⟨e.2, he⟩
      rw [h.priority_eq he ho, h.priority_eq hp hi]
      exact hmax _ _ ho hr
    have hpick : (PopChoice.prefer (orderId order, p) default).pick s.mainQueue = some (orderId order, p) :=
      if_pos ⟨hp, hbest⟩
    refine ⟨PopChoice.prefer (orderId order, p) default, ?_⟩
    rw [PrioritizedOrderpool.popOrder, hpick]
    dsimp only
    rw [(h.dequeue hi).1]

end Consistent

end Pops

section Events

variable {ID Priority Order ε : Type} [DecidableEq ID] [OrderpoolOrder Order ID]
  [PrioritizedOrderpoolPriority Priority Order] [LinearOrder Priority]
  {s s' t t' : PrioritizedOrderpool ID Priority Order} {i : ID} {order : Order}

inductive Event (ID Order ε : Type)
  | inserted (order : Order) (source : OrderpoolNonceSource ε)
  | updated (newNonces : List AccountNonce) (source : OrderpoolNonceSource ε)
  | removed (i : ID) (order : Option Order)
  | popped (order : Option Order)

namespace Event

def Inserts (i : ID) : Event ID Order ε → Prop
  | inserted order _ => orderId order = i
  | _ => False

def Avoids (i : ID) : Event ID Order ε → Prop
  | inserted order _ => orderId order ≠ i
  | removed j _ => j ≠ i
  | _ => True

def pops (i : ID) : Event ID Order ε → Bool
  | popped (some order) => decide (orderId order = i)
  | _ => false

omit [DecidableEq ID] in
lemma Avoids.not_inserts {i : ID} {e : Event ID Order ε} (h : e.Avoids i) : ¬ e.Inserts i := by
  cases e with
  | inserted order source => exact h
  | updated newNonces source => exact not_false
  | removed j order => exact not_false
  | popped order => exact not_false

lemma eq_popped {i : ID} {e : Event ID Order ε} (h : e.pops i = true) :
    ∃ order, e = popped (some order) ∧ orderId order = i := by
  cases e with
  | popped r =>
    cases r with
    | none => cases h
    | some order => exact ⟨order, rfl, of_decide_eq_true h⟩
  | _ => cases h

end Event

def Performs (s : PrioritizedOrderpool ID Priority Order) :
    Event ID Order ε → PrioritizedOrderpool ID Priority Order → Prop
  | .inserted order source, s' => s' = (s.insertOrder source order).2
  | .updated newNonces source, s' => ∃ visit, s.updateOnchainNonces visit source newNonces = .ok (.ok (), s')
  | .removed i order, s' => s.removeOrder i = (order, s')
  | .popped order, s' => ∃ choice, s.popOrder choice = .ok (order, s')

lemma Consistent.performs_absent (h : Consistent s ∅ [] []) (hi : s.orders i = none) {e : Event ID Order ε}
    (he : ¬ e.Inserts i) (hs : Performs s e s') :
    Consistent s' ∅ [] [] ∧ s'.orders i = none ∧ e.pops i = false := by
  cases e with
  | inserted order source =>
    obtain rfl := hs
    refine ⟨Consistent.insertOrder source h order, ?_, rfl⟩
    rw [orders_insertOrder_of_ne source he, hi]
  | updated newNonces source =>
    obtain ⟨visit, hs⟩ := hs
    obtain ⟨s₁, hs₁, h₁, -, hentry⟩ := h.updateOnchainNonces visit newNonces
    cases (hs₁ source).symm.trans hs
    refine ⟨h₁, ?_, rfl⟩
    have horder := congrArg Entry.order (hentry i)
    exact horder.trans (Entry.updated_absent hi)
  | removed j r =>
    have hs' : (s.removeOrder j).2 = s' := congrArg Prod.snd hs
    subst hs'
    refine ⟨h.removeOrder j, ?_, rfl⟩
    have horder := congrArg Entry.order ((h.evolves_removeOrder j).entry i)
    split at horder
    · exact horder
    · exact horder.trans hi
  | popped r =>
    cases r with
    | none =>
      obtain ⟨-, rfl⟩ := h.pops_none_iff.mp hs
      exact ⟨h, hi, rfl⟩
    | some order =>
      obtain ⟨⟨ho, -⟩, rfl⟩ := h.pops_some_iff.mp hs
      have hne : orderId order ≠ i := by
        rintro rfl
        exact absurd (hi.symm.trans ho) (by simp)
      refine ⟨(h.dequeue ho).2, ?_, decide_eq_false hne⟩
      exact (Function.update_of_ne hne.symm _ _).trans hi

lemma AgreeOff.popOrder (h : AgreeOff i s t) {r : Option Order}
    (hvisible : (.popped r : Event ID Order ε).pops i = false)
    (hfits : ∀ o, t.orders i = some o → t.Ready o → ∃ order, r = some order ∧ (new o : Priority) ≤ new order)
    (hs : ∃ choice, s.popOrder choice = .ok (r, s')) :
    ∃ t', (∃ choice, t.popOrder choice = .ok (r, t')) ∧ AgreeOff i s' t' := by
  have hother : ∀ {j o}, t.orders j = some o → t.Ready o → j ≠ i → s.orders j = some o ∧ s.Ready o :=
    fun ho hready hj => ⟨(h.orders_eq hj).trans ho, h.ready_iff.mpr hready⟩
  cases r with
  | none =>
    obtain ⟨hnone, rfl⟩ := h.left.pops_none_iff.mp hs
    refine ⟨t, h.right.pops_none_iff.mpr ⟨fun j o ho hready => ?_, rfl⟩, h⟩
    by_cases hj : j = i
    · subst hj
      obtain ⟨order, hr, -⟩ := hfits o ho hready
      cases hr
    · obtain ⟨hso, hsready⟩ := hother ho hready hj
      exact hnone j o hso hsready
  | some order =>
    obtain ⟨⟨ho, hready, hmax⟩, rfl⟩ := h.left.pops_some_iff.mp hs
    have hne : orderId order ≠ i := of_decide_eq_false hvisible
    refine ⟨t.takeOut (orderId order) order, h.right.pops_some_iff.mpr ⟨⟨?_, ?_, ?_⟩, rfl⟩, h.takeOut ho hne⟩
    · exact (h.orders_eq hne).symm.trans ho
    · exact h.ready_iff.mp hready
    · intro j o hto htready
      by_cases hj : j = i
      · subst hj
        obtain ⟨order', hr, hle⟩ := hfits o hto htready
        cases hr
        exact hle
      · obtain ⟨hso, hsready⟩ := hother hto htready hj
        exact hmax j o hso hsready

lemma AgreeOff.performs (h : AgreeOff i s t) {e : Event ID Order ε} (he : e.Avoids i) (hvisible : e.pops i = false)
    (hfits : ∀ r, e = .popped r → ∀ o, t.orders i = some o → t.Ready o →
      ∃ order, r = some order ∧ (new o : Priority) ≤ new order) (hs : Performs s e s') :
    ∃ t', Performs t e t' ∧ AgreeOff i s' t' := by
  cases e with
  | inserted order source =>
    obtain rfl := hs
    exact ⟨_, rfl, h.insertOrder source he⟩
  | updated newNonces source =>
    obtain ⟨visit, hs⟩ := hs
    obtain ⟨t', ht', hagree⟩ := h.updateOnchainNonces hs
    exact ⟨t', ⟨visit, ht'⟩, hagree⟩
  | removed j r =>
    obtain ⟨hr, hagree⟩ := h.removeOrder he
    have hs' : s.removeOrder j = (r, s') := hs
    rw [hs'] at hr hagree
    exact ⟨(t.removeOrder j).2, Prod.ext hr.symm rfl, hagree⟩
  | popped r => exact h.popOrder hvisible (hfits r rfl) hs

lemma AgreeOff.pops_first (h : AgreeOff i s t) {r : Option Order}
    (ht : Performs t (.popped r : Event ID Order ε) t') (ho : s.orders i = some order) (hready : s.Ready order)
    (hbetter : ∀ order', r = some order' → ¬ (new order : Priority) ≤ new order') (hi : t.orders i = none) :
    Performs s (.popped (some order) : Event ID Order ε) (s.takeOut i order) := by
  have hid := h.left.keyed ho
  refine h.left.pops_some_iff.mpr ⟨⟨hid ▸ ho, hready, fun j other hj hr => ?_⟩, by rw [hid]⟩
  by_cases hji : j = i
  · subst hji
    rw [Option.some.inj (hj.symm.trans ho)]
  · have hto : t.orders j = some other := (h.orders_eq hji).symm.trans hj
    have htready : t.Ready other := h.ready_iff.mp hr
    cases r with
    | none => exact absurd htready ((h.right.pops_none_iff.mp ht).1 j other hto)
    | some order' =>
      have hmax := (h.right.pops_some_iff.mp ht).1.2.2 j other hto htready
      exact hmax.trans (le_of_not_ge (hbetter order' rfl))

lemma hides_pops (i : ID) :
    Hides (fun (s : PrioritizedOrderpool ID Priority Order) (e : Event ID Order ε) s' =>
      e.Avoids i ∧ Performs s e s')
      (fun s e s' => e.Avoids i ∧ Performs s e s') (Event.pops i) fun s t =>
        AgreeOff i s t ∧ t.orders i = none where
  follow := by
    rintro s s' t e ⟨h, hi⟩ ⟨he, hs⟩
    cases hp : e.pops i with
    | true =>
      obtain ⟨order, rfl, rfl⟩ := Event.eq_popped hp
      obtain ⟨⟨ho, -⟩, rfl⟩ := h.left.pops_some_iff.mp hs
      exact .inl ⟨rfl, h.hide ho, hi⟩
    | false =>
      obtain ⟨t', ht', hagree⟩ := h.performs he hp (fun r _ o ho _ => absurd (hi.symm.trans ho) (by simp)) hs
      obtain ⟨-, hi', -⟩ := h.right.performs_absent hi he.not_inserts ht'
      exact .inr ⟨rfl, t', ⟨he, ht'⟩, hagree, hi'⟩
  catch_up := by
    rintro s t t' e ⟨h, hi⟩ ⟨he, ht⟩
    obtain ⟨-, hi', hvisible⟩ := h.right.performs_absent hi he.not_inserts ht
    refine ⟨hvisible, ?_⟩
    by_cases hfits : ∀ r, e = .popped r → ∀ o, s.orders i = some o → s.Ready o →
        ∃ order, r = some order ∧ (new o : Priority) ≤ new order
    · obtain ⟨s', hs', hagree⟩ := h.symm.performs he hvisible hfits ht
      exact ⟨[], s', by simp, .cons ⟨he, hs'⟩ (.nil _), hagree.symm, hi'⟩
    · push Not at hfits
      obtain ⟨r, rfl, o, ho, hready, hbetter⟩ := hfits
      have hfirst := h.pops_first ht ho hready (fun order' hr => (hbetter order' hr).not_ge) hi
      have hgone : (s.takeOut i o).orders i = none := Function.update_self _ _ _
      obtain ⟨s', hs', hagree⟩ := (h.hide ho).symm.performs he hvisible
        (fun r _ o' ho' _ => absurd (hgone.symm.trans ho') (by simp)) ht
      refine ⟨[.popped (some o)], s', ?_, .cons ⟨trivial, hfirst⟩ (.cons ⟨he, hs'⟩ (.nil _)), hagree.symm, hi'⟩
      intro e hmem
      obtain rfl := List.mem_singleton.mp hmem
      exact decide_eq_true (h.left.keyed ho)

omit [LinearOrder Priority] in
lemma Consistent.agreeOff_removeOrder (h : Consistent s ∅ [] []) (i : ID) :
    AgreeOff i s (s.removeOrder i).2 ∧ (s.removeOrder i).2.orders i = none := by
  have hevolves := h.evolves_removeOrder i
  refine ⟨⟨h, h.removeOrder i, hevolves.onchain.symm, fun j hj => ?_⟩, ?_⟩
  · rw [hevolves.entry, if_neg hj]
  · exact (congrArg Entry.order (hevolves.entry i)).trans (by rw [if_pos rfl]; rfl)

theorem removeOrder_iff {ε' : Type} (calls : List (Call ID Priority Order ε)) (i : ID) :
    ∃ s : PrioritizedOrderpool ID Priority Order, run calls {} = .ok s ∧
      ((s.removeOrder i).1 = s.orders i ↔ ¬ s.Queued i) ∧
      (∀ (es : List (Event ID Order ε')) t, Path Performs (s.removeOrder i).2 es t → (∀ e ∈ es, ¬ e.Inserts i) →
        ∀ e ∈ es, e.pops i = false) ∧
      ∀ es : List (Event ID Order ε'), (∀ e ∈ es, e.Avoids i) →
        ((∃ t, Path Performs (s.removeOrder i).2 es t) ↔ ∃ es' : List (Event ID Order ε'),
          (∀ e ∈ es', e.Avoids i) ∧ (∃ t, Path Performs s es' t) ∧ (es'.filter fun e => !e.pops i) = es) := by
  obtain ⟨s, hs, h⟩ := run_consistent (ε := ε) Consistent.initial calls
  obtain ⟨hagree, hi⟩ := h.agreeOff_removeOrder i
  refine ⟨s, hs, h.removeOrder_fst_iff i, fun es t hpath hes => ?_, fun es hes => ?_⟩
  · have hall := hpath.forall_mem (P := fun s => Consistent s ∅ [] [] ∧ s.orders i = none)
      (Q := fun e => e.pops i = false) ⟨h.removeOrder i, hi⟩ (by
        rintro s₁ e s₂ ⟨h₁, hi₁⟩ he hstep
        obtain ⟨h₂, hi₂, hpops⟩ := h₁.performs_absent hi₁ (hes e he) hstep
        exact ⟨⟨h₂, hi₂⟩, hpops⟩)
    exact hall.2
  · have hiff := (hides_pops (ε := ε') i).path_iff es ⟨hagree, hi⟩
    simp only [Path.restrict_iff] at hiff
    constructor
    · rintro ⟨t, ht⟩
      obtain ⟨es', ⟨s', hes', hs'⟩, hfilter⟩ := hiff.mp ⟨t, hes, ht⟩
      exact ⟨es', hes', ⟨s', hs'⟩, hfilter⟩
    · rintro ⟨es', hes', ⟨s', hs'⟩, hfilter⟩
      obtain ⟨t, -, ht⟩ := hiff.mpr ⟨es', ⟨s', hes', hs'⟩, hfilter⟩
      exact ⟨t, ht⟩

end Events

section Example

open PrioritizedOrderpoolTestBundle

theorem readyOrder_lost : ∃ s : TestPool, run [.insertOrder optionalNonce untouched] {} = .ok s ∧
    s.orders 0 = some optionalNonce ∧ (s.removeOrder 0).1 = none :=
  ⟨inserted optionalNonce, rfl, rfl, rfl⟩

end Example

end Rblib.Orderpool2.PrioritizedOrderpool
