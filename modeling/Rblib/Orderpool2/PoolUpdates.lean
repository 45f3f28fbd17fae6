import Rblib.Orderpool2.PoolSteps

namespace Rblib.Orderpool2

open Payload OrderpoolOrder PrioritizedOrderpool Library

namespace Entry

variable {ID Order : Type} [OrderpoolOrder Order ID] {onchain : Address → Option ℕ} {e e' : Entry Order}
  {order : Order}

/-- The order is still there, or it went because a required nonce of it is used. -/
def Outlasts (onchain : Address → Option ℕ) (e e' : Entry Order) : Prop :=
  e'.order = e.order ∨ e'.order = none ∧ ∃ order, e.order = some order ∧ Overtaken onchain (nonces order)

lemma outlasts_woken (onchain : Address → Option ℕ) (e : Entry Order) (n : AccountNonce) :
    Outlasts onchain e (e.woken onchain n) := by
  rw [woken]
  split
  · split
    · exact .inl rfl
    · next order ho =>
      rw [offered]
      split
      · next hover => exact .inr ⟨rfl, order, ho, hover⟩
      · exact .inl ho.symm
  · exact .inl rfl

lemma outlasts_foldl (onchain : Address → Option ℕ) (ns : List AccountNonce) (e : Entry Order) :
    Outlasts onchain e (ns.foldl (woken onchain) e) := by
  induction ns generalizing e with
  | nil => exact .inl rfl
  | cons n ns ih =>
    rw [List.foldl_cons]
    rcases outlasts_woken onchain e n with hsame | ⟨hnone, hgone⟩
    · rw [Outlasts, ← hsame]
      exact ih _
    · refine .inr ⟨?_, hgone⟩
      rcases ih (e.woken onchain n) with hrest | ⟨hrest, -⟩
      · exact hrest.trans hnone
      · exact hrest

variable {newNonces : List AccountNonce}

lemma updated_dropped (ho : e.order = some order) (ht : e.Touched newNonces)
    (hr : ¬ Retained onchain (nonces order)) : (e.updated onchain newNonces).order = none := by
  rw [updated, checked, if_pos ht]
  rcases outlasts_foldl onchain newNonces (e.revisited onchain) with hsame | ⟨hnone, -⟩
  · rw [hsame, revisited_of_not_retained ho hr]
    rfl
  · exact hnone

lemma updated_outlasts (ho : e.order = some order)
    (hr : e.Touched newNonces → Retained onchain (nonces order)) :
    (e.updated onchain newNonces).order = some order ∨ Overtaken onchain (nonces order) := by
  have hfirst : (e.checked onchain newNonces).order = some order := by
    rw [checked]
    split
    · next ht => rw [revisited_of_retained ho (hr ht), offered, if_neg (hr ht).1]
    · exact ho
  rcases outlasts_foldl onchain newNonces (e.checked onchain newNonces) with hsame | ⟨-, o, ho', hover⟩
  · exact .inl (hsame.trans hfirst)
  · rw [Option.some.inj (hfirst.symm.trans ho')]
    exact .inr hover

lemma updated_absent (ho : e.order = none) : (e.updated onchain newNonces).order = none := by
  have hfirst : (e.checked onchain newNonces).order = none := by
    rw [checked]
    split
    · simp only [revisited, ho]
    · exact ho
  rcases outlasts_foldl onchain newNonces (e.checked onchain newNonces) with hsame | ⟨hnone, -⟩
  · exact hsame.trans hfirst
  · exact hnone

end Entry

section Kept

def Useless (onchain : Address → Option ℕ) (ns : List BundleNonce) : Prop :=
  Overtaken onchain ns ∨ ∀ n ∈ ns, ∃ v, onchain n.address = some v ∧ n.nonce < v

structure OnlyAhead (onchain : Address → Option ℕ) (newNonces : List AccountNonce) (ns : List BundleNonce) :
    Prop where
  optional : ∀ n ∈ ns, n.optional = true
  updated : ∃ n ∈ ns, n.address ∈ newNonces.map AccountNonce.account
  passed : ¬ Current onchain ns
  ahead : ∃ n ∈ ns, ∃ v, onchain n.address = some v ∧ v < n.nonce

end Kept

namespace PrioritizedOrderpool

variable {ID Priority Order ε : Type}

def nonceAfter (newNonces : List AccountNonce) (s : PrioritizedOrderpool ID Priority Order) : Address → Option ℕ :=
  insertAll s.onchainNonces (newNonces.map fun n => (n.account, n.nonce))

def NoDecrease (newNonces : List AccountNonce) (s : PrioritizedOrderpool ID Priority Order) : Prop :=
  ∀ a v, s.onchainNonces a = some v → ∃ v', s.nonceAfter newNonces a = some v' ∧ v ≤ v'

lemma noDecrease_of_le {newNonces : List AccountNonce} {s : PrioritizedOrderpool ID Priority Order}
    (h : ∀ n ∈ newNonces, ∀ v, s.onchainNonces n.account = some v → v ≤ n.nonce) : s.NoDecrease newNonces := by
  intro a v hv
  have hsome : (s.nonceAfter newNonces a).isSome := insertAll_isSome (by rw [hv]; rfl)
  obtain ⟨w, hw⟩ := Option.isSome_iff_exists.mp hsome
  refine ⟨w, hw, ?_⟩
  rcases insertAll_some hw with hmem | ⟨hsame, -⟩
  · obtain ⟨n, hn, hnw⟩ := List.mem_map.mp hmem
    obtain ⟨rfl, rfl⟩ := Prod.mk.inj hnw
    exact h n hn v hv
  · rw [hv] at hsame
    exact (Option.some.inj hsame).le

variable [OrderpoolOrder Order ID] [PrioritizedOrderpoolPriority Priority Order]
  {s s' : PrioritizedOrderpool ID Priority Order} {newNonces : List AccountNonce} {order : Order} {i : ID}

lemma Consistent.touched_of_onlyAhead {onchain : Address → Option ℕ} (h : Consistent s ∅ [] [])
    (hi : s.orders i = some order) (hahead : OnlyAhead onchain newNonces (nonces order)) :
    (s.entry i).Touched newNonces := by
  have hready : s.Ready order := by
    intro n hn hopt
    rw [hahead.optional n hn] at hopt
    exact absurd hopt (by simp)
  exact ⟨(h.queued_iff_ready i).mpr ⟨order, hi, hready⟩, order, hi, hahead.updated⟩

lemma Consistent.useless_iff (h : Consistent s ∅ [] []) (hmono : s.NoDecrease newNonces)
    (hi : s.orders i = some order) (ht : (s.entry i).Touched newNonces)
    (hr : ¬ Retained (s.nonceAfter newNonces) (nonces order)) :
    Useless (s.nonceAfter newNonces) (nonces order) ↔
      ¬ OnlyAhead (s.nonceAfter newNonces) newNonces (nonces order) := by
  constructor
  · rintro (⟨n, hn, hopt, -⟩ | hpassed) hahead
    · rw [hahead.optional n hn] at hopt
      exact absurd hopt (by simp)
    · obtain ⟨n, hn, v, hv, hlt⟩ := hahead.ahead
      obtain ⟨w, hw, hlt'⟩ := hpassed n hn
      rw [hv] at hw
      have hvw := Option.some.inj hw
      omega
  · intro hnot
    by_contra huseless
    rw [Useless, not_or] at huseless
    obtain ⟨hover, hsome⟩ := huseless
    have hcurrent : ¬ Current (s.nonceAfter newNonces) (nonces order) := fun hc => hr ⟨hover, hc⟩
    have hready := h.ready_of_queued (.inl hi) (Finset.notMem_empty i) ht.1
    have hoptional : ∀ n ∈ nonces order, n.optional = true := by
      intro n hn
      by_contra hopt
      have hopt := Bool.eq_false_of_not_eq_true hopt
      obtain ⟨v, hv, hle⟩ := hmono _ _ (hready n hn hopt)
      have hnlt : ¬ n.nonce < v := fun hlt => hover ⟨n, hn, hopt, v, hv, hlt⟩
      have heq : v = n.nonce := by omega
      exact hcurrent ⟨n, hn, heq ▸ hv⟩
    obtain ⟨-, o, ho, hupdated⟩ := ht
    obtain rfl : order = o := Option.some.inj (hi.symm.trans ho)
    push Not at hsome
    obtain ⟨n, hn, hnext⟩ := hsome
    obtain ⟨v, hv⟩ := h.tracked (.inl hi) n hn
    obtain ⟨w, hw, -⟩ := hmono _ _ hv
    have hne : w ≠ n.nonce := fun he => hcurrent ⟨n, hn, he ▸ hw⟩
    have hle := hnext w hw
    exact hnot ⟨hoptional, hupdated, hcurrent, n, hn, w, hw, by omega⟩

lemma Consistent.kept_iff (h : Consistent s ∅ [] []) (hmono : s.NoDecrease newNonces)
    (hi : s.orders i = some order) (hentry : s'.entry i = (s.entry i).updated (s.nonceAfter newNonces) newNonces) :
    (s'.orders i = some order ∨ Useless (s.nonceAfter newNonces) (nonces order)) ↔
      ¬ OnlyAhead (s.nonceAfter newNonces) newNonces (nonces order) := by
  have horder : s'.orders i = ((s.entry i).updated (s.nonceAfter newNonces) newNonces).order :=
    congrArg Entry.order hentry
  rw [horder]
  by_cases hr : (s.entry i).Touched newNonces → Retained (s.nonceAfter newNonces) (nonces order)
  · refine iff_of_true ?_ fun hahead => ?_
    · exact (Entry.updated_outlasts hi hr).imp_right .inl
    · exact hahead.passed (hr (h.touched_of_onlyAhead hi hahead)).2
  · rw [Classical.not_imp] at hr
    obtain ⟨ht, hr⟩ := hr
    rw [Entry.updated_dropped hi ht hr, or_iff_right (by simp)]
    exact h.useless_iff hmono hi ht hr

variable [DecidableEq ID] [LE Priority]

theorem update_reads_no_nonce (calls : List (Call ID Priority Order ε)) :
    ∃ s : PrioritizedOrderpool ID Priority Order, run calls {} = .ok s ∧
      (∀ (visit : SetOrder ID) (newNonces : List AccountNonce), ∃ s' : PrioritizedOrderpool ID Priority Order,
        ∀ {ε' : Type} (source : OrderpoolNonceSource ε'),
          s.updateOnchainNonces visit source newNonces = .ok (.ok (), s')) ∧
      ∀ {ε' : Type} (source : OrderpoolNonceSource ε') (order : Order) (e : ε')
        (s' : PrioritizedOrderpool ID Priority Order), s.insertOrder source order = (.error e, s') →
          s'.mainQueue = s.mainQueue ∧ s'.mainQueueNonces = s.mainQueueNonces ∧
            s'.pendingOrders = s.pendingOrders ∧ s'.orders = s.orders := by
  obtain ⟨s, hs, h⟩ := run_consistent (ε := ε) Consistent.initial calls
  refine ⟨s, hs, fun visit newNonces => ?_, fun source order e s' hinsert => ?_⟩
  · obtain ⟨s', hs', -⟩ := h.updateOnchainNonces visit newNonces
    exact ⟨s', hs'⟩
  · rw [insertOrder] at hinsert
    split at hinsert
    · cases hinsert
    · have hext := pendingNonces_extends source (nonces order) [] s
      rcases hscan : s.pendingNonces source (nonces order) [] with ⟨r, s₁⟩
      rw [hscan] at hinsert hext
      rcases r with e' | _ | pending
      · cases hinsert
        have hframe : s' = { s with onchainNonces := s'.onchainNonces } := hext.frame
        rw [hframe]
        exact ⟨rfl, rfl, rfl, rfl⟩
      · cases hinsert
      · cases hinsert

theorem update_keeps_iff (calls : List (Call ID Priority Order ε)) (hs : run calls {} = .ok s)
    (visit : SetOrder ID) {ε' : Type} (source : OrderpoolNonceSource ε') (hmono : s.NoDecrease newNonces)
    (hi : s.orders i = some order) :
    ∃ s', s.updateOnchainNonces visit source newNonces = .ok (.ok (), s') ∧
      ((s'.orders i = some order ∨ Useless (s.nonceAfter newNonces) (nonces order)) ↔
        ¬ OnlyAhead (s.nonceAfter newNonces) newNonces (nonces order)) := by
  obtain ⟨s₀, hs₀, h⟩ := run_consistent (ε := ε) Consistent.initial calls
  obtain rfl : s₀ = s := Except.ok.inj (hs₀.symm.trans hs)
  obtain ⟨s', hs', -, honchain, hentry⟩ := h.updateOnchainNonces visit newNonces
  rw [onchainNonces_trackNonces] at honchain
  refine ⟨s', hs' source, h.kept_iff hmono hi ?_⟩
  rw [hentry i, honchain]
  rfl

end PrioritizedOrderpool

section Example

abbrev PrioritizedOrderpoolTestPriority := Fin (2 ^ 64)

structure PrioritizedOrderpoolTestBundle where
  id : Fin (2 ^ 64)
  nonces : List BundleNonce
  profit : PrioritizedOrderpoolTestPriority

namespace PrioritizedOrderpoolTestBundle

instance : OrderpoolOrder PrioritizedOrderpoolTestBundle (Fin (2 ^ 64)) where
  orderId := PrioritizedOrderpoolTestBundle.id
  nonces := PrioritizedOrderpoolTestBundle.nonces

instance : PrioritizedOrderpoolPriority PrioritizedOrderpoolTestPriority PrioritizedOrderpoolTestBundle where
  new := PrioritizedOrderpoolTestBundle.profit

def untouched : OrderpoolNonceSource Empty := fun _ => .ok 0

abbrev TestPool :=
  PrioritizedOrderpool (Fin (2 ^ 64)) PrioritizedOrderpoolTestPriority PrioritizedOrderpoolTestBundle

def inserted (order : PrioritizedOrderpoolTestBundle) : TestPool :=
  (PrioritizedOrderpool.insertOrder untouched order {}).2

lemma run_inserted (order : PrioritizedOrderpoolTestBundle) :
    run [.insertOrder order untouched] {} = .ok (inserted order) := rfl

def optionalNonce : PrioritizedOrderpoolTestBundle := ⟨0, [⟨1, 0, true⟩, ⟨2, 0, false⟩], 1⟩

def futureNonce : PrioritizedOrderpoolTestBundle := ⟨0, [⟨1, 2, true⟩], 1⟩

lemma noDecrease_inserted {order : PrioritizedOrderpoolTestBundle} {v : ℕ}
    (h : (inserted order).onchainNonces 1 = some 0) : (inserted order).NoDecrease [⟨1, v⟩] := by
  apply noDecrease_of_le
  intro n hn w hw
  obtain rfl := List.mem_singleton.mp hn
  rw [h] at hw
  cases hw
  exact Nat.zero_le v

theorem optionalNonce_kept : ∃ s', (inserted optionalNonce).updateOnchainNonces default untouched [⟨1, 1⟩] =
    .ok (.ok (), s') ∧ s'.orders 0 = some optionalNonce := by
  obtain ⟨s', hs', hiff⟩ := update_keeps_iff _ (run_inserted optionalNonce) default untouched
    (noDecrease_inserted rfl) (i := 0) rfl
  have hrequired : (⟨2, 0, false⟩ : BundleNonce) ∈ nonces optionalNonce := by decide
  have hcurrent : (inserted optionalNonce).nonceAfter [⟨1, 1⟩] 2 = some 0 := by decide
  have hkept := hiff.mpr fun hahead => Bool.noConfusion (hahead.optional _ hrequired)
  refine ⟨s', hs', hkept.resolve_right ?_⟩
  rintro (⟨n, hn, hopt, v, hv, hlt⟩ | hpassed)
  · rcases List.mem_pair.mp hn with rfl | rfl
    · cases hopt
    · cases hcurrent.symm.trans hv
      exact lt_irrefl 0 hlt
  · obtain ⟨v, hv, hlt⟩ := hpassed _ hrequired
    cases hcurrent.symm.trans hv
    exact lt_irrefl 0 hlt

theorem futureNonce_dropped : ∃ s s' : TestPool,
    run [.insertOrder futureNonce untouched] {} = .ok s ∧ s.orders 0 = some futureNonce ∧
    s.NoDecrease [⟨1, 1⟩] ∧ s.updateOnchainNonces default untouched [⟨1, 1⟩] = .ok (.ok (), s') ∧
    s'.orders 0 = none ∧ ¬ Useless (s.nonceAfter [⟨1, 1⟩]) (nonces futureNonce) := by
  have hafter : (inserted futureNonce).nonceAfter [⟨1, 1⟩] 1 = some 1 := by decide
  have hpassed : ¬ Current ((inserted futureNonce).nonceAfter [⟨1, 1⟩]) (nonces futureNonce) := by
    rintro ⟨n, hn, hv⟩
    obtain rfl := List.mem_singleton.mp hn
    cases hafter.symm.trans hv
  have h : Consistent (inserted futureNonce) ∅ [] [] :=
    Consistent.insertOrder untouched Consistent.initial futureNonce
  obtain ⟨s', hs', -, honchain, hentry⟩ := h.updateOnchainNonces default [⟨1, 1⟩]
  have htouched : ((inserted futureNonce).entry 0).Touched [⟨1, 1⟩] :=
    ⟨⟨1, List.mem_singleton_self _⟩, futureNonce, rfl, _, List.mem_singleton_self _, List.mem_singleton_self _⟩
  rw [onchainNonces_trackNonces] at honchain
  refine ⟨inserted futureNonce, s', rfl, rfl, noDecrease_inserted rfl, hs' untouched, ?_, ?_⟩
  · have hdropped := Entry.updated_dropped rfl htouched (fun hr : Retained _ _ => hpassed hr.2)
    change (s'.entry 0).order = none
    rw [hentry, honchain]
    exact hdropped
  · rintro (⟨n, hn, hopt, -⟩ | hbelow)
    · obtain rfl := List.mem_singleton.mp hn
      cases hopt
    · obtain ⟨v, hv, hlt⟩ := hbelow _ (List.mem_singleton_self _)
      cases hafter.symm.trans hv
      exact absurd hlt (by decide)

end PrioritizedOrderpoolTestBundle

end Example

end Rblib.Orderpool2
