import Rblib.Library.FirstOfGroup
import Rblib.Orderpool2.StepRuns

/-! The bundles that `insert_order` finds ready. -/

namespace Rblib.Orderpool2

open Platform PlatformTypes Payload OrderpoolOrder Library

namespace PrioritizedOrderpool

variable {ID Priority Order ε : Type} {s s' : PrioritizedOrderpool ID Priority Order}
  {source : OrderpoolNonceSource ε}

lemma nonce_after_nonce (source : OrderpoolNonceSource ε) (a b : Address)
    (s : PrioritizedOrderpool ID Priority Order) :
    ((s.nonce source b).2.nonce source a).1 = (s.nonce source a).1 := by
  cases hb : s.onchainNonces b with
  | some v => rw [nonce_tracked hb]
  | none =>
    cases hs : source b with
    | error e => simp only [nonce, hb, hs]
    | ok v =>
      by_cases ha : a = b
      · subst ha
        simp only [nonce, hb, hs, Function.update_self]
      · simp only [nonce, hb, hs, Function.update_of_ne ha]
        cases s.onchainNonces a with
        | some w => rfl
        | none =>
          cases source a with
          | error e => rfl
          | ok w => rfl

lemma nonce_after_pendingNonces (source : OrderpoolNonceSource ε) (ns : List BundleNonce)
    (pending : List AccountNonce) (a : Address) (s : PrioritizedOrderpool ID Priority Order) :
    ((s.pendingNonces source ns pending).2.nonce source a).1 = (s.nonce source a).1 := by
  apply pendingNonces_keeps (P := fun t => (t.nonce source a).1 = (s.nonce source a).1)
  · exact fun t b h => (nonce_after_nonce source a b t).trans h
  · rfl

variable [DecidableEq ID] [OrderpoolOrder Order ID] [PrioritizedOrderpoolPriority Priority Order]

lemma nonce_of_queued (order : Order) (hnew : ¬ s.Queued (orderId order))
    (hq : (s.insertOrder source order).2.Queued (orderId order)) {n : BundleNonce} (hn : n ∈ nonces order)
    (hopt : n.optional = false) : (s.nonce source n.address).1 = .ok n.nonce := by
  have hsame : ¬ (s.pendingNonces source (nonces order) []).2.Queued (orderId order) := by
    rwa [Queued, (pendingNonces_extends source (nonces order) [] s).mainQueue_eq]
  rcases insertOrder_cases source order s with hs | hread | ⟨pending, -, hscan, hplace⟩
  · exact absurd (hs ▸ hq) hnew
  · exact absurd (hread ▸ hq) hsame
  · have hs := pendingNonces_scanned (Prod.ext hscan rfl)
    rw [hplace] at hq
    cases pending with
    | nil =>
      have honchain : (s.pendingNonces source (nonces order) []).2.onchainNonces n.address = some n.nonce := by
        by_contra hne
        have hmem := (hs.mem_pending n.accountNonce).mpr (.inr ⟨n, hn, hopt, rfl, hne⟩)
        exact absurd hmem (by simp)
      rw [← nonce_after_pendingNonces source (nonces order) [] n.address s, nonce_tracked honchain]
    | cons a pending => exact absurd hq hsame

lemma queued_of_met (order : Order) (hnew : s.orders (orderId order) = none)
    (hread : ∀ n ∈ nonces order, ∃ v, (s.nonce source n.address).1 = .ok v ∧ (n.optional = false → v = n.nonce)) :
    (s.insertOrder source order).2.Queued (orderId order) := by
  have hscan : ∀ (ns : List BundleNonce) (t : PrioritizedOrderpool ID Priority Order),
      (∀ n ∈ ns, ∃ v, (t.nonce source n.address).1 = .ok v ∧ (n.optional = false → v = n.nonce)) →
      (t.pendingNonces source ns []).1 = .ok (some []) := by
    intro ns
    induction ns with
    | nil => exact fun _ _ => rfl
    | cons n ns ih =>
      intro t ht
      obtain ⟨v, hv, hmet⟩ := ht n List.mem_cons_self
      have hrest : ∀ m ∈ ns, ∃ v, ((t.nonce source n.address).2.nonce source m.address).1 = .ok v ∧
          (m.optional = false → v = m.nonce) := by
        intro m hm
        rw [nonce_after_nonce]
        exact ht m (List.mem_cons_of_mem _ hm)
      rw [pendingNonces,
        show t.nonce source n.address = (.ok v, (t.nonce source n.address).2) from Prod.ext hv rfl]
      have hfresh : ¬ (v > n.nonce ∧ n.optional = false) := fun h => by have heq := hmet h.2; omega
      have hreached : ¬ (v < n.nonce ∧ n.optional = false) := fun h => by have heq := hmet h.2; omega
      dsimp only
      rw [if_neg hfresh, if_neg hreached]
      exact ih _ hrest
  rw [insertOrder, if_neg (by simp [hnew]),
    show s.pendingNonces source (nonces order) [] =
        (.ok (some []), (s.pendingNonces source (nonces order) []).2) from
      Prod.ext (hscan _ s hread) rfl]
  exact ⟨_, List.mem_append_right _ (List.mem_singleton_self _)⟩

end PrioritizedOrderpool

section Bundles

variable {ns : List BundleNonce} {a : Address} {v : ℕ}

/-- No required transaction of the signer is stale, and no nonce up to the lowest required one is missing. -/
structure RunsThrough (ns : List BundleNonce) (a : Address) (v : ℕ) : Prop where
  fresh : ∀ n ∈ ns, n.address = a → n.optional = false → v ≤ n.nonce
  carried : ∀ k, v ≤ k → (∃ n ∈ ns, n.address = a ∧ n.optional = false) →
    (∀ n ∈ ns, n.address = a → n.optional = false → k ≤ n.nonce) → ∃ n ∈ ns, n.address = a ∧ n.nonce = k

def ofSigner (ns : List BundleNonce) (a : Address) : List BundleNonce := ns.filter fun n => decide (n.address = a)

def LowestRequired (ns : List BundleNonce) (a : Address) : Prop :=
  ∃ n, (ofSigner ns a).argmin BundleNonce.nonce = some n ∧ n.optional = false

lemma mem_ofSigner {n : BundleNonce} : n ∈ ofSigner ns a ↔ n ∈ ns ∧ n.address = a := by
  rw [ofSigner, List.mem_filter, decide_eq_true_eq]

lemma runsThrough_of_lowest {n : BundleNonce} (hmin : (ofSigner ns a).argmin BundleNonce.nonce = some n)
    (hopt : n.optional = false) : RunsThrough ns a n.nonce := by
  obtain ⟨hn, hna⟩ := mem_ofSigner.mp (List.argmin_mem hmin)
  refine ⟨fun m hm hma _ => ?_, fun k hv _ hk => ?_⟩
  · exact List.le_of_mem_argmin (mem_ofSigner.mpr ⟨hm, hma⟩) hmin
  · exact ⟨n, hn, hna, le_antisymm hv (hk n hn hna hopt)⟩

lemma runsThrough_of_optional (h : ∀ n ∈ ns, n.address = a → n.optional = true) : RunsThrough ns a v := by
  have hnone : ∀ n ∈ ns, n.address = a → n.optional ≠ false := by
    intro n hn hna hopt
    rw [h n hn hna] at hopt
    cases hopt
  exact ⟨fun n hn hna hopt => absurd hopt (hnone n hn hna), fun k _ ⟨n, hn, hna, hopt⟩ =>
    absurd hopt (hnone n hn hna)⟩

end Bundles

namespace BundleWithNonces

variable {P Priority ε : Type} [PlatformTypes P] [PrioritizedOrderpoolPriority Priority (BundleWithNonces P)]

def txNonces (bundle : FlashbotsBundle P) : List BundleNonce :=
  bundle.transactions.map fun tx => ⟨signer tx, nonce tx, bundle.isOptional (txHash tx)⟩

lemma mem_lowestNonces_iff {ns : List BundleNonce} {n : BundleNonce} :
    n ∈ lowestNonces ns ↔ (ofSigner ns n.address).argmin BundleNonce.nonce = some n := mem_destutter_iff

def QueuedRuns (s : PrioritizedOrderpool B256 Priority (BundleWithNonces P)) (source : OrderpoolNonceSource ε)
    (bundle : FlashbotsBundle P) (a : Address) : Prop :=
  ¬ s.Queued bundle.hash → (s.insertOrder source (BundleWithNonces.new bundle)).2.Queued bundle.hash →
    ∀ v, (s.nonce source a).1 = .ok v → RunsThrough (txNonces bundle) a v

lemma queuedRuns_of_lowest {bundle : FlashbotsBundle P} {a : Address}
    (h : (∃ n ∈ txNonces bundle, n.address = a ∧ n.optional = false) → LowestRequired (txNonces bundle) a)
    (s : PrioritizedOrderpool B256 Priority (BundleWithNonces P)) (source : OrderpoolNonceSource ε) :
    QueuedRuns s source bundle a := by
  intro hnew hq v hv
  by_cases hreq : ∃ n ∈ txNonces bundle, n.address = a ∧ n.optional = false
  · obtain ⟨n, hmin, hopt⟩ := h hreq
    obtain ⟨-, rfl⟩ := mem_ofSigner.mp (List.argmin_mem hmin)
    have hlisted : n ∈ nonces (BundleWithNonces.new bundle) := mem_lowestNonces_iff.mpr hmin
    have hnonce := PrioritizedOrderpool.nonce_of_queued (BundleWithNonces.new bundle) hnew hq hlisted hopt
    rw [hv] at hnonce
    rw [Except.ok.inj hnonce]
    exact runsThrough_of_lowest hmin hopt
  · apply runsThrough_of_optional
    intro n hn hna
    by_contra hopt
    exact hreq ⟨n, hn, hna, Bool.eq_false_of_not_eq_true hopt⟩

def lowestExcept (bundle : FlashbotsBundle P) (a : Address) (v : ℕ) : OrderpoolNonceSource ε :=
  Function.update
    (fun b => .ok (((ofSigner (txNonces bundle) b).argmin BundleNonce.nonce).elim 0 BundleNonce.nonce)) a
    (.ok v)

lemma queued_lowestExcept {bundle : FlashbotsBundle P} {a : Address} (h : ¬ LowestRequired (txNonces bundle) a)
    (v : ℕ) :
    (({} : PrioritizedOrderpool B256 Priority (BundleWithNonces P)).insertOrder
      (lowestExcept bundle a v : OrderpoolNonceSource ε)
      (BundleWithNonces.new bundle)).2.Queued bundle.hash := by
  apply PrioritizedOrderpool.queued_of_met (BundleWithNonces.new bundle) rfl
  intro n hn
  have hmin : (ofSigner (txNonces bundle) n.address).argmin BundleNonce.nonce = some n :=
    mem_lowestNonces_iff.mp hn
  by_cases hna : n.address = a
  · refine ⟨v, ?_, fun hopt => absurd ⟨n, hna ▸ hmin, hopt⟩ h⟩
    simp [PrioritizedOrderpool.nonce, lowestExcept, hna]
  · refine ⟨n.nonce, ?_, fun _ => rfl⟩
    simp [PrioritizedOrderpool.nonce, lowestExcept, hna, hmin]

/-- Whatever the onchain nonces, a queued bundle can run for a signer exactly when the transaction
that speaks for the signer is a required one, unless the signer has none. A new pool already queues
the others for a nonce that is too high. -/
theorem queued_bundle_iff (bundle : FlashbotsBundle P) (a : Address) :
    ((∀ (s : PrioritizedOrderpool B256 Priority (BundleWithNonces P)) (source : OrderpoolNonceSource ε),
      QueuedRuns s source bundle a) ↔
        ((∃ n ∈ txNonces bundle, n.address = a ∧ n.optional = false) → LowestRequired (txNonces bundle) a)) ∧
    ((∀ source : OrderpoolNonceSource ε,
      QueuedRuns ({} : PrioritizedOrderpool B256 Priority (BundleWithNonces P)) source bundle a) ↔
        ((∃ n ∈ txNonces bundle, n.address = a ∧ n.optional = false) → LowestRequired (txNonces bundle) a)) := by
  have hfails : (∀ source : OrderpoolNonceSource ε,
      QueuedRuns ({} : PrioritizedOrderpool B256 Priority (BundleWithNonces P)) source bundle a) →
      (∃ n ∈ txNonces bundle, n.address = a ∧ n.optional = false) → LowestRequired (txNonces bundle) a := by
    rintro hruns ⟨n, hn, hna, hopt⟩
    by_contra hlowest
    have hstale := (hruns (lowestExcept bundle a (n.nonce + 1)) (fun ⟨_, hq⟩ => absurd hq List.not_mem_nil)
      (queued_lowestExcept hlowest _) (n.nonce + 1) (by simp [PrioritizedOrderpool.nonce, lowestExcept])).fresh
        n hn hna hopt
    omega
  exact ⟨⟨fun hruns => hfails (hruns {}), queuedRuns_of_lowest⟩, ⟨hfails, fun h => queuedRuns_of_lowest h {}⟩⟩

section Example

open AppendOrdersByPriority

def fromZero : OrderpoolNonceSource Empty := fun _ => .ok 0

def pool : PrioritizedOrderpool B256 ℕ (BundleWithNonces Devnet) := {}

def masked : FlashbotsBundle Devnet :=
  (FlashbotsBundle.default.withOptionalTransaction (PlainTx.mk 21 7 0)).withTransaction (PlainTx.mk 22 7 5)

lemma txNonces_masked : txNonces masked = [⟨7, 0, true⟩, ⟨7, 5, false⟩] := rfl

lemma new_masked : BundleWithNonces.new masked = ⟨masked, [⟨7, 0, true⟩]⟩ := by
  have hnonces : lowestNonces (txNonces masked) = [⟨7, 0, true⟩] := by
    rw [txNonces_masked, lowestNonces, List.mergeSort_of_pairwise]
    · rfl
    · decide
  change (⟨masked, lowestNonces (txNonces masked)⟩ : BundleWithNonces Devnet) = _
  rw [hnonces]

theorem masked_queued : (pool.insertOrder fromZero (BundleWithNonces.new masked)).2.Queued masked.hash ∧
    (pool.nonce fromZero 7).1 = .ok 0 ∧ ¬ RunsThrough (txNonces masked) 7 0 := by
  refine ⟨?_, rfl, fun h => ?_⟩
  · rw [new_masked]
    exact ⟨2, List.mem_singleton_self _⟩
  · rw [txNonces_masked] at h
    obtain ⟨n, hn, -, hn1⟩ := h.carried 1 (by decide) ⟨⟨7, 5, false⟩, by decide, rfl, rfl⟩ (by decide)
    rcases List.mem_pair.mp hn with rfl | rfl
    · cases hn1
    · cases hn1

end Example

end BundleWithNonces

end Rblib.Orderpool2
