import Rblib.Library.ReadThrough
import Rblib.Orderpool2.PoolSteps
import Rblib.Orderpool2.Step
import Rblib.Payload.Nonces

namespace Rblib.Orderpool2

open Platform PlatformTypes Payload OrderpoolOrder Library

namespace PrioritizedOrderpool

variable {ID Priority Order ε : Type} {s s' : PrioritizedOrderpool ID Priority Order}
  {source : OrderpoolNonceSource ε}

def InSync (source : OrderpoolNonceSource ε) (s : PrioritizedOrderpool ID Priority Order) : Prop :=
  Coherent (fun a v => source a = .ok v) s.onchainNonces

section Reads

lemma onchainNonces_nonce (source : OrderpoolNonceSource ε) (a : Address)
    (s : PrioritizedOrderpool ID Priority Order) :
    (s.nonce source a).2.onchainNonces = (readThrough s.onchainNonces source a).2 := by
  rw [nonce, readThrough]
  cases s.onchainNonces a with
  | some v => rfl
  | none =>
    cases source a with
    | error e => rfl
    | ok v => rfl

lemma InSync.nonce (h : s.InSync source) (a : Address) : (s.nonce source a).2.InSync source := by
  rw [InSync, onchainNonces_nonce]
  exact h.readThrough fun _ hv => hv

lemma InSync.pendingNonces (h : s.InSync source) (ns : List BundleNonce) (pending : List AccountNonce) :
    (s.pendingNonces source ns pending).2.InSync source :=
  pendingNonces_keeps source (fun _ a hs => hs.nonce a) ns pending h

lemma InSync.retainOrder (h : s.InSync source) (ns : List BundleNonce) (validNonces : ℕ) :
    (s.retainOrder source ns validNonces).2.InSync source := by
  induction ns generalizing validNonces s with
  | nil => exact h
  | cons n ns ih =>
    have hn := h.nonce n.address
    rw [PrioritizedOrderpool.retainOrder]
    rcases hr : s.nonce source n.address with ⟨r, s'⟩
    rw [hr] at hn
    cases r with
    | error e => exact hn
    | ok onchain =>
      dsimp only
      split
      · exact hn
      · split
        · exact ih hn _
        · exact ih hn _

end Reads

section Writes

variable [DecidableEq ID] [OrderpoolOrder Order ID]

lemma onchainNonces_removePoppedOrder (i : ID) (s : PrioritizedOrderpool ID Priority Order) :
    ((s.removeQueued i).removePoppedOrder i).2.onchainNonces = s.onchainNonces := by
  rw [removePoppedOrder]
  cases (s.removeQueued i).orders i with
  | none => rfl
  | some order => rfl

lemma onchainNonces_popOrder [LE Priority] {choice : PopChoice ID Priority} {r : Option Order}
    (h : s.popOrder choice = .ok (r, s')) : s'.onchainNonces = s.onchainNonces := by
  rw [popOrder] at h
  split at h
  · cases h
    rfl
  · next i p hpick =>
    have hsame := onchainNonces_removePoppedOrder i s
    split at h
    · cases h
    · next order popped hpop =>
      cases h
      rw [hpop] at hsame
      exact hsame

variable [PrioritizedOrderpoolPriority Priority Order]

lemma InSync.insertOrder (h : s.InSync source) (order : Order) : (s.insertOrder source order).2.InSync source := by
  rcases insertOrder_cases source order s with hsame | hread | ⟨pending, -, hplace⟩
  · rwa [hsame]
  · rw [hread]
    exact h.pendingNonces _ _
  · rw [hplace.2, InSync, onchainNonces_place]
    exact h.pendingNonces _ _

lemma insertOrder_cached {a : Address} {v : ℕ} (order : Order) (h : s.onchainNonces a = some v) :
    (s.insertOrder source order).2.onchainNonces a = some v := by
  have hread := (pendingNonces_extends source (nonces order) [] s).cached h
  rcases insertOrder_cases source order s with hsame | hscan | ⟨pending, -, hplace⟩
  · rwa [hsame]
  · rwa [hscan]
  · rwa [hplace.2, onchainNonces_place]

lemma InSync.insertOrders (h : s.InSync source) (orders : List Order) :
    (s.insertOrders source orders).2.InSync source := by
  induction orders generalizing s with
  | nil => exact h
  | cons order orders ih =>
    have hinsert := h.insertOrder order
    rw [PrioritizedOrderpool.insertOrders]
    rcases hr : s.insertOrder source order with ⟨r, s'⟩
    rw [hr] at hinsert
    cases r with
    | error e => exact hinsert
    | ok u => exact ih hinsert

lemma InSync.revalidate (h : s.InSync source) (is : List ID) {r : Except ε Unit}
    (hr : s.revalidate source is = .ok (r, s')) : s'.InSync source := by
  induction is generalizing s with
  | nil =>
    cases hr
    exact h
  | cons i is ih =>
    rw [PrioritizedOrderpool.revalidate] at hr
    have hpopped : ((s.removeQueued i).removePoppedOrder i).2.InSync source := by
      rw [InSync, onchainNonces_removePoppedOrder]
      exact h
    rcases hp : (s.removeQueued i).removePoppedOrder i with ⟨o, s₁⟩
    rw [hp] at hr hpopped
    cases o with
    | none => cases hr
    | some order =>
      dsimp only at hr
      have hretain := InSync.retainOrder hpopped (nonces order) 0
      rcases ht : s₁.retainOrder source (nonces order) 0 with ⟨kept, s₂⟩
      rw [ht] at hr hretain
      cases kept with
      | error e =>
        cases hr
        exact hretain
      | ok kept =>
        cases kept with
        | false => exact ih hretain hr
        | true =>
          dsimp only at hr
          have hinsert := InSync.insertOrder hretain order
          rcases hi : s₂.insertOrder source order with ⟨r', s₃⟩
          rw [hi] at hr hinsert
          cases r' with
          | error e =>
            cases hr
            exact hinsert
          | ok u => exact ih hinsert hr

lemma InSync.promotePending (h : s.InSync source) (ns : List AccountNonce) :
    (s.promotePending source ns).2.InSync source := by
  induction ns generalizing s with
  | nil => exact h
  | cons n ns ih =>
    rw [PrioritizedOrderpool.promotePending]
    split
    · exact ih h
    · next pending hpending =>
      dsimp only
      have hcleared : ({ s with
          pendingOrders := Function.update s.pendingOrders n none
          orders := (takeOrders pending s.orders).2 } : PrioritizedOrderpool ID Priority Order).InSync source := h
      have hinsert := hcleared.insertOrders (takeOrders pending s.orders).1
      split
      · next e s' hi =>
        rw [hi] at hinsert
        exact hinsert
      · next s' hi =>
        rw [hi] at hinsert
        exact ih hinsert

lemma InSync.updateOnchainNonces {visit : SetOrder ID} {newNonces : List AccountNonce} {r : Except ε Unit}
    (hnew : ∀ n ∈ newNonces, source n.account = .ok n.nonce)
    (hold : ∀ a v, s.onchainNonces a = some v → (∀ n ∈ newNonces, n.account ≠ a) → source a = .ok v)
    (hr : s.updateOnchainNonces visit source newNonces = .ok (r, s')) : s'.InSync source := by
  have htracked : (s.trackNonces newNonces ∅).2.InSync source := by
    rw [InSync, onchainNonces_trackNonces]
    intro a v hv
    obtain hm | ⟨hkept, hnot⟩ := insertAll_some hv
    · obtain ⟨n, hn, hpair⟩ := List.mem_map.mp hm
      cases hpair
      exact hnew n hn
    · apply hold a v hkept
      intro n hn ha
      exact hnot n.nonce (List.mem_map.mpr ⟨n, hn, by rw [ha]⟩)
  rw [PrioritizedOrderpool.updateOnchainNonces] at hr
  dsimp only at hr
  split at hr
  · cases hr
  · next e s₂ hrevalidate =>
    cases hr
    exact htracked.revalidate _ hrevalidate
  · next s₂ hrevalidate =>
    have hpromoted := (htracked.revalidate _ hrevalidate).promotePending newNonces
    rw [Except.ok.inj hr] at hpromoted
    exact hpromoted

end Writes

end PrioritizedOrderpool

section Payloads

variable {P : Type} [PlatformTypes P]

/-- What the state a block records says about nonces: an account comes with the nonce it had before, and an
account that is gone was created by the transaction that destroyed it. -/
structure NonceRecords (evm : Evm P) : Prop where
  original : ∀ {db txs commits a data r}, Executed evm db txs commits →
    (evm.takeBundle db commits).account a = some data → db.basicRef a = .ok r →
    (data.originalInfo.map AccountInfo.nonce).getD 0 = (r.map AccountInfo.nonce).getD 0
  destroyed : ∀ {db txs commits a data}, Executed evm db txs commits →
    (evm.takeBundle db commits).account a = some data → data.info = none →
    (data.originalInfo.map AccountInfo.nonce).getD 0 = 0

lemma executeBundle_commits {bundle : FlashbotsBundle P} {block : BlockContext P} {db : DatabaseRef}
    {result : ExecutionResult P} (h : Executable.executeBundle bundle block db = .ok result) :
    ∃ txs commits, Executed block.evm db txs commits ∧ result.state = block.evm.takeBundle db commits := by
  obtain ⟨-, acc, hf, rfl⟩ := executeBundle_ok_iff.mp h
  have hstart : Accounted block db [] {} := ⟨[], [], .nil, rfl, .refl _⟩
  obtain ⟨executed, dropped, he, -, -⟩ := accounted_fold _ hstart hf
  exact ⟨executed, acc.commits, he, rfl⟩

variable {payload new : Checkpoint P} {bundle : FlashbotsBundle P} {id now : ℕ} {a : Address} {v : ℕ}

lemma nonceOf_eq_ok : payload.nonceOf a = .ok v ↔
    ∃ r, payload.basicRef a = .ok r ∧ (r.map AccountInfo.nonce).getD 0 = v := by
  rw [Checkpoint.nonceOf]
  cases payload.basicRef a with
  | error e => exact ⟨nofun, fun ⟨r, hr, _⟩ => nomatch hr⟩
  | ok r =>
    constructor
    · intro h
      exact ⟨r, rfl, Except.ok.inj h⟩
    · rintro ⟨r', hr, rfl⟩
      cases hr
      rfl

lemma nonceOf_recorded {d : CheckpointData P} {info : AccountInfo}
    (h : ((Checkpoint.next payload d).account a).bind BundleAccount.info = some info) :
    (Checkpoint.next payload d).nonceOf a = .ok info.nonce := by
  apply nonceOf_eq_ok.mpr
  refine ⟨some info, ?_, rfl⟩
  rw [Checkpoint.basicRef, Checkpoint.iter, List.findSome?_cons, h]

lemma nonceOf_kept {d : CheckpointData P}
    (h : ((Checkpoint.next payload d).account a).bind BundleAccount.info = none) :
    (Checkpoint.next payload d).nonceOf a = payload.nonceOf a := by
  rw [Checkpoint.nonceOf, Checkpoint.basicRef_next h, Checkpoint.nonceOf]

lemma mem_changedNonces {visit : AccountOrder} {result : ExecutionResult P} {n : AccountNonce} :
    n ∈ changedNonces visit (payload.applyWith (.executable result) id now) ↔
      ∃ data, result.state.account n.account = some data ∧
        (data.originalInfo.map AccountInfo.nonce).getD 0 ≠ (data.info.map AccountInfo.nonce).getD 0 ∧
        n.nonce = (data.info.map AccountInfo.nonce).getD 0 := by
  change n ∈ (visit.list result.state).filterMap _ ↔ _
  rw [List.mem_filterMap]
  constructor
  · rintro ⟨a, -, ha⟩
    obtain ⟨data, hdata, hchanged⟩ := Option.bind_eq_some_iff.mp ha
    dsimp only at hchanged
    split at hchanged
    · cases hchanged
    · next hne =>
      cases hchanged
      exact ⟨data, hdata, hne, rfl⟩
  · rintro ⟨data, hdata, hne, hnonce⟩
    refine ⟨n.account, (visit.mem_list _ _).mpr (hdata ▸ rfl), ?_⟩
    rw [hdata, Option.bind_some, if_neg hne, ← hnonce]

lemma changedNonces_sound (records : NonceRecords payload.block.evm) (visit : AccountOrder)
    (h : payload.apply (.bundle bundle) id now = .ok new) :
    (∀ n ∈ changedNonces visit new, new.nonceOf n.account = .ok n.nonce) ∧
      ∀ a v, payload.nonceOf a = .ok v → (∀ n ∈ changedNonces visit new, n.account ≠ a) →
        new.nonceOf a = .ok v := by
  obtain ⟨result, hr, rfl⟩ := Checkpoint.apply_eq h
  obtain ⟨txs, commits, he, hstate⟩ := executeBundle_commits hr
  have haccount : ∀ a, (payload.applyWith (.executable result) id now).account a = result.state.account a :=
    fun a => rfl
  constructor
  · intro n hn
    obtain ⟨data, hdata, hne, hnonce⟩ := mem_changedNonces.mp hn
    cases hinfo : data.info with
    | none =>
      rw [hstate] at hdata
      rw [hinfo] at hne
      exact absurd (records.destroyed he hdata hinfo) hne
    | some info =>
      rw [hnonce, hinfo]
      exact nonceOf_recorded (by rw [← Checkpoint.applyWith, haccount, hdata, Option.bind_some, hinfo])
  · intro a v hv hnot
    cases hdata : result.state.account a with
    | none => exact (nonceOf_kept (by rw [← Checkpoint.applyWith, haccount, hdata]; rfl)).trans hv
    | some data =>
      cases hinfo : data.info with
      | none =>
        exact (nonceOf_kept (by rw [← Checkpoint.applyWith, haccount, hdata, Option.bind_some, hinfo])).trans hv
      | some info =>
        have hsame : (data.originalInfo.map AccountInfo.nonce).getD 0 = info.nonce := by
          by_contra hne
          refine hnot ⟨a, info.nonce⟩ (mem_changedNonces.mpr ⟨data, hdata, ?_, ?_⟩) rfl
          · rw [hinfo]
            exact hne
          · rw [hinfo]
            rfl
        obtain ⟨r, hread, hr⟩ := nonceOf_eq_ok.mp hv
        rw [hstate] at hdata
        have horiginal := records.original he hdata hread
        rw [hsame, hr] at horiginal
        rw [← horiginal]
        rw [← hstate] at hdata
        exact nonceOf_recorded (by rw [← Checkpoint.applyWith, haccount, hdata, Option.bind_some, hinfo])

end Payloads

namespace AppendOrdersByPriority

open PrioritizedOrderpool

variable {P Priority : Type} [PlatformTypes P] [LE Priority]
  [PrioritizedOrderpoolPriority Priority (BundleWithNonces P)]

def pops (call : PriorityCall P Priority) :
    ℕ → PrioritizedOrderpool B256 Priority (BundleWithNonces P) → Checkpoint P →
    List (PrioritizedOrderpool B256 Priority (BundleWithNonces P) × Checkpoint P)
  | 0, _, _ => []
  | fuel + 1, orderpool, payload => (orderpool, payload) ::
    match orderpool.popOrder call.choice with
    | .error _ => []
    | .ok (none, _) => []
    | .ok (some order, orderpool) =>
      match payload.apply (.bundle order.bundle) (call.fresh fuel).1 (call.fresh fuel).2 with
      | .error _ => pops call fuel orderpool payload
      | .ok new =>
        match orderpool.updateOnchainNonces call.visit new.nonceOf (changedNonces call.accounts new) with
        | .error _ => []
        | .ok (_, orderpool) => pops call fuel orderpool new

omit [PrioritizedOrderpoolPriority Priority (BundleWithNonces P)] in
lemma popOrder_none {choice : PopChoice B256 Priority}
    {s s' : PrioritizedOrderpool B256 Priority (BundleWithNonces P)}
    (h : s.popOrder choice = .ok (none, s')) : s.mainQueue = [] := by
  rw [popOrder] at h
  split at h
  · next hpick => exact (choice.pick_none _).mp hpick
  · split at h
    · cases h
    · cases h

lemma appendAll_ends {call : PriorityCall P Priority} {fuel : ℕ}
    {orderpool : PrioritizedOrderpool B256 Priority (BundleWithNonces P)} {payload output : Checkpoint P}
    (h : appendAll call fuel orderpool payload = some (.ok output)) :
    ∃ s ∈ pops call fuel orderpool payload, s.1.mainQueue = [] ∧ s.2 = output := by
  induction fuel generalizing orderpool payload with
  | zero => cases h
  | succ fuel ih =>
    rw [appendAll] at h
    rw [pops]
    rcases hpop : orderpool.popOrder call.choice with panic | ⟨order, popped⟩
    · simp only [hpop] at h
      cases h
    cases order with
    | none =>
      simp only [hpop] at h
      cases h
      exact ⟨_, List.mem_cons_self, popOrder_none hpop, rfl⟩
    | some order =>
      simp only [hpop] at h
      cases happly : payload.apply (.bundle order.bundle) (call.fresh fuel).1 (call.fresh fuel).2 with
      | error e =>
        simp only [happly] at h
        obtain ⟨s, hs, hend⟩ := ih h
        exact ⟨s, List.mem_cons_of_mem _ (by simpa only [happly] using hs), hend⟩
      | ok new =>
        simp only [happly] at h
        rcases hupdate : popped.updateOnchainNonces call.visit new.nonceOf (changedNonces call.accounts new) with
          panic | ⟨r, updated⟩
        · simp only [hupdate] at h
          cases h
        · simp only [hupdate] at h
          obtain ⟨s, hs, hend⟩ := ih h
          exact ⟨s, List.mem_cons_of_mem _ (by simpa only [happly, hupdate] using hs), hend⟩

def shared (invocations : List (PriorityCall P Priority × Checkpoint P)) :
    PrioritizedOrderpool B256 Priority (BundleWithNonces P) :=
  invocations.foldl (fun orderpool i => (step orderpool i.1 i.2).1) {}

structure OffersMatching (orderpool : PrioritizedOrderpool B256 Priority (BundleWithNonces P))
    (payload : Checkpoint P) : Prop where
  tracked : orderpool.InSync payload.nonceOf
  offered : ∀ i order, orderpool.orders i = some order →
    (∀ n ∈ nonces order, n.optional = false → payload.nonceOf n.address = .ok n.nonce) → orderpool.Queued i
  passed : ∀ i order, orderpool.orders i = some order →
    (∃ n ∈ nonces order, n.optional = false ∧ ∃ v, payload.nonceOf n.address = .ok v ∧ n.nonce < v) →
    ¬ orderpool.Queued i

variable {orderpool : PrioritizedOrderpool B256 Priority (BundleWithNonces P)} {payload : Checkpoint P}

omit [LE Priority] in
lemma offersMatching (h : Consistent orderpool ∅ [] []) (hsync : orderpool.InSync payload.nonceOf) :
    OffersMatching orderpool payload where
  tracked := hsync
  offered i order hi hmatch := by
    apply (h.queued_iff_ready i).mpr
    refine ⟨order, hi, fun n hn hopt => ?_⟩
    obtain ⟨v, hv⟩ := h.tracked (.inl hi) n hn
    have hnonce := hmatch n hn hopt
    rw [hsync _ _ hv] at hnonce
    rw [hv, Except.ok.inj hnonce]
  passed i order hi hpassed hq := by
    obtain ⟨n, hn, hopt, v, hv, hlt⟩ := hpassed
    obtain ⟨other, hother, hready⟩ := (h.queued_iff_ready i).mp hq
    cases hi.symm.trans hother
    have hnonce : payload.nonceOf n.address = .ok n.nonce := hsync _ _ (hready n hn hopt)
    rw [hv] at hnonce
    cases hnonce
    exact lt_irrefl _ hlt

omit [LE Priority] in
lemma pullPending_cons (bundle : FlashbotsBundle P) (pending : List (FlashbotsBundle P)) (payload : Checkpoint P)
    (orderpool : PrioritizedOrderpool B256 Priority (BundleWithNonces P)) :
    pullPending (bundle :: pending) payload orderpool =
      pullPending pending payload (orderpool.insertOrder payload.nonceOf (BundleWithNonces.new bundle)).2 := rfl

omit [LE Priority] in
lemma pullPending_consistent (pending : List (FlashbotsBundle P)) (h : Consistent orderpool ∅ [] []) :
    Consistent (pullPending pending payload orderpool) ∅ [] [] := by
  induction pending generalizing orderpool with
  | nil => exact h
  | cons bundle pending ih => exact ih (Consistent.insertOrder _ h _)

omit [LE Priority] in
lemma pullPending_inSync_iff (pending : List (FlashbotsBundle P)) (payload : Checkpoint P) :
    (pullPending pending payload orderpool).InSync payload.nonceOf ↔ orderpool.InSync payload.nonceOf := by
  induction pending generalizing orderpool with
  | nil => exact Iff.rfl
  | cons bundle pending ih =>
    rw [pullPending_cons, ih]
    exact ⟨fun h a v hv => h a v (insertOrder_cached _ hv), fun h => h.insertOrder _⟩

lemma pops_offer (call : PriorityCall P Priority) (fuel : ℕ) (records : NonceRecords payload.block.evm)
    (h : Consistent orderpool ∅ [] []) (hsync : orderpool.InSync payload.nonceOf) :
    ∀ s ∈ pops call fuel orderpool payload, OffersMatching s.1 s.2 := by
  induction fuel generalizing orderpool payload with
  | zero => exact nofun
  | succ fuel ih =>
    rw [pops]
    refine List.forall_mem_cons.mpr ⟨offersMatching h hsync, ?_⟩
    obtain ⟨r, popped, hpop, hpopped, -⟩ := h.popOrder call.choice
    have hkept : popped.InSync payload.nonceOf := by
      rw [InSync, onchainNonces_popOrder hpop]
      exact hsync
    rw [hpop]
    cases r with
    | none => exact nofun
    | some order =>
      dsimp only
      cases ha : payload.apply (.bundle order.bundle) (call.fresh fuel).1 (call.fresh fuel).2 with
      | error e => exact ih records hpopped hkept
      | ok new =>
        obtain ⟨hnew, hold⟩ := changedNonces_sound records call.accounts ha
        obtain ⟨updated, hupdate, hupdated, -⟩ :=
          hpopped.updateOnchainNonces call.visit (changedNonces call.accounts new)
        have hblock : new.block = payload.block := by
          obtain ⟨result, -, rfl⟩ := Checkpoint.apply_eq ha
          rfl
        dsimp only
        rw [hupdate]
        exact ih (hblock ▸ records) hupdated
          (InSync.updateOnchainNonces hnew (fun a v hv hnot => hold a v (hkept a v hv) hnot) (hupdate _))

lemma shared_consistent (invocations : List (PriorityCall P Priority × Checkpoint P)) :
    Consistent (shared invocations) ∅ [] [] := by
  induction invocations using List.reverseRecOn with
  | nil => exact Consistent.initial
  | append_singleton invocations i ih =>
    rw [shared, List.foldl_append]
    exact pullPending_consistent i.1.pending ih

theorem invocation_offers_iff (invocations : List (PriorityCall P Priority × Checkpoint P))
    (records : ∀ i ∈ invocations, NonceRecords i.2.block.evm) {k : ℕ} {call : PriorityCall P Priority}
    {payload : Checkpoint P} (hk : invocations[k]? = some (call, payload)) :
    (∀ fuel, ∀ s ∈ pops call fuel (pullPending call.pending payload (shared (invocations.take k))) payload,
      OffersMatching s.1 s.2) ↔ (shared (invocations.take k)).InSync payload.nonceOf := by
  constructor
  · intro h
    exact (pullPending_inSync_iff call.pending payload).mp (h 1 _ List.mem_cons_self).tracked
  · intro h fuel
    apply pops_offer call fuel (records _ (List.mem_of_getElem? hk))
    · exact pullPending_consistent call.pending (shared_consistent _)
    · exact (pullPending_inSync_iff call.pending payload).mpr h

section Example

def recording : Evm Devnet :=
  { Devnet.evm with
    takeBundle := fun db commits =>
      { state := fun a =>
          if List.any commits (fun (c : Address × ℕ) => c.1 = a) then
            some ⟨some ⟨0, Devnet.nonceAt db commits a, 0, none⟩,
              match db.basicRef a with
              | .ok info => info
              | .error _ => none, fun _ => none, .changed⟩
          else none
        contracts := fun _ => none } }

lemma recording_records : NonceRecords recording where
  original := by
    intro db txs commits a data r _ hdata hread
    simp only [recording, BundleState.account] at hdata
    split at hdata
    · cases hdata
      simp only [hread]
    · cases hdata
  destroyed := by
    intro db txs commits a data _ hdata hinfo
    simp only [recording, BundleState.account] at hdata
    split at hdata
    · cases hdata
      cases hinfo
    · cases hdata

def byAddress : AccountOrder where
  list s := (List.finRange _).filter fun a => (s.account a).isSome
  nodup s := (List.nodup_finRange _).filter _
  mem_list s a := by simp

instance : PrioritizedOrderpoolPriority ℕ (BundleWithNonces Devnet) where
  new order := order.bundle.transactions.length

def recordingBlock : BlockContext Devnet := { Devnet.block with evm := recording }

def start : Checkpoint Devnet := .newAtBlock recordingBlock 0 0

def offering (bundle : FlashbotsBundle Devnet) : PriorityCall Devnet ℕ where
  pending := [bundle]
  choice := default
  visit := default
  accounts := byAddress
  fresh n := (n, n)
  fuel := 3

def unused : FlashbotsBundle Devnet := FlashbotsBundle.default.withTransaction (PlainTx.mk 21 7 0)

def followUp : FlashbotsBundle Devnet := FlashbotsBundle.default.withTransaction (PlainTx.mk 25 7 1)

lemma new_unused : BundleWithNonces.new unused = ⟨unused, [⟨7, 0, false⟩]⟩ := by
  have hnonces : unused.transactions.map (fun tx =>
    (⟨signer tx, nonce tx, unused.isOptional (txHash tx)⟩ : BundleNonce)) =
      [⟨7, 0, false⟩] := by rfl
  rw [BundleWithNonces.new, hnonces, BundleWithNonces.lowestNonces, List.mergeSort_singleton]
  rfl

lemma new_followUp : BundleWithNonces.new followUp = ⟨followUp, [⟨7, 1, false⟩]⟩ := by
  have hnonces : followUp.transactions.map (fun tx =>
    (⟨signer tx, nonce tx, followUp.isOptional (txHash tx)⟩ : BundleNonce)) =
      [⟨7, 1, false⟩] := by rfl
  rw [BundleWithNonces.new, hnonces, BundleWithNonces.lowestNonces, List.mergeSort_singleton]
  rfl

lemma unused_ne_followUp : unused.hash ≠ followUp.hash := by decide +kernel

theorem same_payload_offers : (shared [(offering unused, start)]).InSync start.nonceOf ∧
    ∀ fuel, ∀ s ∈ pops (offering followUp) fuel
      (pullPending [followUp] start (shared [(offering unused, start)])) start, OffersMatching s.1 s.2 := by
  have hsync : (shared [(offering unused, start)]).InSync start.nonceOf := by
    apply (pullPending_inSync_iff [unused] start).mpr
    exact nofun
  have records : ∀ i ∈ [(offering unused, start), (offering followUp, start)], NonceRecords i.2.block.evm := by
    simp only [List.forall_mem_cons]
    exact ⟨recording_records, recording_records, nofun⟩
  have hk : [(offering unused, start), (offering followUp, start)][1]? = some (offering followUp, start) := rfl
  exact ⟨hsync, (invocation_offers_iff _ records hk).mpr hsync⟩

def afterUnused : PrioritizedOrderpool B256 ℕ (BundleWithNonces Devnet) where
  mainQueue := [(unused.hash, 1)]
  mainQueueNonces := Function.update (fun _ => none) 7 (some [unused.hash])
  onchainNonces := Function.update (fun _ => none) 7 (some 0)
  orders := Function.update (fun _ => none) unused.hash (some ⟨unused, [⟨7, 0, false⟩]⟩)

lemma shared_unused : shared [(offering unused, start)] = afterUnused := by
  change (PrioritizedOrderpool.insertOrder start.nonceOf (BundleWithNonces.new unused) {}).2 = afterUnused
  rw [new_unused]
  rfl

def afterFollowUp : PrioritizedOrderpool B256 ℕ (BundleWithNonces Devnet) :=
  { afterUnused with
    pendingOrders := Function.update (fun _ => none) ⟨7, 1⟩ (some [followUp.hash])
    orders := Function.update afterUnused.orders followUp.hash (some ⟨followUp, [⟨7, 1, false⟩]⟩) }

lemma pullPending_followUp (payload : Checkpoint Devnet) :
    pullPending [followUp] payload afterUnused = afterFollowUp := by
  have hnone : afterUnused.orders followUp.hash = none := by
    simp only [afterUnused, Function.update_of_ne unused_ne_followUp.symm]
  have hnew : ¬ (afterUnused.orders (orderId (⟨followUp, [⟨7, 1, false⟩]⟩ : BundleWithNonces Devnet))).isSome := by
    change ¬ (afterUnused.orders followUp.hash).isSome
    rw [hnone]
    exact nofun
  change (afterUnused.insertOrder payload.nonceOf (BundleWithNonces.new followUp)).2 = afterFollowUp
  rw [new_followUp, insertOrder, if_neg hnew]
  rfl

lemma followUp_parked : ¬ afterFollowUp.Queued followUp.hash := by
  rintro ⟨p, hp⟩
  exact unused_ne_followUp (Prod.mk.inj (List.mem_singleton.mp hp)).1.symm

theorem advanced_payload_parks : ∃ payload orderpool, start.apply (.bundle unused) 1 1 = .ok payload ∧
    orderpool = pullPending (offering followUp).pending payload (shared [(offering unused, start)]) ∧
    (orderpool, payload) ∈ pops (offering followUp) 1 orderpool payload ∧
    payload.nonceOf 7 = .ok 1 ∧ orderpool.onchainNonces 7 = some 0 ∧
    orderpool.Queued unused.hash ∧ orderpool.orders followUp.hash = some (.new followUp) ∧
    ¬ orderpool.Queued followUp.hash ∧ ¬ OffersMatching orderpool payload := by
  obtain ⟨payload, hpayload⟩ : ∃ payload, start.apply (.bundle unused) 1 1 = .ok payload := ⟨_, rfl⟩
  have hnonce : payload.nonceOf 7 = .ok 1 := by
    cases hpayload
    rfl
  have hpool : pullPending (offering followUp).pending payload (shared [(offering unused, start)]) =
    afterFollowUp := by
    rw [shared_unused]
    exact pullPending_followUp payload
  refine ⟨payload, afterFollowUp, hpayload, hpool.symm, List.mem_cons_self, hnonce, rfl,
    ⟨1, List.mem_cons_self⟩, ?_, followUp_parked, ?_⟩
  · rw [new_followUp]
    simp only [afterFollowUp, Function.update_self]
  · intro h
    have hcached : payload.nonceOf 7 = .ok 0 := h.tracked 7 0 rfl
    rw [hnonce] at hcached
    cases hcached

end Example

end AppendOrdersByPriority

end Rblib.Orderpool2
