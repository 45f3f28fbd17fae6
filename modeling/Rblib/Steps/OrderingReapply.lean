import Rblib.Payload.NonceRuns
import Rblib.Steps.OrderingCorrect

namespace Rblib.Steps

open Platform PlatformTypes Payload Library Pipelines

variable {P Score ε : Type} [PlatformTypes P]

namespace OrderBy

variable {block : BlockContext P} {c q : Checkpoint P}

def Covers (q : Checkpoint P) (orders : List (Checkpoint P)) (top : Address → ℕ) : Prop :=
  ∀ (tx : Transaction P) (n : ℕ), (∃ x ∈ orders, (signer tx, n) ∈ x.nonces) ↔
    q.accountNonce (signer tx) ≤ n ∧ n < top (signer tx)

lemma Covers.perm {orders sorted : List (Checkpoint P)} {top : Address → ℕ} (h : Covers q orders top)
    (hp : sorted.Perm orders) : Covers q sorted top := by
  intro tx n
  rw [← h tx n]
  simp only [hp.mem_iff]

lemma covers_nil (c : Checkpoint P) : Covers c [] c.accountNonce := by
  intro tx n
  simp only [List.not_mem_nil, false_and, exists_false, false_iff]
  omega

lemma Covers.snoc {c' : Checkpoint P} {orders : List (Checkpoint P)} (h : Covers q orders c.accountNonce)
    (hs : Checkpoint.Spends c c')
    (hq : ∀ tx : Transaction P, q.accountNonce (signer tx) ≤ c.accountNonce (signer tx))
    (hc : ∀ tx : Transaction P, c.accountNonce (signer tx) ≤ c'.accountNonce (signer tx)) :
    Covers q (orders ++ [c']) c'.accountNonce := by
  intro tx n
  have hold := h tx n
  have hnew := hs tx n
  have hle := hq tx
  have hle' := hc tx
  simp only [List.mem_append, List.mem_singleton, or_and_right, exists_or, exists_eq_left]
  rw [hold, hnew]
  omega

lemma Covers.tail {q' x : Checkpoint P} {orders : List (Checkpoint P)} {top : Address → ℕ}
    (h : Covers q (x :: orders) top) (hx : ∀ y ∈ orders, Checkpoint.Before x y) (hs : Checkpoint.Spends q q')
    (hn : q'.nonces = x.nonces)
    (hq : ∀ tx : Transaction P, q.accountNonce (signer tx) ≤ q'.accountNonce (signer tx)) :
    Covers q' orders top := by
  intro tx n
  have hall := h tx n
  have hspent := hs tx n
  have hle := hq tx
  have hapart : (∃ y ∈ orders, (signer tx, n) ∈ y.nonces) → (signer tx, n) ∉ x.nonces := by
    rintro ⟨y, hy, hm⟩ hm'
    exact lt_irrefl n (hx y hy _ n n hm' hm)
  simp only [List.mem_cons, or_and_right, exists_or, exists_eq_left] at hall
  rw [hn] at hspent
  constructor
  · intro hy
    have hnot := mt hspent.mpr (hapart hy)
    have hin := hall.mp (.inr hy)
    omega
  · intro hin
    have hnot : (signer tx, n) ∉ x.nonces := by
      rw [hspent]
      omega
    exact (hall.mpr (by omega)).resolve_left hnot

lemma Covers.head {x : Checkpoint P} {orders : List (Checkpoint P)} {top : Address → ℕ}
    (h : Covers q (x :: orders) top) (hx : ∀ y ∈ orders, Checkpoint.Before x y)
    (hsigners : (x.transactions.map signer).Nodup) :
    ∀ tx ∈ x.transactions, q.accountNonce (signer tx) = nonce tx := by
  intro tx htx
  have hmem : (signer tx, nonce tx) ∈ x.nonces := List.mem_map_of_mem htx
  obtain ⟨hle, hlt⟩ := (h tx (nonce tx)).mp ⟨x, List.mem_cons_self, hmem⟩
  obtain ⟨y, hy, hm⟩ := (h tx (q.accountNonce (signer tx))).mpr ⟨le_refl _, hle.trans_lt hlt⟩
  obtain rfl | hy := List.mem_cons.mp hy
  · rw [SortedOrders.signers_eq] at hsigners
    exact (Prod.mk.inj (List.inj_on_of_nodup_map hsigners hm hmem rfl)).2
  · have hbefore := hx y hy _ _ _ hmem hm
    omega

lemma staged_covers {laws : NonceLaws block.evm} (only : NonceOnly laws) (hb : Checkpoint.Built block c) :
    ∃ first orders, Staged c first orders ∧ Checkpoint.Built block first ∧ Covers first orders c.accountNonce ∧
      ∀ tx : Transaction P, first.accountNonce (signer tx) ≤ c.accountNonce (signer tx) := by
  induction hb with
  | start id now =>
    exact ⟨_, _, staged_start block id now, .start id now, covers_nil _, fun tx => le_refl _⟩
  | @apply c c' executable id now hb hwf ha ih =>
    have laws' : NonceLaws c.block.evm := hb.block_eq ▸ laws
    have hadv := Checkpoint.apply_advances laws' hwf ha
    have hspends := Checkpoint.apply_spends only hb.block_eq hwf ha
    obtain ⟨result, -, rfl⟩ := Checkpoint.apply_eq ha
    obtain ⟨first, orders, hst, hfirst, hcov, hle⟩ := ih
    refine ⟨_, _, hst.applied (exists_barrier hb) result id now, hfirst, ?_, fun tx => ?_⟩
    · exact hcov.snoc hspends hle hadv.monotone
    · exact (hle tx).trans (hadv.monotone tx)
  | barrier id now hb ih =>
    exact ⟨_, _, staged_barrier rfl, hb.barrier id now, covers_nil _, fun tx => le_refl _⟩

lemma tryIntoExecutable_eq {x : Checkpoint P} {result : ExecutionResult P} (h : x.result = some result) :
    x.tryIntoExecutable = .ok result.source ∧ x.transactions = result.source.transactions := by
  have hmutation : x.data.mutation = .executable result := by
    rw [Checkpoint.result] at h
    split at h
    · cases h
    · next r hm => rw [hm, Option.some.inj h]
  constructor
  · simp only [Checkpoint.tryIntoExecutable, Checkpoint.asTransaction, Checkpoint.asBundle, h, Option.map_some]
    cases hs : result.source with
    | transaction tx => rfl
    | bundle b => rfl
  · rw [Checkpoint.transactions, hmutation]

structure Recorded (block : BlockContext P) (x : Checkpoint P) : Prop where
  source : ∃ result, x.result = some result ∧ NonceOnly.Repeatable block result.source
  nonempty : x.transactions ≠ []
  signers : (x.transactions.map signer).Nodup

lemma reapply_runs {laws : NonceLaws block.evm} (only : NonceOnly laws) (fresh : ℕ → ℕ × ℕ)
    {items : List (Checkpoint P)} {top : Address → ℕ} (hb : Checkpoint.Built block q)
    (hcov : Covers q items top) (hbefore : items.Pairwise Checkpoint.Before)
    (hrec : ∀ x ∈ items, Recorded block x) : ∃ p, reapply fresh items q = .ok p := by
  induction items generalizing q with
  | nil => exact ⟨q, rfl⟩
  | cons x items ih =>
    obtain ⟨hx, hrest⟩ := List.pairwise_cons.mp hbefore
    obtain ⟨⟨result, hresult, hrep⟩, hne, hsigners⟩ := hrec x List.mem_cons_self
    obtain ⟨hexec, htxs⟩ := tryIntoExecutable_eq hresult
    have hnonce := hcov.head hx hsigners
    rw [htxs] at hne hsigners hnonce
    obtain ⟨q', ha, hsame⟩ := Checkpoint.apply_repeatable only hb.block_eq hrep hne hnonce hsigners
      (fresh items.length).1 (fresh items.length).2
    have laws' : NonceLaws q.block.evm := hb.block_eq ▸ laws
    have hadv := Checkpoint.apply_advances laws' hrep.wellFormed ha
    have hspends := Checkpoint.apply_spends only hb.block_eq hrep.wellFormed ha
    have hnonces : q'.nonces = x.nonces := by
      rw [Checkpoint.nonces, hsame, ← htxs, Checkpoint.nonces]
    obtain ⟨p, hp⟩ := ih (hb.apply hrep.wellFormed ha) (hcov.tail hx hspends hnonces hadv.monotone) hrest
      fun y hy => hrec y (List.mem_cons_of_mem _ hy)
    exact ⟨p, reapply_cons_ok.mpr ⟨_, hexec, q', ha, hp⟩⟩

variable [LinearOrder Score] {score : Checkpoint P → Except ε Score}

/-- The step applies the staged orders again on the last barrier, in an order that keeps the nonces of
every signer. It succeeds with the result, or fails with the error of the first order that does not apply
where it stands now; orders that need nothing from each other but nonces always apply. -/
theorem reordering_outcome (laws : NonceLaws block.evm) (hb : Checkpoint.Built block c)
    (hscore : ∀ ck ∈ SortedOrders.executables c.historyStaging, ∃ sc, score ck = .ok sc)
    (hdistinct : ((SortedOrders.executables c.historyStaging).map Checkpoint.hash).Nodup)
    (hsigners : ∀ ck ∈ SortedOrders.executables c.historyStaging, (ck.transactions.map signer).Nodup)
    (visit : MapOrder (B256 × Checkpoint P)) (fresh : ℕ → ℕ × ℕ) :
    ∃ first orders sorted, c.historyStaging = first :: orders ∧ first.isBarrier = true ∧
      sorted.Perm orders ∧ sorted.Pairwise Checkpoint.Before ∧
      (∀ p, step score visit fresh c = .ok (.ok p) ↔ reapply fresh sorted first = .ok p) ∧
      (∀ e, step score visit fresh c = .ok (.fail e) ↔
        ∃ error, e = .execution error ∧ reapply fresh sorted first = .error error) ∧
      (NonceOnly laws → (∀ ck ∈ orders, ck.transactions ≠ []) →
        ∃ p, step score visit fresh c = .ok (.ok p)) := by
  obtain ⟨first, orders, hst⟩ := staged hb
  obtain ⟨s, hs, ho, hscores, hnonces⟩ := SortedOrders.tryFrom_ok hscore visit
  have hholds := SortedOrders.holds_of_distinct hdistinct ho hscores hnonces
  have hsep := separable_executables laws hb (staging_within_history c) hscore hdistinct
  rw [executables_staging hst] at hdistinct hsigners hholds hsep
  have hlen : orders.length ≤ s.allOrders.length := by
    rw [ho, SortedOrders.collectOrders_eq (by rwa [executables_staging hst]), SortedOrders.entries_length,
      executables_staging hst]
  have hperm : s.intoIter.Perm orders := hholds.drain_perm hsep hsigners hlen
  have hbefore : s.intoIter.Pairwise Checkpoint.Before := hholds.drain_before hsep _
  have hstep := step_eq hst visit fresh hs hperm
  refine ⟨first, orders, s.intoIter, hst.staging, hst.barrier, hperm, hbefore, fun p => ?_, fun e => ?_, ?_⟩
  · rw [hstep]
    cases hr : reapply fresh s.intoIter first with
    | error e => simp
    | ok p' => simp
  · rw [hstep]
    cases hr : reapply fresh s.intoIter first with
    | error e' => simp [eq_comm]
    | ok p => simp
  · intro only hne
    obtain ⟨first', orders', hst', hfirst, hcov, -⟩ := staged_covers only hb
    obtain ⟨rfl, rfl⟩ := List.cons.inj (hst'.staging.symm.trans hst.staging)
    have hrec : ∀ x ∈ s.intoIter, Recorded block x := by
      intro x hx
      have hx' : x ∈ orders' := hperm.mem_iff.mp hx
      have hbarrier := hst.executable x hx'
      rw [Checkpoint.isBarrier, Option.isNone_eq_false_iff, Option.isSome_iff_exists] at hbarrier
      obtain ⟨result, hr⟩ := hbarrier
      have hhist : x ∈ c.history := by
        apply (staging_within_history c).subset
        rw [hst.staging]
        exact List.mem_cons_of_mem _ hx'
      exact ⟨⟨result, hr, hb.repeatable x hhist result hr⟩, hne x hx', hsigners x hx'⟩
    obtain ⟨p, hp⟩ := reapply_runs only fresh hfirst (hcov.perm hperm) hbefore hrec
    exact ⟨p, by rw [hstep, hp]⟩

section Examples

lemma devnet_nonceOnly : NonceOnly Devnet.laws where
  accepted _ h := ⟨true, _, if_pos h.symm, rfl⟩
  next h := by
    obtain ⟨-, rfl⟩ := Devnet.transact_ok h
    exact (Devnet.nonceAt_snoc _ _ _ _).trans (if_pos rfl)
  others h other hne := by
    obtain ⟨-, rfl⟩ := Devnet.transact_ok h
    exact (Devnet.nonceAt_snoc _ _ _ _).trans (if_neg (Ne.symm hne))

theorem loosePayload_reordered : ∃ p, step flatScore default (fun n => (n, n)) loosePayload = .ok (.ok p) := by
  have hb : Checkpoint.Built Devnet.block loosePayload :=
    built_extend (built_extend (built_extend (.start 0 0) trivial) trivial) trivial
  obtain ⟨first, orders, sorted, hstaging, -, -, -, -, -, hok⟩ := reordering_outcome Devnet.laws hb
    (fun ck _ => ⟨0, rfl⟩) (by decide +kernel) (by decide +kernel) default fun n => (n, n)
  apply hok devnet_nonceOnly
  intro ck hck hnil
  have hall : ∀ x ∈ loosePayload.historyStaging.tail, x.transactions.length = 1 := by decide +kernel
  rw [hstaging] at hall
  have hone := hall ck hck
  rw [hnil] at hone
  exact absurd hone (by decide)

def coins (db : DatabaseRef) (commits : List (Address × ℕ)) : ℕ :=
  Devnet.nonceAt db commits 7 - Devnet.nonceAt db commits 8

def stipend : Evm Devnet where
  transact db commits tx bytes :=
    if PlainTx.signer tx = 8 ∧ coins db commits = 0 then .error "insufficient funds"
    else Devnet.evm.transact db commits tx bytes
  takeBundle := Devnet.evm.takeBundle

lemma stipend_transact {db : DatabaseRef} {commits : List (EvmState Devnet)} {tx : Transaction Devnet}
    {bytes : Bytes} {r : TransactionExecutionResult Devnet × EvmState Devnet}
    (h : stipend.transact db commits tx bytes = .ok r) : Devnet.evm.transact db commits tx bytes = .ok r := by
  simp only [stipend] at h
  split at h
  · cases h
  · exact h

lemma stipend_executed {db : DatabaseRef} {txs : List (Transaction Devnet)} {commits : List (EvmState Devnet)}
    (h : Executed stipend db txs commits) : Executed Devnet.evm db txs commits := by
  induction h with
  | nil => exact .nil
  | snoc _ ht ih => exact ih.snoc (stipend_transact ht)

def stipendLaws : NonceLaws stipend where
  nonceAt := Devnet.nonceAt
  read := Devnet.laws.read
  checked h := Devnet.laws.checked (stipend_transact h)
  raised h := Devnet.laws.raised (stipend_transact h)
  kept h := Devnet.laws.kept (stipend_transact h)
  recorded h := Devnet.laws.recorded (stipend_executed h)

def stipendBlock : BlockContext Devnet := { Devnet.block with evm := stipend }

def stipendPayload : Checkpoint Devnet :=
  extend (extend (Checkpoint.newAtBlock stipendBlock 0 0) (.transaction (PlainTx.mk 1 7 0)))
    (.transaction (PlainTx.mk 2 8 0))

def spenderFirst (c : Checkpoint Devnet) : Except Unit ℕ := .ok (if c.signers = [8] then 1 else 0)

def rejection : Except OrderByPanic (ControlFlow (Checkpoint Devnet) (OrderByError Devnet Unit)) → Option String
  | .ok (.fail (.execution (.invalidTransaction error))) => some error
  | _ => none

lemma eq_of_rejection {outcome : Except OrderByPanic (ControlFlow (Checkpoint Devnet) (OrderByError Devnet Unit))}
    {error : String} (h : rejection outcome = some error) :
    outcome = .ok (.fail (.execution (.invalidTransaction error))) := by
  unfold rejection at h
  split at h
  · cases h
    rfl
  · cases h

theorem stipendPayload_rejected : Nonempty (NonceLaws stipendBlock.evm) ∧
    Checkpoint.Built stipendBlock stipendPayload ∧
    stipendPayload.historyStaging.length = 3 ∧
    (∀ ck ∈ stipendPayload.historyStaging, ∃ sc, spenderFirst ck = .ok sc) ∧
    step spenderFirst default (fun n => (n, n)) stipendPayload =
      .ok (.fail (.execution (.invalidTransaction "insufficient funds"))) ∧
    ¬ ∃ p, step spenderFirst default (fun n => (n, n)) stipendPayload = .ok (.ok p) := by
  have hrejected : step spenderFirst default (fun n => (n, n)) stipendPayload =
      .ok (.fail (.execution (.invalidTransaction "insufficient funds"))) := eq_of_rejection (by decide +kernel)
  refine ⟨⟨stipendLaws⟩, built_extend (built_extend (.start 0 0) trivial) trivial, by decide +kernel,
    fun ck _ => ⟨_, rfl⟩, hrejected, ?_⟩
  rintro ⟨p, hp⟩
  rw [hrejected] at hp
  cases hp

end Examples

end OrderBy

end Rblib.Steps
