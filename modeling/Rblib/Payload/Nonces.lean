import Rblib.Payload.BundleRun
import Rblib.Payload.Checkpoint

/-! Nonces along a chain of checkpoints. -/

namespace Rblib.Payload

open Platform PlatformTypes Library

variable {P : Type} [PlatformTypes P]

inductive Executed (evm : Evm P) (db : DatabaseRef) : List (Transaction P) → List (EvmState P) → Prop
  | nil : Executed evm db [] []
  | snoc {txs commits tx bytes result state} : Executed evm db txs commits →
      evm.transact db commits tx bytes = .ok (result, state) →
      Executed evm db (txs ++ [tx]) (commits ++ [state])

/-- A transaction runs only with the nonce its signer has at that point, raises that nonce, and never
lowers the nonce of an account that signs transactions; the bundle state holds the nonces of the accounts
that changed. -/
structure NonceLaws (evm : Evm P) where
  nonceAt : DatabaseRef → List (EvmState P) → Address → ℕ
  read : ∀ db a, nonceAt db [] a = match db.basicRef a with
    | .ok (some info) => info.nonce
    | _ => 0
  checked : ∀ {db commits tx bytes result state}, evm.transact db commits tx bytes = .ok (result, state) →
    nonceAt db commits (signer tx) = nonce tx
  raised : ∀ {db commits tx bytes result state}, evm.transact db commits tx bytes = .ok (result, state) →
    nonce tx < nonceAt db (commits ++ [state]) (signer tx)
  kept : ∀ {db commits tx bytes result state}, evm.transact db commits tx bytes = .ok (result, state) →
    ∀ other : Transaction P, nonceAt db commits (signer other) ≤ nonceAt db (commits ++ [state]) (signer other)
  recorded : ∀ {db txs commits}, Executed evm db txs commits → ∀ a,
    nonceAt db commits a = match (evm.takeBundle db commits).account a with
      | none => nonceAt db [] a
      | some acc => (acc.info.map AccountInfo.nonce).getD 0

def signerNonce (tx : Transaction P) : Address × ℕ := (signer tx, nonce tx)

namespace Executed

variable {evm : Evm P} {db : DatabaseRef} {txs : List (Transaction P)} {commits : List (EvmState P)}

lemma nonce_le (h : Executed evm db txs commits) (laws : NonceLaws evm) (other : Transaction P) :
    laws.nonceAt db [] (signer other) ≤ laws.nonceAt db commits (signer other) := by
  induction h with
  | nil => exact le_refl _
  | snoc _ ht ih => exact ih.trans (laws.kept ht other)

lemma nonce_mem (h : Executed evm db txs commits) (laws : NonceLaws evm) {tx : Transaction P} (hm : tx ∈ txs) :
    laws.nonceAt db [] (signer tx) ≤ nonce tx ∧ nonce tx < laws.nonceAt db commits (signer tx) := by
  induction h with
  | nil => exact absurd hm List.not_mem_nil
  | snoc he ht ih =>
    obtain hm | hm := List.mem_append.mp hm
    · obtain ⟨hlow, hhigh⟩ := ih hm
      exact ⟨hlow, hhigh.trans_le (laws.kept ht tx)⟩
    · obtain rfl := List.mem_singleton.mp hm
      exact ⟨laws.checked ht ▸ he.nonce_le laws tx, laws.raised ht⟩

lemma nodup (h : Executed evm db txs commits) (laws : NonceLaws evm) : (txs.map signerNonce).Nodup := by
  induction h with
  | nil => exact List.nodup_nil
  | @snoc txs commits tx bytes result state he ht ih =>
    rw [List.map_append, List.nodup_append]
    refine ⟨ih, by simp, ?_⟩
    intro a ha b hb hab
    obtain ⟨t, htm, rfl⟩ := List.mem_map.mp ha
    rw [List.map_singleton, List.mem_singleton] at hb
    obtain ⟨hs, hn⟩ := Prod.mk.inj (hab.trans hb)
    have hlt := (he.nonce_mem laws htm).2
    rw [hs, laws.checked ht] at hlt
    omega

end Executed

/-- Every transaction of the bundle comes with its encoding, and no two of them share a hash unless they
have the same signer and nonce. -/
structure BundleWellFormed (bundle : FlashbotsBundle P) : Prop where
  encoded : bundle.recovered.length = bundle.inner.txs.length
  hashed : ∀ tx ∈ bundle.recovered, ∀ other ∈ bundle.recovered, txHash tx = txHash other →
    signerNonce tx = signerNonce other

def Executable.WellFormed : Executable P → Prop
  | transaction _ => True
  | bundle b => BundleWellFormed b

section Bundles

variable {block : BlockContext P} {db : DatabaseRef}

def Accounted (block : BlockContext P) (db : DatabaseRef) (processed : List (Transaction P))
    (acc : Executable.Progress P) : Prop :=
  ∃ executed dropped, Executed block.evm db executed acc.commits ∧ acc.discarded = dropped.map txHash ∧
    processed.Perm (executed ++ dropped)

lemma accounted_step {bundle : FlashbotsBundle P} {processed : List (Transaction P)}
    {acc acc' : Executable.Progress P} {t : Transaction P × Bytes} (h : Accounted block db processed acc)
    (ht : Executable.executeBundleTransaction bundle block db acc t = .ok acc') :
    Accounted block db (processed ++ [t.1]) acc' := by
  obtain ⟨executed, dropped, he, hd, hp⟩ := h
  have hcommit : (processed ++ [t.1]).Perm ((executed ++ [t.1]) ++ dropped) := by
    refine (hp.append_right [t.1]).trans ?_
    rw [List.append_assoc, List.append_assoc]
    exact List.perm_append_comm.append_left executed
  have hdrop : Accounted block db (processed ++ [t.1])
      { acc with discarded := acc.discarded ++ [txHash t.1] } := by
    refine ⟨executed, dropped ++ [t.1], he, ?_, ?_⟩
    · rw [hd, List.map_append, List.map_singleton]
    · rw [← List.append_assoc]
      exact hp.append_right _
  rcases executeBundleTransaction_ok ht with ⟨result, state, hr, -, rfl⟩ | ⟨-, -, rfl⟩
  · exact ⟨executed ++ [t.1], dropped, he.snoc hr, hd, hcommit⟩
  · exact hdrop

lemma accounted_fold {bundle : FlashbotsBundle P} {processed : List (Transaction P)}
    {acc acc' : Executable.Progress P} (ts : List (Transaction P × Bytes))
    (h : Accounted block db processed acc)
    (ht : ts.foldlM (Executable.executeBundleTransaction bundle block db) acc = .ok acc') :
    Accounted block db (processed ++ ts.map Prod.fst) acc' := by
  induction ts generalizing processed acc with
  | nil =>
    rw [List.map_nil, List.append_nil]
    exact Except.ok.inj ht ▸ h
  | cons t ts ih =>
    obtain ⟨acc₁, hs, ht⟩ := foldlM_cons_eq_ok.mp ht
    have hrest := ih (accounted_step h hs) ht
    rwa [List.append_assoc, List.singleton_append] at hrest

lemma recovered_withoutTransaction {bundle : FlashbotsBundle P} {hash : B256}
    (h : ∃ t ∈ bundle.recovered, txHash t = hash) :
    ∃ t, txHash t = hash ∧ bundle.recovered.Perm (t :: (bundle.withoutTransaction hash).recovered) := by
  obtain ⟨t, ht, hh⟩ := h
  have hsome : (bundle.recovered.findIdx? fun t => txHash t == hash).isSome := by
    rw [List.findIdx?_isSome, List.any_eq_true]
    exact ⟨t, ht, by simpa using hh⟩
  obtain ⟨i, hi⟩ := Option.isSome_iff_exists.mp hsome
  obtain ⟨hlt, hhash, -⟩ := List.findIdx?_eq_some_iff_getElem.mp hi
  refine ⟨bundle.recovered[i], by simpa using hhash, ?_⟩
  simp only [FlashbotsBundle.withoutTransaction, hi]
  exact (List.getElem_cons_eraseIdx_perm hlt).symm

lemma withoutTransactions_perm {all executed : List (Transaction P)}
    (hall : ∀ tx ∈ all, ∀ other ∈ all, txHash tx = txHash other → signerNonce tx = signerNonce other)
    (dropped : List (Transaction P)) (hdropped : dropped ⊆ all) (bundle : FlashbotsBundle P)
    (hsub : bundle.recovered ⊆ all)
    (h : (bundle.recovered.map fun tx => (txHash tx, signerNonce tx)).Perm
      ((executed ++ dropped).map fun tx => (txHash tx, signerNonce tx))) :
    (((dropped.map txHash).foldl FlashbotsBundle.withoutTransaction bundle).recovered.map fun tx =>
      (txHash tx, signerNonce tx)).Perm (executed.map fun tx => (txHash tx, signerNonce tx)) := by
  induction dropped generalizing bundle with
  | nil => rwa [List.append_nil] at h
  | cons d dropped ih =>
    obtain ⟨hd, hdropped⟩ := List.cons_subset.mp hdropped
    have hmem : (txHash d, signerNonce d) ∈ bundle.recovered.map fun tx => (txHash tx, signerNonce tx) := by
      rw [h.mem_iff]
      exact List.mem_map_of_mem (List.mem_append_right _ List.mem_cons_self)
    obtain ⟨u, hu, hkey⟩ := List.mem_map.mp hmem
    obtain ⟨t, ht, hperm⟩ := recovered_withoutTransaction ⟨u, hu, (Prod.mk.inj hkey).1⟩
    have hta : t ∈ all := hsub (hperm.mem_iff.mpr List.mem_cons_self)
    apply ih hdropped
    · exact fun x hx => hsub (hperm.mem_iff.mpr (List.mem_cons_of_mem _ hx))
    · have hleft := (hperm.map fun tx => (txHash tx, signerNonce tx)).symm.trans
        (h.trans (List.perm_middle.map _))
      rw [List.map_cons, List.map_cons, ht, hall t hta d hd ht] at hleft
      exact hleft.cons_inv

lemma executeBundle_executed {bundle : FlashbotsBundle P} {result : ExecutionResult P}
    (hwf : BundleWellFormed bundle)
    (h : Executable.executeBundle bundle block db = .ok result) :
    ∃ txs commits, Executed block.evm db txs commits ∧ result.state = block.evm.takeBundle db commits ∧
      (result.source.transactions.map signerNonce).Perm (txs.map signerNonce) := by
  obtain ⟨-, acc, hf, rfl⟩ := executeBundle_ok_iff.mp h
  have hstart : Accounted block db [] {} := ⟨[], [], .nil, rfl, .refl _⟩
  obtain ⟨executed, dropped, he, hd, hp⟩ := accounted_fold _ hstart hf
  rw [List.nil_append, FlashbotsBundle.transactionsEncoded, List.map_fst_zip hwf.encoded.le] at hp
  have hkeys := withoutTransactions_perm hwf.hashed dropped
    (fun t ht => hp.mem_iff.mpr (List.mem_append_right _ ht)) bundle (List.Subset.refl _) (hp.map _)
  refine ⟨executed, acc.commits, he, rfl, ?_⟩
  have hnonces := hkeys.map Prod.snd
  rw [List.map_map, List.map_map, ← hd] at hnonces
  exact hnonces

lemma execute_executed {executable : Executable P} {result : ExecutionResult P}
    (hwf : executable.WellFormed) (h : executable.execute block db = .ok result) :
    ∃ txs commits, Executed block.evm db txs commits ∧ result.state = block.evm.takeBundle db commits ∧
      (result.source.transactions.map signerNonce).Perm (txs.map signerNonce) := by
  cases executable with
  | bundle b => exact executeBundle_executed hwf h
  | transaction tx =>
    obtain ⟨r, ht, rfl⟩ := execute_transaction_ok h
    exact ⟨[tx], [r.2], Executed.nil.snoc ht, rfl, .refl _⟩

end Bundles

namespace Checkpoint

inductive Built (block : BlockContext P) : Checkpoint P → Prop
  | start (id now : ℕ) : Built block (newAtBlock block id now)
  | apply {c c' : Checkpoint P} {executable : Executable P} {id now : ℕ} : Built block c →
      executable.WellFormed → c.apply executable id now = .ok c' → Built block c'
  | barrier {c : Checkpoint P} (id now : ℕ) : Built block c → Built block (c.barrier id now)

variable {block : BlockContext P} {c c' : Checkpoint P}

lemma Built.block_eq (h : Built block c) : c.block = block := by
  induction h with
  | start id now => rfl
  | apply hb hwf ha ih =>
    obtain ⟨result, -, rfl⟩ := apply_eq ha
    exact ih
  | barrier id now hb ih => exact ih

def accountNonce (c : Checkpoint P) (a : Address) : ℕ :=
  match c.basicRef a with
  | .ok (some info) => info.nonce
  | _ => 0

lemma basicRef_next {d : CheckpointData P} {a : Address}
    (h : (((next c d).account a).bind BundleAccount.info) = none) : (next c d).basicRef a = c.basicRef a := by
  rw [basicRef, iter, List.findSome?_cons, h]
  rfl

lemma accountNonce_recorded {d : CheckpointData P} {a : Address} {info : AccountInfo}
    (h : (((next c d).account a).bind BundleAccount.info) = some info) :
    (next c d).accountNonce a = info.nonce := by
  rw [accountNonce, basicRef, iter, List.findSome?_cons, h]

lemma accountNonce_applied (laws : NonceLaws c.block.evm) {txs : List (Transaction P)}
    {commits : List (EvmState P)} {result : ExecutionResult P}
    (he : Executed c.block.evm c.database txs commits)
    (hstate : result.state = c.block.evm.takeBundle c.database commits) (id now : ℕ) (tx : Transaction P) :
    (c.applyWith (.executable result) id now).accountNonce (signer tx) =
      laws.nonceAt c.database commits (signer tx) := by
  have hacc : (c.applyWith (.executable result) id now).account (signer tx) =
      (c.block.evm.takeBundle c.database commits).account (signer tx) := by
    rw [← hstate]
    rfl
  have hread : laws.nonceAt c.database [] (signer tx) = c.accountNonce (signer tx) :=
    laws.read c.database (signer tx)
  have hrec := laws.recorded he (signer tx)
  cases hb : (c.block.evm.takeBundle c.database commits).account (signer tx) with
  | none =>
    simp only [hb, hread] at hrec
    have hskip : ((c.applyWith (.executable result) id now).account (signer tx)).bind BundleAccount.info =
        none := by
      rw [hacc, hb]
      rfl
    rw [hrec, accountNonce, applyWith, basicRef_next hskip, accountNonce]
  | some acc =>
    have hinfo : ((c.applyWith (.executable result) id now).account (signer tx)).bind BundleAccount.info =
        acc.info := by
      rw [hacc, hb]
      rfl
    simp only [hb] at hrec
    cases hi : acc.info with
    | some info =>
      rw [hi] at hrec hinfo
      rw [hrec, applyWith, accountNonce_recorded hinfo]
      rfl
    | none =>
      -- the account is gone, so its nonce was zero before and the older entries read the same
      rw [hi] at hrec hinfo
      have hle := he.nonce_le laws tx
      rw [hread, hrec] at hle
      rw [hrec, accountNonce, applyWith, basicRef_next hinfo, ← accountNonce]
      exact Nat.le_zero.mp hle

structure Advances (c c' : Checkpoint P) : Prop where
  nodup : c'.nonces.Nodup
  range : ∀ e ∈ c'.nonces, c.accountNonce e.1 ≤ e.2 ∧ e.2 < c'.accountNonce e.1
  monotone : ∀ tx : Transaction P, c.accountNonce (signer tx) ≤ c'.accountNonce (signer tx)

lemma apply_advances {executable : Executable P} {id now : ℕ} (laws : NonceLaws c.block.evm)
    (hwf : executable.WellFormed) (h : c.apply executable id now = .ok c') : Advances c c' := by
  obtain ⟨result, hr, rfl⟩ := apply_eq h
  obtain ⟨txs, commits, he, hstate, hperm⟩ := execute_executed hwf hr
  have hread : ∀ a, laws.nonceAt c.database [] a = c.accountNonce a := laws.read c.database
  have hafter := accountNonce_applied laws he hstate id now
  have hnonces : (c.applyWith (.executable result) id now).nonces =
      result.source.transactions.map signerNonce := rfl
  refine ⟨?_, ?_, ?_⟩
  · rw [hnonces, hperm.nodup_iff]
    exact he.nodup laws
  · intro e hm
    rw [hnonces, hperm.mem_iff] at hm
    obtain ⟨tx, htx, rfl⟩ := List.mem_map.mp hm
    obtain ⟨hlow, hhigh⟩ := he.nonce_mem laws htx
    rw [hread] at hlow
    exact ⟨hlow, by rw [signerNonce, hafter tx]; exact hhigh⟩
  · intro tx
    rw [hafter tx, ← hread]
    exact he.nonce_le laws tx

lemma accountNonce_barrier (c : Checkpoint P) (id now : ℕ) (a : Address) :
    (c.barrier id now).accountNonce a = c.accountNonce a := by
  rw [accountNonce, barrier, applyWith, basicRef_next rfl, accountNonce]

lemma barrier_advances (c : Checkpoint P) (id now : ℕ) : Advances c (c.barrier id now) := by
  refine ⟨List.nodup_nil, fun e he => absurd he List.not_mem_nil, fun tx => ?_⟩
  rw [accountNonce_barrier]

def Before (c c' : Checkpoint P) : Prop :=
  ∀ a n n', (a, n) ∈ c.nonces → (a, n') ∈ c'.nonces → n < n'

structure NonceOrdered (c : Checkpoint P) : Prop where
  below : ∀ ck ∈ c.history, ∀ e ∈ ck.nonces, e.2 < c.accountNonce e.1
  before : c.history.Pairwise Before
  nodup : ∀ ck ∈ c.history, ck.nonces.Nodup

lemma NonceOrdered.next {d : CheckpointData P} (h : NonceOrdered c) (ha : Advances c (next c d)) :
    NonceOrdered (next c d) := by
  have hlast : ∀ {p : Checkpoint P → Prop}, (∀ ck ∈ c.history, p ck) → p (.next c d) →
      ∀ ck ∈ (Checkpoint.next c d).history, p ck := by
    intro p hp hl ck hck
    rw [history_next, List.mem_append, List.mem_singleton] at hck
    obtain hck | rfl := hck
    · exact hp ck hck
    · exact hl
  refine ⟨?_, ?_, ?_⟩
  · apply hlast
    · intro ck hck e he
      obtain ⟨tx, -, rfl⟩ := List.mem_map.mp he
      exact (h.below ck hck _ he).trans_le (ha.monotone tx)
    · exact fun e he => (ha.range e he).2
  · rw [history_next, List.pairwise_append]
    refine ⟨h.before, List.pairwise_singleton _ _, ?_⟩
    intro ck hck last hl a n n' hn hn'
    rw [List.mem_singleton.mp hl] at hn'
    have hlow := (ha.range _ hn').1
    have hhigh := h.below ck hck _ hn
    dsimp only at hlow hhigh
    omega
  · exact hlast h.nodup ha.nodup

lemma Built.nonceOrdered (h : Built block c) (laws : NonceLaws block.evm) : NonceOrdered c := by
  induction h with
  | start id now =>
    refine ⟨?_, List.pairwise_singleton _ _, ?_⟩
    · intro ck hck e he
      obtain rfl := List.mem_singleton.mp hck
      exact absurd he List.not_mem_nil
    · intro ck hck
      obtain rfl := List.mem_singleton.mp hck
      exact List.nodup_nil
  | @apply c c' executable id now hb hwf ha ih =>
    have laws' : NonceLaws c.block.evm := hb.block_eq ▸ laws
    have hadv := apply_advances laws' hwf ha
    obtain ⟨result, -, rfl⟩ := apply_eq ha
    exact ih.next hadv
  | barrier id now hb ih => exact ih.next (barrier_advances _ id now)

end Checkpoint

namespace Devnet

lemma nonceAt_snoc (db : DatabaseRef) (commits : List (Address × ℕ)) (c : Address × ℕ) (a : Address) :
    nonceAt db (commits ++ [c]) a = if c.1 = a then c.2 else nonceAt db commits a := by
  rw [nonceAt, List.reverse_append, List.reverse_singleton, List.singleton_append, List.find?_cons]
  by_cases h : c.1 = a
  · simp [h]
  · simp [h, nonceAt]

lemma transact_ok {db : DatabaseRef} {commits : List (EvmState Devnet)} {tx : Transaction Devnet} {bytes : Bytes}
    {result : TransactionExecutionResult Devnet} {state : EvmState Devnet}
    (h : evm.transact db commits tx bytes = .ok (result, state)) :
    nonceAt db commits (signer tx) = nonce tx ∧ state = (signer tx, nonce tx + 1) := by
  simp only [evm] at h
  split at h
  · next hn => exact ⟨hn.symm, (Prod.mk.inj (Except.ok.inj h)).2.symm⟩
  · exact absurd h (by simp)

def laws : NonceLaws evm where
  nonceAt := nonceAt
  read db a := rfl
  checked h := (transact_ok h).1
  raised h := by
    obtain ⟨-, rfl⟩ := transact_ok h
    rw [nonceAt_snoc, if_pos rfl]
    exact Nat.lt_succ_self _
  kept {_ commits tx _ _ _} h other := by
    obtain ⟨hn, rfl⟩ := transact_ok h
    rw [nonceAt_snoc]
    split
    · next hs =>
      rw [← hs]
      exact hn.trans_le (Nat.le_succ _)
    · exact le_refl _
  recorded {db _ commits} _ a := by
    by_cases h : List.any commits (fun (c : Address × ℕ) => decide (c.1 = a)) = true
    · simp only [BundleState.account, evm, h, if_true]
      rfl
    · have hnone : (List.reverse commits).find? (fun (c : Address × ℕ) => decide (c.1 = a)) = none := by
        rw [List.find?_eq_none]
        intro c hc hca
        exact h (List.any_eq_true.mpr ⟨c, List.mem_reverse.mp hc, hca⟩)
      have hsame : nonceAt db commits a = nonceAt db [] a := by
        rw [nonceAt, hnone]
        rfl
      simp only [BundleState.account, evm, h, Bool.false_eq_true, if_false]
      exact hsame

end Devnet

end Rblib.Payload
