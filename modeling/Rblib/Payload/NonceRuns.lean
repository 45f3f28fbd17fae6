import Rblib.Payload.Nonces

namespace Rblib.Payload

open Platform PlatformTypes Library

variable {P : Type} [PlatformTypes P]

/-- A transaction runs, and succeeds, exactly with the nonce of its signer; it raises that nonce by one and
leaves the nonces of the other signers alone. -/
structure NonceOnly {evm : Evm P} (laws : NonceLaws evm) : Prop where
  accepted : ∀ {db commits} {tx : Transaction P} (bytes), laws.nonceAt db commits (signer tx) = nonce tx →
    ∃ result state, evm.transact db commits tx bytes = .ok (result, state) ∧ isSuccess result = true
  next : ∀ {db commits tx bytes result state}, evm.transact db commits tx bytes = .ok (result, state) →
    laws.nonceAt db (commits ++ [state]) (signer tx) = nonce tx + 1
  others : ∀ {db commits tx bytes result state}, evm.transact db commits tx bytes = .ok (result, state) →
    ∀ other : Transaction P, signer other ≠ signer tx →
      laws.nonceAt db (commits ++ [state]) (signer other) = laws.nonceAt db commits (signer other)

namespace NonceOnly

variable {block : BlockContext P} {laws : NonceLaws block.evm} {db : DatabaseRef}

lemma executed_nonces (only : NonceOnly laws) {txs : List (Transaction P)} {commits : List (EvmState P)}
    (h : Executed block.evm db txs commits) (tx : Transaction P) (n : ℕ) :
    (signer tx, n) ∈ txs.map signerNonce ↔
      laws.nonceAt db [] (signer tx) ≤ n ∧ n < laws.nonceAt db commits (signer tx) := by
  induction h with
  | nil =>
    simp only [List.map_nil, List.not_mem_nil, false_iff]
    omega
  | @snoc txs commits t bytes result state he ht ih =>
    have hle := he.nonce_le laws tx
    rw [List.map_append, List.mem_append, ih, List.map_singleton, List.mem_singleton, signerNonce,
      Prod.mk.injEq]
    by_cases hs : signer tx = signer t
    · have hchecked := laws.checked ht
      have hnext := only.next ht
      rw [← hs] at hchecked hnext
      rw [hnext, hchecked, and_iff_right hs]
      rw [hchecked] at hle
      omega
    · rw [only.others ht tx hs]
      simp only [hs, false_and, or_false]

lemma bundle_runs (only : NonceOnly laws) (bundle : FlashbotsBundle P) (ts : List (Transaction P × Bytes))
    (acc : Executable.Progress P) (hnonce : ∀ t ∈ ts, laws.nonceAt db acc.commits (signer t.1) = nonce t.1)
    (hsigners : (ts.map fun t => signer t.1).Nodup) :
    ∃ acc', ts.foldlM (Executable.executeBundleTransaction bundle block db) acc = .ok acc' ∧
      acc'.discarded = acc.discarded := by
  induction ts generalizing acc with
  | nil => exact ⟨acc, rfl, rfl⟩
  | cons t ts ih =>
    obtain ⟨result, state, hrun, hs⟩ := only.accepted t.2 (hnonce t List.mem_cons_self)
    rw [List.map_cons, List.nodup_cons] at hsigners
    have hrest : ∀ u ∈ ts, laws.nonceAt db (acc.commits ++ [state]) (signer u.1) = nonce u.1 := by
      intro u hu
      rw [only.others hrun]
      · exact hnonce u (List.mem_cons_of_mem _ hu)
      · intro heq
        apply hsigners.1
        rw [← heq]
        exact List.mem_map_of_mem hu
    obtain ⟨acc', hf, hd⟩ := ih
      { acc with commits := acc.commits ++ [state], results := acc.results ++ [result] } hrest hsigners.2
    exact ⟨acc', foldlM_cons_eq_ok.mpr ⟨_, executeBundleTransaction_taken hrun hs, hf⟩, hd⟩

def Repeatable (block : BlockContext P) : Executable P → Prop
  | .transaction _ => True
  | .bundle b => BundleWellFormed b ∧
      (b.transactions ≠ [] → b.eligibilityAt block.timestamp block.number = .eligible)

lemma Repeatable.wellFormed {executable : Executable P} (h : Repeatable block executable) :
    executable.WellFormed := by
  cases executable with
  | transaction tx => trivial
  | bundle b => exact h.1

lemma execute_repeatable (only : NonceOnly laws) {executable : Executable P}
    (hrep : Repeatable block executable) (hne : executable.transactions ≠ [])
    (hnonce : ∀ tx ∈ executable.transactions, laws.nonceAt db [] (signer tx) = nonce tx)
    (hsigners : (executable.transactions.map signer).Nodup) :
    ∃ result, executable.execute block db = .ok result ∧ result.source = executable := by
  cases executable with
  | transaction tx =>
    obtain ⟨result, state, hrun, -⟩ := only.accepted (encoded2718 tx) (hnonce tx List.mem_cons_self)
    refine ⟨⟨.transaction tx, [result], block.evm.takeBundle db [state]⟩, ?_, rfl⟩
    rw [Executable.execute, Executable.executeTransaction, hrun]
    rfl
  | bundle b =>
    have hfst : b.transactionsEncoded.map Prod.fst = b.recovered := by
      rw [FlashbotsBundle.transactionsEncoded, List.map_fst_zip hrep.1.encoded.le]
    have hmem : ∀ t ∈ b.transactionsEncoded, t.1 ∈ b.recovered := by
      intro t ht
      rw [← hfst]
      exact List.mem_map_of_mem ht
    obtain ⟨acc, hf, hd⟩ := only.bundle_runs b b.transactionsEncoded {} (fun t ht => hnonce t.1 (hmem t ht)) (by
      have hmap : (b.transactionsEncoded.map fun t => signer t.1) = b.recovered.map signer := by
        rw [← hfst, List.map_map]
        rfl
      rw [hmap]
      exact hsigners)
    refine ⟨_, executeBundle_ok_iff.mpr ⟨hrep.2 hne, acc, hf, rfl⟩, ?_⟩
    rw [hd]
    rfl

end NonceOnly

lemma withoutTransaction_wellFormed {bundle : FlashbotsBundle P} (h : BundleWellFormed bundle) (hash : B256) :
    BundleWellFormed (bundle.withoutTransaction hash) := by
  simp only [FlashbotsBundle.withoutTransaction]
  cases hi : bundle.recovered.findIdx? fun t => txHash t == hash with
  | none => exact ⟨h.encoded, h.hashed⟩
  | some i =>
    have hlt := (List.findIdx?_eq_some_iff_getElem.mp hi).1
    have hlt' : i < bundle.inner.txs.length := h.encoded ▸ hlt
    refine ⟨?_, fun tx htx other ho => ?_⟩
    · simp only [List.length_eraseIdx_of_lt hlt, List.length_eraseIdx_of_lt hlt', h.encoded]
    · exact h.hashed tx (List.mem_of_mem_eraseIdx htx) other (List.mem_of_mem_eraseIdx ho)

lemma withoutTransaction_eligible {bundle : FlashbotsBundle P} {hash : B256} {timestamp number : ℕ}
    (h : bundle.transactions ≠ [] → bundle.eligibilityAt timestamp number = .eligible) :
    (bundle.withoutTransaction hash).transactions ≠ [] →
      (bundle.withoutTransaction hash).eligibilityAt timestamp number = .eligible := by
  intro hne
  have hold : bundle.transactions ≠ [] := by
    intro hnil
    apply hne
    have hrec : bundle.recovered = [] := hnil
    simp [FlashbotsBundle.transactions, FlashbotsBundle.withoutTransaction, hrec]
  have helig := h hold
  rw [FlashbotsBundle.eligibilityAt, if_neg (by simpa using hold)] at helig
  rw [FlashbotsBundle.eligibilityAt, if_neg (by simpa using hne)]
  exact helig

lemma withoutTransactions_repeatable {block : BlockContext P} (hashes : List B256)
    {bundle : FlashbotsBundle P} (h : NonceOnly.Repeatable block (.bundle bundle)) :
    NonceOnly.Repeatable block (.bundle (hashes.foldl FlashbotsBundle.withoutTransaction bundle)) := by
  induction hashes generalizing bundle with
  | nil => exact h
  | cons hash hashes ih => exact ih ⟨withoutTransaction_wellFormed h.1 hash, withoutTransaction_eligible h.2⟩

lemma execute_source_repeatable {block : BlockContext P} {db : DatabaseRef} {executable : Executable P}
    {result : ExecutionResult P} (hwf : executable.WellFormed) (h : executable.execute block db = .ok result) :
    NonceOnly.Repeatable block result.source := by
  cases executable with
  | transaction tx =>
    obtain ⟨r, -, rfl⟩ := execute_transaction_ok h
    trivial
  | bundle b =>
    obtain ⟨helig, acc, -, rfl⟩ := executeBundle_ok_iff.mp h
    exact withoutTransactions_repeatable acc.discarded ⟨hwf, fun _ => helig⟩

namespace Checkpoint

variable {block : BlockContext P} {c c' : Checkpoint P}

def Spends (c c' : Checkpoint P) : Prop :=
  ∀ (tx : Transaction P) (n : ℕ), (signer tx, n) ∈ c'.nonces ↔
    c.accountNonce (signer tx) ≤ n ∧ n < c'.accountNonce (signer tx)

lemma apply_spends {laws : NonceLaws block.evm} (only : NonceOnly laws) (hb : c.block = block)
    {executable : Executable P} {id now : ℕ} (hwf : executable.WellFormed)
    (h : c.apply executable id now = .ok c') : Spends c c' := by
  subst hb
  obtain ⟨result, hr, rfl⟩ := apply_eq h
  obtain ⟨txs, commits, he, hstate, hperm⟩ := execute_executed hwf hr
  intro tx n
  have hnonces : (c.applyWith (.executable result) id now).nonces =
      result.source.transactions.map signerNonce := rfl
  have hread : laws.nonceAt c.database [] (signer tx) = c.accountNonce (signer tx) :=
    laws.read c.database (signer tx)
  rw [hnonces, hperm.mem_iff, only.executed_nonces he, hread,
    accountNonce_applied laws he hstate id now tx]

lemma apply_repeatable {laws : NonceLaws block.evm} (only : NonceOnly laws) (hb : c.block = block)
    {executable : Executable P} (hrep : NonceOnly.Repeatable block executable)
    (hne : executable.transactions ≠ [])
    (hnonce : ∀ tx ∈ executable.transactions, c.accountNonce (signer tx) = nonce tx)
    (hsigners : (executable.transactions.map signer).Nodup) (id now : ℕ) :
    ∃ c', c.apply executable id now = .ok c' ∧ c'.transactions = executable.transactions := by
  subst hb
  obtain ⟨result, hr, hsource⟩ := only.execute_repeatable hrep hne
    (fun tx htx => (laws.read c.database (signer tx)).trans (hnonce tx htx)) hsigners
  refine ⟨c.applyWith (.executable result) id now, ?_, ?_⟩
  · rw [apply, hr]
    rfl
  · exact congrArg Executable.transactions hsource

lemma Built.repeatable (hb : Built block c) :
    ∀ x ∈ c.history, ∀ result, x.result = some result → NonceOnly.Repeatable block result.source := by
  induction hb with
  | start id now =>
    intro x hx result hr
    obtain rfl := List.mem_singleton.mp hx
    exact absurd hr (by simp [Checkpoint.result, data])
  | @apply c c' executable id now hb hwf ha ih =>
    obtain ⟨recorded, hr, rfl⟩ := apply_eq ha
    intro x hx result hx'
    rw [applyWith, history_next, List.mem_append, List.mem_singleton] at hx
    obtain hx | rfl := hx
    · exact ih x hx result hx'
    · obtain rfl : recorded = result := Option.some.inj hx'
      rw [hb.block_eq] at hr
      exact execute_source_repeatable hwf hr
  | @barrier c id now hb ih =>
    intro x hx result hx'
    rw [Checkpoint.barrier, applyWith, history_next, List.mem_append, List.mem_singleton] at hx
    obtain hx | rfl := hx
    · exact ih x hx result hx'
    · exact absurd hx' (by simp [Checkpoint.result, data])

end Checkpoint

end Rblib.Payload
