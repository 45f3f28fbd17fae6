import Rblib.Library.EraseFirst
import Rblib.Library.Fallible
import Rblib.Payload.Exec

namespace Rblib.Payload

open Platform PlatformTypes Library

variable {P : Type} [PlatformTypes P]

/-- The bundles that the constructors, the builder methods and `TryFrom<EthSendBundle>` make. -/
inductive Obtainable : FlashbotsBundle P → Prop
  | default : Obtainable .default
  | tryFrom {τ ε : Type} {decode2718 : Bytes → Except ε τ} {tryIntoRecovered : τ → Except ε (Transaction P)}
      {inner : EthSendBundle} {bundle : FlashbotsBundle P} :
      FlashbotsBundle.tryFrom decode2718 tryIntoRecovered inner = .ok bundle → Obtainable bundle
  | withTransaction {bundle : FlashbotsBundle P} (tx : Transaction P) : Obtainable bundle →
      Obtainable (bundle.withTransaction tx)
  | withOptionalTransaction {bundle : FlashbotsBundle P} (tx : Transaction P) : Obtainable bundle →
      Obtainable (bundle.withOptionalTransaction tx)
  | markAsRevertable {bundle : FlashbotsBundle P} (tx : B256) : Obtainable bundle →
      Obtainable (bundle.markAsRevertable tx)
  | markAsOptional {bundle : FlashbotsBundle P} (tx : B256) : Obtainable bundle →
      Obtainable (bundle.markAsOptional tx)
  | withMaxTimestamp {bundle : FlashbotsBundle P} (maxTs : UInt64) : Obtainable bundle →
      Obtainable (bundle.withMaxTimestamp maxTs)
  | withMinTimestamp {bundle : FlashbotsBundle P} (minTs : UInt64) : Obtainable bundle →
      Obtainable (bundle.withMinTimestamp minTs)
  | withBlockNumber {bundle : FlashbotsBundle P} (blockNumber : UInt64) : Obtainable bundle →
      Obtainable (bundle.withBlockNumber blockNumber)

lemma encoded_withTransaction {bundle : FlashbotsBundle P}
    (h : bundle.recovered.length = bundle.inner.txs.length) (tx : Transaction P) :
    (bundle.withTransaction tx).recovered.length = (bundle.withTransaction tx).inner.txs.length := by
  rw [FlashbotsBundle.withTransaction]
  split
  · exact h
  · simp [h]

lemma encoded_markAsOptional {bundle : FlashbotsBundle P}
    (h : bundle.recovered.length = bundle.inner.txs.length) (tx : B256) :
    (bundle.markAsOptional tx).recovered.length = (bundle.markAsOptional tx).inner.txs.length := by
  rw [FlashbotsBundle.markAsOptional]
  split <;> exact h

lemma Obtainable.encoded {bundle : FlashbotsBundle P} (h : Obtainable bundle) :
    bundle.recovered.length = bundle.inner.txs.length := by
  induction h with
  | default => rfl
  | @tryFrom τ ε decode2718 tryIntoRecovered inner bundle h =>
    obtain ⟨txs, hd, h⟩ := bind_eq_ok.mp h
    obtain ⟨recovered, hr, h⟩ := bind_eq_ok.mp h
    cases h
    exact (length_of_mapM_ok hr).trans (length_of_mapM_ok hd)
  | withTransaction tx _ ih => exact encoded_withTransaction ih tx
  | withOptionalTransaction tx _ ih => exact encoded_markAsOptional (encoded_withTransaction ih tx) _
  | markAsRevertable tx _ ih =>
    rw [FlashbotsBundle.markAsRevertable]
    split <;> exact ih
  | markAsOptional tx _ ih => exact encoded_markAsOptional ih tx
  | withMaxTimestamp _ _ ih => exact ih
  | withMinTimestamp _ _ ih => exact ih
  | withBlockNumber _ _ ih => exact ih

structure Commit (P : Type) [PlatformTypes P] where
  transaction : Transaction P
  result : TransactionExecutionResult P
  state : EvmState P

def committed (bundle : FlashbotsBundle P) (evm : Evm P) (db : DatabaseRef) :
    List (EvmState P) → List (Transaction P × Bytes) → List (Commit P)
  | _, [] => []
  | commits, t :: ts => match evm.transact db commits t.1 t.2 with
    | .ok (result, state) =>
      if isSuccess result || bundle.isAllowedToFail (txHash t.1) then
        ⟨t.1, result, state⟩ :: committed bundle evm db (commits ++ [state]) ts
      else committed bundle evm db commits ts
    | .error _ => committed bundle evm db commits ts

/-- The result holds exactly the transactions that were committed, in that order, each with its own
execution result, and the state changes of these transactions. -/
structure Accurate (bundle : FlashbotsBundle P) (block : BlockContext P) (db : DatabaseRef)
    (result : ExecutionResult P) : Prop where
  transactions : result.source.transactions =
    (committed bundle block.evm db [] bundle.transactionsEncoded).map Commit.transaction
  results : result.results = (committed bundle block.evm db [] bundle.transactionsEncoded).map Commit.result
  state : result.state = block.evm.takeBundle db
    ((committed bundle block.evm db [] bundle.transactionsEncoded).map Commit.state)

section Fold

variable {bundle : FlashbotsBundle P} {block : BlockContext P} {db : DatabaseRef}

lemma executeBundleTransaction_ok {acc acc' : Executable.Progress P} {t : Transaction P × Bytes}
    (h : Executable.executeBundleTransaction bundle block db acc t = .ok acc') :
    (∃ result state, block.evm.transact db acc.commits t.1 t.2 = .ok (result, state) ∧
      (isSuccess result || bundle.isAllowedToFail (txHash t.1)) = true ∧
      acc' = { acc with commits := acc.commits ++ [state], results := acc.results ++ [result] }) ∨
    (bundle.isOptional (txHash t.1) = true ∧
      (∀ result state, block.evm.transact db acc.commits t.1 t.2 = .ok (result, state) →
        (isSuccess result || bundle.isAllowedToFail (txHash t.1)) = false) ∧
      acc' = { acc with discarded := acc.discarded ++ [txHash t.1] }) := by
  simp only [Executable.executeBundleTransaction] at h
  cases hr : block.evm.transact db acc.commits t.1 t.2 with
  | error e =>
    rw [hr] at h
    simp only at h
    split at h
    · next hopt =>
      refine .inr ⟨hopt, fun result state hok => ?_, (Except.ok.inj h).symm⟩
      cases hok
    · cases h
  | ok r =>
    rw [hr] at h
    simp only at h
    split at h
    · next hc => exact .inl ⟨r.1, r.2, rfl, hc, (Except.ok.inj h).symm⟩
    · next hc =>
      split at h
      · next hopt =>
        refine .inr ⟨hopt, fun result state hok => ?_, (Except.ok.inj h).symm⟩
        cases hok
        simpa using hc
      · cases h

lemma executeBundleTransaction_taken {acc : Executable.Progress P} {t : Transaction P × Bytes}
    {result : TransactionExecutionResult P} {state : EvmState P}
    (hr : block.evm.transact db acc.commits t.1 t.2 = .ok (result, state)) (hs : isSuccess result = true) :
    Executable.executeBundleTransaction bundle block db acc t =
      .ok { acc with commits := acc.commits ++ [state], results := acc.results ++ [result] } := by
  simp [Executable.executeBundleTransaction, hr, hs]

lemma committed_taken {commits : List (EvmState P)} {t : Transaction P × Bytes}
    {result : TransactionExecutionResult P} {state : EvmState P}
    (hr : block.evm.transact db commits t.1 t.2 = .ok (result, state))
    (hc : (isSuccess result || bundle.isAllowedToFail (txHash t.1)) = true) (ts : List (Transaction P × Bytes)) :
    committed bundle block.evm db commits (t :: ts) =
      ⟨t.1, result, state⟩ :: committed bundle block.evm db (commits ++ [state]) ts := by
  simp only [committed, hr, hc, if_true]

lemma committed_left_out {commits : List (EvmState P)} {t : Transaction P × Bytes}
    (hc : ∀ result state, block.evm.transact db commits t.1 t.2 = .ok (result, state) →
      (isSuccess result || bundle.isAllowedToFail (txHash t.1)) = false) (ts : List (Transaction P × Bytes)) :
    committed bundle block.evm db commits (t :: ts) = committed bundle block.evm db commits ts := by
  rw [committed]
  split
  · next result state hr => simp only [hc result state hr, Bool.false_eq_true, if_false]
  · rfl

structure Marked (bundle : FlashbotsBundle P) (log : List (Commit P)) (txs : List (Transaction P))
    (acc acc' : Executable.Progress P) (marks : List (Transaction P × Bool)) : Prop where
  all : marks.map Prod.fst = txs
  kept : kept marks = log.map Commit.transaction
  optional : ∀ m ∈ marks, m.2 = false → bundle.isOptional (txHash m.1) = true
  discarded : acc'.discarded = acc.discarded ++ (dropped marks).map txHash
  commits : acc'.commits = acc.commits ++ log.map Commit.state
  results : acc'.results = acc.results ++ log.map Commit.result

lemma executeBundle_marks {acc acc' : Executable.Progress P} (ts : List (Transaction P × Bytes))
    (h : ts.foldlM (Executable.executeBundleTransaction bundle block db) acc = .ok acc') :
    ∃ marks, Marked bundle (committed bundle block.evm db acc.commits ts) (ts.map Prod.fst) acc acc' marks := by
  induction ts generalizing acc with
  | nil =>
    cases h
    exact ⟨[], rfl, rfl, by simp, by simp [dropped], by simp [committed], by simp [committed]⟩
  | cons t ts ih =>
    obtain ⟨acc₁, hs, h⟩ := foldlM_cons_eq_ok.mp h
    obtain ⟨marks, hm⟩ := ih h
    rcases executeBundleTransaction_ok hs with ⟨result, state, hr, hc, rfl⟩ | ⟨hopt, hc, rfl⟩
    · refine ⟨(t.1, true) :: marks, ?_⟩
      rw [committed_taken hr hc]
      exact
        { all := by simp [hm.all]
          kept := by simp [hm.kept]
          optional := by simpa using hm.optional
          discarded := by simp [hm.discarded]
          commits := by simp [hm.commits]
          results := by simp [hm.results] }
    · refine ⟨(t.1, false) :: marks, ?_⟩
      rw [committed_left_out hc]
      exact
        { all := by simp [hm.all]
          kept := by simp [hm.kept]
          optional := List.forall_mem_cons.mpr ⟨fun _ => hopt, hm.optional⟩
          discarded := by simp [hm.discarded]
          commits := by simp [hm.commits]
          results := by simp [hm.results] }

lemma recovered_withoutTransactions (hashes : List B256) (bundle : FlashbotsBundle P) :
    (hashes.foldl FlashbotsBundle.withoutTransaction bundle).recovered =
      hashes.foldl (eraseFirst txHash) bundle.recovered := by
  induction hashes generalizing bundle with
  | nil => rfl
  | cons hash hashes ih =>
    have hone : (bundle.withoutTransaction hash).recovered = eraseFirst txHash bundle.recovered hash := by
      rw [eraseFirst, List.eraseP_eq_eraseIdx]
      simp only [FlashbotsBundle.withoutTransaction]
      cases bundle.recovered.findIdx? fun t => txHash t == hash <;> rfl
    rw [List.foldl_cons, ih, hone, List.foldl_cons]

lemma execute_transaction_ok {tx : Transaction P} {result : ExecutionResult P}
    (h : (Executable.transaction tx).execute block db = .ok result) :
    ∃ r, block.evm.transact db [] tx (encoded2718 tx) = .ok r ∧
      result = ⟨.transaction tx, [r.1], block.evm.takeBundle db [r.2]⟩ := by
  rw [Executable.execute, Executable.executeTransaction] at h
  cases ht : block.evm.transact db [] tx (encoded2718 tx) with
  | error e =>
    rw [ht] at h
    cases h
  | ok r =>
    rw [ht] at h
    exact ⟨r, rfl, (Except.ok.inj h).symm⟩

lemma executeBundle_ok_iff {result : ExecutionResult P} :
    Executable.executeBundle bundle block db = .ok result ↔
      bundle.eligibilityAt block.timestamp block.number = .eligible ∧ ∃ acc,
        bundle.transactionsEncoded.foldlM (Executable.executeBundleTransaction bundle block db) {} = .ok acc ∧
        result = ⟨.bundle (acc.discarded.foldl FlashbotsBundle.withoutTransaction bundle), acc.results,
          block.evm.takeBundle db acc.commits⟩ := by
  rw [Executable.executeBundle]
  by_cases he : bundle.eligibilityAt block.timestamp block.number = .eligible
  · simp only [he, ne_eq, not_true_eq_false, if_false, true_and, bind_eq_ok, pure, Except.pure,
      Except.ok.injEq]
    exact exists_congr fun acc => and_congr_right fun _ => eq_comm
  · simp [he]

lemma source_sublist {executable : Executable P} {result : ExecutionResult P}
    (h : executable.execute block db = .ok result) :
    result.source.transactions.Sublist executable.transactions := by
  cases executable with
  | transaction tx =>
    obtain ⟨r, -, rfl⟩ := execute_transaction_ok h
    exact List.Sublist.refl _
  | bundle b =>
    obtain ⟨-, acc, -, rfl⟩ := executeBundle_ok_iff.mp h
    have hrecovered := recovered_withoutTransactions acc.discarded b
    have hsub := eraseFirst_sublist txHash acc.discarded b.recovered
    rw [← hrecovered] at hsub
    exact hsub

theorem accurate_of_adjacent (hb : bundle.recovered.length = bundle.inner.txs.length)
    (hadj : Adjacent txHash bundle.isOptional bundle.recovered) {result : ExecutionResult P}
    (h : Executable.executeBundle bundle block db = .ok result) : Accurate bundle block db result := by
  obtain ⟨-, acc, hf, rfl⟩ := executeBundle_ok_iff.mp h
  obtain ⟨marks, hm⟩ := executeBundle_marks _ hf
  have hall : marks.map Prod.fst = bundle.recovered := by
    rw [hm.all, FlashbotsBundle.transactionsEncoded, List.map_fst_zip hb.le]
  have herase := erase_dropped hm.optional (hall ▸ hadj)
  refine ⟨?_, by simpa using hm.results, by simpa using congrArg (block.evm.takeBundle db) hm.commits⟩
  have hrecovered := recovered_withoutTransactions acc.discarded bundle
  rw [hm.discarded, List.nil_append, ← hall, herase, hm.kept] at hrecovered
  rw [hm.discarded, List.nil_append]
  exact hrecovered

end Fold

section Refusal

noncomputable def refusing (n : ℕ) (tx : Transaction P) (result : TransactionExecutionResult P)
    (state : EvmState P) (error : EvmError P) : Evm P where
  transact _ commits t _ :=
    open Classical in if commits.length = n ∧ t = tx then .error error else .ok (result, state)
  takeBundle _ _ := ⟨fun _ => none, fun _ => none⟩

variable {bundle : FlashbotsBundle P} {block : BlockContext P} {n : ℕ} {tx : Transaction P}
  {result : TransactionExecutionResult P} {state : EvmState P} {error : EvmError P} (db : DatabaseRef)

lemma refusing_runs (bundle : FlashbotsBundle P) (hblock : block.evm = refusing n tx result state error)
    (hs : isSuccess result = true) (ts : List (Transaction P × Bytes)) (acc : Executable.Progress P)
    (h : ∀ left t right, ts = left ++ t :: right → ¬ (acc.commits.length + left.length = n ∧ t.1 = tx)) :
    ∃ acc', ts.foldlM (Executable.executeBundleTransaction bundle block db) acc = .ok acc' ∧
      acc'.discarded = acc.discarded ∧ acc'.commits.length = acc.commits.length + ts.length ∧
      ∀ rest, (committed bundle block.evm db acc.commits (ts ++ rest)).map Commit.transaction =
        ts.map Prod.fst ++ (committed bundle block.evm db acc'.commits rest).map Commit.transaction := by
  induction ts generalizing acc with
  | nil => exact ⟨acc, rfl, rfl, rfl, fun rest => rfl⟩
  | cons t ts ih =>
    have hrun : block.evm.transact db acc.commits t.1 t.2 = .ok (result, state) := by
      rw [hblock]
      exact if_neg (by simpa using h [] t ts rfl)
    obtain ⟨acc', hf, hd, hl, hc⟩ := ih
      { acc with commits := acc.commits ++ [state], results := acc.results ++ [result] } (by
        intro left u right hts hbad
        refine h (t :: left) u right (by rw [hts]; rfl) ?_
        simpa [Nat.add_assoc, Nat.add_comm 1] using hbad)
    refine ⟨acc', ?_, hd, ?_, fun rest => ?_⟩
    · exact foldlM_cons_eq_ok.mpr ⟨_, executeBundleTransaction_taken hrun hs, hf⟩
    · rw [hl, List.length_append, List.length_singleton, List.length_cons]
      omega
    · have hrest := hc rest
      simp only [List.cons_append, committed, hrun, hs, Bool.true_or, if_true, List.map_cons, hrest]

lemma refusing_executes {left after : List (Transaction P)}
    (hb : bundle.recovered.length = bundle.inner.txs.length) (hl : bundle.recovered = left ++ tx :: after)
    (hopt : bundle.isOptional (txHash tx) = true) (hafter : after.head? ≠ some tx)
    (hblock : block.evm = refusing left.length tx result state error) (hs : isSuccess result = true) :
    ∃ acc, bundle.transactionsEncoded.foldlM (Executable.executeBundleTransaction bundle block db) {} = .ok acc ∧
      acc.discarded = [txHash tx] ∧
      (committed bundle block.evm db [] bundle.transactionsEncoded).map Commit.transaction = left ++ after := by
  -- the encoded transactions around the refused one
  have hfst : bundle.transactionsEncoded.map Prod.fst = left ++ tx :: after := by
    rw [FlashbotsBundle.transactionsEncoded, List.map_fst_zip hb.le, hl]
  obtain ⟨es₁, es₂, hes, hes₁, hes₂⟩ := List.map_eq_append_iff.mp hfst
  obtain ⟨e, es₃, rfl, he, hes₃⟩ := List.map_eq_cons_iff.mp hes₂
  subst he
  have hlen : es₁.length = left.length := by
    rw [← hes₁, List.length_map]
  obtain ⟨acc₁, hf₁, hd₁, hl₁, hc₁⟩ := refusing_runs db bundle hblock hs es₁ {} (by
    rintro front t right rfl ⟨hn, -⟩
    simp only [List.length_nil, zero_add, ← hlen, List.length_append, List.length_cons] at hn
    omega)
  have hrefuse : block.evm.transact db acc₁.commits e.1 e.2 = .error error := by
    rw [hblock]
    exact if_pos ⟨by simpa [hlen] using hl₁, rfl⟩
  have hstep : Executable.executeBundleTransaction bundle block db acc₁ e =
      .ok { acc₁ with discarded := acc₁.discarded ++ [txHash e.1] } := by
    simp [Executable.executeBundleTransaction, hrefuse, hopt]
  obtain ⟨acc₃, hf₃, hd₃, -, hc₃⟩ := refusing_runs db bundle hblock hs es₃
    { acc₁ with discarded := acc₁.discarded ++ [txHash e.1] } (by
      rintro front t right rfl ⟨hn, ht⟩
      cases front with
      | nil => exact hafter (by rw [← hes₃, ← ht]; rfl)
      | cons u front =>
        simp only [hl₁, hlen, List.length_nil, List.length_cons] at hn
        omega)
  refine ⟨acc₃, ?_, ?_, ?_⟩
  · rw [hes, List.foldlM_append, bind_eq_ok]
    exact ⟨acc₁, hf₁, foldlM_cons_eq_ok.mpr ⟨_, hstep, hf₃⟩⟩
  · rw [hd₃, hd₁]
    rfl
  · have hnone := hc₃ []
    simp only [List.append_nil, committed, List.map_nil] at hnone
    have hrest : (committed bundle block.evm db acc₁.commits (e :: es₃)).map Commit.transaction = after := by
      simp only [committed, hrefuse, hnone, hes₃]
    rw [hes, hc₁ (e :: es₃), hrest, hes₁]

lemma refusing_inaccurate {before between after : List (Transaction P)} {x z : Transaction P}
    (hb : bundle.recovered.length = bundle.inner.txs.length)
    (hl : bundle.recovered = before ++ x :: (between ++ tx :: after)) (hk : txHash x = txHash tx)
    (hopt : bundle.isOptional (txHash tx) = true) (hz : z ∈ x :: between) (hne : z ≠ tx)
    (hafter : after.head? ≠ some tx)
    (helig : bundle.eligibilityAt block.timestamp block.number = .eligible)
    (hblock : block.evm = refusing (before ++ x :: between).length tx result state error)
    (hs : isSuccess result = true) :
    ∃ r, Executable.executeBundle bundle block db = .ok r ∧ ¬ Accurate bundle block db r := by
  have hsplit : bundle.recovered = (before ++ x :: between) ++ tx :: after := by
    rw [hl]
    simp
  obtain ⟨acc, hfold, hdiscarded, hkept⟩ := refusing_executes db hb hsplit hopt hafter hblock hs
  refine ⟨_, executeBundle_ok_iff.mpr ⟨helig, acc, hfold, rfl⟩, fun hacc => ?_⟩
  have htxs := hacc.transactions
  have hsource := recovered_withoutTransactions [txHash tx] bundle
  rw [hkept, List.append_assoc, List.cons_append] at htxs
  simp only [hdiscarded, Executable.transactions, FlashbotsBundle.transactions] at htxs
  rw [hsource, hl] at htxs
  exact eraseFirst_ne hk hz hne htxs

end Refusal

structure CanRefuse (P : Type) [PlatformTypes P] : Prop where
  success : ∃ result : TransactionExecutionResult P, isSuccess result = true
  state : Nonempty (EvmState P)
  error : Nonempty (EvmError P)

theorem executeBundle_accurate_iff (hP : CanRefuse P) {bundle : FlashbotsBundle P} (hb : Obtainable bundle)
    (timestamp number : ℕ) :
    (∀ (block : BlockContext P) (db : DatabaseRef) (result : ExecutionResult P),
      block.timestamp = timestamp → block.number = number →
        Executable.executeBundle bundle block db = .ok result → Accurate bundle block db result) ↔
      (bundle.eligibilityAt timestamp number = .eligible →
        Adjacent txHash bundle.isOptional bundle.recovered) := by
  constructor
  · intro hall helig
    by_contra hadj
    obtain ⟨before, x, between, tx, after, z, hl, hk, hopt, hz, hne, hafter⟩ := exists_apart hadj
    obtain ⟨result, hs⟩ := hP.success
    obtain ⟨state⟩ := hP.state
    obtain ⟨error⟩ := hP.error
    have hnone : StateProvider :=
      ⟨fun _ => .ok none, fun _ _ => .ok none, fun _ => .ok none, fun _ => .ok none⟩
    have hdb : DatabaseRef := ⟨fun _ => .ok none, fun _ => .ok [], fun _ _ => .ok 0, fun _ => .ok 0⟩
    let block : BlockContext P :=
      ⟨number, timestamp, hnone, refusing (before ++ x :: between).length tx result state error⟩
    obtain ⟨r, hr, hbad⟩ := refusing_inaccurate hdb hb.encoded hl hk hopt hz hne hafter
      (show bundle.eligibilityAt block.timestamp block.number = .eligible from helig) rfl hs
    exact hbad (hall block hdb r rfl rfl hr)
  · rintro h block db result rfl rfl hr
    exact accurate_of_adjacent hb.encoded (h (executeBundle_ok_iff.mp hr).1) hr

namespace Devnet

def first : PlainTx := ⟨21, 7, 0⟩

def second : PlainTx := ⟨22, 8, 0⟩

lemma canRefuse : CanRefuse Devnet := ⟨⟨true, rfl⟩, ⟨((0, 0) : Address × ℕ)⟩, ⟨""⟩⟩

def emptyDatabase : DatabaseRef := ⟨fun _ => .ok none, fun _ => .ok [], fun _ _ => .ok 0, fun _ => .ok 0⟩

def optionalSecond : FlashbotsBundle Devnet :=
  (FlashbotsBundle.default.withTransaction first).withOptionalTransaction second

theorem optionalSecond_accurate :
    ∃ result, Executable.executeBundle optionalSecond block emptyDatabase = .ok result ∧
      result.results = [true, true] ∧ Accurate optionalSecond block emptyDatabase result := by
  have hb : Obtainable optionalSecond := .withOptionalTransaction _ (.withTransaction _ .default)
  refine ⟨_, rfl, rfl, ?_⟩
  refine (executeBundle_accurate_iff canRefuse hb 12 1).mpr (fun _ => ?_) block emptyDatabase _ rfl rfl rfl
  exact adjacent_of_nodup (by decide +kernel) _

def repeatedFirst : EthSendBundle where
  txs := [[1], [2], [1]]
  droppingTxHashes := [21]

def decode2718 : Bytes → Except String PlainTx
  | [1] => .ok first
  | [2] => .ok second
  | _ => .error "unexpected type"

def repeated : FlashbotsBundle Devnet := ⟨repeatedFirst, [first, second, first]⟩

theorem repeated_inaccurate :
    FlashbotsBundle.tryFrom decode2718 .ok repeatedFirst = .ok repeated ∧
      ∃ result, Executable.executeBundle repeated block emptyDatabase = .ok result ∧
        (committed repeated evm emptyDatabase [] repeated.transactionsEncoded).map Commit.transaction =
          [first, second] ∧
        result.source.transactions = [second, first] ∧ ¬ Accurate repeated block emptyDatabase result := by
  have hlog : (committed repeated evm emptyDatabase [] repeated.transactionsEncoded).map
      Commit.transaction = [first, second] := by rfl
  refine ⟨rfl, _, rfl, hlog, rfl, fun h => ?_⟩
  have hswapped : ([second, first] : List PlainTx) = [first, second] := h.transactions.trans hlog
  exact absurd hswapped (by decide)

end Devnet

end Rblib.Payload
