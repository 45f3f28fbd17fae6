import Rblib.Library.Journal
import Rblib.Payload.Assembled
import Rblib.Payload.Nonces
import Rblib.Payload.Reads

/-! The platform builds a block from the transactions of a payload: it runs them again, one after
the other, on the state of the parent block. -/

namespace Rblib.Payload

open Platform PlatformTypes Library

variable {P : Type} [PlatformTypes P]

def DatabaseRef.world (db : DatabaseRef) : WorldState := ⟨db.basicRef, db.storageRef⟩

def Evm.run (evm : Evm P) (db : DatabaseRef) (commits : List (EvmState P)) (transaction : Transaction P × Bytes) :
    Except (EvmError P) (TransactionExecutionResult P × EvmState P) :=
  evm.transact db commits transaction.1 transaction.2

/-- A transaction reads the database through the changes committed before it, and the bundle state holds what these
changes did to accounts, storage and code. -/
structure JournalLaws (evm : Evm P) where
  commit : DatabaseRef → EvmState P → DatabaseRef
  readsThrough : ReadsThrough evm.run commit
  world : ∀ {db txs commits}, Executed evm db txs commits →
    (commits.foldl commit db).world = (evm.takeBundle db commits).applyTo db.world
  code : ∀ {db txs commits}, Executed evm db txs commits → ∀ h, (commits.foldl commit db).codeByHashRef h =
    match (evm.takeBundle db commits).bytecode h with
    | some code => .ok code
    | none => db.codeByHashRef h
  blockHash : ∀ db state, (commit db state).blockHashRef = db.blockHashRef

/-- The raw transactions are the encodings of the recovered ones, and the copies of a transaction
that may be dropped stand next to each other. -/
structure FlashbotsBundle.Canonical (bundle : FlashbotsBundle P) : Prop where
  encoded : bundle.inner.txs = bundle.recovered.map encoded2718
  adjacent : Adjacent txHash bundle.isOptional bundle.recovered

def encode (tx : Transaction P) : Transaction P × Bytes := (tx, encoded2718 tx)

section Bundles

variable {block : BlockContext P} {db : DatabaseRef}

lemma transactionsEncoded_canonical {bundle : FlashbotsBundle P} (h : FlashbotsBundle.Canonical bundle) :
    bundle.transactionsEncoded = bundle.recovered.map encode := by
  rw [FlashbotsBundle.transactionsEncoded, h.encoded, List.zip_map_right, List.zip_eq_zipWith]
  induction bundle.recovered with
  | nil => rfl
  | cons tx txs ih =>
    rw [List.zipWith_cons_cons, List.map_cons, List.map_cons, ih]
    rfl

lemma committed_runs (block : BlockContext P) (db : DatabaseRef) (bundle : FlashbotsBundle P)
    (txs : List (Transaction P)) (commits : List (EvmState P)) :
    runAll block.evm.run db commits
      ((committed bundle block.evm db commits (txs.map encode)).map fun c => encode c.transaction) =
    .ok ((committed bundle block.evm db commits (txs.map encode)).map Commit.result,
      (committed bundle block.evm db commits (txs.map encode)).map Commit.state) := by
  induction txs generalizing commits with
  | nil => rfl
  | cons tx txs ih =>
    rw [List.map_cons, committed]
    cases hr : block.evm.transact db commits (encode tx).1 (encode tx).2 with
    | error e => exact ih commits
    | ok r =>
      dsimp only
      split
      · exact runAll_cons_ok hr (ih (commits ++ [r.2]))
      · exact ih commits

lemma execute_runs {executable : Executable P} {result : ExecutionResult P}
    (hK : Checkpoint.Admits FlashbotsBundle.Canonical executable) (h : executable.execute block db = .ok result) :
    ∃ states, runAll block.evm.run db [] (result.source.transactions.map encode) = .ok (result.results, states) ∧
      result.state = block.evm.takeBundle db states := by
  cases executable with
  | transaction tx =>
    obtain ⟨r, hr, rfl⟩ := execute_transaction_ok h
    refine ⟨[r.2], ?_, rfl⟩
    exact runAll_cons_ok hr rfl
  | bundle b =>
    have hcanonical := hK b rfl
    have hlen : b.recovered.length = b.inner.txs.length := by rw [hcanonical.encoded, List.length_map]
    have hacc := accurate_of_adjacent hlen hcanonical.adjacent h
    have hruns := committed_runs block db b b.recovered []
    rw [← transactionsEncoded_canonical hcanonical] at hruns
    refine ⟨_, ?_, hacc.state⟩
    rw [hacc.transactions, hacc.results, List.map_map]
    exact hruns

lemma executed_of_runs {executed : List (Transaction P)} {commits changes : List (EvmState P)}
    {txs : List (Transaction P)} {results : List (TransactionExecutionResult P)}
    (he : Executed block.evm db executed commits)
    (h : runAll block.evm.run db commits (txs.map encode) = .ok (results, changes)) :
    Executed block.evm db (executed ++ txs) (commits ++ changes) := by
  induction txs generalizing executed commits results changes with
  | nil =>
    cases h
    rwa [List.append_nil, List.append_nil]
  | cons tx txs ih =>
    obtain ⟨result, state, results', changes', hr, hrest, heq⟩ := runAll_cons_eq_ok h
    cases heq
    rw [List.append_cons executed, List.append_cons commits]
    exact ih (he.snoc hr) hrest

end Bundles

namespace Checkpoint

variable {block : BlockContext P} {K : FlashbotsBundle P → Prop} {c c' : Checkpoint P}

structure ReadsState (c : Checkpoint P) : Prop where
  account : ∀ a, c.NothingBehindRemoval a
  storage : ∀ a i, c.NothingBehindDestruction a i

lemma ReadsState.world_eq (h : ReadsState c) : c.database.world = c.world := by
  have haccount : c.database.world.account = c.world.account := by
    funext a
    exact (basicRef_reads_world_iff c a).mpr (h.account a)
  have hstorage : c.database.world.storage = c.world.storage := by
    funext a i
    exact (storageRef_reads_world_iff c a i).mpr (h.storage a i)
  exact congrArg₂ WorldState.mk haccount hstorage

def executionResults (c : Checkpoint P) : List (TransactionExecutionResult P) :=
  c.result.elim [] ExecutionResult.results

lemma database_barrier (c : Checkpoint P) (id now : ℕ) : (c.barrier id now).database = c.database := by
  simp only [database, DatabaseRef.mk.injEq]
  exact ⟨rfl, rfl, rfl, rfl⟩

def baseDatabase (block : BlockContext P) : DatabaseRef := (newAtBlock block 0 0).database

lemma database_after (laws : JournalLaws c.block.evm) {txs : List (Transaction P)} {states : List (EvmState P)}
    {result : ExecutionResult P} {id now : ℕ} (he : Executed c.block.evm c.database txs states)
    (hstate : result.state = c.block.evm.takeBundle c.database states) (hc : ReadsState c)
    (hc' : ReadsState (c.applyWith (.executable result) id now)) :
    (c.applyWith (.executable result) id now).database = states.foldl laws.commit c.database := by
  have hworld : (c.applyWith (.executable result) id now).database.world =
      (states.foldl laws.commit c.database).world := by
    rw [hc'.world_eq, laws.world he, hc.world_eq, ← hstate]
    rfl
  have hcode : (c.applyWith (.executable result) id now).database.codeByHashRef =
      (states.foldl laws.commit c.database).codeByHashRef := by
    have hrecorded : (next c ⟨id, c.depth + 1, .executable result, now⟩).state = some result.state := rfl
    funext h
    rw [laws.code he h, ← hstate]
    change codeByHashRef _ h = _
    rw [codeByHashRef, applyWith, iter, List.findSome?_cons, hrecorded, Option.bind_some]
    cases result.state.bytecode h with
    | some code => rfl
    | none => rfl
  have hhash : (c.applyWith (.executable result) id now).database.blockHashRef =
      (states.foldl laws.commit c.database).blockHashRef := by
    have hkept : ∀ (states : List (EvmState P)) (db : DatabaseRef),
        (states.foldl laws.commit db).blockHashRef = db.blockHashRef := by
      intro states
      induction states with
      | nil => exact fun db => rfl
      | cons state states ih => exact fun db => (ih _).trans (laws.blockHash db state)
    rw [hkept]
    rfl
  obtain ⟨haccount, hstorage⟩ := WorldState.mk.inj hworld
  cases hdb : (c.applyWith (.executable result) id now).database
  cases hdb' : states.foldl laws.commit c.database
  rw [hdb, hdb'] at haccount hstorage hcode hhash
  cases haccount
  cases hstorage
  cases hcode
  cases hhash
  rfl

lemma Assembled.segments (laws : JournalLaws block.evm) (h : Assembled block FlashbotsBundle.Canonical c)
    (hreads : ∀ ck ∈ c.history, ReadsState ck) :
    Segments block.evm.run laws.commit (baseDatabase block)
      (c.history.flatMap fun ck => ck.transactions.map encode)
      (c.history.flatMap executionResults) c.database := by
  induction h with
  | start id now => exact .nil
  | @apply c c' executable id now hc hK ha ih =>
    have hblock := hc.block_eq
    obtain ⟨result, hr, rfl⟩ := apply_eq ha
    subst hblock
    obtain ⟨states, hruns, hstate⟩ := execute_runs hK hr
    have hlast : ReadsState (c.applyWith (.executable result) id now) :=
      hreads _ (by rw [applyWith, history_next]; exact List.mem_append_right _ List.mem_cons_self)
    have hbefore : ∀ ck ∈ c.history, ReadsState ck := fun ck hck =>
      hreads ck (by rw [applyWith, history_next]; exact List.mem_append_left _ hck)
    have hself : ReadsState c := hbefore c (by
      rw [history, List.mem_reverse]
      cases c <;> exact List.mem_cons_self)
    have he : Executed c.block.evm c.database result.source.transactions states := executed_of_runs .nil hruns
    rw [database_after laws he hstate hself hlast, applyWith, history_next, List.flatMap_append,
      List.flatMap_append]
    simp only [List.flatMap_cons, List.flatMap_nil, List.append_nil]
    exact (ih hbefore).snoc hruns
  | @barrier c id now hc ih =>
    have hbefore : ∀ ck ∈ c.history, ReadsState ck := fun ck hck =>
      hreads ck (by rw [Checkpoint.barrier, applyWith, history_next]; exact List.mem_append_left _ hck)
    rw [database_barrier, Checkpoint.barrier, applyWith, history_next, List.flatMap_append, List.flatMap_append]
    change Segments _ _ _ (_ ++ []) (_ ++ []) _
    rw [List.append_nil, List.append_nil]
    exact ih hbefore

lemma cumulativeGasUsed_eq (c : Checkpoint P) :
    c.cumulativeGasUsed = ((c.history.flatMap executionResults).map PlatformTypes.gasUsed).sum := by
  have hone : ∀ ck : Checkpoint P, ck.gasUsed = (ck.executionResults.map PlatformTypes.gasUsed).sum := by
    intro ck
    rw [Checkpoint.gasUsed, executionResults]
    cases ck.result <;> rfl
  rw [cumulativeGasUsed]
  induction c.history with
  | nil => rfl
  | cons ck cks ih => rw [List.map_cons, List.sum_cons, ih, hone, List.flatMap_cons, List.map_append,
      List.sum_append]

/-- The transactions of the chain, run one after the other on the state of the parent block, give
the recorded results again, use the recorded gas and leave the state that the chain stands for. -/
structure Reexecutes (laws : JournalLaws block.evm) (c : Checkpoint P) (states : List (EvmState P)) : Prop where
  runs : runAll block.evm.run (baseDatabase block) [] ((c.history.flatMap transactions).map encode) =
    .ok (c.history.flatMap executionResults, states)
  gas : ((c.history.flatMap executionResults).map PlatformTypes.gasUsed).sum = c.cumulativeGasUsed
  state : states.foldl laws.commit (baseDatabase block) = c.database
  world : (states.foldl laws.commit (baseDatabase block)).world = c.world

lemma Assembled.reexecutes (laws : JournalLaws block.evm) (h : Assembled block FlashbotsBundle.Canonical c)
    (hreads : ∀ ck ∈ c.history, ReadsState ck) : ∃ states, Reexecutes laws c states := by
  obtain ⟨states, hruns, hstate⟩ := (h.segments laws hreads).runAll laws.readsThrough
  refine ⟨states, ?_, (cumulativeGasUsed_eq c).symm, hstate.symm, ?_⟩
  · rw [List.map_flatMap]
    exact hruns
  · have hself : c ∈ c.history := by
      rw [history, List.mem_reverse]
      cases c <;> exact List.mem_cons_self
    rw [← hstate, (hreads c hself).world_eq]

end Checkpoint

namespace Devnet

def commit (db : DatabaseRef) (state : Address × ℕ) : DatabaseRef :=
  { db with basicRef := fun a => if state.1 = a then .ok (some ⟨0, state.2, 0, none⟩) else db.basicRef a }

lemma basicRef_commits (db : DatabaseRef) (commits : List (Address × ℕ)) (a : Address) :
    (commits.foldl commit db).basicRef a =
      if commits.any (fun c => decide (c.1 = a)) then .ok (some ⟨0, nonceAt db commits a, 0, none⟩)
        else db.basicRef a := by
  induction commits using List.reverseRecOn with
  | nil => rfl
  | append_singleton commits c ih =>
    rw [List.foldl_append, List.foldl_cons, List.foldl_nil, commit]
    have hsnoc : (commits ++ [c]).any (fun c => decide (c.1 = a)) =
        (commits.any (fun c => decide (c.1 = a)) || decide (c.1 = a)) := by
      rw [List.any_append, List.any_cons, List.any_nil, Bool.or_false]
    dsimp only
    rw [ih, nonceAt_snoc, hsnoc]
    by_cases hc : c.1 = a
    · rw [if_pos hc, if_pos hc, decide_eq_true hc, Bool.or_true, if_pos rfl]
    · rw [if_neg hc, if_neg hc, decide_eq_false hc, Bool.or_false]

lemma nonceAt_untouched {db : DatabaseRef} {commits : List (Address × ℕ)} {a : Address}
    (h : ¬ commits.any (fun c => decide (c.1 = a)) = true) : nonceAt db commits a = nonceAt db [] a := by
  have hnone : commits.reverse.find? (fun c => decide (c.1 = a)) = none := by
    rw [List.find?_eq_none]
    intro c hmem hca
    exact h (List.any_eq_true.mpr ⟨c, List.mem_reverse.mp hmem, hca⟩)
  rw [nonceAt, hnone]
  rfl

lemma nonceAt_commits (db : DatabaseRef) (commits : List (Address × ℕ)) (a : Address) :
    nonceAt (commits.foldl commit db) [] a = nonceAt db commits a := by
  by_cases hc : commits.any (fun c => decide (c.1 = a)) = true
  · have hread := laws.read (commits.foldl commit db) a
    rw [basicRef_commits, if_pos hc] at hread
    exact hread
  · have hread := laws.read (commits.foldl commit db) a
    rw [basicRef_commits, if_neg hc, ← laws.read db a] at hread
    rw [nonceAt_untouched hc]
    exact hread

lemma frame_commits (db : DatabaseRef) (commits : List (Address × ℕ)) :
    (commits.foldl commit db).storageRef = db.storageRef ∧
      (commits.foldl commit db).codeByHashRef = db.codeByHashRef := by
  induction commits generalizing db with
  | nil => exact ⟨rfl, rfl⟩
  | cons c commits ih => exact ih (commit db c)

lemma account_takeBundle (db : DatabaseRef) (commits : List (Address × ℕ)) (a : Address) :
    (evm.takeBundle db commits).account a = if commits.any (fun c => decide (c.1 = a)) then
      some ⟨some ⟨0, nonceAt db commits a, 0, none⟩, none, fun _ => none, .changed⟩ else none := rfl

lemma applyTo_takeBundle (db : DatabaseRef) (commits : List (Address × ℕ)) :
    (evm.takeBundle db commits).applyTo db.world = (commits.foldl commit db).world := by
  obtain ⟨hstorage, -⟩ := frame_commits db commits
  refine congrArg₂ WorldState.mk ?_ ?_
  · funext a
    rw [account_takeBundle, basicRef_commits]
    cases commits.any fun c => decide (c.1 = a) with
    | false => rfl
    | true => rfl
  · funext a i
    rw [account_takeBundle, hstorage]
    cases commits.any fun c => decide (c.1 = a) with
    | false => rfl
    | true => rfl

def journalLaws : JournalLaws block.evm where
  commit := commit
  readsThrough db commits t := by
    have hnonce := nonceAt_commits db commits (PlainTx.signer t.1)
    simp only [Evm.run, block, evm, hnonce]
  world {db _ commits} _ := (applyTo_takeBundle db commits).symm
  code {db _ commits} _ h := by
    rw [(frame_commits db commits).2]
    rfl
  blockHash db state := rfl

end Devnet

end Rblib.Payload
