import Rblib.Payload.BundleRun
import Rblib.Payload.Checkpoint

namespace Rblib.Payload

open Platform PlatformTypes Library

variable {P : Type} [PlatformTypes P]

def DroppedFirst (bundle : FlashbotsBundle P) (evm : Evm P) (db : DatabaseRef)
    (t : Transaction P × Bytes) : Prop :=
  bundle.isOptional (txHash t.1) = true ∧
    ∀ result state, evm.transact db [] t.1 t.2 = .ok (result, state) →
      (isSuccess result || bundle.isAllowedToFail (txHash t.1)) = false

structure Emptied (bundle : FlashbotsBundle P) (block : BlockContext P) (db : DatabaseRef) : Prop where
  eligible : bundle.eligibilityAt block.timestamp block.number = .eligible
  encoded : bundle.recovered.length ≤ bundle.inner.txs.length
  dropped : ∀ t ∈ bundle.transactionsEncoded, DroppedFirst bundle block.evm db t

def AllDiscarded (bundle : FlashbotsBundle P) (block : BlockContext P) (db : DatabaseRef) : Prop :=
  bundle.eligibilityAt block.timestamp block.number = .eligible ∧ ∃ acc,
    bundle.transactionsEncoded.foldlM (Executable.executeBundleTransaction bundle block db) {} = .ok acc ∧
    acc.discarded = bundle.transactions.map txHash

structure RefusesEmpty (bundle : FlashbotsBundle P) (block : BlockContext P) (db : DatabaseRef) : Prop where
  discarded : AllDiscarded bundle block db → ∃ e, Executable.executeBundle bundle block db = .error e
  nonempty : ∀ result, Executable.executeBundle bundle block db = .ok result → result.source.transactions ≠ []
  reexecuted : ∀ result, Executable.executeBundle bundle block db = .ok result →
    ∀ db' eligibility, result.source.execute block db' ≠ .error (.ineligibleBundle eligibility)

def AppliesNonempty (bundle : FlashbotsBundle P) (c : Checkpoint P) : Prop :=
  ∀ id now c', c.apply (.bundle bundle) id now = .ok c' → c'.transactions ≠ [] ∧
    ∀ executable, c'.tryIntoExecutable = .ok executable → ∀ base : Checkpoint P, base.block = c.block →
      ∀ id now eligibility, base.apply executable id now ≠ .error (.ineligibleBundle eligibility)

section Fold

variable {bundle : FlashbotsBundle P} {block : BlockContext P} {db : DatabaseRef}

lemma executeBundleTransaction_dropped {acc : Executable.Progress P} {t : Transaction P × Bytes}
    (hcommits : acc.commits = []) (ht : DroppedFirst bundle block.evm db t) :
    Executable.executeBundleTransaction bundle block db acc t =
      .ok { acc with discarded := acc.discarded ++ [txHash t.1] } := by
  obtain ⟨hopt, hfails⟩ := ht
  rw [Executable.executeBundleTransaction, hcommits]
  cases hr : block.evm.transact db [] t.1 t.2 with
  | error e => exact if_pos hopt
  | ok r =>
    have hfail := hfails r.1 r.2 hr
    dsimp only
    rw [hfail, if_neg Bool.false_ne_true, if_pos hopt]

lemma fold_dropped (acc : Executable.Progress P) (hcommits : acc.commits = []) {ts : List (Transaction P × Bytes)}
    (hts : ∀ t ∈ ts, DroppedFirst bundle block.evm db t) :
    ts.foldlM (Executable.executeBundleTransaction bundle block db) acc =
      .ok { acc with discarded := acc.discarded ++ ts.map fun t => txHash t.1 } := by
  induction ts generalizing acc with
  | nil => simp [pure, Except.pure]
  | cons t ts ih =>
    apply foldlM_cons_eq_ok.mpr
    refine ⟨_, executeBundleTransaction_dropped hcommits (hts t List.mem_cons_self), ?_⟩
    rw [ih { acc with discarded := acc.discarded ++ [txHash t.1] } hcommits
      fun u hu => hts u (List.mem_cons_of_mem _ hu)]
    simp

lemma discarded_length_le {acc acc' : Executable.Progress P} {ts : List (Transaction P × Bytes)}
    (h : ts.foldlM (Executable.executeBundleTransaction bundle block db) acc = .ok acc') :
    acc'.discarded.length ≤ acc.discarded.length + ts.length := by
  obtain ⟨marks, hm⟩ := executeBundle_marks ts h
  have hlength : marks.length = ts.length := by
    rw [← List.length_map Prod.fst, hm.all, List.length_map]
  rw [hm.discarded, List.length_append, List.length_map, ← hlength]
  exact Nat.add_le_add_left (dropped_length_le marks) _

lemma dropped_of_length (acc : Executable.Progress P) {acc' : Executable.Progress P} (hcommits : acc.commits = [])
    {ts : List (Transaction P × Bytes)}
    (h : ts.foldlM (Executable.executeBundleTransaction bundle block db) acc = .ok acc')
    (hlength : acc.discarded.length + ts.length ≤ acc'.discarded.length) :
    ∀ t ∈ ts, DroppedFirst bundle block.evm db t := by
  induction ts generalizing acc with
  | nil => exact nofun
  | cons t ts ih =>
    obtain ⟨acc₁, hs, h⟩ := foldlM_cons_eq_ok.mp h
    have hle := discarded_length_le h
    rw [List.length_cons] at hlength
    obtain ⟨result, state, -, -, rfl⟩ | ⟨hopt, hc, rfl⟩ := executeBundleTransaction_ok hs
    · dsimp only at hle
      omega
    · rw [hcommits] at hc
      refine List.forall_mem_cons.mpr
        ⟨⟨hopt, hc⟩, ih { acc with discarded := acc.discarded ++ [txHash t.1] } hcommits h ?_⟩
      rw [List.length_append, List.length_singleton]
      omega

lemma Emptied.executes (h : Emptied bundle block db) :
    AllDiscarded bundle block db ∧ ∃ result, Executable.executeBundle bundle block db = .ok result ∧
      result.source.transactions = [] := by
  have hfold := fold_dropped {} rfl h.dropped
  have hdiscarded : (bundle.transactionsEncoded.map fun t => txHash t.1) = bundle.recovered.map txHash := by
    rw [← List.map_fst_zip h.encoded, List.map_map]
    rfl
  rw [List.nil_append, hdiscarded] at hfold
  refine ⟨⟨h.eligible, _, hfold, rfl⟩, _, executeBundle_ok_iff.mpr ⟨h.eligible, _, hfold, rfl⟩, ?_⟩
  have hrecovered := recovered_withoutTransactions (bundle.recovered.map txHash) bundle
  rw [eraseFirst_all] at hrecovered
  exact hrecovered

lemma emptied_of_executes {result : ExecutionResult P} (h : Executable.executeBundle bundle block db = .ok result)
    (hempty : result.source.transactions = []) : Emptied bundle block db := by
  obtain ⟨helig, acc, hfold, rfl⟩ := executeBundle_ok_iff.mp h
  have hrecovered : acc.discarded.foldl (eraseFirst txHash) bundle.recovered = [] :=
    (recovered_withoutTransactions acc.discarded bundle).symm.trans hempty
  have hlength := eraseFirst_length txHash acc.discarded bundle.recovered
  have hle := discarded_length_le hfold
  have hzip : bundle.transactionsEncoded.length = min bundle.recovered.length bundle.inner.txs.length :=
    List.length_zip
  rw [hrecovered, List.length_nil] at hlength
  simp only [List.length_nil] at hle
  refine ⟨helig, by omega, dropped_of_length {} rfl hfold ?_⟩
  rw [List.length_nil]
  omega

lemma AllDiscarded.emptied (h : AllDiscarded bundle block db) : Emptied bundle block db := by
  obtain ⟨helig, acc, hfold, hdiscarded⟩ := h
  apply emptied_of_executes (executeBundle_ok_iff.mpr ⟨helig, acc, hfold, rfl⟩)
  have hrecovered := recovered_withoutTransactions acc.discarded bundle
  rw [hdiscarded, FlashbotsBundle.transactions, eraseFirst_all] at hrecovered
  exact (congrArg (fun discarded => (discarded.foldl FlashbotsBundle.withoutTransaction bundle).recovered)
    hdiscarded).trans hrecovered

lemma eligible_withoutTransactions {timestamp number : ℕ} (hashes : List B256)
    (helig : bundle.eligibilityAt timestamp number = .eligible)
    (hne : (hashes.foldl FlashbotsBundle.withoutTransaction bundle).transactions ≠ []) :
    (hashes.foldl FlashbotsBundle.withoutTransaction bundle).eligibilityAt timestamp number = .eligible := by
  have hinner : ∀ (hashes : List B256) (bundle : FlashbotsBundle P),
      (hashes.foldl FlashbotsBundle.withoutTransaction bundle).inner.maxTimestamp = bundle.inner.maxTimestamp ∧
      (hashes.foldl FlashbotsBundle.withoutTransaction bundle).inner.minTimestamp = bundle.inner.minTimestamp ∧
      (hashes.foldl FlashbotsBundle.withoutTransaction bundle).inner.blockNumber = bundle.inner.blockNumber := by
    intro hashes
    induction hashes with
    | nil => exact fun _ => ⟨rfl, rfl, rfl⟩
    | cons hash hashes ih => exact fun bundle => ih (bundle.withoutTransaction hash)
  obtain ⟨hmax, hmin, hnumber⟩ := hinner hashes bundle
  rw [FlashbotsBundle.eligibilityAt] at helig ⊢
  rw [hmax, hmin, hnumber, if_neg (mt List.isEmpty_iff.mp hne)]
  split at helig
  · cases helig
  · exact helig

lemma executeBundleTransaction_error {acc : Executable.Progress P} {t : Transaction P × Bytes}
    {eligibility : Eligibility} :
    Executable.executeBundleTransaction bundle block db acc t ≠ .error (.ineligibleBundle eligibility) := by
  rw [Executable.executeBundleTransaction]
  intro h
  split at h
  · split at h
    · cases h
    · split at h
      · cases h
      · cases h
  · split at h
    · cases h
    · cases h

lemma executeBundle_not_ineligible (helig : bundle.eligibilityAt block.timestamp block.number = .eligible)
    (eligibility : Eligibility) :
    Executable.executeBundle bundle block db ≠ .error (.ineligibleBundle eligibility) := by
  intro h
  rw [Executable.executeBundle, if_neg (not_not.mpr helig), bind_eq_error] at h
  obtain hfold | ⟨acc, -, hdone⟩ := h
  · obtain ⟨t, -, acc, herror⟩ := foldlM_eq_error hfold
    exact executeBundleTransaction_error herror
  · cases hdone

lemma source_not_ineligible {result : ExecutionResult P}
    (h : Executable.executeBundle bundle block db = .ok result)
    (hne : result.source.transactions ≠ []) (db' : DatabaseRef) (eligibility : Eligibility) :
    result.source.execute block db' ≠ .error (.ineligibleBundle eligibility) := by
  obtain ⟨helig, acc, -, rfl⟩ := executeBundle_ok_iff.mp h
  exact executeBundle_not_ineligible (eligible_withoutTransactions acc.discarded helig hne) eligibility

lemma source_bundle {result : ExecutionResult P} (h : Executable.executeBundle bundle block db = .ok result) :
    ∃ rest, result.source = .bundle rest := by
  obtain ⟨-, acc, -, rfl⟩ := executeBundle_ok_iff.mp h
  exact ⟨_, rfl⟩

end Fold

lemma tryIntoExecutable_source {c : Checkpoint P} {result : ExecutionResult P} {id now : ℕ}
    {rest : FlashbotsBundle P} (h : result.source = .bundle rest) :
    (c.applyWith (.executable result) id now).tryIntoExecutable = .ok result.source := by
  rw [h, Checkpoint.tryIntoExecutable]
  simp [Checkpoint.asTransaction, Checkpoint.asBundle, Checkpoint.result, Checkpoint.applyWith, Checkpoint.data, h]

theorem empty_bundles_refused_iff (bundle : FlashbotsBundle P) :
    (∀ (block : BlockContext P) (db : DatabaseRef), RefusesEmpty bundle block db ↔ ¬ Emptied bundle block db) ∧
      ∀ c : Checkpoint P, AppliesNonempty bundle c ↔ ¬ Emptied bundle c.block c.database := by
  refine ⟨fun block db => ⟨fun h hemptied => ?_, fun hnot =>
    ⟨fun hall => ?_, fun result hr => ?_, fun result hr => ?_⟩⟩,
    fun c => ⟨fun h hemptied => ?_, fun hnot id now c' hc => ?_⟩⟩
  · obtain ⟨-, result, hr, hempty⟩ := hemptied.executes
    exact h.nonempty result hr hempty
  · exact absurd hall.emptied hnot
  · exact fun hempty => hnot (emptied_of_executes hr hempty)
  · exact source_not_ineligible hr fun hempty => hnot (emptied_of_executes hr hempty)
  · obtain ⟨-, result, hr, hempty⟩ := hemptied.executes
    have happly : c.apply (.bundle bundle) 0 0 = .ok (c.applyWith (.executable result) 0 0) := by
      rw [Checkpoint.apply, Executable.execute, hr]
      rfl
    exact (h 0 0 _ happly).1 hempty
  · obtain ⟨result, hr, rfl⟩ := Checkpoint.apply_eq hc
    have hne : result.source.transactions ≠ [] := fun hempty => hnot (emptied_of_executes hr hempty)
    refine ⟨hne, fun executable he base hblock id now eligibility hbase => ?_⟩
    obtain ⟨rest, hrest⟩ := source_bundle hr
    rw [tryIntoExecutable_source hrest] at he
    cases he
    apply source_not_ineligible hr hne base.database eligibility
    rw [Checkpoint.apply, hblock] at hbase
    cases hs : result.source.execute c.block base.database with
    | error e =>
      rw [hs] at hbase
      cases hbase
      rfl
    | ok r =>
      rw [hs] at hbase
      cases hbase

namespace Devnet

def premature : PlainTx := ⟨24, 9, 5⟩

def onlyPremature : FlashbotsBundle Devnet := FlashbotsBundle.default.withOptionalTransaction premature

theorem onlyPremature_emptied :
    AllDiscarded onlyPremature block emptyDatabase ∧
      ∃ result, Executable.executeBundle onlyPremature block emptyDatabase = .ok result ∧
        result.source.transactions = [] ∧ result.results = [] ∧
        result.source.execute block emptyDatabase = .error (.ineligibleBundle .permanentlyIneligible) ∧
        ¬ RefusesEmpty onlyPremature block emptyDatabase := by
  refine ⟨⟨rfl, _, rfl, rfl⟩, _, rfl, rfl, rfl, rfl, fun h => ?_⟩
  exact h.nonempty _ rfl rfl

end Devnet

end Rblib.Payload
