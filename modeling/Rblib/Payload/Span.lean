import Rblib.Payload.Checkpoint

/-! Spans of checkpoints, `payload/span.rs` and `payload/ext/span.rs`, and the blob gas they add up.
-/

namespace Rblib.Payload

open Platform PlatformTypes

variable {P : Type} [PlatformTypes P]

structure Span (P : Type) [PlatformTypes P] where
  checkpoints : List (Checkpoint P)
  linear : ∃ c : Checkpoint P, checkpoints <:+: c.history

namespace Span

def history (c : Checkpoint P) : Span P := ⟨c.history, c, List.infix_refl _⟩

def transactions (span : Span P) : List (Transaction P) := span.checkpoints.flatMap Checkpoint.transactions

def blobGasUsed (span : Span P) : ℕ := (span.checkpoints.filterMap Checkpoint.blobGasUsed).sum

end Span

def hasBlob (tx : Transaction P) : Bool := (PlatformTypes.blobGasUsed tx).isSome

namespace Checkpoint

def hasBlobs (c : Checkpoint P) : Bool := c.transactions.any hasBlob

def blobGas (c : Checkpoint P) : ℕ := (c.transactions.filterMap PlatformTypes.blobGasUsed).sum

/-- Blobs together with a transaction that carries none. -/
def Mixed (c : Checkpoint P) : Prop :=
  (∃ tx ∈ c.transactions, PlatformTypes.blobGasUsed tx = none) ∧
    ∃ tx ∈ c.transactions, ∃ gas, PlatformTypes.blobGasUsed tx = some gas ∧ 0 < gas

lemma transactions_next (c : Checkpoint P) (d : CheckpointData P) :
    (Span.history (next c d)).transactions = (Span.history c).transactions ++ (next c d).transactions := by
  simp only [Span.transactions, Span.history, history_next, List.flatMap_append, List.flatMap_singleton]

lemma mapM_blobGas (txs : List (Transaction P)) :
    (txs.mapM PlatformTypes.blobGasUsed = some (txs.filterMap PlatformTypes.blobGasUsed) ∧
      ∀ tx ∈ txs, hasBlob tx = true) ∨
    (txs.mapM PlatformTypes.blobGasUsed = none ∧ ∃ tx ∈ txs, PlatformTypes.blobGasUsed tx = none) := by
  induction txs with
  | nil => exact .inl ⟨rfl, nofun⟩
  | cons tx txs ih =>
    rw [List.mapM_cons]
    cases hgas : PlatformTypes.blobGasUsed tx with
    | none => exact .inr ⟨rfl, tx, List.mem_cons_self, hgas⟩
    | some gas =>
      have htx : hasBlob tx = true := by rw [hasBlob, hgas, Option.isSome_some]
      obtain ⟨hsome, hall⟩ | ⟨hnone, other, hother, hmissing⟩ := ih
      · rw [hsome, List.filterMap_cons_some hgas]
        exact .inl ⟨rfl, List.forall_mem_cons.mpr ⟨htx, hall⟩⟩
      · rw [hnone]
        exact .inr ⟨rfl, other, List.mem_cons_of_mem _ hother, hmissing⟩

lemma blobGasUsed_cases (c : Checkpoint P) :
    (c.blobGasUsed = some c.blobGas ∧ ∀ tx ∈ c.transactions, hasBlob tx = true) ∨
    (c.blobGasUsed = none ∧ ∃ tx ∈ c.transactions, PlatformTypes.blobGasUsed tx = none) := by
  rw [blobGasUsed]
  refine (mapM_blobGas c.transactions).imp (fun h => ⟨?_, h.2⟩) (fun h => ⟨?_, h.2⟩)
  · rw [h.1]
    rfl
  · rw [h.1]
    rfl

lemma blobGas_eq_zero (c : Checkpoint P) :
    c.blobGas = 0 ↔ ∀ tx ∈ c.transactions, ∀ gas, PlatformTypes.blobGasUsed tx = some gas → gas = 0 := by
  rw [blobGas, List.sum_eq_zero_iff]
  constructor
  · intro h tx htx gas hgas
    exact h gas (List.mem_filterMap.mpr ⟨tx, htx, hgas⟩)
  · intro h gas hgas
    obtain ⟨tx, htx, hgas⟩ := List.mem_filterMap.mp hgas
    exact h tx htx gas hgas

lemma blobGasUsed_le (c : Checkpoint P) : c.blobGasUsed.getD 0 ≤ c.blobGas := by
  obtain ⟨h, -⟩ | ⟨h, -⟩ := c.blobGasUsed_cases
  · rw [h, Option.getD_some]
  · rw [h, Option.getD_none]
    exact Nat.zero_le _

lemma blobGasUsed_exact_iff (c : Checkpoint P) : c.blobGasUsed.getD 0 = c.blobGas ↔ ¬ c.Mixed := by
  obtain ⟨h, hall⟩ | ⟨h, hplain⟩ := c.blobGasUsed_cases
  · rw [h, Option.getD_some]
    refine ⟨fun _ hmixed => ?_, fun _ => rfl⟩
    obtain ⟨⟨tx, htx, hnone⟩, -⟩ := hmixed
    have htx := hall tx htx
    rw [hasBlob, hnone] at htx
    cases htx
  · rw [h, Option.getD_none, eq_comm, blobGas_eq_zero]
    constructor
    · rintro hzero ⟨-, tx, htx, gas, hgas, hpos⟩
      have := hzero tx htx gas hgas
      omega
    · intro hnot tx htx gas hgas
      by_contra hne
      exact hnot ⟨hplain, tx, htx, gas, hgas, Nat.pos_of_ne_zero hne⟩

lemma blobGasUsed_isSome_iff (c : Checkpoint P) :
    (c.blobGasUsed.isSome = true ↔ c.hasBlobs = true) ↔
      c.transactions ≠ [] ∧
        ((∀ tx ∈ c.transactions, hasBlob tx = true) ∨ ∀ tx ∈ c.transactions, hasBlob tx = false) := by
  have hany : c.hasBlobs = true ↔ ∃ tx ∈ c.transactions, hasBlob tx = true := List.any_eq_true
  rw [hany]
  obtain ⟨h, hall⟩ | ⟨h, plain, hplain, hnone⟩ := c.blobGasUsed_cases
  · rw [h, Option.isSome_some]
    constructor
    · intro hiff
      obtain ⟨tx, htx, -⟩ := hiff.mp rfl
      exact ⟨List.ne_nil_of_mem htx, .inl hall⟩
    · rintro ⟨hne, -⟩
      obtain ⟨tx, htx⟩ := List.exists_mem_of_ne_nil _ hne
      exact ⟨fun _ => ⟨tx, htx, hall tx htx⟩, fun _ => rfl⟩
  · have hfalse : hasBlob plain = false := by rw [hasBlob, hnone, Option.isSome_none]
    rw [h, Option.isSome_none]
    constructor
    · intro hiff
      refine ⟨List.ne_nil_of_mem hplain, .inr fun tx htx => ?_⟩
      cases hb : hasBlob tx with
      | false => rfl
      | true => cases hiff.mpr ⟨tx, htx, hb⟩
    · rintro ⟨-, hall | hnone⟩
      · rw [hall plain hplain] at hfalse
        cases hfalse
      · refine ⟨nofun, ?_⟩
        rintro ⟨tx, htx, hb⟩
        rw [hnone tx htx] at hb
        cases hb

lemma blobGasUsed_sum (checkpoints : List (Checkpoint P)) :
    (checkpoints.filterMap blobGasUsed).sum ≤
      ((checkpoints.flatMap transactions).filterMap PlatformTypes.blobGasUsed).sum ∧
    ((checkpoints.filterMap blobGasUsed).sum =
      ((checkpoints.flatMap transactions).filterMap PlatformTypes.blobGasUsed).sum ↔
        ∀ c ∈ checkpoints, ¬ c.Mixed) := by
  induction checkpoints with
  | nil => exact ⟨le_rfl, fun _ => nofun, fun _ => rfl⟩
  | cons c checkpoints ih =>
    obtain ⟨hle, heq⟩ := ih
    have hone : ((c :: checkpoints).filterMap blobGasUsed).sum =
        c.blobGasUsed.getD 0 + (checkpoints.filterMap blobGasUsed).sum := by
      cases h : c.blobGasUsed with
      | none => simp [h]
      | some gas => simp [h]
    have hfirst := c.blobGasUsed_le
    rw [hone, List.flatMap_cons, List.filterMap_append, List.sum_append, List.forall_mem_cons, ← heq,
      ← c.blobGasUsed_exact_iff]
    change _ ≤ c.blobGas + _ ∧ (_ = c.blobGas + _ ↔ _)
    omega

end Checkpoint

theorem blob_gas_exact_iff (span : Span P) :
    (span.blobGasUsed = (span.transactions.filterMap PlatformTypes.blobGasUsed).sum ↔
      ∀ c ∈ span.checkpoints, ¬ c.Mixed) ∧
    (∀ c : Checkpoint P,
      ((Span.history c).transactions.filterMap PlatformTypes.blobGasUsed).sum ≤ c.cumulativeBlobGasUsed ↔
        ∀ c' ∈ c.history, ¬ c'.Mixed) ∧
    ∀ c : Checkpoint P, (c.blobGasUsed.isSome = true ↔ ∃ tx ∈ c.transactions, hasBlob tx = true) ↔
      c.transactions ≠ [] ∧
        ((∀ tx ∈ c.transactions, hasBlob tx = true) ∨ ∀ tx ∈ c.transactions, hasBlob tx = false) := by
  refine ⟨(Checkpoint.blobGasUsed_sum span.checkpoints).2, fun c => ?_, fun c => ?_⟩
  · obtain ⟨hle, heq⟩ := Checkpoint.blobGasUsed_sum c.history
    exact (Iff.intro hle.antisymm fun h => h.ge).trans heq
  · rw [← c.blobGasUsed_isSome_iff, Checkpoint.hasBlobs, List.any_eq_true]

structure BlobTx where
  hash : B256
  signer : Address
  nonce : ℕ
  blobs : Option ℕ

inductive Blobnet

instance : PlatformTypes Blobnet where
  Transaction := BlobTx
  txHash := BlobTx.hash
  signer := BlobTx.signer
  nonce := BlobTx.nonce
  encoded2718 tx := hashBytes tx.hash
  blobGasUsed tx := tx.blobs.map (· * 131072)
  TransactionExecutionResult := Bool
  isSuccess := id
  gasUsed _ := 21000
  HaltReason := Unit
  haltReason _ := none
  EvmError := String
  EvmState := Address × ℕ
  keccak256 bytes := bytes.foldl (fun h b => h * 257 + Fin.ofNat _ (b.toNat + 1)) 0

namespace Blobnet

def evm : Evm Blobnet where
  transact _ _ tx _ := .ok (true, (BlobTx.signer tx, BlobTx.nonce tx + 1))
  takeBundle _ commits :=
    { state := fun a => (List.findRev? (fun c : Address × ℕ => c.1 = a) commits).map fun c =>
        ⟨some ⟨0, c.2, 0, none⟩, none, fun _ => none, .changed⟩
      contracts := fun _ => none }

def block : BlockContext Blobnet where
  number := 1
  timestamp := 12
  baseState :=
    { basicAccount := fun _ => .ok none
      storage := fun _ _ => .ok none
      bytecodeByHash := fun _ => .ok none
      blockHash := fun _ => .ok none }
  evm := evm

def start : Checkpoint Blobnet := .newAtBlock block 0 0

def withBlob : BlobTx := ⟨31, 7, 0, some 1⟩

def plain : BlobTx := ⟨32, 8, 0, none⟩

def mixed : FlashbotsBundle Blobnet := (FlashbotsBundle.default.withTransaction withBlob).withTransaction plain

theorem mixed_undercounted :
    ∃ c, start.apply (.bundle mixed) 1 1 = .ok c ∧
      ((Span.history c).transactions.filterMap PlatformTypes.blobGasUsed).sum = 131072 ∧
      (Span.history c).blobGasUsed = 0 ∧ c.cumulativeBlobGasUsed = 0 ∧
      c.blobGasUsed = none ∧ c.hasBlobs = true ∧
      start.blobGasUsed = some 0 ∧ start.hasBlobs = false := by
  refine ⟨_, rfl, ?_, ?_, ?_, ?_, ?_, rfl, rfl⟩
  · decide
  · decide
  · decide
  · decide
  · decide

end Blobnet

end Rblib.Payload
