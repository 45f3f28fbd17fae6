import Rblib.Library.Agreement
import Rblib.Payload.Span

/-! The transactions that an Optimism payload hands to the block builder,
`platform/optimism/mod.rs`. -/

namespace Rblib.Platform.Optimism

open Library Payload PlatformTypes

variable {P τ : Type} [PlatformTypes P]

def prefixLen (sequencerTxs : List B256) (transactions : List (Transaction P)) : ℕ :=
  sequencerTxs.zipIdx.foldl (fun prefixLen entry =>
    if transactions[entry.2]?.any fun tx => txHash tx == entry.1 then prefixLen + 1 else prefixLen) 0

def extractExternalTxs (txHashOf : τ → B256) (attributes : List τ) (payload : Checkpoint P) :
    List (Transaction P) :=
  let sequencerTxs := attributes.map txHashOf
  let transactions := (Span.history payload).transactions
  transactions.drop (prefixLen sequencerTxs transactions)

def Leading (sequencerTxs : List B256) (transactions : List (Transaction P)) : Prop :=
  ∃ top rest, transactions = top ++ rest ∧ top.map txHash <+: sequencerTxs ∧ ∀ tx ∈ rest, txHash tx ∉ sequencerTxs

lemma foldl_zipIdx_eq (sequencerTxs : List B256) (transactions : List (Transaction P)) (start len : ℕ) :
    (sequencerTxs.zipIdx start).foldl (fun prefixLen entry =>
        if transactions[entry.2]?.any fun tx => txHash tx == entry.1 then prefixLen + 1 else prefixLen) len =
      len + agreements sequencerTxs ((transactions.drop start).map txHash) := by
  induction sequencerTxs generalizing start len with
  | nil => simp [agreements]
  | cons h sequencerTxs ih =>
    rw [List.zipIdx_cons, List.foldl_cons, ih]
    cases htx : transactions[start]? with
    | none =>
      have hlen := List.getElem?_eq_none_iff.mp htx
      rw [List.drop_eq_nil_of_le hlen, List.drop_eq_nil_of_le (hlen.trans (Nat.le_succ start))]
      simp
    | some tx =>
      obtain ⟨hlt, rfl⟩ := List.getElem?_eq_some_iff.mp htx
      rw [List.drop_eq_getElem_cons hlt, List.map_cons, agreements, Option.any_some]
      by_cases heq : h = txHash transactions[start]
      · rw [if_pos (beq_iff_eq.mpr heq.symm), if_pos heq, Nat.add_assoc]
      · rw [if_neg (fun hbeq => heq (beq_iff_eq.mp hbeq).symm), if_neg heq, Nat.zero_add]

lemma prefixLen_eq (sequencerTxs : List B256) (transactions : List (Transaction P)) :
    prefixLen sequencerTxs transactions = agreements sequencerTxs (transactions.map txHash) := by
  rw [prefixLen, foldl_zipIdx_eq, Nat.zero_add, List.drop_zero]

lemma prefixLen_append (sequencerTxs : List B256) {top rest : List (Transaction P)}
    (hrest : ∀ tx ∈ rest, txHash tx ∉ sequencerTxs) :
    prefixLen sequencerTxs (top ++ rest) = agreements sequencerTxs (top.map txHash) := by
  rw [prefixLen_eq, List.map_append, agreements_append, Nat.add_eq_left]
  refine agreements_eq_zero fun h hmem hin => ?_
  obtain ⟨tx, htx, rfl⟩ := List.mem_map.mp hmem
  exact hrest tx htx (List.mem_of_mem_drop hin)

lemma drop_prefixLen_iff (sequencerTxs : List B256) (transactions : List (Transaction P)) :
    transactions.drop (prefixLen sequencerTxs transactions) =
        transactions.filter (fun tx => decide (txHash tx ∉ sequencerTxs)) ↔ Leading sequencerTxs transactions := by
  rw [drop_eq_filter_iff]
  simp only [decide_eq_true_eq, decide_eq_false_iff_not, not_not]
  constructor
  · rintro ⟨-, hrest⟩
    generalize hk : prefixLen sequencerTxs transactions = k at hrest
    refine ⟨transactions.take k, transactions.drop k, (List.take_append_drop k transactions).symm, ?_, hrest⟩
    have hagree : agreements sequencerTxs ((transactions.take k).map txHash) = k := by
      rw [← prefixLen_append sequencerTxs hrest, List.take_append_drop, hk]
    have hle := agreements_le sequencerTxs ((transactions.take k).map txHash)
    rw [← agreements_eq_length_iff]
    rw [hagree, List.length_map, List.length_take] at hle
    rw [hagree, List.length_map, List.length_take]
    omega
  · rintro ⟨top, rest, rfl, htop, hrest⟩
    have hk : prefixLen sequencerTxs (top ++ rest) = top.length := by
      rw [prefixLen_append sequencerTxs hrest, (agreements_eq_length_iff _ _).mpr htop, List.length_map]
    rw [hk, List.take_left, List.drop_left]
    exact ⟨fun tx htx => htop.subset (List.mem_map_of_mem htx), hrest⟩

/-- Exactly the external transactions are handed to the builder, as long as the sequencer
transactions in the payload are all at its top and in their order. -/
theorem extractExternalTxs_exact_iff (txHashOf : τ → B256) (attributes : List τ) (payload : Checkpoint P) :
    extractExternalTxs txHashOf attributes payload =
        (Span.history payload).transactions.filter (fun tx => decide (txHash tx ∉ attributes.map txHashOf)) ↔
      Leading (attributes.map txHashOf) (Span.history payload).transactions :=
  drop_prefixLen_iff _ _

open Blobnet in
theorem interleaved_mixed_up :
    ∃ c₁ c₂ c₃, start.apply (.transaction plain) 1 1 = .ok c₁ ∧ c₁.apply (.transaction withBlob) 2 2 = .ok c₂ ∧
      c₂.apply (.transaction (⟨33, 7, 1, none⟩ : BlobTx)) 3 3 = .ok c₃ ∧
      (extractExternalTxs id [32, 34, 33] c₃).map txHash = [33] ∧
      ((Span.history c₃).transactions.filter fun tx => decide (txHash tx ∉ [32, 34, 33])).map txHash = [31] := by
  refine ⟨_, _, _, rfl, rfl, rfl, ?_, ?_⟩
  · decide
  · decide

end Rblib.Platform.Optimism
