import Rblib.Library.Fallible
import Rblib.Platform.Bundle

/-! The encoded transactions a bundle keeps beside the recovered ones. -/

namespace Rblib.Platform

open Payload PlatformTypes Library

variable {P τ ε : Type} [PlatformTypes P]

/-- The EIP-2718 envelope of a platform's transactions, and the recovery of their signers. What the decoder reads
is the encoding of what it returns; the bytes after it stay unread. -/
structure Envelope (P τ ε : Type) [PlatformTypes P] where
  encode : τ → Bytes
  decode2718 : Bytes → Except ε (τ × Bytes)
  tryIntoRecovered : τ → Except ε (Transaction P)
  reads : ∀ {bytes tx unread}, decode2718 bytes = .ok (tx, unread) → bytes = encode tx ++ unread
  decodes : ∀ tx unread, decode2718 (encode tx ++ unread) = .ok (tx, unread)
  recovered : ∀ {tx signed}, tryIntoRecovered tx = .ok signed → encoded2718 signed = encode tx
  signed : ∀ signed : Transaction P, ∃ tx, tryIntoRecovered tx = .ok signed

namespace FlashbotsBundle

def intoInner (bundle : FlashbotsBundle P) : EthSendBundle := bundle.inner

def ofEthSendBundle (envelope : Envelope P τ ε) (inner : EthSendBundle) : Except ε (FlashbotsBundle P) :=
  tryFrom (fun tx => (envelope.decode2718 tx).map Prod.fst) envelope.tryIntoRecovered inner

inductive Call (P : Type) [PlatformTypes P]
  | withTransaction (tx : Transaction P)
  | withOptionalTransaction (tx : Transaction P)
  | markAsRevertable (tx : B256)
  | markAsOptional (tx : B256)
  | withMaxTimestamp (maxTs : UInt64)
  | withMinTimestamp (minTs : UInt64)
  | withBlockNumber (blockNumber : UInt64)
  | withoutTransaction (tx : B256)

def call (bundle : FlashbotsBundle P) : Call P → FlashbotsBundle P
  | .withTransaction tx => bundle.withTransaction tx
  | .withOptionalTransaction tx => bundle.withOptionalTransaction tx
  | .markAsRevertable tx => bundle.markAsRevertable tx
  | .markAsOptional tx => bundle.markAsOptional tx
  | .withMaxTimestamp maxTs => bundle.withMaxTimestamp maxTs
  | .withMinTimestamp minTs => bundle.withMinTimestamp minTs
  | .withBlockNumber blockNumber => bundle.withBlockNumber blockNumber
  | .withoutTransaction tx => bundle.withoutTransaction tx

def run (bundle : FlashbotsBundle P) (calls : List (Call P)) : FlashbotsBundle P := calls.foldl call bundle

def Framed (Left : Bytes → Prop) (bundle : FlashbotsBundle P) : Prop :=
  List.Forall₂ (fun bytes tx => ∃ unread, bytes = encoded2718 tx ++ unread ∧ Left unread)
    bundle.inner.txs bundle.recovered

variable {Left : Bytes → Prop} {bundle : FlashbotsBundle P}

lemma Framed.withTransaction (h : Framed Left bundle) (hnil : Left []) (tx : Transaction P) :
    Framed Left (bundle.withTransaction tx) := by
  rw [FlashbotsBundle.withTransaction]
  split
  · exact h
  · exact List.rel_append h (.cons ⟨[], (List.append_nil _).symm, hnil⟩ .nil)

lemma Framed.markAsOptional (h : Framed Left bundle) (tx : B256) : Framed Left (bundle.markAsOptional tx) := by
  rw [FlashbotsBundle.markAsOptional]
  split <;> exact h

lemma Framed.withoutTransaction (h : Framed Left bundle) (tx : B256) :
    Framed Left (bundle.withoutTransaction tx) := by
  rw [Framed, FlashbotsBundle.withoutTransaction]
  cases bundle.recovered.findIdx? fun t => txHash t == tx with
  | none => exact h
  | some i => exact forall₂_eraseIdx h i

lemma Framed.call (h : Framed Left bundle) (hnil : Left []) (c : Call P) : Framed Left (bundle.call c) := by
  cases c with
  | withTransaction tx => exact h.withTransaction hnil tx
  | withOptionalTransaction tx => exact (h.withTransaction hnil tx).markAsOptional (txHash tx)
  | markAsRevertable tx =>
    rw [FlashbotsBundle.call, FlashbotsBundle.markAsRevertable]
    split <;> exact h
  | markAsOptional tx => exact h.markAsOptional tx
  | withMaxTimestamp maxTs => exact h
  | withMinTimestamp minTs => exact h
  | withBlockNumber blockNumber => exact h
  | withoutTransaction tx => exact h.withoutTransaction tx

lemma Framed.run (h : Framed Left bundle) (hnil : Left []) (calls : List (Call P)) :
    Framed Left (bundle.run calls) := by
  induction calls generalizing bundle with
  | nil => exact h
  | cons c calls ih => exact ih (h.call hnil c)

lemma framed_default : Framed Left (default : FlashbotsBundle P) := .nil

section Envelope

variable {envelope : Envelope P τ ε} {inner : EthSendBundle}

lemma ofEthSendBundle_ok : ofEthSendBundle envelope inner = .ok bundle ↔ bundle.inner = inner ∧
    List.Forall₂ (fun bytes tx => ∃ decoded unread, envelope.decode2718 bytes = .ok (decoded, unread) ∧
      envelope.tryIntoRecovered decoded = .ok tx) inner.txs bundle.recovered := by
  have hstep : ∀ bytes tx, (∃ decoded, (envelope.decode2718 bytes).map Prod.fst = .ok decoded ∧
      envelope.tryIntoRecovered decoded = .ok tx) ↔
      ∃ decoded unread, envelope.decode2718 bytes = .ok (decoded, unread) ∧
        envelope.tryIntoRecovered decoded = .ok tx := by
    intro bytes tx
    constructor
    · rintro ⟨decoded, hd, hr⟩
      obtain ⟨⟨_, unread⟩, hread, rfl⟩ := map_eq_ok hd
      exact ⟨_, unread, hread, hr⟩
    · rintro ⟨decoded, unread, hread, hr⟩
      exact ⟨decoded, by rw [hread]; rfl, hr⟩
  simp only [← hstep]
  rw [← mapM_mapM_eq_ok, ofEthSendBundle, tryFrom]
  simp only [bind_eq_ok, pure, Except.pure, Except.ok.injEq]
  constructor
  · rintro ⟨txs, hd, recovered, hr, rfl⟩
    exact ⟨rfl, txs, hd, hr⟩
  · rintro ⟨rfl, txs, hd, hr⟩
    exact ⟨txs, hd, bundle.recovered, hr, rfl⟩

lemma framed_of_ofEthSendBundle (h : ofEthSendBundle envelope inner = .ok bundle)
    (hleft : ∀ bytes ∈ inner.txs, ∀ tx unread, envelope.decode2718 bytes = .ok (tx, unread) → Left unread) :
    Framed Left bundle := by
  obtain ⟨rfl, hall⟩ := ofEthSendBundle_ok.mp h
  rw [List.forall₂_iff_zip] at hall
  refine List.forall₂_iff_zip.mpr ⟨hall.1, fun {bytes tx} hmem => ?_⟩
  obtain ⟨decoded, unread, hread, hr⟩ := hall.2 hmem
  refine ⟨unread, ?_, hleft bytes (List.of_mem_zip hmem).1 decoded unread hread⟩
  rw [envelope.recovered hr]
  exact envelope.reads hread

lemma Framed.decoded (h : Framed Left bundle) : ofEthSendBundle envelope bundle.intoInner = .ok bundle := by
  refine ofEthSendBundle_ok.mpr ⟨rfl, h.imp ?_⟩
  rintro bytes tx ⟨unread, rfl, -⟩
  obtain ⟨decoded, hr⟩ := envelope.signed tx
  rw [envelope.recovered hr]
  exact ⟨decoded, unread, envelope.decodes decoded unread, hr⟩

structure Faithful (envelope : Envelope P τ ε) (bundle : FlashbotsBundle P) : Prop where
  encoded : bundle.inner.txs = bundle.recovered.map encoded2718
  handed : bundle.transactionsEncoded = bundle.transactions.map fun tx => (tx, encoded2718 tx)
  decoded : ofEthSendBundle envelope bundle.intoInner = .ok bundle

lemma framed_nil_iff : Framed (· = []) bundle ↔ bundle.inner.txs = bundle.recovered.map encoded2718 := by
  have hmap : List.Forall₂ (fun bytes tx => bytes = encoded2718 tx) bundle.inner.txs bundle.recovered ↔
      bundle.inner.txs = bundle.recovered.map encoded2718 := by
    rw [← List.forall₂_map_right_iff, List.forall₂_eq_eq_eq]
  rw [← hmap]
  constructor
  · intro h
    refine h.imp ?_
    rintro bytes tx ⟨unread, rfl, rfl⟩
    exact List.append_nil _
  · intro h
    refine h.imp ?_
    rintro bytes tx rfl
    exact ⟨[], (List.append_nil _).symm, rfl⟩

lemma Framed.faithful (h : Framed (· = []) bundle) : Faithful envelope bundle := by
  have hencoded := framed_nil_iff.mp h
  refine ⟨hencoded, ?_, h.decoded⟩
  rw [transactionsEncoded, transactions, hencoded, List.map_prod_left_eq_zip]

lemma faithful_iff (h : Framed Left bundle) :
    Faithful envelope bundle ↔ ∀ bytes ∈ bundle.inner.txs, ∃ tx, envelope.decode2718 bytes = .ok (tx, []) := by
  constructor
  · intro hf bytes hbytes
    rw [hf.encoded] at hbytes
    obtain ⟨tx, -, rfl⟩ := List.mem_map.mp hbytes
    obtain ⟨decoded, hr⟩ := envelope.signed tx
    have hread := envelope.decodes decoded []
    rw [List.append_nil, ← envelope.recovered hr] at hread
    exact ⟨decoded, hread⟩
  · intro hall
    apply Framed.faithful
    rw [Framed, List.forall₂_iff_zip] at h ⊢
    refine ⟨h.1, fun {bytes tx} hmem => ?_⟩
    obtain ⟨unread, rfl, -⟩ := h.2 hmem
    obtain ⟨other, hread⟩ := hall _ (List.of_mem_zip hmem).1
    obtain ⟨decoded, hr⟩ := envelope.signed tx
    rw [envelope.recovered hr, envelope.decodes] at hread
    cases hread
    exact ⟨[], rfl, rfl⟩

/-- A bundle made from a request is faithful, whatever is done to it, exactly if every transaction
of the request is read to its end; and a bundle is faithful exactly if every transaction it still
holds is. The conversion back always reads the transactions of the bundle. -/
theorem encodings_canonical_iff (envelope : Envelope P τ ε) :
    (∀ calls, Faithful envelope ((default : FlashbotsBundle P).run calls)) ∧
    ∀ inner bundle, ofEthSendBundle envelope inner = .ok bundle →
      ((∀ calls, Faithful envelope (bundle.run calls)) ↔
        ∀ bytes ∈ inner.txs, ∃ tx, envelope.decode2718 bytes = .ok (tx, [])) ∧
      ∀ calls, (Faithful envelope (bundle.run calls) ↔
          ∀ bytes ∈ (bundle.run calls).inner.txs, ∃ tx, envelope.decode2718 bytes = .ok (tx, [])) ∧
        (bundle.run calls).inner.txs.length = (bundle.run calls).recovered.length ∧
        ofEthSendBundle envelope (bundle.run calls).intoInner = .ok (bundle.run calls) := by
  have hnone : Framed (· = []) (default : FlashbotsBundle P) := framed_default
  refine ⟨fun calls => (hnone.run rfl calls).faithful, fun inner bundle h => ?_⟩
  have hframed : Framed (fun _ => True) bundle := framed_of_ofEthSendBundle h fun _ _ _ _ _ => trivial
  refine ⟨⟨fun hall => ?_, fun hread calls => ?_⟩, fun calls => ?_⟩
  · obtain ⟨rfl, -⟩ := ofEthSendBundle_ok.mp h
    exact (faithful_iff hframed).mp (hall [])
  · have hempty : Framed (· = []) bundle := by
      apply framed_of_ofEthSendBundle h
      intro bytes hbytes tx unread hdecode
      obtain ⟨other, hother⟩ := hread bytes hbytes
      cases hdecode.symm.trans hother
      rfl
    exact (hempty.run rfl calls).faithful
  · have hrun := hframed.run trivial calls
    exact ⟨faithful_iff hrun, hrun.length_eq, hrun.decoded⟩

end Envelope

end FlashbotsBundle

inductive Bytenet

instance : PlatformTypes Bytenet where
  Transaction := UInt8
  txHash tx := Fin.ofNat _ tx.toNat
  signer _ := 0
  nonce _ := 0
  encoded2718 tx := [tx]
  blobGasUsed _ := none
  TransactionExecutionResult := Bool
  isSuccess := id
  gasUsed _ := 21000
  HaltReason := Unit
  haltReason _ := none
  EvmError := String
  EvmState := Address × ℕ
  keccak256 _ := 0

namespace Bytenet

def envelope : Envelope Bytenet UInt8 String where
  encode tx := [tx]
  decode2718
    | [] => .error "input too short"
    | tx :: unread => .ok (tx, unread)
  tryIntoRecovered tx := .ok tx
  reads {bytes tx unread} h := by
    cases bytes with
    | nil => cases h
    | cons b rest =>
      cases h
      rfl
  decodes _ _ := rfl
  recovered h := by
    cases h
    rfl
  signed tx := ⟨tx, rfl⟩

def paddedRequest : EthSendBundle where
  txs := [[7, 9]]

open FlashbotsBundle in
theorem padded_kept : ∃ bundle, ofEthSendBundle envelope paddedRequest = .ok bundle ∧
    bundle.transactionsEncoded = [((7 : UInt8), [7, 9])] ∧ bundle.recovered.map encoded2718 = [[7]] ∧
    ¬ Faithful envelope bundle := by
  refine ⟨⟨paddedRequest, [(7 : UInt8)]⟩, rfl, rfl, rfl, fun h => ?_⟩
  exact absurd h.encoded (by decide)

def exactRequest : EthSendBundle where
  txs := [[7], [8]]

open FlashbotsBundle in
theorem exact_faithful : ∃ bundle, ofEthSendBundle envelope exactRequest = .ok bundle ∧
    ∀ calls, Faithful envelope (bundle.run calls) := by
  have haccepted : ofEthSendBundle envelope exactRequest = .ok ⟨exactRequest, [(7 : UInt8), (8 : UInt8)]⟩ := rfl
  refine ⟨_, haccepted, ((encodings_canonical_iff envelope).2 _ _ haccepted).1.mpr fun bytes hbytes => ?_⟩
  obtain rfl | hbytes := List.mem_cons.mp hbytes
  · exact ⟨7, rfl⟩
  · obtain rfl := List.mem_singleton.mp hbytes
    exact ⟨8, rfl⟩

end Bytenet

end Rblib.Platform
