import Rblib.Platform.Bundle

namespace Rblib.Platform

open Payload PlatformTypes

section Bytes

@[simp] lemma beBytes_length (w n : ℕ) : (beBytes w n).length = w := by
  simp [beBytes]

lemma beBytes_succ (w n : ℕ) : beBytes (w + 1) n = beBytes w (n / 256) ++ [UInt8.ofNat n] := by
  simp only [beBytes, List.range_succ_eq_map, List.map_cons, List.map_map, List.reverse_cons, pow_zero,
    Nat.div_one]
  congr 2
  apply List.map_congr_left
  intro i _
  rw [Function.comp_apply, Nat.pow_succ', Nat.div_div_eq_div_mul]

lemma beBytes_zero (w : ℕ) : beBytes w 0 = List.replicate w 0 := by
  induction w with
  | zero => rfl
  | succ w ih =>
    rw [beBytes_succ, Nat.zero_div, ih, List.replicate_succ']
    rfl

lemma beBytes_inj {w n m : ℕ} (hn : n < 256 ^ w) (hm : m < 256 ^ w) (h : beBytes w n = beBytes w m) :
    n = m := by
  induction w generalizing n m with
  | zero => omega
  | succ w ih =>
    rw [beBytes_succ, beBytes_succ] at h
    obtain ⟨hhigh, hlow⟩ := List.append_inj' h rfl
    rw [pow_succ] at hn hm
    have hdiv : n / 256 = m / 256 :=
      ih (Nat.div_lt_of_lt_mul (by omega)) (Nat.div_lt_of_lt_mul (by omega)) hhigh
    have hmod : n % 256 = m % 256 := by
      have hbyte := congrArg UInt8.toNat (List.cons.inj hlow).1
      simpa using hbyte
    omega

@[simp] lemma hashBytes_length (h : B256) : (hashBytes h).length = 32 := beBytes_length 32 h

lemma hashBytes_inj {h h' : B256} (he : hashBytes h = hashBytes h') : h = h' := by
  apply Fin.ext
  exact beBytes_inj (h.isLt.trans_le (by norm_num)) (h'.isLt.trans_le (by norm_num)) he

lemma hashesBytes_length (hs : List B256) : (hs.flatMap hashBytes).length = 32 * hs.length := by
  induction hs with
  | nil => rfl
  | cons h hs ih =>
    rw [List.flatMap_cons, List.length_append, ih, hashBytes_length, List.length_cons]
    omega

lemma hashesBytes_inj {hs hs' : List B256} (hl : hs.length = hs'.length)
    (h : hs.flatMap hashBytes = hs'.flatMap hashBytes) : hs = hs' := by
  induction hs generalizing hs' with
  | nil => exact (List.length_eq_zero_iff.mp hl.symm).symm
  | cons a hs ih =>
    cases hs' with
    | nil => cases hl
    | cons a' hs' =>
      rw [List.flatMap_cons, List.flatMap_cons] at h
      obtain ⟨ha, hrest⟩ := List.append_inj h (by simp)
      rw [hashBytes_inj ha, ih (Nat.succ.inj hl) hrest]

lemma hashesBytes_zero (n : ℕ) :
    (List.replicate n (0 : B256)).flatMap hashBytes = List.replicate (32 * n) 0 := by
  induction n with
  | zero => rfl
  | succ n ih =>
    rw [List.replicate_succ, List.flatMap_cons, ih, hashBytes, Fin.val_zero, beBytes_zero,
      List.replicate_append_replicate]
    congr 1
    omega

lemma utf8Bytes_inj {s s' : String} (h : utf8Bytes s = utf8Bytes s') : s = s' := by
  rw [← String.toByteArray_inj]
  exact ByteArray.ext (Array.toList_inj.mp h)

lemma utf8Bytes_zero (n : ℕ) :
    utf8Bytes (String.ofList (List.replicate n (Char.ofNat 0))) = List.replicate n 0 := by
  have hchar : String.utf8EncodeChar (Char.ofNat 0) = [0] := by decide
  rw [utf8Bytes, String.toUTF8_eq_toByteArray, String.toByteArray_ofList, List.utf8Encode,
    List.toList_data_toByteArray, List.flatMap_replicate, hchar]
  simp

lemma elim_inj {α : Type} {f : α → Bytes} {o o' : Option α} (hs : o.isSome = o'.isSome)
    (hf : ∀ a a', f a = f a' → a = a') (h : o.elim [] f = o'.elim [] f) : o = o' := by
  cases o with
  | none => exact (Option.isNone_iff_eq_none.mp (by simpa using hs)).symm
  | some a =>
    cases o' with
    | none => cases hs
    | some a' => rw [hf a a' h]

lemma elim_length {α : Type} {f : α → Bytes} {w : ℕ} (hf : ∀ a, (f a).length = w) (o : Option α) :
    (o.elim [] f).length = if o.isSome then w else 0 := by
  cases o with
  | none => rfl
  | some a => exact hf a

lemma uuidBytes_length (o : Option String) :
    (o.elim [] utf8Bytes).length = (o.map fun uuid => (utf8Bytes uuid).length).getD 0 := by
  cases o <;> rfl

end Bytes

structure BundleLayout where
  transactions : ℕ
  minTimestamp : Bool
  maxTimestamp : Bool
  reverting : ℕ
  replacementUuid : Option ℕ
  dropping : ℕ
  refundPercent : Bool
  refundRecipient : Bool
  refund : ℕ
  deriving DecidableEq

def BundleLayout.size (l : BundleLayout) : ℕ :=
  32 * l.transactions + 8 + (if l.minTimestamp then 8 else 0) + (if l.maxTimestamp then 8 else 0) +
    32 * l.reverting + l.replacementUuid.getD 0 + 32 * l.dropping + (if l.refundPercent then 1 else 0) +
    (if l.refundRecipient then 20 else 0) + 32 * l.refund

namespace FlashbotsBundle

variable {P : Type} [PlatformTypes P] {b b' : FlashbotsBundle P}

def layout (b : FlashbotsBundle P) : BundleLayout where
  transactions := b.transactions.length
  minTimestamp := b.inner.minTimestamp.isSome
  maxTimestamp := b.inner.maxTimestamp.isSome
  reverting := b.inner.revertingTxHashes.length
  replacementUuid := b.inner.replacementUuid.map fun uuid => (utf8Bytes uuid).length
  dropping := b.inner.droppingTxHashes.length
  refundPercent := b.inner.refundPercent.isSome
  refundRecipient := b.inner.refundRecipient.isSome
  refund := b.inner.refundTxHashes.length

structure SameContent (b b' : FlashbotsBundle P) : Prop where
  transactions : b.transactions.map txHash = b'.transactions.map txHash
  blockNumber : b.inner.blockNumber = b'.inner.blockNumber
  minTimestamp : b.inner.minTimestamp = b'.inner.minTimestamp
  maxTimestamp : b.inner.maxTimestamp = b'.inner.maxTimestamp
  reverting : b.inner.revertingTxHashes = b'.inner.revertingTxHashes
  replacementUuid : b.inner.replacementUuid = b'.inner.replacementUuid
  dropping : b.inner.droppingTxHashes = b'.inner.droppingTxHashes
  refundPercent : b.inner.refundPercent = b'.inner.refundPercent
  refundRecipient : b.inner.refundRecipient = b'.inner.refundRecipient
  refund : b.inner.refundTxHashes = b'.inner.refundTxHashes

lemma SameContent.layout_eq (h : SameContent b b') : b.layout = b'.layout := by
  have ht : b.transactions.length = b'.transactions.length := by
    simpa using congrArg List.length h.transactions
  rw [layout, layout, ht, h.minTimestamp, h.maxTimestamp, h.reverting, h.replacementUuid, h.dropping,
    h.refundPercent, h.refundRecipient, h.refund]

lemma written_length (b : FlashbotsBundle P) : b.written.length = b.layout.size := by
  have htxs : (b.transactions.flatMap fun tx => hashBytes (txHash tx)).length =
      32 * b.transactions.length := by
    have hmap := hashesBytes_length (b.transactions.map txHash)
    rwa [List.flatMap_map, List.length_map] at hmap
  simp only [written, List.length_append, htxs, uuidBytes_length, beBytes_length, hashesBytes_length,
    elim_length (fun ts : UInt64 => beBytes_length 8 ts.toNat),
    elim_length (fun percent : UInt8 => beBytes_length 1 percent.toNat),
    elim_length (fun a : Address => beBytes_length 20 a), layout, BundleLayout.size]
  rfl

lemma sameContent_of_written (hl : b.layout = b'.layout) (h : b.written = b'.written) : SameContent b b' := by
  obtain ⟨htxs, hmin, hmax, hrev, huuid, hdrop, hpercent, hrecipient, hrefund⟩ :=
    (BundleLayout.mk.injEq ..).mp hl
  have hnumber : ∀ n m : UInt64, beBytes 8 n.toNat = beBytes 8 m.toNat → n = m := fun n m he =>
    UInt64.toNat_inj.mp (beBytes_inj (n.toNat_lt.trans_le (by norm_num)) (m.toNat_lt.trans_le (by norm_num)) he)
  have hbyte : ∀ n m : UInt8, beBytes 1 n.toNat = beBytes 1 m.toNat → n = m := fun n m he =>
    UInt8.toNat_inj.mp (beBytes_inj (n.toNat_lt.trans_le (by norm_num)) (m.toNat_lt.trans_le (by norm_num)) he)
  have haddress : ∀ a a' : Address, beBytes 20 a = beBytes 20 a' → a = a' := fun a a' he =>
    Fin.ext (beBytes_inj (a.isLt.trans_le (by norm_num)) (a'.isLt.trans_le (by norm_num)) he)
  have huuidLength : (b.inner.replacementUuid.elim [] utf8Bytes).length =
      (b'.inner.replacementUuid.elim [] utf8Bytes).length := by
    rw [uuidBytes_length, uuidBytes_length, huuid]
  have huuidSome : b.inner.replacementUuid.isSome = b'.inner.replacementUuid.isSome := by
    simpa using congrArg Option.isSome huuid
  -- the fields are cut off from the right, each by its length
  simp only [written] at h
  obtain ⟨h, hrefundBytes⟩ := List.append_inj' h (by simp only [hashesBytes_length, hrefund])
  obtain ⟨h, hrecipientBytes⟩ := List.append_inj' h
    (by simp only [elim_length (fun a : Address => beBytes_length 20 a), hrecipient])
  obtain ⟨h, hpercentBytes⟩ := List.append_inj' h
    (by simp only [elim_length (fun p : UInt8 => beBytes_length 1 p.toNat), hpercent])
  obtain ⟨h, hdropBytes⟩ := List.append_inj' h (by simp only [hashesBytes_length, hdrop])
  obtain ⟨h, huuidBytes⟩ := List.append_inj' h huuidLength
  obtain ⟨h, hrevBytes⟩ := List.append_inj' h (by simp only [hashesBytes_length, hrev])
  obtain ⟨h, hmaxBytes⟩ := List.append_inj' h
    (by simp only [elim_length (fun ts : UInt64 => beBytes_length 8 ts.toNat), hmax])
  obtain ⟨h, hminBytes⟩ := List.append_inj' h
    (by simp only [elim_length (fun ts : UInt64 => beBytes_length 8 ts.toNat), hmin])
  obtain ⟨htxBytes, hblockBytes⟩ := List.append_inj' h (by simp only [beBytes_length])
  have htxHashes : (b.transactions.map txHash).flatMap hashBytes =
      (b'.transactions.map txHash).flatMap hashBytes := by
    simpa only [List.flatMap_map] using htxBytes
  exact
    { transactions := hashesBytes_inj (by simpa using htxs) htxHashes
      blockNumber := hnumber _ _ hblockBytes
      minTimestamp := elim_inj hmin hnumber hminBytes
      maxTimestamp := elim_inj hmax hnumber hmaxBytes
      reverting := hashesBytes_inj hrev hrevBytes
      replacementUuid := elim_inj huuidSome (fun _ _ => utf8Bytes_inj) huuidBytes
      dropping := hashesBytes_inj hdrop hdropBytes
      refundPercent := elim_inj hpercent hbyte hpercentBytes
      refundRecipient := elim_inj hrecipient haddress hrecipientBytes
      refund := hashesBytes_inj hrefund hrefundBytes }

def blank (txs : List (Transaction P)) (l : BundleLayout) : FlashbotsBundle P where
  inner :=
    { txs := txs.map encoded2718
      blockNumber := 0
      minTimestamp := if l.minTimestamp then some 0 else none
      maxTimestamp := if l.maxTimestamp then some 0 else none
      revertingTxHashes := List.replicate l.reverting 0
      replacementUuid := l.replacementUuid.map fun n => String.ofList (List.replicate n (Char.ofNat 0))
      droppingTxHashes := List.replicate l.dropping 0
      refundPercent := if l.refundPercent then some 0 else none
      refundRecipient := if l.refundRecipient then some 0 else none
      refundTxHashes := List.replicate l.refund 0 }
  recovered := txs

lemma layout_blank {txs : List (Transaction P)} {l : BundleLayout} (h : l.transactions = txs.length) :
    (blank txs l).layout = l := by
  have hisSome : ∀ (p : Bool) {α : Type} (a : α), (if p then some a else none).isSome = p := by
    intro p α a
    cases p <;> rfl
  have huuid : (fun n => (utf8Bytes (String.ofList (List.replicate n (Char.ofNat 0)))).length) = id := by
    funext n
    rw [utf8Bytes_zero, List.length_replicate, id]
  cases l
  simp only [layout, blank, transactions, hisSome, List.length_replicate, Option.map_map,
    Function.comp_def, huuid, BundleLayout.mk.injEq]
  simp_all

lemma written_blank {txs : List (Transaction P)} {l : BundleLayout} (h : l.transactions = txs.length) :
    (blank txs l).written =
      (txs.flatMap fun tx => hashBytes (txHash tx)) ++ List.replicate (l.size - 32 * txs.length) 0 := by
  have hopt : ∀ (p : Bool) {α : Type} (a : α) (f : α → Bytes) (w : ℕ), f a = List.replicate w 0 →
      (if p then some a else none).elim [] f = List.replicate (if p then w else 0) 0 := by
    intro p α a f w hf
    cases p
    · rfl
    · exact hf
  have huuid : ((l.replacementUuid.map fun n => String.ofList (List.replicate n (Char.ofNat 0))).elim []
      utf8Bytes) = List.replicate (l.replacementUuid.getD 0) 0 := by
    cases l.replacementUuid with
    | none => rfl
    | some n => exact utf8Bytes_zero n
  simp only [written, blank, transactions, huuid, hashesBytes_zero,
    hopt _ (0 : UInt64) (fun ts => beBytes 8 ts.toNat) 8 (beBytes_zero 8),
    hopt _ (0 : UInt8) (fun percent => beBytes 1 percent.toNat) 1 (beBytes_zero 1),
    hopt _ (0 : Address) (fun a => beBytes 20 a) 20 (beBytes_zero 20), UInt64.toNat_zero, beBytes_zero,
    List.append_assoc, List.replicate_append_replicate]
  congr 2
  rw [BundleLayout.size, h]
  omega

/-- Keccak does not collide on what the two bundles write. -/
def KeccakSeparates (b b' : FlashbotsBundle P) : Prop :=
  keccak256 P b.written = keccak256 P b'.written → b.written = b'.written

lemma blank_collide {txs : List (Transaction P)} {l l' : BundleLayout} (h : l.transactions = txs.length)
    (h' : l'.transactions = txs.length) (hs : l.size = l'.size) :
    (blank txs l).written = (blank txs l').written := by
  rw [written_blank h, written_blank h', hs]

lemma layouts_separated_iff {txs : List (Transaction P)} {l l' : BundleLayout}
    (h : l.transactions = txs.length) (h' : l'.transactions = txs.length) :
    (∀ c c' : FlashbotsBundle P, c.layout = l → c'.layout = l' → KeccakSeparates c c' →
      c.hash = c'.hash → SameContent c c') ↔ (l = l' ∨ l.size ≠ l'.size) := by
  constructor
  · intro hall
    by_contra hne
    push Not at hne
    have hw := blank_collide h h' hne.2
    have hc := hall _ _ (layout_blank h) (layout_blank h') (fun _ => hw) (congrArg (keccak256 P) hw)
    exact hne.1 (layout_blank h ▸ layout_blank h' ▸ hc.layout_eq)
  · rintro (rfl | hsize) c c' hc hc' hk hh
    · exact sameContent_of_written (hc.trans hc'.symm) (hk hh)
    · have hlength := congrArg List.length (hk hh)
      rw [written_length, written_length, hc, hc'] at hlength
      exact absurd hlength hsize

theorem hash_separates_iff (b b' : FlashbotsBundle P) (hk : KeccakSeparates b b') :
    ((b.hash = b'.hash → SameContent b b') ↔ (b.layout = b'.layout ∨ b.written ≠ b'.written)) ∧
      ∀ l l' : BundleLayout, l.transactions = b.transactions.length →
        l'.transactions = b.transactions.length →
          ((∀ c c' : FlashbotsBundle P, c.layout = l → c'.layout = l' → KeccakSeparates c c' →
            c.hash = c'.hash → SameContent c c') ↔ (l = l' ∨ l.size ≠ l'.size)) := by
  refine ⟨⟨?_, ?_⟩, fun l l' h h' => layouts_separated_iff h h'⟩
  · intro h
    by_cases hw : b.written = b'.written
    · exact .inl (h (congrArg (keccak256 P) hw)).layout_eq
    · exact .inr hw
  · rintro (hl | hw) hh
    · exact sameContent_of_written hl (hk hh)
    · exact absurd (hk hh) hw

def transfer : PlainTx := ⟨11, 7, 0⟩

def notBefore (ts : UInt64) : FlashbotsBundle Devnet := (default.withTransaction transfer).withMinTimestamp ts

def notAfter (ts : UInt64) : FlashbotsBundle Devnet := (default.withTransaction transfer).withMaxTimestamp ts

theorem notAfter_separated :
    KeccakSeparates (notAfter 12) (notAfter 13) ∧
      ((notAfter 12).hash = (notAfter 13).hash → SameContent (notAfter 12) (notAfter 13)) := by
  have hk : KeccakSeparates (notAfter 12) (notAfter 13) := fun h => absurd h (by decide +kernel)
  exact ⟨hk, (hash_separates_iff (notAfter 12) (notAfter 13) hk).1.mpr (.inl (by decide +kernel))⟩

theorem timestamps_collide :
    (notBefore 12).written = (notAfter 12).written ∧ (notBefore 12).hash = (notAfter 12).hash ∧
      ¬ SameContent (notBefore 12) (notAfter 12) := by
  have hw : (notBefore 12).written = (notAfter 12).written := by decide +kernel
  refine ⟨hw, congrArg (keccak256 Devnet) hw, fun h => ?_⟩
  exact absurd h.minTimestamp (by decide)

end FlashbotsBundle

end Rblib.Platform
