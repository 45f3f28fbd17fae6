import Rblib.Platform.Bundle
import Mathlib.Logic.Function.Basic

/-! The list of transactions that is handed to the block builder, `platform/ethereum/pool.rs`. -/

namespace Rblib.Platform

open Payload PlatformTypes

class PoolTypes (P : Type) [PlatformTypes P] where
  PooledTransaction : Type
  tryFromConsensus : Transaction P → Option PooledTransaction
  sender : PooledTransaction → Address
  nonce : PooledTransaction → ℕ
  sender_of_consensus : ∀ tx pooled, tryFromConsensus tx = some pooled → sender pooled = signer tx
  nonce_of_consensus : ∀ tx pooled, tryFromConsensus tx = some pooled → nonce pooled = PlatformTypes.nonce tx
  SenderIdentifiers : Type
  default : SenderIdentifiers
  senderId : SenderIdentifiers → Address → Option ℕ
  senderIdOrCreate : SenderIdentifiers → Address → ℕ × SenderIdentifiers
  senderId_created : ∀ ids a, senderId (senderIdOrCreate ids a).2 a = some (senderIdOrCreate ids a).1
  senderId_kept : ∀ ids a b id, senderId ids b = some id → senderId (senderIdOrCreate ids a).2 b = some id
  senderId_inj : ∀ ids a b id, senderId ids a = some id → senderId ids b = some id → a = b

open PoolTypes

structure TransactionId where
  sender : ℕ
  nonce : ℕ
  deriving DecidableEq

/-- The fields that are the same for every transaction, and the time of its creation, are left out. -/
structure ValidPoolTransaction (P : Type) [PlatformTypes P] [PoolTypes P] where
  transaction : PooledTransaction P
  transactionId : TransactionId

structure FixedTransactions (P : Type) [PlatformTypes P] [PoolTypes P] where
  txs : List (Transaction P)
  senders : SenderIdentifiers P
  invalid : ℕ → Option TransactionId

inductive Unreachable (P : Type) [PlatformTypes P]
  | notPooled (tx : Transaction P)

namespace FixedTransactions

variable {P : Type} [PlatformTypes P] [PoolTypes P]

def new (txs : List (Transaction P)) : FixedTransactions P := ⟨txs.reverse, PoolTypes.default, fun _ => none⟩

def markInvalid (self : FixedTransactions P) (tx : ValidPoolTransaction P) : FixedTransactions P :=
  match self.invalid tx.transactionId.sender with
  | none => { self with invalid := Function.update self.invalid tx.transactionId.sender (some tx.transactionId) }
  | some id =>
    if id.nonce < tx.transactionId.nonce then
      { self with invalid := Function.update self.invalid tx.transactionId.sender (some tx.transactionId) }
    else self

def loop (self : FixedTransactions P) :
    List (Transaction P) → Except (Unreachable P) (Option (ValidPoolTransaction P) × FixedTransactions P)
  | [] => .ok (none, { self with txs := [] })
  | transaction :: rest =>
    match tryFromConsensus transaction with
    | none => .error (.notPooled transaction)
    | some pooled =>
      let nonce := PoolTypes.nonce pooled
      let (senderId, senders) := senderIdOrCreate self.senders (sender pooled)
      if (self.invalid senderId).any fun id => id.nonce ≤ nonce then loop { self with senders := senders } rest
      else .ok (some ⟨pooled, ⟨senderId, nonce⟩⟩,
        { self with txs := rest.reverse, senders := senders })

def next (self : FixedTransactions P) :
    Except (Unreachable P) (Option (ValidPoolTransaction P) × FixedTransactions P) :=
  self.loop self.txs.reverse

inductive PoolEvent (P : Type) [PlatformTypes P] [PoolTypes P]
  | skipped (tx : Transaction P)
  | yielded (tx : Transaction P) (item : ValidPoolTransaction P)
  | marked (item : ValidPoolTransaction P)

inductive Run (txs : List (Transaction P)) : FixedTransactions P → List (PoolEvent P) → Prop
  | new : Run txs (new txs) []
  | exhausted {self self' : FixedTransactions P} {log : List (PoolEvent P)} (h : Run txs self log)
      (hnext : self.next = .ok (none, self')) : Run txs self' ((self.txs.reverse.map .skipped).reverse ++ log)
  | next {self self' : FixedTransactions P} {log : List (PoolEvent P)} {skipped : List (Transaction P)}
      {tx : Transaction P} {item : ValidPoolTransaction P} (h : Run txs self log)
      (hnext : self.next = .ok (some item, self'))
      (hpopped : self.txs.reverse = skipped ++ tx :: self'.txs.reverse) :
      Run txs self' (.yielded tx item :: ((skipped.map .skipped).reverse ++ log))
  | markInvalid {self : FixedTransactions P} {log : List (PoolEvent P)} {tx : Transaction P}
      {item : ValidPoolTransaction P} (h : Run txs self log) (hy : PoolEvent.yielded tx item ∈ log) :
      Run txs (self.markInvalid item) (.marked item :: log)

def PoolEvent.popped : PoolEvent P → Option (Transaction P)
  | .skipped tx => some tx
  | .yielded tx _ => some tx
  | .marked _ => none

def PoolEvent.yield : PoolEvent P → Option (Transaction P)
  | .skipped _ => none
  | .yielded tx _ => some tx
  | .marked _ => none

def Covers (mark : ValidPoolTransaction P) (tx : Transaction P) : Prop :=
  sender mark.transaction = signer tx ∧ PoolTypes.nonce mark.transaction ≤ PlatformTypes.nonce tx

structure Respected (txs : List (Transaction P)) (log : List (PoolEvent P)) : Prop where
  sublist : (log.filterMap PoolEvent.yield).reverse.Sublist txs
  pooled : ∀ tx item, PoolEvent.yielded tx item ∈ log → tryFromConsensus tx = some item.transaction
  unmarked : ∀ tx item earlier, PoolEvent.yielded tx item :: earlier <:+ log →
    ∀ mark, .marked mark ∈ earlier → ¬ Covers mark tx
  excused : ∀ tx earlier, PoolEvent.skipped tx :: earlier <:+ log → ∃ mark, .marked mark ∈ earlier ∧ Covers mark tx

/-- Of the marks for its sender there is one at or below the transaction and one above it. -/
def Between (earlier : List (PoolEvent P)) (tx : Transaction P) : Prop :=
  ∃ low high, .marked low ∈ earlier ∧ .marked high ∈ earlier ∧ Covers low tx ∧
    sender high.transaction = signer tx ∧ PlatformTypes.nonce tx < PoolTypes.nonce high.transaction

def DecidedBy (earlier : List (PoolEvent P)) : PoolEvent P → Prop
  | .skipped tx => (∃ mark, .marked mark ∈ earlier ∧ Covers mark tx) ∧
      ∀ mark, .marked mark ∈ earlier → sender mark.transaction = signer tx → Covers mark tx
  | .yielded tx item => tryFromConsensus tx = some item.transaction ∧
      ((∀ mark, .marked mark ∈ earlier → sender mark.transaction ≠ signer tx) ∨
        ∃ mark, .marked mark ∈ earlier ∧ sender mark.transaction = signer tx ∧
          PlatformTypes.nonce tx < PoolTypes.nonce mark.transaction)
  | .marked item => ∃ tx, .yielded tx item ∈ earlier

structure Stored (senders : SenderIdentifiers P) (invalid : ℕ → Option TransactionId) (log : List (PoolEvent P)) :
    Prop where
  identified : ∀ tx item, .yielded tx item ∈ log →
    senderId senders (sender item.transaction) = some item.transactionId.sender ∧
      item.transactionId.nonce = PoolTypes.nonce item.transaction
  unset : ∀ id, invalid id = none → ∀ item, .marked item ∈ log → item.transactionId.sender ≠ id
  taken : ∀ id mark, invalid id = some mark → ∃ item, .marked item ∈ log ∧ item.transactionId = mark ∧
    mark.sender = id
  greatest : ∀ id mark, invalid id = some mark →
    ∀ item, .marked item ∈ log → item.transactionId.sender = id → item.transactionId.nonce ≤ mark.nonce
  decided : ∀ event earlier, event :: earlier <:+ log → DecidedBy earlier event

namespace Stored

variable {senders : SenderIdentifiers P} {invalid : ℕ → Option TransactionId} {log : List (PoolEvent P)}

lemma of_mem (h : Stored senders invalid log) {event : PoolEvent P} (he : event ∈ log) :
    ∃ earlier, event :: earlier <:+ log ∧ DecidedBy earlier event := by
  obtain ⟨later, earlier, rfl⟩ := List.append_of_mem he
  have hsuffix := List.suffix_append later (event :: earlier)
  exact ⟨earlier, hsuffix, h.decided event earlier hsuffix⟩

lemma yielded_of_marked (h : Stored senders invalid log) {earlier : List (PoolEvent P)} (hsuffix : earlier <:+ log)
    {item : ValidPoolTransaction P} (hm : .marked item ∈ earlier) : ∃ tx, .yielded tx item ∈ earlier := by
  obtain ⟨later, before, rfl⟩ := List.append_of_mem hm
  obtain ⟨tx, hy⟩ := h.decided _ _ ((List.suffix_append later _).trans hsuffix)
  exact ⟨tx, List.mem_append_right _ (List.mem_cons_of_mem _ hy)⟩

lemma pooled_of_yielded (h : Stored senders invalid log) {tx : Transaction P} {item : ValidPoolTransaction P}
    (hy : .yielded tx item ∈ log) : tryFromConsensus tx = some item.transaction := by
  obtain ⟨_, _, hd, -⟩ := h.of_mem hy
  exact hd

lemma of_marked (h : Stored senders invalid log) {item : ValidPoolTransaction P} (hm : .marked item ∈ log) :
    senderId senders (sender item.transaction) = some item.transactionId.sender ∧
      item.transactionId.nonce = PoolTypes.nonce item.transaction := by
  obtain ⟨tx, hy⟩ := h.yielded_of_marked List.suffix_rfl hm
  exact h.identified tx item hy

section

variable {tx : Transaction P} {pooled : PooledTransaction P}

lemma marked_iff (h : Stored senders invalid log) (hp : tryFromConsensus tx = some pooled)
    {item : ValidPoolTransaction P} (hm : .marked item ∈ log) :
    sender item.transaction = signer tx ↔
      item.transactionId.sender = (senderIdOrCreate senders (sender pooled)).1 := by
  have hitem := senderId_kept senders (sender pooled) _ _ (h.of_marked hm).1
  have hnew := senderId_created senders (sender pooled)
  rw [← sender_of_consensus tx pooled hp]
  constructor
  · intro heq
    rw [heq, hnew] at hitem
    exact (Option.some.inj hitem).symm
  · intro heq
    rw [heq] at hitem
    exact senderId_inj _ _ _ _ hitem hnew

lemma covers_iff (h : Stored senders invalid log) (hp : tryFromConsensus tx = some pooled)
    {item : ValidPoolTransaction P} (hm : .marked item ∈ log) (hs : sender item.transaction = signer tx) :
    Covers item tx ↔ item.transactionId.nonce ≤ PoolTypes.nonce pooled := by
  rw [Covers, and_iff_right hs, (h.of_marked hm).2, nonce_of_consensus tx pooled hp]

lemma pop (h : Stored senders invalid log) (a : Address) {event : PoolEvent P}
    (hpop : ∀ item, event ≠ .marked item) (hyield : ∀ tx item, event = .yielded tx item →
      senderId (senderIdOrCreate senders a).2 (sender item.transaction) = some item.transactionId.sender ∧
        item.transactionId.nonce = PoolTypes.nonce item.transaction)
    (hd : DecidedBy log event) : Stored (senderIdOrCreate senders a).2 invalid (event :: log) := by
  have hmarks : ∀ item, .marked item ∈ event :: log → .marked item ∈ log := fun item hm =>
    (List.mem_cons.mp hm).resolve_left fun heq => hpop item heq.symm
  constructor
  case identified =>
    intro tx item hy
    obtain heq | hy := List.mem_cons.mp hy
    · exact hyield tx item heq.symm
    · obtain ⟨hid, hnonce⟩ := h.identified tx item hy
      exact ⟨senderId_kept _ _ _ _ hid, hnonce⟩
  case unset => exact fun id hid item hm => h.unset id hid item (hmarks item hm)
  case taken =>
    intro id mark hid
    obtain ⟨item, hm, hitem⟩ := h.taken id mark hid
    exact ⟨item, List.mem_cons_of_mem _ hm, hitem⟩
  case greatest => exact fun id mark hid item hm => h.greatest id mark hid item (hmarks item hm)
  case decided =>
    intro event' earlier hsuffix
    obtain heq | hsuffix := List.suffix_cons_iff.mp hsuffix
    · cases heq
      exact hd
    · exact h.decided event' earlier hsuffix

lemma skip (h : Stored senders invalid log) (hp : tryFromConsensus tx = some pooled)
    (hc : (invalid (senderIdOrCreate senders (sender pooled)).1).any
      (fun id => id.nonce ≤ PoolTypes.nonce pooled) = true) :
    Stored (senderIdOrCreate senders (sender pooled)).2 invalid (.skipped tx :: log) := by
  obtain ⟨mark, hmark, hle⟩ := (Option.any_eq_true _ _).mp hc
  rw [decide_eq_true_eq] at hle
  refine h.pop (sender pooled) nofun nofun ⟨?_, fun item hm hs => ?_⟩
  · obtain ⟨item, hm, rfl, hid⟩ := h.taken _ mark hmark
    have hs := (h.marked_iff hp hm).mpr hid
    exact ⟨item, hm, (h.covers_iff hp hm hs).mpr hle⟩
  · exact (h.covers_iff hp hm hs).mpr ((h.greatest _ mark hmark item hm ((h.marked_iff hp hm).mp hs)).trans hle)

lemma yield (h : Stored senders invalid log) (hp : tryFromConsensus tx = some pooled)
    (hc : ¬ (invalid (senderIdOrCreate senders (sender pooled)).1).any
      (fun id => id.nonce ≤ PoolTypes.nonce pooled) = true) :
    Stored (senderIdOrCreate senders (sender pooled)).2 invalid
      (.yielded tx ⟨pooled, ⟨(senderIdOrCreate senders (sender pooled)).1, PoolTypes.nonce pooled⟩⟩ :: log) := by
  refine h.pop (sender pooled) nofun ?_ ⟨hp, ?_⟩
  · rintro _ _ ⟨⟩
    exact ⟨senderId_created _ _, rfl⟩
  · cases hid : invalid (senderIdOrCreate senders (sender pooled)).1 with
    | none => exact .inl fun item hm hs => h.unset _ hid item hm ((h.marked_iff hp hm).mp hs)
    | some mark =>
      obtain ⟨item, hm, rfl, hitem⟩ := h.taken _ mark hid
      have hs := (h.marked_iff hp hm).mpr hitem
      rw [hid, Option.any_some, decide_eq_true_eq, (h.of_marked hm).2, nonce_of_consensus tx pooled hp] at hc
      exact .inr ⟨item, hm, hs, not_le.mp hc⟩

end

lemma mark (h : Stored senders invalid log) {item : ValidPoolTransaction P} {tx : Transaction P}
    (hy : .yielded tx item ∈ log) {invalid' : ℕ → Option TransactionId}
    (hunset : ∀ id, invalid' id = none → invalid id = none ∧ item.transactionId.sender ≠ id)
    (htaken : ∀ id mark, invalid' id = some mark →
      (item.transactionId = mark ∧ mark.sender = id) ∨ invalid id = some mark)
    (hgreatest : ∀ id mark, invalid' id = some mark → ∀ other, .marked other ∈ .marked item :: log →
      other.transactionId.sender = id → other.transactionId.nonce ≤ mark.nonce) :
    Stored senders invalid' (.marked item :: log) := by
  constructor
  case identified =>
    exact fun tx other hother => h.identified tx other ((List.mem_cons.mp hother).resolve_left nofun)
  case unset =>
    intro id hid other hm
    obtain ⟨hnone, hne⟩ := hunset id hid
    obtain heq | hm := List.mem_cons.mp hm
    · cases heq
      exact hne
    · exact h.unset id hnone other hm
  case taken =>
    intro id mark hid
    obtain hitem | hold := htaken id mark hid
    · exact ⟨item, List.mem_cons_self, hitem⟩
    · obtain ⟨other, hm, hother⟩ := h.taken id mark hold
      exact ⟨other, List.mem_cons_of_mem _ hm, hother⟩
  case greatest => exact hgreatest
  case decided =>
    intro event earlier hsuffix
    obtain heq | hsuffix := List.suffix_cons_iff.mp hsuffix
    · cases heq
      exact ⟨tx, hy⟩
    · exact h.decided event earlier hsuffix

lemma insert (h : Stored senders invalid log) {item : ValidPoolTransaction P} {tx : Transaction P}
    (hy : .yielded tx item ∈ log)
    (hmax : ∀ other, .marked other ∈ log → other.transactionId.sender = item.transactionId.sender →
      other.transactionId.nonce ≤ item.transactionId.nonce) :
    Stored senders (Function.update invalid item.transactionId.sender (some item.transactionId))
      (.marked item :: log) := by
  have hother : ∀ id, item.transactionId.sender ≠ id →
      Function.update invalid item.transactionId.sender (some item.transactionId) id = invalid id :=
    fun id hne => Function.update_of_ne hne.symm _ _
  refine h.mark hy (fun id hid => ?_) (fun id mark hid => ?_) fun id mark hid other hm hs => ?_
  · by_cases heq : item.transactionId.sender = id
    · rw [heq, Function.update_self] at hid
      cases hid
    · exact ⟨hother id heq ▸ hid, heq⟩
  · by_cases heq : item.transactionId.sender = id
    · rw [heq, Function.update_self] at hid
      cases hid
      exact .inl ⟨rfl, heq⟩
    · exact .inr (hother id heq ▸ hid)
  · by_cases heq : item.transactionId.sender = id
    · rw [heq, Function.update_self] at hid
      cases hid
      obtain hnew | hm := List.mem_cons.mp hm
      · cases hnew
        exact le_rfl
      · exact hmax other hm (hs.trans heq.symm)
    · rw [hother id heq] at hid
      obtain hnew | hm := List.mem_cons.mp hm
      · cases hnew
        exact absurd hs heq
      · exact h.greatest id mark hid other hm hs

lemma keep (h : Stored senders invalid log) {item : ValidPoolTransaction P} {tx : Transaction P}
    {mark : TransactionId} (hy : .yielded tx item ∈ log) (hmark : invalid item.transactionId.sender = some mark)
    (hle : item.transactionId.nonce ≤ mark.nonce) : Stored senders invalid (.marked item :: log) := by
  refine h.mark hy (fun id hid => ⟨hid, ?_⟩) (fun id mark => .inr) fun id mark' hid other hm hs => ?_
  · rintro rfl
    rw [hmark] at hid
    cases hid
  · obtain hnew | hm := List.mem_cons.mp hm
    · cases hnew
      rw [← hs, hmark] at hid
      cases hid
      exact hle
    · exact h.greatest id mark' hid other hm hs

end Stored

lemma markInvalid_stored {self : FixedTransactions P} {log : List (PoolEvent P)} {item : ValidPoolTransaction P}
    {tx : Transaction P} (h : Stored self.senders self.invalid log) (hy : .yielded tx item ∈ log) :
    (self.markInvalid item).txs = self.txs ∧
      Stored (self.markInvalid item).senders (self.markInvalid item).invalid (.marked item :: log) := by
  rw [markInvalid]
  split
  · rename_i hnone
    exact ⟨rfl, h.insert hy fun other hm hs => absurd hs (h.unset _ hnone other hm)⟩
  · rename_i mark hmark
    split_ifs with hlt
    · exact ⟨rfl, h.insert hy fun other hm hs => (h.greatest _ mark hmark other hm hs).trans hlt.le⟩
    · exact ⟨rfl, h.keep hy hmark (not_lt.mp hlt)⟩

lemma loop_stored {self self' : FixedTransactions P} {pending : List (Transaction P)} {log : List (PoolEvent P)}
    {result : Option (ValidPoolTransaction P)} (h : Stored self.senders self.invalid log)
    (hloop : self.loop pending = .ok (result, self')) :
    (result = none ∧ self'.txs = [] ∧
      Stored self'.senders self'.invalid ((pending.map .skipped).reverse ++ log)) ∨
    ∃ item skipped tx rest, result = some item ∧ pending = skipped ++ tx :: rest ∧ self'.txs = rest.reverse ∧
      Stored self'.senders self'.invalid (.yielded tx item :: ((skipped.map .skipped).reverse ++ log)) := by
  induction pending generalizing self log with
  | nil =>
    cases hloop
    exact .inl ⟨rfl, rfl, h⟩
  | cons transaction pending ih =>
    rw [loop] at hloop
    cases hp : tryFromConsensus transaction with
    | none =>
      rw [hp] at hloop
      cases hloop
    | some pooled =>
      rw [hp] at hloop
      dsimp only at hloop
      split_ifs at hloop with hc
      · have hlog : ((transaction :: pending).map PoolEvent.skipped).reverse ++ log =
            (pending.map .skipped).reverse ++ .skipped transaction :: log := by simp
        obtain ⟨hnone, htxs, hstored⟩ | ⟨item, skipped, tx, rest, hsome, rfl, htxs, hstored⟩ :=
          ih (h.skip hp hc) hloop
        · exact .inl ⟨hnone, htxs, hlog ▸ hstored⟩
        · refine .inr ⟨item, transaction :: skipped, tx, rest, hsome, rfl, htxs, ?_⟩
          simpa using hstored
      · cases hloop
        exact .inr ⟨_, [], transaction, pending, rfl, rfl, rfl, h.yield hp hc⟩

lemma filterMap_popped_skipped (txs : List (Transaction P)) :
    ((txs.map PoolEvent.skipped).reverse).filterMap PoolEvent.popped = txs.reverse := by
  induction txs with
  | nil => rfl
  | cons tx txs ih => rw [List.map_cons, List.reverse_cons, List.filterMap_append, ih, List.reverse_cons]; rfl

lemma yield_sublist_popped (log : List (PoolEvent P)) :
    (log.filterMap PoolEvent.yield).Sublist (log.filterMap PoolEvent.popped) := by
  induction log with
  | nil => exact .slnil
  | cons event log ih =>
    cases event with
    | skipped tx => exact ih.cons tx
    | yielded tx item => exact ih.cons_cons tx
    | marked item => exact ih

lemma Run.stored {txs : List (Transaction P)} {self : FixedTransactions P} {log : List (PoolEvent P)}
    (h : Run txs self log) : Stored self.senders self.invalid log ∧
      txs = (log.filterMap PoolEvent.popped).reverse ++ self.txs.reverse := by
  induction h with
  | new =>
    refine ⟨⟨nofun, nofun, nofun, nofun, fun event earlier hsuffix => ?_⟩, (List.reverse_reverse txs).symm⟩
    cases List.suffix_nil.mp hsuffix
  | @exhausted self self' log _ hnext ih =>
    obtain ⟨-, hnil, hstored⟩ | ⟨_, _, _, _, hsome, -⟩ := loop_stored ih.1 hnext
    · refine ⟨hstored, ih.2.trans ?_⟩
      rw [hnil, List.filterMap_append, filterMap_popped_skipped, List.reverse_append, List.reverse_reverse,
        List.reverse_nil, List.append_nil]
    · cases hsome
  | @next self self' log skipped tx item _ hnext hpopped ih =>
    obtain ⟨hnone, -⟩ | ⟨item', skipped', tx', rest, hsome, hsplit, hrest, hstored⟩ := loop_stored ih.1 hnext
    · cases hnone
    · cases hsome
      rw [hrest, List.reverse_reverse, hsplit] at hpopped
      obtain ⟨rfl, htx⟩ := List.append_inj' hpopped rfl
      cases htx
      refine ⟨hstored, ih.2.trans ?_⟩
      rw [hsplit, hrest, List.filterMap_cons_some (f := PoolEvent.popped) rfl, List.filterMap_append,
        filterMap_popped_skipped]
      simp
  | @markInvalid self log tx item _ hy ih =>
    obtain ⟨htxs, hstored⟩ := markInvalid_stored ih.1 hy
    exact ⟨hstored, by rw [htxs]; exact ih.2⟩

lemma Run.next_covered {txs : List (Transaction P)} {self self' : FixedTransactions P} {log : List (PoolEvent P)}
    {result : Option (ValidPoolTransaction P)} (h : Run txs self log) (hnext : self.next = .ok (result, self')) :
    ∃ events, Run txs self' (events ++ log) := by
  obtain ⟨rfl, -, -⟩ | ⟨item, skipped, tx, rest, rfl, hsplit, hrest, -⟩ := loop_stored h.stored.1 hnext
  · exact ⟨_, h.exhausted hnext⟩
  · refine ⟨.yielded tx item :: (skipped.map PoolEvent.skipped).reverse, h.next hnext ?_⟩
    rw [hsplit, hrest, List.reverse_reverse]

lemma not_between_of_ordered {txs : List (Transaction P)} {self : FixedTransactions P} {log : List (PoolEvent P)}
    (h : Run txs self log)
    (hordered : txs.Pairwise fun t u => signer t = signer u → PlatformTypes.nonce t ≤ PlatformTypes.nonce u)
    {event : PoolEvent P} {tx : Transaction P} {earlier : List (PoolEvent P)} (hpopped : event.popped = some tx)
    (hsuffix : event :: earlier <:+ log) : ¬ Between earlier tx := by
  rintro ⟨-, high, -, hhigh, -, hs, hlt⟩
  obtain ⟨hstored, htxs⟩ := h.stored
  have hlog : ((event :: earlier).filterMap PoolEvent.popped).Pairwise fun u t =>
      signer t = signer u → PlatformTypes.nonce t ≤ PlatformTypes.nonce u := by
    refine .sublist (hsuffix.filterMap PoolEvent.popped).sublist (List.pairwise_reverse.mp ?_)
    exact .sublist (htxs ▸ List.sublist_append_left _ _) hordered
  rw [List.filterMap_cons_some hpopped, List.pairwise_cons] at hlog
  have hearlier : earlier <:+ log := (List.suffix_cons event earlier).trans hsuffix
  obtain ⟨tx', hy⟩ := hstored.yielded_of_marked hearlier hhigh
  have hp := hstored.pooled_of_yielded (hearlier.subset hy)
  have hle := hlog.1 tx' (List.mem_filterMap.mpr ⟨_, hy, rfl⟩) ((sender_of_consensus _ _ hp).symm.trans hs)
  rw [← nonce_of_consensus _ _ hp] at hle
  exact hle.not_gt hlt

/-- The transactions are skipped as they should be just when none is between two marks of its sender. -/
theorem respected_iff {txs : List (Transaction P)} {self : FixedTransactions P} {log : List (PoolEvent P)}
    (h : Run txs self log) :
    (Respected txs log ↔ ∀ event tx earlier, event.popped = some tx → event :: earlier <:+ log →
      ¬ Between earlier tx) ∧
    ((txs.Pairwise fun t u => signer t = signer u → PlatformTypes.nonce t ≤ PlatformTypes.nonce u) →
      Respected txs log) := by
  obtain ⟨hstored, htxs⟩ := h.stored
  have hiff : Respected txs log ↔ ∀ event tx earlier, event.popped = some tx → event :: earlier <:+ log →
      ¬ Between earlier tx := by
    constructor
    · rintro hrespected event tx earlier hpopped hsuffix ⟨low, high, hlow, hhigh, hcovers, hs, hlt⟩
      have hd := hstored.decided event earlier hsuffix
      cases event with
      | skipped tx' =>
        cases hpopped
        exact ((hd.2 high hhigh hs).2).not_gt hlt
      | yielded tx' item =>
        cases hpopped
        exact hrespected.unmarked tx item earlier hsuffix low hlow hcovers
      | marked item => cases hpopped
    · intro hnot
      constructor
      case sublist =>
        rw [htxs]
        exact (yield_sublist_popped log).reverse.trans (List.sublist_append_left _ _)
      case pooled => exact fun tx item hy => hstored.pooled_of_yielded hy
      case unmarked =>
        intro tx item earlier hsuffix mark hm hcovers
        obtain ⟨-, hnone | ⟨high, hhigh, hs, hlt⟩⟩ := hstored.decided _ _ hsuffix
        · exact hnone mark hm hcovers.1
        · exact hnot _ tx earlier rfl hsuffix ⟨mark, high, hm, hhigh, hcovers, hs, hlt⟩
      case excused => exact fun tx earlier hsuffix => (hstored.decided _ _ hsuffix).1
  exact ⟨hiff, fun hordered => hiff.mpr fun event tx earlier => not_between_of_ordered h hordered⟩

end FixedTransactions

namespace Devnet

instance : PoolTypes Devnet where
  PooledTransaction := PlainTx
  tryFromConsensus := some
  sender := PlainTx.signer
  nonce := PlainTx.nonce
  sender_of_consensus := by rintro tx _ ⟨⟩; rfl
  nonce_of_consensus := by rintro tx _ ⟨⟩; rfl
  SenderIdentifiers := List Address
  default := []
  senderId ids a := if a ∈ ids then some (ids.idxOf a) else none
  senderIdOrCreate ids a := (ids.idxOf a, if a ∈ ids then ids else ids ++ [a])
  senderId_created ids a := by
    by_cases ha : a ∈ ids
    · simp [ha]
    · simp [ha, List.idxOf_append_of_notMem, List.idxOf_of_notMem]
  senderId_kept ids a b id h := by
    have hb : b ∈ ids := by
      by_contra hb
      rw [if_neg hb] at h
      cases h
    rw [if_pos hb] at h
    by_cases ha : a ∈ ids
    · simp only [if_pos ha, if_pos hb, h]
    · simp only [if_neg ha, if_pos (List.mem_append_left [a] hb), List.idxOf_append_of_mem hb, h]
  senderId_inj ids a b id ha hb := by
    split_ifs at ha hb with hamem hbmem
    exact (List.idxOf_inj hamem).mp (Option.some.inj (ha.trans hb.symm))

open FixedTransactions

def fromSeven (nonce : ℕ) : PlainTx := ⟨Fin.ofNat _ (100 + nonce), 7, nonce⟩

def itemFromSeven (nonce : ℕ) : ValidPoolTransaction Devnet := ⟨fromSeven nonce, ⟨0, nonce⟩⟩

def twoYielded : FixedTransactions Devnet := ⟨[fromSeven 4], [7], fun _ => none⟩

lemma run_twoYielded : Run [fromSeven 3, fromSeven 5, fromSeven 4] twoYielded
    [.yielded (fromSeven 5) (itemFromSeven 5), .yielded (fromSeven 3) (itemFromSeven 3)] :=
  @Run.next Devnet _ _ _ ⟨[fromSeven 4, fromSeven 5], [7], fun _ => none⟩ _ _ [] _ _
    (@Run.next Devnet _ _ _ _ _ _ [] _ _ .new rfl rfl) rfl rfl

lemma run_bothMarked : Run [fromSeven 3, fromSeven 5, fromSeven 4]
    ((twoYielded.markInvalid (itemFromSeven 3)).markInvalid (itemFromSeven 5))
    [.marked (itemFromSeven 5), .marked (itemFromSeven 3),
      .yielded (fromSeven 5) (itemFromSeven 5), .yielded (fromSeven 3) (itemFromSeven 3)] :=
  .markInvalid (.markInvalid run_twoYielded (.tail _ (.head _))) (.tail _ (.head _))

theorem between_yielded : ∃ (self : FixedTransactions Devnet) (log : List (PoolEvent Devnet)),
    Run [fromSeven 3, fromSeven 5, fromSeven 4] self (.yielded (fromSeven 4) (itemFromSeven 4) :: log) ∧
      .marked (itemFromSeven 3) ∈ log ∧ Covers (itemFromSeven 3) (fromSeven 4) ∧
      ¬ Respected [fromSeven 3, fromSeven 5, fromSeven 4] (.yielded (fromSeven 4) (itemFromSeven 4) :: log) := by
  have hm : PoolEvent.marked (itemFromSeven 3) ∈ [.marked (itemFromSeven 5), .marked (itemFromSeven 3),
      .yielded (fromSeven 5) (itemFromSeven 5), .yielded (fromSeven 3) (itemFromSeven 3)] := .tail _ (.head _)
  have hc : Covers (itemFromSeven 3) (fromSeven 4) := ⟨rfl, by decide⟩
  exact ⟨_, _, @Run.next Devnet _ _ _ _ _ _ [] _ _ run_bothMarked rfl rfl, hm, hc,
    fun h => h.unmarked _ _ _ List.suffix_rfl _ hm hc⟩

lemma run_firstMarked : Run [fromSeven 3, fromSeven 5, fromSeven 4]
    ⟨[], [7], (twoYielded.markInvalid (itemFromSeven 3)).invalid⟩
    [.skipped (fromSeven 4), .marked (itemFromSeven 3), .yielded (fromSeven 5) (itemFromSeven 5),
      .yielded (fromSeven 3) (itemFromSeven 3)] :=
  .exhausted (.markInvalid run_twoYielded (.tail _ (.head _))) rfl

theorem firstMarked_respected : Respected [fromSeven 3, fromSeven 5, fromSeven 4]
    [.skipped (fromSeven 4), .marked (itemFromSeven 3), .yielded (fromSeven 5) (itemFromSeven 5),
      .yielded (fromSeven 3) (itemFromSeven 3)] := by
  refine (respected_iff run_firstMarked).1.mpr fun event tx earlier _ hsuffix => ?_
  rintro ⟨low, high, hlow, hhigh, ⟨-, hle⟩, -, hlt⟩
  have hmarked : ∀ mark, PoolEvent.marked mark ∈ earlier → mark = itemFromSeven 3 := by
    intro mark hmark
    simpa using hsuffix.subset (List.mem_cons_of_mem _ hmark)
  rw [hmarked low hlow] at hle
  rw [hmarked high hhigh] at hlt
  exact hle.not_gt hlt

end Devnet

end Rblib.Platform
