import Rblib.Payload.Checkpoint

/-! Reads through a checkpoint against the state it stands for: the base state with the bundle
states of the chain applied in order, where an entry without account data removes the account and a
destroyed account loses its storage. -/

namespace Rblib.Payload

open Platform

structure WorldState where
  account : Address → Except ProviderError (Option AccountInfo)
  storage : Address → U256 → Except ProviderError U256

def StateProvider.world (s : StateProvider) : WorldState where
  account a := (s.basicAccount a).map (Option.map Account.toInfo)
  storage a i := (s.storage a i).map (·.getD 0)

def BundleAccount.destroys (acc : BundleAccount) : Bool := acc.info.isNone || acc.status.wasDestroyed

def BundleState.applyTo (b : BundleState) (w : WorldState) : WorldState where
  account a := match b.account a with
    | none => w.account a
    | some acc => .ok acc.info
  storage a i := match b.account a with
    | none => w.storage a i
    | some acc => match acc.storage i with
      | some slot => .ok slot.presentValue
      | none => if acc.destroys then .ok 0 else w.storage a i

namespace Checkpoint

variable {P : Type} [PlatformTypes P]

def recorded (c : Checkpoint P) (w : WorldState) : WorldState :=
  match c.state with
  | none => w
  | some b => b.applyTo w

def world : Checkpoint P → WorldState
  | base block d => (base block d).recorded block.baseState.world
  | next p d => (next p d).recorded p.world

lemma recorded_account (c : Checkpoint P) (w : WorldState) (a : Address) :
    (c.recorded w).account a = match c.account a with
      | none => w.account a
      | some acc => .ok acc.info := by
  rw [recorded, account]
  cases c.state with
  | none => rfl
  | some b => rfl

lemma recorded_storage (c : Checkpoint P) (w : WorldState) (a : Address) (i : U256) :
    (c.recorded w).storage a i = match c.account a with
      | none => w.storage a i
      | some acc => match acc.storage i with
        | some slot => .ok slot.presentValue
        | none => if acc.destroys then .ok 0 else w.storage a i := by
  rw [recorded, account]
  cases c.state with
  | none => rfl
  | some b => rfl

def lastEntry (c : Checkpoint P) (a : Address) : Option BundleAccount :=
  c.iter.findSome? fun checkpoint => checkpoint.account a

lemma lastEntry_next (p : Checkpoint P) (d : CheckpointData P) (a : Address) :
    (next p d).lastEntry a = match (next p d).account a with
      | some acc => some acc
      | none => p.lastEntry a := by
  rw [lastEntry, iter, List.findSome?_cons]
  cases (next p d).account a <;> rfl

lemma lastEntry_base (b : BlockContext P) (d : CheckpointData P) (a : Address) :
    (base b d).lastEntry a = (base b d).account a := by
  rw [lastEntry, iter, List.findSome?_cons]
  cases (base b d).account a <;> rfl

theorem world_account (c : Checkpoint P) (a : Address) :
    c.world.account a = match c.lastEntry a with
      | some acc => .ok acc.info
      | none => c.block.baseState.world.account a := by
  induction c with
  | base b d =>
    rw [world, recorded_account, lastEntry_base]
    cases (base b d).account a <;> rfl
  | next p d ih =>
    rw [world, recorded_account, lastEntry_next, ih]
    cases (next p d).account a <;> rfl

lemma basicRef_eq (c : Checkpoint P) (a : Address) :
    c.basicRef a =
      match c.iter.findSome? fun checkpoint => (checkpoint.account a).bind BundleAccount.info with
      | some account => .ok (some account)
      | none => c.block.baseState.world.account a := by
  rw [basicRef]
  cases c.iter.findSome? fun checkpoint => (checkpoint.account a).bind BundleAccount.info with
  | some account => rfl
  | none =>
    simp only [StateProvider.world]
    rcases c.block.baseState.basicAccount a with e | _ | acc <;> rfl

lemma findSome_info_of_lastEntry {cs : List (Checkpoint P)} {a : Address} {acc : BundleAccount}
    {info : AccountInfo} (h : (cs.findSome? fun c => c.account a) = some acc)
    (hi : acc.info = some info) :
    (cs.findSome? fun c => (c.account a).bind BundleAccount.info) = some info := by
  induction cs with
  | nil => cases h
  | cons c cs ih =>
    rw [List.findSome?_cons] at h ⊢
    cases hc : c.account a with
    | none =>
      rw [hc] at h
      exact ih h
    | some acc' =>
      rw [hc] at h
      cases h
      simp [hi]

lemma findSome_info_eq_none {cs : List (Checkpoint P)} {a : Address} :
    (cs.findSome? fun c => (c.account a).bind BundleAccount.info) = none ↔
      ∀ ck ∈ cs, ∀ older, ck.account a = some older → older.info = none := by
  rw [List.findSome?_eq_none_iff]
  constructor
  · intro h ck hck older ho
    simpa [ho] using h ck hck
  · intro h ck hck
    cases hk : ck.account a with
    | none => rfl
    | some older => exact h ck hck older hk

/-- An account that the last entry removed is absent from all older entries and from the base state. -/
def NothingBehindRemoval (c : Checkpoint P) (a : Address) : Prop :=
  ∀ acc, c.lastEntry a = some acc → acc.info = none →
    (∀ ck ∈ c.iter, ∀ older, ck.account a = some older → older.info = none) ∧
      c.block.baseState.basicAccount a = .ok none

theorem basicRef_reads_world_iff (c : Checkpoint P) (a : Address) :
    c.basicRef a = c.world.account a ↔ c.NothingBehindRemoval a := by
  rw [basicRef_eq, world_account]
  cases hl : c.lastEntry a with
  | none =>
    have hnone : (c.iter.findSome? fun ck => (ck.account a).bind BundleAccount.info) = none := by
      rw [findSome_info_eq_none]
      intro ck hck older ho
      rw [List.findSome?_eq_none_iff.mp hl ck hck] at ho
      cases ho
    rw [hnone]
    exact iff_of_true rfl fun acc h => by rw [hl] at h; cases h
  | some acc =>
    cases hi : acc.info with
    | some info =>
      rw [findSome_info_of_lastEntry hl hi]
      refine iff_of_true (by simp only [hi]) fun acc' h hn => ?_
      rw [hl] at h
      cases h
      rw [hi] at hn
      cases hn
    | none =>
      have hcond : c.NothingBehindRemoval a ↔
          (∀ ck ∈ c.iter, ∀ older, ck.account a = some older → older.info = none) ∧
            c.block.baseState.basicAccount a = .ok none := by
        constructor
        · exact fun h => h acc hl hi
        · exact fun h _ _ _ => h
      rw [hcond, ← findSome_info_eq_none]
      cases hf : c.iter.findSome? fun ck => (ck.account a).bind BundleAccount.info with
      | some info => simp [hi]
      | none =>
        simp only [true_and, StateProvider.world]
        rcases c.block.baseState.basicAccount a with e | _ | acc' <;> simp [Except.map, hi]

def contractBlock : BlockContext Devnet where
  number := 1
  timestamp := 12
  baseState :=
    { basicAccount := fun a => .ok (if a = 7 then some ⟨1, 100, none⟩ else none)
      storage := fun a i => .ok (if a = 7 ∧ i = 3 then some 42 else none)
      bytecodeByHash := fun _ => .ok none
      blockHash := fun _ => .ok none }
  evm := ⟨fun _ _ _ _ => .error "unused", fun _ _ => ⟨fun _ => none, fun _ => none⟩⟩

def destroyedAccount : BundleAccount where
  info := none
  originalInfo := some ⟨100, 1, KECCAK_EMPTY, none⟩
  storage := fun _ => none
  status := .destroyed

def destroyed : Checkpoint Devnet :=
  (newAtBlock contractBlock 0 0).applyWith (.executable
    ⟨.transaction ⟨11, 5, 0⟩, [true],
      ⟨fun a => if a = 7 then some destroyedAccount else none, fun _ => none⟩⟩) 1 1

theorem destroyed_reads_base_account :
    destroyed.basicRef 7 = .ok (some ⟨100, 1, KECCAK_EMPTY, none⟩) ∧
      destroyed.world.account 7 = .ok none ∧ destroyed.basicRef 7 ≠ destroyed.world.account 7 := by
  have hb : destroyed.basicRef 7 = .ok (some ⟨100, 1, KECCAK_EMPTY, none⟩) := by decide +kernel
  have hw : destroyed.world.account 7 = .ok none := by decide +kernel
  refine ⟨hb, hw, ?_⟩
  rw [hb, hw]
  decide

def write (c : Checkpoint P) (a : Address) (i : U256) : Option U256 :=
  ((c.account a).bind fun acc => acc.storage i).map StorageSlot.presentValue

def lastWrite (a : Address) (i : U256) (below : Except ProviderError U256) :
    List (Checkpoint P) → Except ProviderError U256
  | [] => below
  | c :: older => match c.write a i with
    | some value => .ok value
    | none => lastWrite a i below older

/-- A slot that was not written since its account was destroyed held zero before. -/
def NothingBehindDestruction (c : Checkpoint P) (a : Address) (i : U256) : Prop :=
  ∀ newer ck older acc, c.iter = newer ++ ck :: older → ck.account a = some acc →
    acc.destroys = true → (∀ ck' ∈ newer ++ [ck], ck'.write a i = none) →
      lastWrite a i (c.block.baseState.world.storage a i) older = .ok 0

def settled (a : Address) (i : U256) (below : Except ProviderError U256) :
    List (Checkpoint P) → Except ProviderError U256
  | [] => below
  | c :: older => match c.account a with
    | none => settled a i below older
    | some acc => match acc.storage i with
      | some slot => .ok slot.presentValue
      | none => if acc.destroys then .ok 0 else settled a i below older

lemma storageRef_eq (c : Checkpoint P) (a : Address) (i : U256) :
    c.storageRef a i = lastWrite a i (c.block.baseState.world.storage a i) c.iter := by
  have hlist : ∀ cs : List (Checkpoint P),
      lastWrite a i (c.block.baseState.world.storage a i) cs =
        match cs.findSome? fun ck => ck.write a i with
        | some value => .ok value
        | none => c.block.baseState.world.storage a i := by
    intro cs
    induction cs with
    | nil => rfl
    | cons ck cs ih =>
      rw [lastWrite, List.findSome?_cons]
      cases ck.write a i with
      | none => exact ih
      | some value => rfl
  rw [hlist, storageRef]
  change (match c.iter.findSome? fun ck => ck.write a i with
    | some value => Except.ok value
    | none => _) = _
  cases c.iter.findSome? fun ck => ck.write a i with
  | some value => rfl
  | none =>
    simp only [StateProvider.world]
    cases c.block.baseState.storage a i <;> rfl

lemma world_storage (c : Checkpoint P) (a : Address) (i : U256) :
    c.world.storage a i = settled a i (c.block.baseState.world.storage a i) c.iter := by
  induction c with
  | base b d =>
    rw [world, recorded_storage, iter, settled]
    rfl
  | next p d ih =>
    rw [world, recorded_storage, iter, settled, ih]
    rfl

lemma lastWrite_append {a : Address} {i : U256} (below : Except ProviderError U256)
    {newer : List (Checkpoint P)} (h : ∀ ck ∈ newer, ck.write a i = none)
    (older : List (Checkpoint P)) : lastWrite a i below (newer ++ older) = lastWrite a i below older := by
  induction newer with
  | nil => rfl
  | cons ck newer ih =>
    rw [List.cons_append, lastWrite, h ck List.mem_cons_self]
    exact ih fun ck' hck => h ck' (List.mem_cons_of_mem _ hck)

lemma settled_of_destroys {a : Address} {i : U256} (below : Except ProviderError U256)
    {ck : Checkpoint P} {acc : BundleAccount} (hc : ck.account a = some acc)
    (hd : acc.destroys = true) (hw : ck.write a i = none) (older : List (Checkpoint P)) :
    settled a i below (ck :: older) = .ok 0 := by
  have hs : acc.storage i = none := by simpa [write, hc] using hw
  simp only [settled, hc, hs, hd, if_true]

lemma settled_of_keeps {a : Address} {i : U256} (below : Except ProviderError U256)
    {ck : Checkpoint P} (hd : ∀ acc, ck.account a = some acc → acc.destroys = false)
    (hw : ck.write a i = none) (older : List (Checkpoint P)) :
    settled a i below (ck :: older) = settled a i below older := by
  rw [settled]
  cases hc : ck.account a with
  | none => rfl
  | some acc =>
    have hs : acc.storage i = none := by simpa [write, hc] using hw
    simp only [hs, hd acc hc, Bool.false_eq_true, if_false]

lemma settled_of_write {a : Address} {i : U256} (below : Except ProviderError U256)
    {ck : Checkpoint P} {value : U256} (hw : ck.write a i = some value) (older : List (Checkpoint P)) :
    settled a i below (ck :: older) = .ok value := by
  rw [write] at hw
  obtain ⟨slot, hs, rfl⟩ := Option.map_eq_some_iff.mp hw
  obtain ⟨acc, hc, hs⟩ := Option.bind_eq_some_iff.mp hs
  simp only [settled, hc, hs]

theorem lastWrite_settled_iff (a : Address) (i : U256) (below : Except ProviderError U256)
    (cs : List (Checkpoint P)) :
    lastWrite a i below cs = settled a i below cs ↔
      ∀ newer ck older acc, cs = newer ++ ck :: older → ck.account a = some acc →
        acc.destroys = true → (∀ ck' ∈ newer ++ [ck], ck'.write a i = none) →
          lastWrite a i below older = .ok 0 := by
  induction cs with
  | nil => exact iff_of_true rfl fun newer ck older acc h => by simp at h
  | cons ck cs ih =>
    cases hw : ck.write a i with
    | some value =>
      rw [lastWrite, hw, settled_of_write below hw]
      refine iff_of_true rfl fun newer ck' older acc h _ _ hnone => ?_
      have hmem : ck ∈ newer ++ [ck'] := by
        cases newer with
        | nil => simp_all
        | cons c newer => simp_all
      rw [hnone ck hmem] at hw
      cases hw
    | none =>
      rw [lastWrite, hw]
      by_cases hd : ∃ acc, ck.account a = some acc ∧ acc.destroys = true
      · obtain ⟨acc, hc, hd⟩ := hd
        rw [settled_of_destroys below hc hd hw]
        constructor
        · intro h newer ck' older acc' hcs _ _ hnone
          cases newer with
          | nil =>
            cases hcs
            exact h
          | cons c newer =>
            cases hcs
            have hnewer : ∀ x ∈ newer ++ [ck'], x.write a i = none :=
              fun x hx => hnone x (List.mem_cons_of_mem _ hx)
            rw [← h, ← lastWrite_append below hnewer older, List.append_assoc]
            rfl
        · intro h
          exact h [] ck cs acc rfl hc hd (by simpa using hw)
      · have hkeep : ∀ acc, ck.account a = some acc → acc.destroys = false := by
          intro acc hc
          by_contra hn
          exact hd ⟨acc, hc, by simpa using hn⟩
        rw [settled_of_keeps below hkeep hw, ih]
        constructor
        · intro h newer ck' older acc hcs hc hacc hnone
          cases newer with
          | nil =>
            cases hcs
            rw [hkeep acc hc] at hacc
            cases hacc
          | cons c newer =>
            cases hcs
            exact h newer ck' older acc rfl hc hacc fun x hx => hnone x (List.mem_cons_of_mem _ hx)
        · intro h newer ck' older acc hcs hc hacc hnone
          refine h (ck :: newer) ck' older acc (by rw [hcs]; rfl) hc hacc fun x hx => ?_
          rcases List.mem_cons.mp hx with rfl | hx
          · exact hw
          · exact hnone x hx

theorem storageRef_reads_world_iff (c : Checkpoint P) (a : Address) (i : U256) :
    c.storageRef a i = c.world.storage a i ↔ c.NothingBehindDestruction a i := by
  rw [storageRef_eq, world_storage]
  exact lastWrite_settled_iff a i _ c.iter

theorem destroyed_reads_base_slot :
    destroyed.storageRef 7 3 = .ok 42 ∧ destroyed.world.storage 7 3 = .ok 0 ∧
      destroyed.storageRef 7 3 ≠ destroyed.world.storage 7 3 := by
  have hb : destroyed.storageRef 7 3 = .ok 42 := by decide +kernel
  have hw : destroyed.world.storage 7 3 = .ok 0 := by decide +kernel
  refine ⟨hb, hw, ?_⟩
  rw [hb, hw]
  decide

end Checkpoint

end Rblib.Payload
