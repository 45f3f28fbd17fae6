import Rblib.Payload.CacheCoherence
import Rblib.Payload.Checkpoint

/-! The state that a block is built on: `BlockContext::new` and `base_state` of `payload/block.rs`.
The pre-execution changes of the platform are written into the overlay of the `State` object, and
reads go to the database below it. -/

namespace Rblib.Payload

open Library Platform

variable {P : Type} [PlatformTypes P]

structure State where
  overlay : BundleState
  provider : StateProvider
  cache : ExecutionCache

def State.database (state : State) : StateProvider where
  basicAccount a := (CachedStateProvider.basicAccount state.provider state.cache a).1
  storage a k := (CachedStateProvider.storage state.provider state.cache a k).1
  bytecodeByHash h := (CachedStateProvider.bytecodeByHash state.provider state.cache h).1
  blockHash := state.provider.blockHash

def State.afterReads (state : State) (rs : List StateRead) : State :=
  { state with cache := (StateRead.askAll state.provider rs state.cache).2 }

/-- What the platform supplies for the next block. `applyPreExecutionChanges` gives the reads it makes on
the database and the changes it writes. -/
structure NextBlock (P : Type) [PlatformTypes P] where
  number : ℕ
  timestamp : ℕ
  evm : Evm P
  applyPreExecutionChanges : StateProvider → Except ProviderError (List StateRead × BundleState)

structure BlockContextInner (P : Type) [PlatformTypes P] where
  number : ℕ
  timestamp : ℕ
  baseState : State
  evm : Evm P

namespace BlockContextInner

def new (next : NextBlock P) (stateByBlockHash : B256 → Except ProviderError StateProvider) (parent : B256)
    (cached : Option ExecutionCache) : Except ProviderError (BlockContextInner P) := do
  let provider ← stateByBlockHash parent
  let state : State := ⟨⟨fun _ => none, fun _ => none⟩, provider, cached.getD {}⟩
  let (reads, changes) ← next.applyPreExecutionChanges state.database
  return ⟨next.number, next.timestamp, { state.afterReads reads with overlay := changes }, next.evm⟩

def view (ctx : BlockContextInner P) : BlockContext P where
  number := ctx.number
  timestamp := ctx.timestamp
  baseState := ctx.baseState.database
  evm := ctx.evm

def start (ctx : BlockContextInner P) (id now : ℕ) : Checkpoint P := .newAtBlock ctx.view id now

def afterReads (ctx : BlockContextInner P) (rs : List StateRead) : BlockContextInner P :=
  { ctx with baseState := ctx.baseState.afterReads rs }

end BlockContextInner

def StateProvider.Complete (p : StateProvider) : Prop := ∀ r : StateRead, ∃ answer, r.ask p = .ok answer

structure BundleState.Redundant (b : BundleState) (s : ChainState) : Prop where
  info : ∀ a acc, b.account a = some acc → acc.info.map Account.fromInfo = s.account a
  slot : ∀ a acc k slot, b.account a = some acc → acc.storage k = some slot → slot.presentValue = s.storage a k
  destroyed : ∀ a acc k, b.account a = some acc → acc.status.wasDestroyed = true → acc.storage k = none →
    s.storage a k = 0

lemma BundleState.redundant_iff (b : BundleState) (s : ChainState) :
    b.Redundant s ↔ (∀ a, s.account a = (b.appliedTo s).account a) ∧
      ∀ a k, s.storage a k = (b.appliedTo s).storage a k := by
  constructor
  · intro h
    refine ⟨fun a => ?_, fun a k => ?_⟩
    · simp only [appliedTo]
      cases ha : b.account a with
      | none => rfl
      | some acc => exact (h.info a acc ha).symm
    · simp only [appliedTo]
      cases ha : b.account a with
      | none => rfl
      | some acc =>
        cases hk : acc.storage k with
        | some slot => simpa [hk] using (h.slot a acc k slot ha hk).symm
        | none =>
          by_cases hd : acc.status.wasDestroyed = true
          · simpa [hk, hd] using h.destroyed a acc k ha hd hk
          · simp [hk, hd]
  · rintro ⟨hacc, hstorage⟩
    refine ⟨fun a acc ha => ?_, fun a acc k slot ha hk => ?_, fun a acc k ha hd hk => ?_⟩
    · have h := hacc a
      simp only [appliedTo, ha] at h
      exact h.symm
    · have h := hstorage a k
      simp only [appliedTo, ha, hk] at h
      exact h.symm
    · have h := hstorage a k
      simpa only [appliedTo, ha, hk, hd, if_true] using h

structure BlockContextInner.Reads (ctx : BlockContextInner P) (start : Checkpoint P) (s : ChainState) :
    Prop where
  basicAccount : ∀ a, ctx.view.baseState.basicAccount a = .ok (s.account a)
  storage : ∀ a k, ∃ res, ctx.view.baseState.storage a k = .ok res ∧ res.getD 0 = s.storage a k
  basicRef : ∀ a, start.basicRef a = .ok ((s.account a).map Account.toInfo)
  storageRef : ∀ a k, start.storageRef a k = .ok (s.storage a k)

section Reads

variable {s s' : ChainState} {p : StateProvider} {ctx : BlockContextInner P}

lemma State.database_basicAccount {state : State} (hp : state.provider.Serves s)
    (hall : state.provider.Complete) (hc : state.cache.Coherent s) (a : Address) :
    state.database.basicAccount a = .ok (s.account a) := by
  obtain ⟨hreads, -⟩ := askCached_transparent hp hc (.basicAccount a)
  obtain ⟨answer, hask⟩ := hall (.basicAccount a)
  obtain ⟨answer', hout, -⟩ := hreads.same answer hask
  have hval := hreads.answers answer' hout
  obtain ⟨res, hres, rfl⟩ := map_eq_ok hout
  exact hres.trans (congrArg Except.ok hval)

lemma State.database_storage {state : State} (hp : state.provider.Serves s)
    (hall : state.provider.Complete) (hc : state.cache.Coherent s) (a : Address) (k : U256) :
    ∃ res, state.database.storage a k = .ok res ∧ res.getD 0 = s.storage a k := by
  obtain ⟨hreads, -⟩ := askCached_transparent hp hc (.storage a k)
  obtain ⟨answer, hask⟩ := hall (.storage a k)
  obtain ⟨answer', hout, -⟩ := hreads.same answer hask
  have hval := hreads.answers answer' hout
  obtain ⟨res, hres, rfl⟩ := map_eq_ok hout
  exact ⟨res, hres, hval⟩

lemma BlockContextInner.start_basicRef (ctx : BlockContextInner P) (id now : ℕ) {a : Address}
    {res : Option Account} (h : ctx.view.baseState.basicAccount a = .ok res) :
    (ctx.start id now).basicRef a = .ok (res.map Account.toInfo) := by
  have hview : (ctx.start id now).block.baseState.basicAccount a = .ok res := h
  rw [Checkpoint.basicRef, hview]
  cases res <;> rfl

lemma BlockContextInner.start_storageRef (ctx : BlockContextInner P) (id now : ℕ) {a : Address} {k : U256}
    {res : Option U256} (h : ctx.view.baseState.storage a k = .ok res) :
    (ctx.start id now).storageRef a k = .ok (res.getD 0) := by
  have hview : (ctx.start id now).block.baseState.storage a k = .ok res := h
  rw [Checkpoint.storageRef, hview]
  rfl

lemma reads_of_coherent (hp : ctx.baseState.provider.Serves s) (hall : ctx.baseState.provider.Complete)
    (hc : ctx.baseState.cache.Coherent s) (id now : ℕ) : ctx.Reads (ctx.start id now) s where
  basicAccount := State.database_basicAccount hp hall hc
  storage := State.database_storage hp hall hc
  basicRef a := ctx.start_basicRef id now (State.database_basicAccount hp hall hc a)
  storageRef a k := by
    obtain ⟨res, hres, hval⟩ := State.database_storage hp hall hc a k
    rw [ctx.start_storageRef id now hres, hval]

lemma BlockContextInner.Reads.states_agree {start : Checkpoint P} (h : ctx.Reads start s)
    (h' : ctx.Reads start s') : (∀ a, s.account a = s'.account a) ∧ ∀ a k, s.storage a k = s'.storage a k :=
  ⟨fun a => Except.ok.inj ((h.basicAccount a).symm.trans (h'.basicAccount a)),
    fun a k => Except.ok.inj ((h.storageRef a k).symm.trans (h'.storageRef a k))⟩

lemma BlockContextInner.Reads.of_agree {start : Checkpoint P} (h : ctx.Reads start s)
    (hacc : ∀ a, s.account a = s'.account a) (hstorage : ∀ a k, s.storage a k = s'.storage a k) :
    ctx.Reads start s' where
  basicAccount a := hacc a ▸ h.basicAccount a
  storage a k := hstorage a k ▸ h.storage a k
  basicRef a := hacc a ▸ h.basicRef a
  storageRef a k := hstorage a k ▸ h.storageRef a k

variable {next : NextBlock P} {stateByBlockHash : B256 → Except ProviderError StateProvider} {parent : B256}
  {cached : Option ExecutionCache} {reads : List StateRead} {changes : BundleState}

lemma new_baseState (hfactory : stateByBlockHash parent = .ok p) (hp : p.Serves s)
    (hcached : ∀ cache, cached = some cache → cache.Coherent s)
    (hnew : BlockContextInner.new next stateByBlockHash parent cached = .ok ctx) :
    ctx.baseState.provider = p ∧ ctx.baseState.cache.Coherent s := by
  have hc : (cached.getD {}).Coherent s := by
    cases cached with
    | none => exact ExecutionCache.coherent_default s
    | some cache => exact hcached cache rfl
  rw [BlockContextInner.new, hfactory] at hnew
  obtain ⟨provider, hprovider, hnew⟩ := bind_eq_ok.mp hnew
  cases hprovider
  obtain ⟨⟨reads, changes⟩, -, hnew⟩ := bind_eq_ok.mp hnew
  cases hnew
  exact ⟨rfl, (askAll_transparent hp hc reads).2⟩

theorem base_state_applied_iff_redundant (hfactory : stateByBlockHash parent = .ok p) (hp : p.Serves s)
    (hall : p.Complete) (hcached : ∀ cache, cached = some cache → cache.Coherent s)
    (hchanges : next.applyPreExecutionChanges
      (State.database ⟨⟨fun _ => none, fun _ => none⟩, p, cached.getD {}⟩) = .ok (reads, changes)) :
    ∃ ctx, BlockContextInner.new next stateByBlockHash parent cached = .ok ctx ∧
      ctx.baseState.overlay = changes ∧ ∀ rs id now,
        (ctx.afterReads rs).Reads ((ctx.afterReads rs).start id now) (changes.appliedTo s) ↔
          changes.Redundant s := by
  have hnew : ∃ ctx, BlockContextInner.new next stateByBlockHash parent cached = .ok ctx ∧
      ctx.baseState.overlay = changes := by
    rw [BlockContextInner.new, hfactory]
    simp only [bind, Except.bind, hchanges, pure, Except.pure]
    exact ⟨_, rfl, rfl⟩
  obtain ⟨ctx, hnew, hoverlay⟩ := hnew
  refine ⟨ctx, hnew, hoverlay, fun rs id now => ?_⟩
  obtain ⟨rfl, hc⟩ := new_baseState hfactory hp hcached hnew
  have hparent : (ctx.afterReads rs).Reads ((ctx.afterReads rs).start id now) s := by
    apply reads_of_coherent
    · exact hp
    · exact hall
    · exact (askAll_transparent hp hc rs).2
  rw [changes.redundant_iff s]
  constructor
  · exact hparent.states_agree
  · rintro ⟨hacc, hstorage⟩
    exact hparent.of_agree hacc hstorage

end Reads

section Example

open Devnet

def genesis : ChainState := ⟨fun _ => none, fun _ _ => 0, fun _ => none⟩

def beaconRoots (value : U256) : BundleState where
  state a := if a = 4788 then
    some ⟨none, none, fun k => if k = 12 then some ⟨value⟩ else none, .changed⟩ else none
  contracts _ := none

def beaconBlock (value : U256) : NextBlock Devnet where
  number := 1
  timestamp := 12
  evm := evm
  applyPreExecutionChanges _ := .ok ([.storage 4788 12], beaconRoots value)

def genesisProvider : B256 → Except ProviderError StateProvider := fun _ => .ok block.baseState

lemma genesis_serves : block.baseState.Serves genesis where
  account a res h := (Except.ok.inj h).symm
  storage a k res h := by
    cases Except.ok.inj h
    rfl
  code h res hr := (Except.ok.inj hr).symm

lemma genesis_complete : block.baseState.Complete := by
  intro r
  cases r with
  | basicAccount a => exact ⟨.account none, rfl⟩
  | storage a k => exact ⟨.storage none, rfl⟩
  | bytecodeByHash h => exact ⟨.bytecode none, rfl⟩

theorem beacon_root_unread :
    ∃ ctx, BlockContextInner.new (beaconBlock 12) genesisProvider 0 none = .ok ctx ∧
      ctx.baseState.overlay = beaconRoots 12 ∧ ((beaconRoots 12).appliedTo genesis).storage 4788 12 = 12 ∧
      ctx.view.baseState.storage 4788 12 = .ok none ∧ (ctx.start 0 0).storageRef 4788 12 = .ok 0 ∧
      ¬ ctx.Reads (ctx.start 0 0) ((beaconRoots 12).appliedTo genesis) := by
  refine ⟨_, rfl, rfl, rfl, rfl, rfl, fun h => ?_⟩
  have hread := Except.ok.inj (h.storageRef 4788 12)
  exact absurd hread (by decide)

theorem beacon_zero_read :
    ∃ ctx, BlockContextInner.new (beaconBlock 0) genesisProvider 0 none = .ok ctx ∧
      ctx.baseState.overlay = beaconRoots 0 ∧ ∀ rs id now,
        (ctx.afterReads rs).Reads ((ctx.afterReads rs).start id now) ((beaconRoots 0).appliedTo genesis) ↔
          (beaconRoots 0).Redundant genesis :=
  base_state_applied_iff_redundant rfl genesis_serves genesis_complete (by simp) rfl

end Example

end Rblib.Payload
