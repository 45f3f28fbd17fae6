import Rblib.Library.Fallible
import Rblib.Payload.CachedState

namespace Rblib.Payload

open Library

namespace ExecutionCache

def slotAt (cache : ExecutionCache) (slot : Address × U256) : Option (Option U256) :=
  (cache.storage slot.1).bind fun accountCache => accountCache.slots slot.2

structure Coherent (cache : ExecutionCache) (s : ChainState) : Prop where
  account : Library.Coherent (fun a res => res = s.account a) cache.account
  storage : Library.Coherent (fun slot res => res.getD 0 = s.storage slot.1 slot.2) cache.slotAt
  code : Library.Coherent (fun h res => res = s.code h) cache.code

lemma coherent_default (s : ChainState) : ({} : ExecutionCache).Coherent s where
  account := Library.coherent_empty
  storage := Library.coherent_empty
  code := Library.coherent_empty

lemma getStorage_eq (cache : ExecutionCache) (a : Address) (k : U256) :
    cache.getStorage a k = match cache.slotAt (a, k) with
      | none => .notCached
      | some none => .empty
      | some (some v) => .value v := by
  rw [getStorage, slotAt]
  cases cache.storage a with
  | none => rfl
  | some accountCache => rfl

lemma slotAt_insertStorageBulk_of_ne (cache : ExecutionCache) {a a' : Address} (h : a' ≠ a)
    (entries : List (U256 × Option U256)) (k : U256) :
    (cache.insertStorageBulk a entries).slotAt (a', k) = cache.slotAt (a', k) := by
  simp only [slotAt, insertStorageBulk, Function.update_of_ne h]

lemma slotAt_insertStorageBulk {cache : ExecutionCache} {a : Address} {entries : List (U256 × Option U256)}
    {k : U256} {v : Option U256} (h : (cache.insertStorageBulk a entries).slotAt (a, k) = some v) :
    (k, v) ∈ entries ∨ cache.slotAt (a, k) = some v ∧ ∀ w, (k, w) ∉ entries := by
  simp only [slotAt, insertStorageBulk, Function.update_self, Option.bind_some] at h
  apply (insertAll_some h).imp_right
  rintro ⟨hs, hn⟩
  refine ⟨?_, hn⟩
  rw [slotAt]
  cases hc : cache.storage a with
  | none => simp [hc] at hs
  | some accountCache => simpa [hc] using hs

structure CoherentAt (cache : ExecutionCache) (s : ChainState) (a : Address) : Prop where
  account : ∀ res, cache.account a = some res → res = s.account a
  storage : ∀ k res, cache.slotAt (a, k) = some res → res.getD 0 = s.storage a k

variable {b : BundleState} {s : ChainState} {cache cache' : ExecutionCache}

lemma CoherentAt.of_eq {s' : ChainState} {a : Address} (h : cache.CoherentAt s a)
    (ha : s'.account a = s.account a) (hs : ∀ k, s'.storage a k = s.storage a k) : cache.CoherentAt s' a where
  account res hr := (h.account res hr).trans ha.symm
  storage k res hr := (h.storage k res hr).trans (hs k).symm

lemma CoherentAt.unchanged {a : Address} (h : cache.CoherentAt s a)
    (ha : cache'.account a = cache.account a) (hs : ∀ k, cache'.slotAt (a, k) = cache.slotAt (a, k)) :
    cache'.CoherentAt s a where
  account res hr := h.account res (ha ▸ hr)
  storage k res hr := h.storage k res (hs k ▸ hr)

lemma insertAccount_other {slots : Address → List (U256 × StorageSlot)} {entry : Address × BundleAccount}
    {a : Address} (h : cache.insertAccount slots entry = .ok cache') (ha : a ≠ entry.1) :
    cache'.account a = cache.account a ∧ ∀ k, cache'.slotAt (a, k) = cache.slotAt (a, k) := by
  rw [insertAccount] at h
  split at h
  · cases h
    exact ⟨rfl, fun _ => rfl⟩
  · split at h
    · cases h
      refine ⟨Function.update_of_ne ha _ _, fun k => ?_⟩
      simp only [slotAt, Function.update_of_ne ha]
    · split at h
      · cases h
      · cases h
        refine ⟨Function.update_of_ne ha _ _, fun k => ?_⟩
        exact slotAt_insertStorageBulk_of_ne cache ha _ k

lemma insertAccount_coherentAt (flags : StatusFlags b s) (updates : BundleIteration b)
    {entry : Address × BundleAccount} (he : b.account entry.1 = some entry.2)
    (h : cache.insertAccount updates.slots entry = .ok cache')
    (hc : cache.CoherentAt s entry.1 ∨ cache.CoherentAt (b.appliedTo s) entry.1) :
    cache'.CoherentAt (b.appliedTo s) entry.1 := by
  rw [insertAccount] at h
  split at h
  · next hm =>
    cases h
    obtain ⟨ha, hs⟩ := flags entry.1 entry.2 he hm
    exact hc.elim (fun hc => hc.of_eq ha hs) id
  · split at h
    · cases h
      refine ⟨fun res hr => ?_, fun k res hr => ?_⟩
      · simp [Function.update_self] at hr
      · simp [slotAt, Function.update_self] at hr
    · next hd =>
      split at h
      · cases h
      · next info hi =>
        cases h
        refine ⟨fun res hr => ?_, fun k res hr => ?_⟩
        · simp only [Function.update_self, Option.some.injEq] at hr
          simp [BundleState.appliedTo, he, hi, ← hr]
        · have hval : (b.appliedTo s).storage entry.1 k =
              (entry.2.storage k).elim (s.storage entry.1 k) StorageSlot.presentValue := by
            simp only [BundleState.appliedTo, he]
            cases entry.2.storage k with
            | some slot => rfl
            | none => simp [hd]
          rw [hval]
          rcases slotAt_insertStorageBulk hr with hm | ⟨hold, hn⟩
          · obtain ⟨e, hmem, heq⟩ := List.mem_map.mp hm
            cases heq
            rw [(updates.mem_slots _ _ he _ _).mp hmem]
            rfl
          · have hnone : entry.2.storage k = none := by
              by_contra hne
              obtain ⟨slot, hslot⟩ := Option.ne_none_iff_exists'.mp hne
              exact hn _ (List.mem_map.mpr ⟨(k, slot), (updates.mem_slots _ _ he _ _).mpr hslot, rfl⟩)
            rw [hnone]
            rcases hc with hc | hc
            · exact hc.storage k res hold
            · rw [hc.storage k res hold, hval, hnone]

lemma insertAccounts_coherentAt (flags : StatusFlags b s) (updates : BundleIteration b)
    (accounts : List (Address × BundleAccount)) (hmem : ∀ e ∈ accounts, b.account e.1 = some e.2)
    (hc : ∀ a, cache.CoherentAt s a ∨ cache.CoherentAt (b.appliedTo s) a)
    (hdone : ∀ a, (∀ acc, (a, acc) ∉ accounts) → cache.CoherentAt (b.appliedTo s) a)
    (h : accounts.foldlM (insertAccount updates.slots) cache = .ok cache') (a : Address) :
    cache'.CoherentAt (b.appliedTo s) a := by
  induction accounts generalizing cache with
  | nil =>
    cases h
    exact hdone a (by simp)
  | cons entry accounts ih =>
    obtain ⟨cache₁, hi, h⟩ := foldlM_cons_eq_ok.mp h
    have hself := insertAccount_coherentAt flags updates (hmem entry List.mem_cons_self) hi (hc entry.1)
    apply ih (fun e he => hmem e (List.mem_cons_of_mem _ he)) ?_ ?_ h
    · intro a'
      by_cases ha : a' = entry.1
      · exact .inr (ha ▸ hself)
      · obtain ⟨hacc, hslots⟩ := insertAccount_other hi ha
        exact (hc a').imp (fun hc => hc.unchanged hacc hslots) (fun hc => hc.unchanged hacc hslots)
    · intro a' hnot
      by_cases ha : a' = entry.1
      · exact ha ▸ hself
      · obtain ⟨hacc, hslots⟩ := insertAccount_other hi ha
        refine (hdone a' fun acc hin => ?_).unchanged hacc hslots
        rcases List.mem_cons.mp hin with heq | hin
        · exact ha (congrArg Prod.fst heq)
        · exact hnot acc hin

lemma insertAccounts_code {slots : Address → List (U256 × StorageSlot)}
    (accounts : List (Address × BundleAccount))
    (h : accounts.foldlM (insertAccount slots) cache = .ok cache') : cache'.code = cache.code := by
  induction accounts generalizing cache with
  | nil =>
    cases h
    rfl
  | cons entry accounts ih =>
    obtain ⟨cache₁, hi, h⟩ := foldlM_cons_eq_ok.mp h
    rw [ih h]
    rw [insertAccount] at hi
    split at hi
    · cases hi
      rfl
    · split at hi
      · cases hi
        rfl
      · split at hi <;> cases hi
        rfl

theorem insertState_coherent (flags : StatusFlags b s) (updates : BundleIteration b)
    (hc : cache.Coherent s) (h : cache.insertState updates = .ok cache') :
    cache'.Coherent (b.appliedTo s) := by
  rw [insertState] at h
  generalize hstart : ({ cache with
    code := insertAll cache.code (updates.contracts.map fun e => (e.1, some e.2)) } : ExecutionCache) =
      start at h
  have hat : ∀ a, start.CoherentAt s a := by
    intro a
    rw [← hstart]
    exact ⟨hc.account a, fun k => hc.storage (a, k)⟩
  have huntouched : ∀ a, (∀ acc, (a, acc) ∉ updates.accounts) → start.CoherentAt (b.appliedTo s) a := by
    intro a hnot
    have hnone : b.account a = none := by
      by_contra hne
      obtain ⟨acc, hacc⟩ := Option.ne_none_iff_exists'.mp hne
      exact hnot acc ((updates.mem_accounts a acc).mpr hacc)
    apply (hat a).of_eq
    · simp only [BundleState.appliedTo, hnone]
    · intro k
      simp only [BundleState.appliedTo, hnone]
  have hafter := insertAccounts_coherentAt flags updates updates.accounts
    (fun e he => (updates.mem_accounts e.1 e.2).mp he) (fun a => .inl (hat a)) huntouched h
  refine ⟨fun a => (hafter a).account, fun slot => (hafter slot.1).storage slot.2, ?_⟩
  intro hash res hres
  rw [insertAccounts_code updates.accounts h, ← hstart] at hres
  rcases insertAll_some hres with hm | ⟨hold, hn⟩
  · obtain ⟨e, hmem, heq⟩ := List.mem_map.mp hm
    cases heq
    simp only [BundleState.appliedTo, (updates.mem_contracts _ _).mp hmem]
  · have hnone : b.bytecode hash = none := by
      by_contra hne
      obtain ⟨code, hcode⟩ := Option.ne_none_iff_exists'.mp hne
      exact hn _ (List.mem_map.mpr ⟨(hash, code), (updates.mem_contracts _ _).mpr hcode, rfl⟩)
    simp only [BundleState.appliedTo, hnone]
    exact hc.code hash res hold

end ExecutionCache

/-- The provider answers from the state, when it answers. A zero slot may be answered as absent. -/
structure StateProvider.Serves (p : StateProvider) (s : ChainState) : Prop where
  account : ∀ a res, p.basicAccount a = .ok res → res = s.account a
  storage : ∀ a k res, p.storage a k = .ok res → res.getD 0 = s.storage a k
  code : ∀ h res, p.bytecodeByHash h = .ok res → res = s.code h

section Reads

open CachedStateProvider ExecutionCache

variable {p : StateProvider} {s : ChainState} {cache : ExecutionCache}

lemma basicAccount_eq (p : StateProvider) (cache : ExecutionCache) (a : Address) :
    basicAccount p cache a = ((readThrough cache.account p.basicAccount a).1,
      { cache with account := (readThrough cache.account p.basicAccount a).2 }) := by
  rw [basicAccount, readThrough]
  cases cache.account a with
  | some res => rfl
  | none => cases p.basicAccount a <;> rfl

lemma bytecodeByHash_eq (p : StateProvider) (cache : ExecutionCache) (h : B256) :
    bytecodeByHash p cache h = ((readThrough cache.code p.bytecodeByHash h).1,
      { cache with code := (readThrough cache.code p.bytecodeByHash h).2 }) := by
  rw [bytecodeByHash, readThrough]
  cases cache.code h with
  | some res => rfl
  | none => cases p.bytecodeByHash h <;> rfl

lemma slotAt_insertStorage (cache : ExecutionCache) (a : Address) (k : U256) (res : Option U256) :
    (cache.insertStorage a k res).slotAt = Function.update cache.slotAt (a, k) (some res) := by
  funext ⟨a', k'⟩
  by_cases ha : a' = a
  · subst ha
    simp only [insertStorage, insertStorageBulk, slotAt, insertAll, List.foldl_cons, List.foldl_nil,
      Function.update_self, Option.bind_some]
    by_cases hk : k' = k
    · subst hk
      simp
    · rw [Function.update_of_ne hk, Function.update_of_ne (by simpa using hk)]
      rw [slotAt]
      cases cache.storage a' <;> rfl
  · rw [Function.update_of_ne (by simp [ha])]
    exact slotAt_insertStorageBulk_of_ne cache ha _ k'

lemma storage_eq (p : StateProvider) (cache : ExecutionCache) (a : Address) (k : U256) :
    ∃ cache', CachedStateProvider.storage p cache a k =
        ((readThrough cache.slotAt (fun slot => p.storage slot.1 slot.2) (a, k)).1, cache') ∧
      cache'.slotAt = (readThrough cache.slotAt (fun slot => p.storage slot.1 slot.2) (a, k)).2 ∧
      cache'.account = cache.account ∧ cache'.code = cache.code := by
  rw [CachedStateProvider.storage, getStorage_eq, readThrough]
  cases hc : cache.slotAt (a, k) with
  | some res =>
    cases res with
    | none => exact ⟨cache, rfl, rfl, rfl, rfl⟩
    | some v => exact ⟨cache, rfl, rfl, rfl, rfl⟩
  | none =>
    cases p.storage a k with
    | error e => exact ⟨cache, rfl, rfl, rfl, rfl⟩
    | ok res => exact ⟨cache.insertStorage a k res, rfl, slotAt_insertStorage cache a k res, rfl, rfl⟩

end Reads

def StateAnswer.Same : StateAnswer → StateAnswer → Prop
  | .account res, .account res' => res = res'
  | .storage res, .storage res' => res.getD 0 = res'.getD 0
  | .bytecode res, .bytecode res' => res = res'
  | _, _ => False

def ChainState.Answers (s : ChainState) : StateRead → StateAnswer → Prop
  | .basicAccount a, .account res => res = s.account a
  | .storage a k, .storage res => res.getD 0 = s.storage a k
  | .bytecodeByHash h, .bytecode res => res = s.code h
  | _, _ => False

structure ReadsAs (p : StateProvider) (s : ChainState) (r : StateRead)
    (out : Except ProviderError StateAnswer) : Prop where
  same : ∀ answer, r.ask p = .ok answer → ∃ answer', out = .ok answer' ∧ answer'.Same answer
  answers : ∀ answer, out = .ok answer → s.Answers r answer
  error : ∀ e, out = .error e → r.ask p = .error e

section Transparent

variable {p : StateProvider} {s : ChainState} {cache : ExecutionCache}

lemma ChainState.Answers.same {r : StateRead} {x y : StateAnswer} (hx : s.Answers r x) (hy : s.Answers r y) :
    x.Same y := by
  cases r <;> cases x <;> cases y <;> first
    | exact hx.elim
    | exact hy.elim
    | exact Eq.trans hx (Eq.symm hy)

lemma ask_answers (hp : p.Serves s) {r : StateRead} {answer : StateAnswer} (h : r.ask p = .ok answer) :
    s.Answers r answer := by
  cases r with
  | basicAccount a =>
    obtain ⟨res, hr, rfl⟩ := map_eq_ok h
    exact hp.account a res hr
  | storage a k =>
    obtain ⟨res, hr, rfl⟩ := map_eq_ok h
    exact hp.storage a k res hr
  | bytecodeByHash c =>
    obtain ⟨res, hr, rfl⟩ := map_eq_ok h
    exact hp.code c res hr

lemma readsAs_of {r : StateRead} {out : Except ProviderError StateAnswer} (hp : p.Serves s)
    (hok : ∀ answer, out = .ok answer → s.Answers r answer)
    (herr : ∀ e, out = .error e → r.ask p = .error e) : ReadsAs p s r out where
  same answer ha := by
    cases out with
    | error e => exact absurd (herr e rfl) (by rw [ha]; simp)
    | ok answer' => exact ⟨answer', rfl, (hok answer' rfl).same (ask_answers hp ha)⟩
  answers := hok
  error := herr

lemma askCached_transparent (hp : p.Serves s) (hc : cache.Coherent s) (r : StateRead) :
    ReadsAs p s r (r.askCached p cache).1 ∧ (r.askCached p cache).2.Coherent s := by
  cases r with
  | basicAccount a =>
    rw [StateRead.askCached, basicAccount_eq]
    refine ⟨readsAs_of hp ?_ ?_, ⟨hc.account.readThrough (hp.account a), hc.storage, hc.code⟩⟩
    · intro answer h
      obtain ⟨res, hr, rfl⟩ := map_eq_ok h
      exact readThrough_answers hc.account (hp.account a) hr
    · intro e h
      rw [StateRead.ask, readThrough_error (map_eq_error h)]
      rfl
  | storage a k =>
    obtain ⟨cache', heq, hslot, hacc, hcode⟩ := storage_eq p cache a k
    rw [StateRead.askCached, heq]
    refine ⟨readsAs_of hp ?_ ?_, ?_⟩
    · intro answer h
      obtain ⟨res, hr, rfl⟩ := map_eq_ok h
      exact readThrough_answers hc.storage (hp.storage a k) hr
    · intro e h
      have hfetch := readThrough_error (map_eq_error h)
      dsimp only at hfetch
      rw [StateRead.ask, hfetch]
      rfl
    · refine ⟨?_, ?_, ?_⟩
      · rw [Prod.map_snd, id, hacc]
        exact hc.account
      · rw [Prod.map_snd, id, hslot]
        exact hc.storage.readThrough (hp.storage a k)
      · rw [Prod.map_snd, id, hcode]
        exact hc.code
  | bytecodeByHash c =>
    rw [StateRead.askCached, bytecodeByHash_eq]
    refine ⟨readsAs_of hp ?_ ?_, ⟨hc.account, hc.storage, hc.code.readThrough (hp.code c)⟩⟩
    · intro answer h
      obtain ⟨res, hr, rfl⟩ := map_eq_ok h
      exact readThrough_answers hc.code (hp.code c) hr
    · intro e h
      rw [StateRead.ask, readThrough_error (map_eq_error h)]
      rfl

lemma askAll_transparent (hp : p.Serves s) (hc : cache.Coherent s) (rs : List StateRead) :
    List.Forall₂ (ReadsAs p s) rs (StateRead.askAll p rs cache).1 ∧
      (StateRead.askAll p rs cache).2.Coherent s := by
  induction rs generalizing cache with
  | nil => exact ⟨.nil, hc⟩
  | cons r rs ih =>
    obtain ⟨hr, hc'⟩ := askCached_transparent hp hc r
    obtain ⟨hrs, hlast⟩ := ih hc'
    exact ⟨.cons hr hrs, hlast⟩

theorem cached_reads_transparent {b : BundleState} (flags : StatusFlags b s) (hc : cache.Coherent s)
    (updates : BundleIteration b) {cache' : ExecutionCache} (h : cache.insertState updates = .ok cache')
    (hp : p.Serves (b.appliedTo s)) (rs : List StateRead) :
    List.Forall₂ (ReadsAs p (b.appliedTo s)) rs (StateRead.askAll p rs cache').1 ∧
      (StateRead.askAll p rs cache').2.Coherent (b.appliedTo s) :=
  askAll_transparent hp (ExecutionCache.insertState_coherent flags updates hc h) rs

end Transparent

section Example

def vault : ChainState where
  account a := if a = 7 then some ⟨1, 100, none⟩ else none
  storage a k := if a = 7 ∧ k = 3 then 42 else 0
  code _ := none

def vaultUpdate : BundleAccount where
  info := some ⟨90, 2, KECCAK_EMPTY, none⟩
  originalInfo := some ⟨100, 1, KECCAK_EMPTY, none⟩
  storage k := if k = 3 then some ⟨43⟩ else none
  status := .changed

def vaultBundle : BundleState := ⟨fun a => if a = 7 then some vaultUpdate else none, fun _ => none⟩

lemma vaultBundle_account {a : Address} {acc : BundleAccount} (h : vaultBundle.account a = some acc) :
    a = 7 ∧ acc = vaultUpdate := by
  simp only [BundleState.account, vaultBundle, Option.ite_none_right_eq_some, Option.some.injEq] at h
  exact ⟨h.1, h.2.symm⟩

def vaultIteration : BundleIteration vaultBundle where
  contracts := []
  accounts := [(7, vaultUpdate)]
  slots _ := [(3, ⟨43⟩)]
  mem_contracts h code := by simp [BundleState.bytecode, vaultBundle]
  mem_accounts a acc := by
    constructor
    · intro h
      cases List.mem_singleton.mp h
      rfl
    · intro h
      obtain ⟨rfl, rfl⟩ := vaultBundle_account h
      exact List.mem_singleton_self _
  mem_slots a acc h k slot := by
    obtain ⟨rfl, rfl⟩ := vaultBundle_account h
    simp [vaultUpdate, eq_comm]

def vaultCache : ExecutionCache :=
  (({} : ExecutionCache).insertStorage 7 3 (some 42)).insertStorage 7 4 none

def vaultProvider : StateProvider where
  basicAccount a := .ok ((vaultBundle.appliedTo vault).account a)
  storage a k := .ok (some ((vaultBundle.appliedTo vault).storage a k))
  bytecodeByHash h := .ok ((vaultBundle.appliedTo vault).code h)
  blockHash _ := .ok none

lemma vaultCache_coherent : vaultCache.Coherent vault where
  account := coherent_empty
  storage := by
    rw [vaultCache, slotAt_insertStorage, slotAt_insertStorage]
    apply Library.Coherent.update
    · apply Library.Coherent.update
      · exact coherent_empty
      · rfl
    · rfl
  code := coherent_empty

theorem vault_reads_transparent :
    ∃ cache, vaultCache.insertState vaultIteration = .ok cache ∧
      List.Forall₂ (ReadsAs vaultProvider (vaultBundle.appliedTo vault))
        [.storage 7 3, .storage 7 4, .basicAccount 7]
        (StateRead.askAll vaultProvider [.storage 7 3, .storage 7 4, .basicAccount 7] cache).1 := by
  refine ⟨_, rfl, (cached_reads_transparent ?_ vaultCache_coherent vaultIteration rfl ?_ _).1⟩
  · intro a acc h hm
    obtain ⟨rfl, rfl⟩ := vaultBundle_account h
    exact absurd hm (by decide)
  · refine ⟨?_, ?_, ?_⟩
    · intro a res h
      exact (Except.ok.inj h).symm
    · intro a k res h
      rw [← Except.ok.inj h]
      rfl
    · intro h res hr
      exact (Except.ok.inj hr).symm

end Example

end Rblib.Payload
