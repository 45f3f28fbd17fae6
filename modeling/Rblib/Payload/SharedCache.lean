import Rblib.Payload.BaseState

/-! The caches of `payload/ext/cached_state.rs` as they are shared. A clone of an `ExecutionCache`
copies its maps, but the slots of an account stay behind a reference that the clones have in common;
the heap holds what these references point to. -/

namespace Rblib.Payload

open Library

abbrev Heap := List AccountStorageCache

structure SharedCache where
  code : B256 → Option (Option Bytecode) := fun _ => none
  storage : Address → Option ℕ := fun _ => none
  account : Address → Option (Option Account) := fun _ => none

namespace SharedCache

def view (heap : Heap) (cache : SharedCache) : ExecutionCache where
  code := cache.code
  storage a := (cache.storage a).bind fun i => heap[i]?
  account := cache.account

def insertStorageBulk (address : Address) (entries : List (U256 × Option U256)) (heap : Heap)
    (cache : SharedCache) : Heap × SharedCache :=
  match cache.storage address with
  | some i => (heap.modify i fun accountCache => ⟨insertAll accountCache.slots entries⟩, cache)
  | none => (heap ++ [⟨insertAll (fun _ => none) entries⟩],
      { cache with storage := Function.update cache.storage address (some heap.length) })

def insertAccount (slots : Address → List (U256 × StorageSlot)) (shared : Heap × SharedCache)
    (entry : Address × BundleAccount) : Except Unit (Heap × SharedCache) :=
  if entry.2.status.isNotModified then .ok shared
  else if entry.2.status.wasDestroyed then
    .ok (shared.1, { shared.2 with
      account := Function.update shared.2.account entry.1 none
      storage := Function.update shared.2.storage entry.1 none })
  else match entry.2.info with
    | none => .error ()
    | some info =>
      let entries := (slots entry.1).map fun e => (e.1, some e.2.presentValue)
      let shared := shared.2.insertStorageBulk entry.1 entries shared.1
      .ok (shared.1, { shared.2 with
        account := Function.update shared.2.account entry.1 (some (some (.fromInfo info))) })

def insertState {b : BundleState} (heap : Heap) (cache : SharedCache) (updates : BundleIteration b) :
    Except Unit (Heap × SharedCache) :=
  updates.accounts.foldlM (insertAccount updates.slots)
    (heap, { cache with code := insertAll cache.code (updates.contracts.map fun e => (e.1, some e.2)) })

def remember (shared : Heap × SharedCache) : StateRead → StateAnswer → Heap × SharedCache
  | .basicAccount a, .account res =>
    (shared.1, { shared.2 with account := Function.update shared.2.account a (some res) })
  | .storage a k, .storage res => shared.2.insertStorageBulk a [(k, res)] shared.1
  | .bytecodeByHash h, .bytecode res =>
      (shared.1, { shared.2 with code := Function.update shared.2.code h (some res) })
  | _, _ => shared

structure Allocated (heap : Heap) (cache : SharedCache) : Prop where
  lt : ∀ {a i}, cache.storage a = some i → i < heap.length
  inj : ∀ {a a' i}, cache.storage a = some i → cache.storage a' = some i → a = a'

variable {heap : Heap} {cache : SharedCache}

lemma allocated_default (heap : Heap) : Allocated heap {} :=
  ⟨fun h => (by cases h), fun h => (by cases h)⟩

lemma Allocated.insertStorageBulk (h : Allocated heap cache) (address : Address)
    (entries : List (U256 × Option U256)) :
    Allocated (cache.insertStorageBulk address entries heap).1
      (cache.insertStorageBulk address entries heap).2 := by
  rw [SharedCache.insertStorageBulk]
  cases hi : cache.storage address with
  | some i => exact ⟨fun ha => by simpa using h.lt ha, h.inj⟩
  | none =>
    have hcell : ∀ {a i}, Function.update cache.storage address (some heap.length) a = some i →
        a = address ∧ i = heap.length ∨ a ≠ address ∧ cache.storage a = some i := by
      intro a i ha
      rw [Function.update_apply] at ha
      split at ha
      · next heq => exact .inl ⟨heq, (Option.some.inj ha).symm⟩
      · next hne => exact .inr ⟨hne, ha⟩
    refine ⟨fun {a i} ha => ?_, fun {a a' i} ha ha' => ?_⟩
    · rw [List.length_append, List.length_singleton]
      obtain ⟨-, rfl⟩ | ⟨-, hold⟩ := hcell ha
      · exact Nat.lt_succ_self _
      · exact Nat.lt_succ_of_lt (h.lt hold)
    · obtain ⟨rfl, rfl⟩ | ⟨-, hold⟩ := hcell ha
      · obtain ⟨rfl, -⟩ | ⟨-, hold'⟩ := hcell ha'
        · rfl
        · exact absurd (h.lt hold') (lt_irrefl _)
      · obtain ⟨-, rfl⟩ | ⟨-, hold'⟩ := hcell ha'
        · exact absurd (h.lt hold) (lt_irrefl _)
        · exact h.inj hold hold'

lemma view_insertStorageBulk (h : Allocated heap cache) (address : Address) (entries : List (U256 × Option U256)) :
    (cache.insertStorageBulk address entries heap).2.view (cache.insertStorageBulk address entries heap).1 =
      (cache.view heap).insertStorageBulk address entries := by
  rw [SharedCache.insertStorageBulk, ExecutionCache.insertStorageBulk]
  cases hi : cache.storage address with
  | some i =>
    have hlt := h.lt hi
    simp only [view, ExecutionCache.mk.injEq, true_and, and_true]
    funext a
    rw [Function.update_apply]
    split
    · next ha =>
      subst ha
      simp [hi, hlt]
    · next ha =>
      cases ha' : cache.storage a with
      | none => rfl
      | some i' =>
        have hne : i ≠ i' := by
          rintro rfl
          exact ha (h.inj ha' hi)
        simp [hne]
  | none =>
    simp only [view, ExecutionCache.mk.injEq, true_and, and_true]
    funext a
    rw [Function.update_apply, Function.update_apply]
    split
    · next ha => simp [hi]
    · next ha =>
      cases ha' : cache.storage a with
      | none => rfl
      | some i' => simp [List.getElem?_append_left (h.lt ha')]

lemma view_insertAccount (h : Allocated heap cache) (slots : Address → List (U256 × StorageSlot))
    (entry : Address × BundleAccount) :
    (insertAccount slots (heap, cache) entry).map (fun shared => shared.2.view shared.1) =
        ExecutionCache.insertAccount slots (cache.view heap) entry ∧
      ∀ shared, insertAccount slots (heap, cache) entry = .ok shared → Allocated shared.1 shared.2 := by
  rw [insertAccount, ExecutionCache.insertAccount]
  by_cases hsame : entry.2.status.isNotModified = true
  · rw [if_pos hsame, if_pos hsame]
    refine ⟨rfl, fun shared hs => ?_⟩
    cases hs
    exact h
  · rw [if_neg hsame, if_neg hsame]
    by_cases hdestroyed : entry.2.status.wasDestroyed = true
    · rw [if_pos hdestroyed, if_pos hdestroyed]
      refine ⟨?_, fun shared hs => ?_⟩
      · simp only [Except.map, view, Except.ok.injEq, ExecutionCache.mk.injEq, true_and, and_true]
        funext a
        rw [Function.update_apply, Function.update_apply]
        split <;> rfl
      · cases hs
        exact ⟨fun ha => h.lt (update_none_some ha), fun ha ha' =>
          h.inj (update_none_some ha) (update_none_some ha')⟩
    · rw [if_neg hdestroyed, if_neg hdestroyed]
      cases entry.2.info with
      | none => exact ⟨rfl, fun shared hs => by cases hs⟩
      | some info =>
        have hview := view_insertStorageBulk h entry.1 ((slots entry.1).map fun e => (e.1, some e.2.presentValue))
        refine ⟨?_, fun shared hs => ?_⟩
        · dsimp only [Except.map]
          rw [← hview]
          rfl
        · cases hs
          have hkept := h.insertStorageBulk entry.1 ((slots entry.1).map fun e => (e.1, some e.2.presentValue))
          exact ⟨hkept.lt, hkept.inj⟩

/-- `insert_state` fills a cache as it fills one that is never shared. -/
theorem view_insertState {b : BundleState} (h : Allocated heap cache) (updates : BundleIteration b) :
    (cache.insertState heap updates).map (fun shared => shared.2.view shared.1) =
      (cache.view heap).insertState updates := by
  have hrun : ∀ (accounts : List (Address × BundleAccount)) heap (cache : SharedCache), Allocated heap cache →
      (accounts.foldlM (insertAccount updates.slots) (heap, cache)).map (fun shared => shared.2.view shared.1) =
        accounts.foldlM (ExecutionCache.insertAccount updates.slots) (cache.view heap) := by
    intro accounts
    induction accounts with
    | nil => exact fun heap cache _ => rfl
    | cons entry accounts ih =>
      intro heap cache h
      obtain ⟨hview, hkept⟩ := view_insertAccount h updates.slots entry
      rw [List.foldlM_cons, List.foldlM_cons, ← hview]
      cases hentry : insertAccount updates.slots (heap, cache) entry with
      | error e => rfl
      | ok shared => exact ih shared.1 shared.2 (hkept shared hentry)
  exact hrun updates.accounts heap _ ⟨h.lt, h.inj⟩

end SharedCache

namespace StateRead

def cached (cache : ExecutionCache) : StateRead → Option StateAnswer
  | basicAccount a => (cache.account a).map .account
  | storage a k => match cache.getStorage a k with
    | .notCached => none
    | .empty => some (.storage none)
    | .value v => some (.storage (some v))
  | bytecodeByHash h => (cache.code h).map .bytecode

lemma askCached_eq (provider : StateProvider) (cache : ExecutionCache) (r : StateRead) :
    (r.askCached provider cache).1 = match r.cached cache with
      | some answer => .ok answer
      | none => r.ask provider := by
  cases r with
  | basicAccount a =>
    rw [askCached, CachedStateProvider.basicAccount, cached]
    cases cache.account a with
    | some res => rfl
    | none => cases h : provider.basicAccount a <;> simp [ask, h]
  | storage a k =>
    rw [askCached, CachedStateProvider.storage, cached]
    cases cache.getStorage a k with
    | notCached => cases h : provider.storage a k <;> simp [ask, h]
    | empty => rfl
    | value v => rfl
  | bytecodeByHash h =>
    rw [askCached, CachedStateProvider.bytecodeByHash, cached]
    cases cache.code h with
    | some res => rfl
    | none => cases hp : provider.bytecodeByHash h <;> simp [ask, hp]

lemma askCached_remembers {provider : StateProvider} {heap : Heap} {cache : SharedCache}
    (h : SharedCache.Allocated heap cache) {r : StateRead} {answer : StateAnswer}
    (hmiss : r.cached (cache.view heap) = none) (hask : r.ask provider = .ok answer) :
    (r.askCached provider (cache.view heap)).2 = (SharedCache.remember (heap, cache) r answer).2.view
      (SharedCache.remember (heap, cache) r answer).1 := by
  cases r with
  | basicAccount a =>
    obtain ⟨res, hres, rfl⟩ := map_eq_ok hask
    rw [cached, Option.map_eq_none_iff] at hmiss
    simp only [askCached, CachedStateProvider.basicAccount, hmiss, hres]
    rfl
  | storage a k =>
    obtain ⟨res, hres, rfl⟩ := map_eq_ok hask
    rw [SharedCache.remember, SharedCache.view_insertStorageBulk h]
    cases hstatus : (cache.view heap).getStorage a k with
    | notCached =>
      simp only [askCached, CachedStateProvider.storage, hstatus, hres]
      rfl
    | empty => simp [cached, hstatus] at hmiss
    | value v => simp [cached, hstatus] at hmiss
  | bytecodeByHash hash =>
    obtain ⟨res, hres, rfl⟩ := map_eq_ok hask
    rw [cached, Option.map_eq_none_iff] at hmiss
    simp only [askCached, CachedStateProvider.bytecodeByHash, hmiss, hres]
    rfl

end StateRead

end Rblib.Payload
