import Rblib.Library.HiddenSteps
import Rblib.Payload.SharedCache

/-! The caches that the job generator of `pipelines/service.rs` hands to its jobs. -/

namespace Rblib.Pipelines

open Payload Library

section Coherence

variable {chain : B256 → ChainState} {owners owners' : List (B256 × Address)} {heap : Heap} {block : B256}
  {cache : SharedCache}

structure HeapCoherent (chain : B256 → ChainState) (owners : List (B256 × Address)) (heap : Heap) : Prop where
  length : owners.length = heap.length
  slots : ∀ (i : ℕ) (accountCache : AccountStorageCache) block a, heap[i]? = some accountCache →
    owners[i]? = some (block, a) →
      Library.Coherent (fun k (res : Option U256) => res.getD 0 = (chain block).storage a k) accountCache.slots

structure CachedAt (chain : B256 → ChainState) (owners : List (B256 × Address)) (block : B256)
    (cache : SharedCache) : Prop where
  account : Library.Coherent (fun a res => res = (chain block).account a) cache.account
  storage : ∀ a i, cache.storage a = some i → owners[i]? = some (block, a)
  code : Library.Coherent (fun h res => res = (chain block).code h) cache.code

lemma cachedAt_default (chain : B256 → ChainState) (owners : List (B256 × Address)) (block : B256) :
    CachedAt chain owners block {} := by
  refine ⟨coherent_empty, fun a i h => ?_, coherent_empty⟩
  cases h

lemma CachedAt.mono (h : CachedAt chain owners block cache) (hpre : owners <+: owners') :
    CachedAt chain owners' block cache := by
  refine ⟨h.account, fun a i hi => ?_, h.code⟩
  obtain ⟨rest, rfl⟩ := hpre
  have howner := h.storage a i hi
  obtain ⟨hlt, -⟩ := List.getElem?_eq_some_iff.mp howner
  rw [List.getElem?_append_left hlt]
  exact howner

lemma CachedAt.view_coherent (h : CachedAt chain owners block cache) (hheap : HeapCoherent chain owners heap) :
    (cache.view heap).Coherent (chain block) := by
  refine ⟨h.account, fun slot res hres => ?_, h.code⟩
  simp only [ExecutionCache.slotAt, SharedCache.view, Option.bind_assoc, Option.bind_eq_some_iff] at hres
  obtain ⟨i, hi, accountCache, hcell, hslot⟩ := hres
  exact hheap.slots i accountCache block slot.1 hcell (h.storage slot.1 i hi) slot.2 res hslot

lemma CachedAt.insertStorageBulk (h : CachedAt chain owners block cache) (hheap : HeapCoherent chain owners heap)
    {a : Address} {entries : List (U256 × Option U256)}
    (hentries : ∀ e ∈ entries, e.2.getD 0 = (chain block).storage a e.1) :
    ∃ owners', owners <+: owners' ∧ HeapCoherent chain owners' (cache.insertStorageBulk a entries heap).1 ∧
      CachedAt chain owners' block (cache.insertStorageBulk a entries heap).2 := by
  have hinserted : ∀ slots : U256 → Option (Option U256),
      Library.Coherent (fun k (res : Option U256) => res.getD 0 = (chain block).storage a k) slots →
      Library.Coherent (fun k (res : Option U256) => res.getD 0 = (chain block).storage a k)
        (insertAll slots entries) := by
    intro slots hslots k res hres
    obtain hmem | ⟨hold, -⟩ := insertAll_some hres
    · exact hentries (k, res) hmem
    · exact hslots k res hold
  rw [SharedCache.insertStorageBulk]
  cases hi : cache.storage a with
  | some i =>
    refine ⟨owners, List.prefix_refl _, ⟨by rw [List.length_modify]; exact hheap.length, ?_⟩, h⟩
    intro j accountCache block' a' hcell howner
    dsimp only at hcell
    rw [List.getElem?_modify] at hcell
    obtain ⟨old, hold, hnew⟩ := Option.map_eq_some_iff.mp hcell
    have hold' := hheap.slots j old block' a' hold howner
    by_cases hij : i = j
    · subst hij
      cases (h.storage a i hi).symm.trans howner
      rw [if_pos rfl] at hnew
      subst hnew
      exact hinserted old.slots hold'
    · rw [if_neg hij] at hnew
      subst hnew
      exact hold'
  | none =>
    refine ⟨owners ++ [(block, a)], List.prefix_append _ _, ⟨by simp [hheap.length], ?_⟩, ?_⟩
    · intro j accountCache block' a' hcell howner
      dsimp only at hcell
      by_cases hj : j < heap.length
      · rw [List.getElem?_append_left hj] at hcell
        rw [List.getElem?_append_left (hheap.length.symm ▸ hj)] at howner
        exact hheap.slots j accountCache block' a' hcell howner
      · have hlast : j = heap.length := by
          have hlt := (List.getElem?_eq_some_iff.mp hcell).1
          rw [List.length_append, List.length_singleton] at hlt
          omega
        subst hlast
        rw [List.getElem?_concat_length] at hcell
        rw [← hheap.length, List.getElem?_concat_length] at howner
        cases hcell
        cases howner
        exact hinserted _ coherent_empty
    · have hkept := h.mono (List.prefix_append owners [(block, a)])
      refine ⟨h.account, fun a' i hi' => ?_, h.code⟩
      dsimp only at hi'
      rw [Function.update_apply] at hi'
      split at hi'
      · next ha =>
        cases hi'
        rw [ha, ← hheap.length, List.getElem?_concat_length]
      · exact hkept.storage a' i hi'

lemma CachedAt.remember (h : CachedAt chain owners block cache) (hheap : HeapCoherent chain owners heap)
    {r : StateRead} {answer : StateAnswer} (hanswer : (chain block).Answers r answer) :
    ∃ owners', owners <+: owners' ∧ HeapCoherent chain owners' (SharedCache.remember (heap, cache) r answer).1 ∧
      CachedAt chain owners' block (SharedCache.remember (heap, cache) r answer).2 := by
  cases r <;> cases answer <;> try exact hanswer.elim
  case basicAccount.account a res =>
    exact ⟨owners, List.prefix_refl _, hheap, h.account.update hanswer, h.storage, h.code⟩
  case storage.storage a k res =>
    apply h.insertStorageBulk hheap
    intro e he
    cases List.mem_singleton.mp he
    exact hanswer
  case bytecodeByHash.bytecode hash res =>
    exact ⟨owners, List.prefix_refl _, hheap, h.account, h.storage, h.code.update hanswer⟩

lemma CachedAt.insertAccount {b : BundleState} {s : ChainState} (htip : b.appliedTo s = chain block)
    (h : CachedAt chain owners block cache) (hheap : HeapCoherent chain owners heap) (updates : BundleIteration b)
    {entry : Address × BundleAccount} (he : b.account entry.1 = some entry.2) {shared : Heap × SharedCache}
    (hi : SharedCache.insertAccount updates.slots (heap, cache) entry = .ok shared) :
    ∃ owners', owners <+: owners' ∧ HeapCoherent chain owners' shared.1 ∧
      CachedAt chain owners' block shared.2 := by
  rw [SharedCache.insertAccount] at hi
  split at hi
  · cases hi
    exact ⟨owners, List.prefix_refl _, hheap, h⟩
  · split at hi
    · cases hi
      refine ⟨owners, List.prefix_refl _, hheap, fun a res hres => ?_, fun a i ha => ?_, h.code⟩
      · exact h.account a res (update_none_some hres)
      · exact h.storage a i (update_none_some ha)
    · split at hi
      · cases hi
      · next info hinfo =>
        cases hi
        have hentries : ∀ e ∈ (updates.slots entry.1).map fun e => (e.1, some e.2.presentValue),
            e.2.getD 0 = (chain block).storage entry.1 e.1 := by
          intro e hmem
          obtain ⟨⟨k, slot⟩, hslot, rfl⟩ := List.mem_map.mp hmem
          simp [← htip, BundleState.appliedTo, he, (updates.mem_slots _ _ he _ _).mp hslot]
        have haccount : some (Account.fromInfo info) = (chain block).account entry.1 := by
          simp [← htip, BundleState.appliedTo, he, hinfo]
        obtain ⟨owners', hpre, hheap', hcache⟩ := h.insertStorageBulk hheap hentries
        exact ⟨owners', hpre, hheap', hcache.account.update haccount, hcache.storage, hcache.code⟩

lemma cachedAt_insertState {b : BundleState} {s : ChainState} (htip : b.appliedTo s = chain block)
    (hheap : HeapCoherent chain owners heap) (updates : BundleIteration b) {shared : Heap × SharedCache}
    (hi : ({} : SharedCache).insertState heap updates = .ok shared) :
    ∃ owners', owners <+: owners' ∧ HeapCoherent chain owners' shared.1 ∧
      CachedAt chain owners' block shared.2 := by
  have hcode : Library.Coherent (fun h res => res = (chain block).code h)
      (insertAll (fun _ => none) (updates.contracts.map fun e => (e.1, some e.2))) := by
    intro hash res hres
    obtain hmem | ⟨hold, -⟩ := insertAll_some hres
    · obtain ⟨⟨hash', code⟩, hcontract, heq⟩ := List.mem_map.mp hmem
      cases heq
      simp [← htip, BundleState.appliedTo, (updates.mem_contracts _ _).mp hcontract]
    · cases hold
  have hrun : ∀ (accounts : List (Address × BundleAccount)) owners heap cache,
      (∀ e ∈ accounts, b.account e.1 = some e.2) → HeapCoherent chain owners heap →
      CachedAt chain owners block cache →
      accounts.foldlM (SharedCache.insertAccount updates.slots) (heap, cache) = .ok shared →
      ∃ owners', owners <+: owners' ∧ HeapCoherent chain owners' shared.1 ∧
        CachedAt chain owners' block shared.2 := by
    intro accounts
    induction accounts with
    | nil =>
      intro owners heap cache _ hheap hcache hrest
      cases hrest
      exact ⟨owners, List.prefix_refl _, hheap, hcache⟩
    | cons entry accounts ih =>
      intro owners heap cache hmem hheap hcache hrest
      obtain ⟨⟨heap₁, cache₁⟩, hentry, hrest⟩ := foldlM_cons_eq_ok.mp hrest
      obtain ⟨owners₁, hpre, hheap₁, hcache₁⟩ :=
        hcache.insertAccount htip hheap updates (hmem entry List.mem_cons_self) hentry
      obtain ⟨owners₂, hpre', hend⟩ :=
        ih owners₁ heap₁ cache₁ (fun e he => hmem e (List.mem_cons_of_mem _ he)) hheap₁ hcache₁ hrest
      exact ⟨owners₂, hpre.trans hpre', hend⟩
  apply hrun updates.accounts owners heap _ (fun e he => (updates.mem_accounts e.1 e.2).mp he) hheap _ hi
  refine ⟨coherent_empty, fun a i ha => ?_, hcode⟩
  cases ha

end Coherence

structure HeaderProvider where
  sealedHeaderByHash : B256 → Except ProviderError (Option B256)
  stateByBlockHash : B256 → Except ProviderError StateProvider

structure CanonStateNotification where
  tip : B256
  bundle : BundleState
  iteration : BundleIteration bundle

structure JobState where
  parent : B256
  provider : StateProvider
  caches : SharedCache

/-- The generator with its jobs. A thread that does not find what it reads keeps the answer of the
provider until it puts it into the cache; whatever happens in between is a step of its own. -/
structure CachedJobs (J T : Type) where
  heap : Heap := []
  preCached : Option (B256 × SharedCache) := none
  jobs : J → Option JobState := fun _ => none
  fetched : T → Option (J × StateRead × StateAnswer) := fun _ => none
  answered : List (J × StateRead × Except ProviderError StateAnswer) := []

inductive CacheEvent (J T : Type)
  | onNewState (newState : CanonStateNotification)
  | newPayloadJob (j : J) (parent : B256)
  | ask (t : T) (j : J) (r : StateRead)
  | fill (t : T)

namespace CachedJobs

variable {J T : Type} [DecidableEq J] [DecidableEq T]

def maybePreCached (s : CachedJobs J T) (parent : B256) : Option SharedCache :=
  match s.preCached with
  | some (block, cached) => if block = parent then some cached else none
  | none => none

def answer (s : CachedJobs J T) (j : J) (r : StateRead) (out : Except ProviderError StateAnswer) :
    CachedJobs J T :=
  { s with answered := (j, r, out) :: s.answered }

def step (node : HeaderProvider) (s : CachedJobs J T) : CacheEvent J T → Option (CachedJobs J T)
  | .onNewState newState => match ({} : SharedCache).insertState s.heap newState.iteration with
    | .error () => some s
    | .ok (heap, cached) => some { s with heap, preCached := some (newState.tip, cached) }
  | .newPayloadJob j parent => match s.jobs j with
    | some _ => none
    | none => match node.sealedHeaderByHash parent with
      | .error _ | .ok none => some s
      | .ok (some hash) => match node.stateByBlockHash hash with
        | .error _ => some s
        | .ok provider =>
          some { s with jobs := Function.update s.jobs j (some ⟨hash, provider, (s.maybePreCached hash).getD {}⟩) }
  | .ask t j r => match s.fetched t, s.jobs j with
    | none, some job => match r.cached (job.caches.view s.heap) with
      | some found => some (s.answer j r (.ok found))
      | none => match r.ask job.provider with
        | .error e => some (s.answer j r (.error e))
        | .ok found => some { s with fetched := Function.update s.fetched t (some (j, r, found)) }
    | _, _ => none
  | .fill t => match s.fetched t with
    | none => none
    | some (j, r, found) => match s.jobs j with
      | none => none
      | some job =>
        let shared := SharedCache.remember (s.heap, job.caches) r found
        some ({ s with
          heap := shared.1
          jobs := Function.update s.jobs j (some { job with caches := shared.2 })
          fetched := Function.update s.fetched t none }.answer j r (.ok found))

def Steps (node : HeaderProvider) (s : CachedJobs J T) (event : CacheEvent J T) (s' : CachedJobs J T) : Prop :=
  s.step node event = some s'

inductive Turn (node : HeaderProvider) (s : CachedJobs J T) : CacheEvent J T → CachedJobs J T → Prop
  | same (event : CacheEvent J T) : Turn node s event s
  | cached (newState : CanonStateNotification) {heap : Heap} {cached : SharedCache}
      (hinsert : ({} : SharedCache).insertState s.heap newState.iteration = .ok (heap, cached)) :
      Turn node s (.onNewState newState) { s with heap, preCached := some (newState.tip, cached) }
  | started (j : J) (parent : B256) {hash : B256} {provider : StateProvider} (hfree : s.jobs j = none)
      (hprovider : node.stateByBlockHash hash = .ok provider) : Turn node s (.newPayloadJob j parent)
        { s with jobs := Function.update s.jobs j (some ⟨hash, provider, (s.maybePreCached hash).getD {}⟩) }
  | hit (t : T) {j : J} {r : StateRead} {job : JobState} {found : StateAnswer} (hjob : s.jobs j = some job)
      (hcached : r.cached (job.caches.view s.heap) = some found) :
      Turn node s (.ask t j r) (s.answer j r (.ok found))
  | failed (t : T) {j : J} {r : StateRead} {job : JobState} {e : ProviderError} (hjob : s.jobs j = some job)
      (hask : r.ask job.provider = .error e) : Turn node s (.ask t j r) (s.answer j r (.error e))
  | fetched (t : T) {j : J} {r : StateRead} {job : JobState} {found : StateAnswer} (hjob : s.jobs j = some job)
      (hask : r.ask job.provider = .ok found) :
      Turn node s (.ask t j r) { s with fetched := Function.update s.fetched t (some (j, r, found)) }
  | filled {t : T} {j : J} {r : StateRead} {job : JobState} {found : StateAnswer} {shared : Heap × SharedCache}
      (hfetched : s.fetched t = some (j, r, found)) (hjob : s.jobs j = some job)
      (hshared : SharedCache.remember (s.heap, job.caches) r found = shared) :
      Turn node s (.fill t) ({ s with
        heap := shared.1
        jobs := Function.update s.jobs j (some { job with caches := shared.2 })
        fetched := Function.update s.fetched t none }.answer j r (.ok found))

def Right (node : HeaderProvider) (chain : B256 → ChainState) (s : CachedJobs J T)
    (read : J × StateRead × Except ProviderError StateAnswer) : Prop :=
  ∃ job, s.jobs read.1 = some job ∧ node.stateByBlockHash job.parent = .ok job.provider ∧
    ReadsAs job.provider (chain job.parent) read.2.1 read.2.2

structure Coherent (node : HeaderProvider) (chain : B256 → ChainState) (owners : List (B256 × Address))
    (s : CachedJobs J T) : Prop where
  heap : HeapCoherent chain owners s.heap
  preCached : ∀ block cache, s.preCached = some (block, cache) → CachedAt chain owners block cache
  provider : ∀ j job, s.jobs j = some job → node.stateByBlockHash job.parent = .ok job.provider
  jobs : ∀ j job, s.jobs j = some job → CachedAt chain owners job.parent job.caches
  fetched : ∀ t j r found, s.fetched t = some (j, r, found) → s.Right node chain (j, r, .ok found)
  answered : ∀ read ∈ s.answered, s.Right node chain read

section Reads

variable {node : HeaderProvider} {chain : B256 → ChainState} {owners owners' : List (B256 × Address)}
  {s s' : CachedJobs J T} {event : CacheEvent J T}

lemma step_turn (h : Steps node s event s') : Turn node s event s' := by
  rw [Steps] at h
  cases event with
  | onNewState newState =>
    simp only [step] at h
    split at h
    · cases h
      exact .same _
    · next hinsert =>
      cases h
      exact .cached newState hinsert
  | newPayloadJob j parent =>
    simp only [step] at h
    split at h
    · cases h
    · next hfree =>
      split at h
      · cases h
        exact .same _
      · cases h
        exact .same _
      · split at h
        · cases h
          exact .same _
        · next hprovider =>
          cases h
          exact .started j parent hfree hprovider
  | ask t j r =>
    simp only [step] at h
    split at h
    · next hjob =>
      split at h
      · next hcached =>
        cases h
        exact .hit t hjob hcached
      · split at h
        · next hask =>
          cases h
          exact .failed t hjob hask
        · next hask =>
          cases h
          exact .fetched t hjob hask
    · cases h
  | fill t =>
    simp only [step] at h
    split at h
    · cases h
    · next hfetched =>
      split at h
      · cases h
      · next hjob =>
        cases h
        exact .filled hfetched hjob rfl

lemma Turn.jobs_kept (h : Turn node s event s') {j : J} {job : JobState} (hjob : s.jobs j = some job) :
    ∃ caches, s'.jobs j = some { job with caches } := by
  cases h with
  | same => exact ⟨job.caches, hjob⟩
  | cached newState hinsert => exact ⟨job.caches, hjob⟩
  | @started j' parent hash provider hfree hprovider =>
    have hj : j ≠ j' := by
      rintro rfl
      cases hfree.symm.trans hjob
    exact ⟨job.caches, (Function.update_of_ne hj _ _).trans hjob⟩
  | hit t hjob' hcached => exact ⟨job.caches, hjob⟩
  | failed t hjob' hask => exact ⟨job.caches, hjob⟩
  | fetched t hjob' hask => exact ⟨job.caches, hjob⟩
  | @filled t j' r job' found shared hfetched hjob' hshared =>
    by_cases hj : j = j'
    · subst hj
      cases hjob'.symm.trans hjob
      exact ⟨shared.2, Function.update_self ..⟩
    · exact ⟨job.caches, (Function.update_of_ne hj _ _).trans hjob⟩

lemma Turn.right (h : Turn node s event s') {read : J × StateRead × Except ProviderError StateAnswer}
    (hread : s.Right node chain read) : s'.Right node chain read := by
  obtain ⟨job, hjob, hprovider, hreads⟩ := hread
  obtain ⟨caches, hkept⟩ := h.jobs_kept hjob
  exact ⟨{ job with caches }, hkept, hprovider, hreads⟩

lemma readsAs_ask {p : StateProvider} {st : ChainState} (hp : p.Serves st) {r : StateRead}
    {out : Except ProviderError StateAnswer} (h : r.ask p = out) : ReadsAs p st r out := by
  apply readsAs_of hp
  · rintro answer rfl
    exact ask_answers hp h
  · rintro e rfl
    exact h

lemma readsAs_cached {p : StateProvider} {st : ChainState} (hp : p.Serves st) {cache : ExecutionCache}
    (hcache : cache.Coherent st) {r : StateRead} {found : StateAnswer} (h : r.cached cache = some found) :
    ReadsAs p st r (.ok found) := by
  have hread := (askCached_transparent hp hcache r).1
  rw [StateRead.askCached_eq, h] at hread
  exact hread

omit [DecidableEq J] [DecidableEq T] in
lemma coherent_start : (({} : CachedJobs J T)).Coherent node chain [] where
  heap := ⟨rfl, by simp⟩
  preCached block cache h := by cases h
  provider j job h := by cases h
  jobs j job h := by cases h
  fetched t j r found h := by cases h
  answered := by simp

omit [DecidableEq J] [DecidableEq T] in
lemma Coherent.maybePreCached (h : s.Coherent node chain owners) (hash : B256) :
    CachedAt chain owners hash ((s.maybePreCached hash).getD {}) := by
  rw [CachedJobs.maybePreCached]
  split
  · next block cached hcached =>
    by_cases hblock : block = hash
    · subst hblock
      rw [if_pos rfl]
      exact h.preCached block cached hcached
    · rw [if_neg hblock]
      exact cachedAt_default chain owners hash
  · exact cachedAt_default chain owners hash

omit [DecidableEq J] [DecidableEq T] in
lemma Coherent.answer (h : s.Coherent node chain owners) {j : J} {r : StateRead}
    {out : Except ProviderError StateAnswer} (hright : s.Right node chain (j, r, out)) :
    (s.answer j r out).Coherent node chain owners where
  heap := h.heap
  preCached := h.preCached
  provider := h.provider
  jobs := h.jobs
  fetched := h.fetched
  answered := List.forall_mem_cons.mpr ⟨hright, h.answered⟩

omit [DecidableEq J] [DecidableEq T] in
lemma Coherent.cached (h : s.Coherent node chain owners) {tip : B256} {heap : Heap} {cache : SharedCache}
    (hpre : owners <+: owners') (hheap : HeapCoherent chain owners' heap)
    (hcache : CachedAt chain owners' tip cache) :
    { s with heap, preCached := some (tip, cache) }.Coherent node chain owners' where
  heap := hheap
  preCached block cache' hc := by
    cases hc
    exact hcache
  provider := h.provider
  jobs j job hj := (h.jobs j job hj).mono hpre
  fetched := h.fetched
  answered := h.answered

omit [DecidableEq T] in
lemma Right.started (j : J) {hash : B256} {provider : StateProvider} {caches : SharedCache}
    (hfree : s.jobs j = none)
    {read : J × StateRead × Except ProviderError StateAnswer} (hread : s.Right node chain read) :
    { s with jobs := Function.update s.jobs j (some ⟨hash, provider, caches⟩) }.Right node chain read := by
  obtain ⟨job, hjob, hright⟩ := hread
  have hj : read.1 ≠ j := by
    rintro rfl
    cases hfree.symm.trans hjob
  exact ⟨job, (Function.update_of_ne hj _ _).trans hjob, hright⟩

omit [DecidableEq T] in
lemma Coherent.started (h : s.Coherent node chain owners) {j : J} {hash : B256} {provider : StateProvider}
    (hfree : s.jobs j = none) (hprovider : node.stateByBlockHash hash = .ok provider) :
    { s with jobs := Function.update s.jobs j (some ⟨hash, provider, (s.maybePreCached hash).getD {}⟩) }.Coherent
      node chain owners where
  heap := h.heap
  preCached := h.preCached
  provider j' job hj := by
    dsimp only at hj
    rw [Function.update_apply] at hj
    split at hj
    · cases hj
      exact hprovider
    · exact h.provider j' job hj
  jobs j' job hj := by
    dsimp only at hj
    rw [Function.update_apply] at hj
    split at hj
    · cases hj
      exact h.maybePreCached hash
    · exact h.jobs j' job hj
  fetched t j' r found hf := (h.fetched t j' r found hf).started j hfree
  answered read hr := (h.answered read hr).started j hfree

omit [DecidableEq J] in
lemma Coherent.fetch (h : s.Coherent node chain owners) (t : T) {j : J} {r : StateRead} {found : StateAnswer}
    (hright : s.Right node chain (j, r, .ok found)) :
    { s with fetched := Function.update s.fetched t (some (j, r, found)) }.Coherent node chain owners where
  heap := h.heap
  preCached := h.preCached
  provider := h.provider
  jobs := h.jobs
  fetched t' j' r' found' hf := by
    dsimp only at hf
    rw [Function.update_apply] at hf
    split at hf
    · cases hf
      exact hright
    · exact h.fetched t' j' r' found' hf
  answered := h.answered

lemma Coherent.filled (h : s.Coherent node chain owners) {t : T} {j : J} {r : StateRead} {job : JobState}
    {found : StateAnswer} (hfetched : s.fetched t = some (j, r, found)) (hjob : s.jobs j = some job) :
    ∃ owners', ({ s with
      heap := (SharedCache.remember (s.heap, job.caches) r found).1
      jobs := Function.update s.jobs j
        (some { job with caches := (SharedCache.remember (s.heap, job.caches) r found).2 })
      fetched := Function.update s.fetched t none }.answer j r (.ok found)).Coherent node chain owners' := by
  have hturn : Turn node s (.fill t) _ := .filled hfetched hjob rfl
  obtain ⟨job', hjob', -, hreads⟩ := h.fetched t j r found hfetched
  cases hjob.symm.trans hjob'
  obtain ⟨owners', hpre, hheap, hcaches⟩ := (h.jobs j job hjob).remember h.heap (hreads.answers found rfl)
  refine ⟨owners', hheap, fun block cache hc => (h.preCached block cache hc).mono hpre, fun j' job' hj => ?_,
    fun j' job' hj => ?_, fun t' j' r' found' hf => ?_, List.forall_mem_cons.mpr
      ⟨hturn.right (h.fetched t j r found hfetched), fun read hr => hturn.right (h.answered read hr)⟩⟩
  · dsimp only [CachedJobs.answer] at hj
    rw [Function.update_apply] at hj
    split at hj
    · cases hj
      exact h.provider j job hjob
    · exact h.provider j' job' hj
  · dsimp only [CachedJobs.answer] at hj
    rw [Function.update_apply] at hj
    split at hj
    · cases hj
      exact hcaches
    · exact (h.jobs j' job' hj).mono hpre
  · dsimp only [CachedJobs.answer] at hf
    rw [Function.update_apply] at hf
    split at hf
    · cases hf
    · exact hturn.right (h.fetched t' j' r' found' hf)

lemma coherent_step (hserve : ∀ block p, node.stateByBlockHash block = .ok p → p.Serves (chain block))
    (hnotified : ∀ n, event = .onNewState n → ∃ st, n.bundle.appliedTo st = chain n.tip)
    (h : s.Coherent node chain owners) (hstep : Steps node s event s') :
    ∃ owners', s'.Coherent node chain owners' := by
  cases step_turn hstep with
  | same => exact ⟨owners, h⟩
  | @cached newState heap cached hinsert =>
    obtain ⟨st, htip⟩ := hnotified newState rfl
    obtain ⟨owners', hpre, hheap, hcached⟩ := cachedAt_insertState htip h.heap newState.iteration hinsert
    exact ⟨owners', h.cached hpre hheap hcached⟩
  | started j parent hfree hprovider => exact ⟨owners, h.started hfree hprovider⟩
  | @hit t j r job found hjob hcached =>
    have hp := h.provider j job hjob
    refine ⟨owners, h.answer ⟨job, hjob, hp, ?_⟩⟩
    exact readsAs_cached (hserve _ _ hp) ((h.jobs j job hjob).view_coherent h.heap) hcached
  | @failed t j r job e hjob hask =>
    have hp := h.provider j job hjob
    exact ⟨owners, h.answer ⟨job, hjob, hp, readsAs_ask (hserve _ _ hp) hask⟩⟩
  | @fetched t j r job found hjob hask =>
    have hp := h.provider j job hjob
    exact ⟨owners, h.fetch t ⟨job, hjob, hp, readsAs_ask (hserve _ _ hp) hask⟩⟩
  | filled hfetched hjob hshared =>
    subst hshared
    exact h.filled hfetched hjob

/-- Whatever the jobs read, in whatever order and from whichever thread, they read the state of
their own parent. -/
theorem reads_transparent (hserve : ∀ block p, node.stateByBlockHash block = .ok p → p.Serves (chain block))
    {events : List (CacheEvent J T)}
    (hnotified : ∀ n, .onNewState n ∈ events → ∃ st, n.bundle.appliedTo st = chain n.tip)
    (h : Path (Steps node) {} events s) : ∀ read ∈ s.answered, s.Right node chain read := by
  have hrun : (∃ owners, s.Coherent node chain owners) ∧ ∀ e ∈ events, True := by
    apply h.forall_mem (P := fun s => ∃ owners, s.Coherent node chain owners) ⟨[], coherent_start⟩
    rintro s e s' ⟨owners, hs⟩ he hstep
    refine ⟨coherent_step hserve ?_ hs hstep, trivial⟩
    rintro n rfl
    exact hnotified n he
  obtain ⟨owners, hs⟩ := hrun.1
  exact hs.answered

end Reads

section Example

def vaultChain (block : B256) : ChainState := if block = 9 then vaultBundle.appliedTo vault else vault

def vaultNode : HeaderProvider where
  sealedHeaderByHash block := .ok (some block)
  stateByBlockHash block := .ok {
    basicAccount := fun a => .ok ((vaultChain block).account a)
    storage := fun a k => .ok (some ((vaultChain block).storage a k))
    bytecodeByHash := fun h => .ok ((vaultChain block).code h)
    blockHash := fun _ => .ok none }

def vaultEvents : List (CacheEvent ℕ ℕ) :=
  [.onNewState ⟨9, vaultBundle, vaultIteration⟩, .newPayloadJob 0 9, .newPayloadJob 1 9, .newPayloadJob 2 8,
    .ask 0 0 (.storage 7 4), .ask 1 1 (.storage 7 4), .fill 1, .fill 0, .ask 1 1 (.storage 7 3),
    .ask 2 2 (.storage 7 3), .fill 2]

theorem vaultEvents_read : ∃ s, Path (Steps vaultNode) ({} : CachedJobs ℕ ℕ) vaultEvents s ∧
    s.answered.map (fun read => read.2.1) = [.storage 7 3, .storage 7 3, .storage 7 4, .storage 7 4] ∧
    ∀ read ∈ s.answered, s.Right vaultNode vaultChain read := by
  have hrun : ∃ s, Path (Steps vaultNode) ({} : CachedJobs ℕ ℕ) vaultEvents s ∧
      s.answered.map (fun read => read.2.1) = [.storage 7 3, .storage 7 3, .storage 7 4, .storage 7 4] := by
    refine ⟨_, .cons rfl (.cons rfl (.cons rfl (.cons rfl (.cons rfl (.cons rfl (.cons rfl (.cons rfl
      (.cons rfl (.cons rfl (.cons rfl (.nil _))))))))))), rfl⟩
  obtain ⟨s, hpath, hreads⟩ := hrun
  refine ⟨s, hpath, hreads, reads_transparent ?_ ?_ hpath⟩
  · rintro block p ⟨⟩
    refine ⟨?_, ?_, ?_⟩
    · rintro a res ⟨⟩
      rfl
    · rintro a k res ⟨⟩
      rfl
    · rintro h res ⟨⟩
      rfl
  · intro n hn
    simp only [vaultEvents, List.mem_cons, CacheEvent.onNewState.injEq, reduceCtorEq, List.not_mem_nil,
      or_false] at hn
    subst hn
    exact ⟨vault, rfl⟩

end Example

end CachedJobs

end Rblib.Pipelines
