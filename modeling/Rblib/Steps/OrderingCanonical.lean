import Rblib.Steps.OrderingReuse
import Rblib.Steps.RevertCorrect

/-! Sorting by priority fee, `steps/ordering/tip.rs`. -/

namespace Rblib.Payload.Checkpoint

open Platform PlatformTypes Library

variable {P : Type} [PlatformTypes P]

def forget : Checkpoint P → Checkpoint P
  | base block d => base block { d with id := 0, createdAt := 0 }
  | next p d => next p.forget { d with id := 0, createdAt := 0 }

variable {c c' : Checkpoint P}

lemma transactions_source (c : Checkpoint P) : c.transactions = c.source.elim [] Executable.transactions := by
  rw [transactions, source, result]
  cases c.data.mutation <;> rfl

lemma hash_source (c : Checkpoint P) : c.hash = c.source.map Executable.hash := by
  rw [source, hash, asTransaction, asBundle]
  cases c.result.map ExecutionResult.source with
  | none => rfl
  | some e => cases e <;> rfl

lemma hash_of_source (h : c.source = c'.source) : c.hash = c'.hash := by
  rw [hash_source, hash_source, h]

lemma nonces_of_source (h : c.source = c'.source) : c.nonces = c'.nonces := by
  rw [nonces, nonces, transactions_source, transactions_source, h]

lemma signers_of_source (h : c.source = c'.source) : c.signers = c'.signers := by
  rw [signers, signers, transactions_source, transactions_source, h]

lemma tryIntoExecutable_of_source (h : c.source = c'.source) : c.tryIntoExecutable = c'.tryIntoExecutable := by
  rw [source, source] at h
  rw [tryIntoExecutable, tryIntoExecutable, asTransaction, asTransaction, asBundle, asBundle, h]

lemma data_forget (c : Checkpoint P) : c.forget.data = { c.data with id := 0, createdAt := 0 } := by
  cases c <;> rfl

lemma depth_forget (c : Checkpoint P) : c.forget.depth = c.depth := by
  rw [depth, data_forget, depth]

lemma source_forget (c : Checkpoint P) : c.forget.source = c.source := by
  rw [source, result, data_forget, source, result]

lemma state_forget (c : Checkpoint P) : c.forget.state = c.state := by
  rw [state, result, data_forget, state, result]

lemma block_forget (c : Checkpoint P) : c.forget.block = c.block := by
  induction c with
  | base block d => rfl
  | next p d ih => exact ih

lemma iter_forget (c : Checkpoint P) : c.forget.iter = c.iter.map forget := by
  induction c with
  | base block d => rfl
  | next p d ih => rw [forget, iter, iter, List.map_cons, ih, forget]

lemma findSome?_forget {β : Type} {f : Checkpoint P → Option β} (h : ∀ c, f c.forget = f c) (c : Checkpoint P) :
    c.forget.iter.findSome? f = c.iter.findSome? f := by
  rw [iter_forget, List.findSome?_map]
  congr 1
  funext x
  exact h x

lemma account_forget (c : Checkpoint P) (a : Address) : c.forget.account a = c.account a := by
  rw [account, state_forget, account]

lemma database_forget (c : Checkpoint P) : c.forget.database = c.database := by
  have hbasic : c.forget.basicRef = c.basicRef := by
    funext a
    rw [basicRef, basicRef, findSome?_forget fun x => by rw [account_forget], block_forget]
  have hcode : c.forget.codeByHashRef = c.codeByHashRef := by
    funext h
    rw [codeByHashRef, codeByHashRef, findSome?_forget fun x => by rw [state_forget], block_forget]
  have hstorage : c.forget.storageRef = c.storageRef := by
    funext a k
    rw [storageRef, storageRef, findSome?_forget fun x => by rw [account_forget], block_forget]
  have hblock : c.forget.blockHashRef = c.blockHashRef := by
    funext number
    rw [blockHashRef, blockHashRef, block_forget]
  rw [database, database, hbasic, hcode, hstorage, hblock]

lemma apply_forget {q q' : Checkpoint P} (h : q.forget = q'.forget) (executable : Executable P)
    (id now id' now' : ℕ) :
    (q.apply executable id now).map forget = (q'.apply executable id' now').map forget := by
  have hblock : q.block = q'.block := by rw [← block_forget, h, block_forget]
  have hdatabase : q.database = q'.database := by rw [← database_forget, h, database_forget]
  have hdepth : q.depth = q'.depth := by rw [← depth_forget, h, depth_forget]
  rw [apply, apply, hblock, hdatabase]
  cases executable.execute q'.block q'.database with
  | error e => rfl
  | ok result =>
    change Except.ok (forget (.next q _)) = Except.ok (forget (.next q' _))
    rw [forget, forget, h, hdepth]

end Rblib.Payload.Checkpoint

namespace Rblib.Steps

open Platform PlatformTypes Payload Pipelines Library Checkpoint

variable {P Score ε : Type} [PlatformTypes P]

namespace SortedOrders

structure Twin (s s' : SortedOrders P Score) : Prop where
  byScore : s.byScore = s'.byScore
  nonces : s.nonces = s'.nonces
  orders : ∀ hash, (s.order hash).map source = (s'.order hash).map source

variable {s s' : SortedOrders P Score}

lemma Twin.blocked (h : Twin s s') (ns : List (Address × ℕ)) : s.blocked ns = s'.blocked ns := by
  induction ns with
  | nil => rfl
  | cons e ns ih => rw [SortedOrders.blocked, SortedOrders.blocked, h.nonces, ih]

variable [LinearOrder Score]

lemma Twin.bestOrder (h : Twin s s') (fuel skip : ℕ) :
    (s.bestOrder fuel skip).map (Prod.map source id) = (s'.bestOrder fuel skip).map (Prod.map source id) := by
  induction fuel generalizing skip with
  | zero => rfl
  | succ fuel ih =>
    rw [SortedOrders.bestOrder, SortedOrders.bestOrder, nthOrderByScore, nthOrderByScore, h.byScore]
    cases nthOrder _ skip with
    | none => rfl
    | some e =>
      have horder := h.orders e.2
      simp only [Option.bind_eq_bind, Option.bind_some]
      cases hx : s.order e.2 with
      | none =>
        rw [hx, Option.map_none, eq_comm, Option.map_eq_none_iff] at horder
        simp [horder]
      | some x =>
        obtain ⟨y, hy, hxy⟩ := Option.map_eq_some_iff.mp (hx ▸ horder).symm
        rw [hy]
        simp only [Option.bind_some, h.blocked, nonces_of_source hxy]
        cases s'.blocked x.nonces with
        | none => rfl
        | some b => cases b <;> simp [ih, hxy]

lemma Twin.removeOrder (h : Twin s s') {x y : Checkpoint P} (hxy : x.source = y.source) (score : Score) :
    Twin (s.removeOrder x score) (s'.removeOrder y score) := by
  rw [SortedOrders.removeOrder, SortedOrders.removeOrder, hash_of_source hxy, nonces_of_source hxy,
    signers_of_source hxy]
  cases y.hash with
  | none => exact h
  | some hash =>
    refine ⟨by simp only [h.byScore], by simp only [h.nonces], fun other => ?_⟩
    have horder := h.orders other
    rw [order, order] at horder ⊢
    dsimp only
    rw [order_removed, order_removed]
    split
    · rfl
    · exact horder

lemma Twin.drain (h : Twin s s') (n : ℕ) : (drain n s).map source = (drain n s').map source := by
  induction n generalizing s s' with
  | zero => rfl
  | succ n ih =>
    have hbest := h.bestOrder s'.byScore.ranking.length 0
    rw [SortedOrders.drain, SortedOrders.drain, popBest, popBest, h.byScore]
    cases hx : s.bestOrder s'.byScore.ranking.length 0 with
    | none =>
      rw [hx, Option.map_none, eq_comm, Option.map_eq_none_iff] at hbest
      rw [hbest]
      rfl
    | some x =>
      obtain ⟨y, hy, hxy⟩ := Option.map_eq_some_iff.mp (hx ▸ hbest).symm
      obtain ⟨hsource, hscore⟩ := Prod.ext_iff.mp hxy
      simp only [Prod.map_fst, Prod.map_snd, id] at hsource hscore
      rw [hy]
      simp only [Option.map_some, List.map_cons]
      rw [hsource, hscore, ih (h.removeOrder hsource.symm x.2)]

section Same

variable {score : Checkpoint P → Except ε Score} {rest rest' : List (Checkpoint P)}

def Among (score : Checkpoint P → Except ε Score) (rest rest' : List (Checkpoint P)) : Prop :=
  ∀ x ∈ rest, ∃ y ∈ rest', y.source = x.source ∧ score y = score x

omit [LinearOrder Score] in
lemma Holds.found (h : Holds score s rest) (h' : Holds score s' rest') (hamong : Among score rest rest')
    {hash : B256}
    {x : Checkpoint P} (hx : s.order hash = some x) : ∃ y, s'.order hash = some y ∧ y.source = x.source := by
  obtain ⟨hmem, hhash⟩ := (h.orders hash x).mp hx
  obtain ⟨y, hy, hsource, -⟩ := hamong x hmem
  exact ⟨y, (h'.orders hash y).mpr ⟨hy, (hash_of_source hsource).trans hhash⟩, hsource⟩

omit [LinearOrder Score] in
lemma Holds.scored (h : Holds score s rest) (h' : Holds score s' rest') (hamong : Among score rest rest')
    (sc : Score) : s.byScore.values sc ⊆ s'.byScore.values sc := by
  intro hash hm
  obtain ⟨x, hx, hhash, hscore⟩ := (h.scores sc hash).mp hm
  obtain ⟨y, hy, hsource, hsame⟩ := hamong x hx
  exact (h'.scores sc hash).mpr ⟨y, hy, (hash_of_source hsource).trans hhash, hsame.trans hscore⟩

omit [LinearOrder Score] in
lemma Holds.nonced (h : Holds score s rest) (h' : Holds score s' rest') (hamong : Among score rest rest')
    (a : Address) : s.nonces.values a ⊆ s'.nonces.values a := by
  intro n hn
  obtain ⟨x, hx, hm⟩ := (h.nonces a n).mp hn
  obtain ⟨y, hy, hsource, -⟩ := hamong x hx
  exact (h'.nonces a n).mpr ⟨y, hy, nonces_of_source hsource ▸ hm⟩

omit [LinearOrder Score] in
lemma Holds.twin (h : Holds score s rest) (h' : Holds score s' rest') (hamong : Among score rest rest')
    (hamong' : Among score rest' rest) : Twin s s' := by
  refine ⟨MultiMap.ext_values fun sc => ?_, MultiMap.ext_values fun a => ?_, fun hash => ?_⟩
  · exact (h.scored h' hamong sc).antisymm (h'.scored h hamong' sc)
  · exact (h.nonced h' hamong a).antisymm (h'.nonced h hamong' a)
  · cases hx : s.order hash with
    | some x =>
      obtain ⟨y, hy, hsource⟩ := h.found h' hamong hx
      rw [hy, Option.map_some, Option.map_some, hsource]
    | none =>
      cases hy : s'.order hash with
      | none => rfl
      | some y =>
        obtain ⟨x, hx', -⟩ := h'.found h hamong' hy
        cases hx.symm.trans hx'

end Same

end SortedOrders

namespace OrderBy

variable {block : BlockContext P} {c c' first first' q q' : Checkpoint P} {orders orders' : List (Checkpoint P)}

def outcome (returned : Except OrderByPanic (ControlFlow (Checkpoint P) (OrderByError P ε))) :
    Except OrderByPanic (ControlFlow (Checkpoint P) (OrderByError P ε)) :=
  returned.map fun flow => match flow with
    | .ok p => .ok p.forget
    | .brk p => .brk p.forget
    | .fail e => .fail e

lemma reapply_forget (fresh fresh' : ℕ → ℕ × ℕ) {items items' : List (Checkpoint P)}
    (hitems : items.map source = items'.map source) (h : q.forget = q'.forget) :
    (reapply fresh items q).map forget = (reapply fresh' items' q').map forget := by
  induction items generalizing items' q q' with
  | nil =>
    obtain rfl := List.map_eq_nil_iff.mp hitems.symm
    exact congrArg Except.ok h
  | cons item items ih =>
    obtain ⟨item', rest', rfl, hitem, hrest⟩ := List.map_eq_cons_iff.mp hitems.symm
    rw [reapply, reapply, tryIntoExecutable_of_source hitem]
    cases item.tryIntoExecutable with
    | error e => rfl
    | ok executable =>
      simp only [bind, Except.bind]
      have happly := apply_forget h executable (fresh items.length).1 (fresh items.length).2
        (fresh' rest'.length).1
        (fresh' rest'.length).2
      cases ha : q.apply executable (fresh items.length).1 (fresh items.length).2 with
      | error e =>
        rw [ha] at happly
        rw [map_eq_error happly.symm]
      | ok p =>
        rw [ha] at happly
        obtain ⟨p', hp', hforget⟩ := map_eq_ok happly.symm
        rw [hp']
        exact ih hrest.symm hforget.symm

section Step

variable [LinearOrder Score] {score : Checkpoint P → Except ε Score}
    {visit visit' : MapOrder (B256 × Checkpoint P)}
  {s s' : SortedOrders P Score}

/-- None of the orders can be taken, so the payload is left as it is. -/
def LeftAlone (score : Checkpoint P → Except ε Score) (visit : MapOrder (B256 × Checkpoint P)) (fresh : ℕ → ℕ × ℕ)
    (c : Checkpoint P) : Prop :=
  ∃ s, SortedOrders.tryFrom score visit c.historyStaging = .ok s ∧ s.intoIter = [] ∧
    step score visit fresh c = .ok (.ok c)

lemma step_alike (hst : Staged c first orders) (hst' : Staged c' first' orders')
    (hfirst : first.forget = first'.forget) (hdepth : c.depth = c'.depth)
    (hs : SortedOrders.tryFrom score visit c.historyStaging = .ok s)
    (hs' : SortedOrders.tryFrom score visit' c'.historyStaging = .ok s')
    (hsorted : s.intoIter.map source = s'.intoIter.map source) (fresh fresh' : ℕ → ℕ × ℕ) :
    outcome (step score visit fresh c) = outcome (step score visit' fresh' c') ∨
      LeftAlone score visit fresh c ∧ LeftAlone score visit' fresh' c' := by
  cases hi : s.intoIter with
  | nil =>
    rw [hi, List.map_nil] at hsorted
    have hi' := List.map_eq_nil_iff.mp hsorted.symm
    exact .inr ⟨⟨s, hs, hi, step_empty hst visit fresh hs hi⟩, s', hs', hi', step_empty hst' visit' fresh' hs' hi'⟩
  | cons item items =>
    rw [hi] at hsorted
    obtain ⟨item', items', hi', hitem, -⟩ := List.map_eq_cons_iff.mp hsorted.symm
    obtain ⟨hash, hh⟩ := SortedOrders.sorted_hashed hs item (hi ▸ List.mem_cons_self)
    have hh' : item'.hash = some hash := (hash_of_source hitem).trans hh
    rw [hi'] at hsorted
    have hreapply := reapply_forget fresh fresh' hsorted hfirst
    rw [step_sorted hst visit fresh hs hi hh, step_sorted hst' visit' fresh' hs' hi' hh']
    left
    cases hr : reapply fresh (item :: items) first with
    | error e =>
      rw [hr] at hreapply
      rw [map_eq_error hreapply.symm]
    | ok p =>
      rw [hr] at hreapply
      obtain ⟨p', hp', hforget⟩ := map_eq_ok hreapply.symm
      have hlength : p.depth = p'.depth := by rw [← depth_forget, ← hforget, depth_forget]
      rw [hp']
      dsimp only
      rw [← hdepth, hlength]
      split
      · simp [outcome, Except.map, hforget]
      · rfl

def ReadsOrder (score : Checkpoint P → Except ε Score) : Prop :=
  ∀ x y : Checkpoint P, x.block = y.block → x.source = y.source → score x = score y

omit [LinearOrder Score] in
lemma block_of_mem_staging (hst : Staged c first orders) {x : Checkpoint P} (hx : x ∈ first :: orders) :
    x.block = c.block := by
  have hiter : ∀ c : Checkpoint P, ∀ x ∈ c.iter, x.block = c.block := by
    intro c
    induction c with
    | base block d =>
      intro x hx
      rw [List.mem_singleton.mp hx]
    | next p d ih =>
      intro x hx
      obtain rfl | hx := List.mem_cons.mp hx
      · rfl
      · exact ih x hx
  apply hiter c x
  rw [← List.mem_reverse]
  exact (staging_within_history c).subset (hst.staging ▸ hx)

omit [LinearOrder Score] in
lemma sources_staged (hst : Staged c first orders) : orders.map source = c.stagedOrders.map some := by
  have hfirst : first.source = none := by simpa [source, isBarrier] using hst.barrier
  rw [stagedOrders, hst.staging, List.filterMap_cons_none hfirst]
  have hall := hst.executable
  clear hst
  induction orders with
  | nil => rfl
  | cons x orders ih =>
    obtain ⟨hx, hrest⟩ := List.forall_mem_cons.mp hall
    rw [isBarrier, Option.isNone_eq_false_iff, Option.isSome_iff_exists] at hx
    obtain ⟨result, hresult⟩ := hx
    have hsource : x.source = some result.source := by rw [source, hresult, Option.map_some]
    rw [List.filterMap_cons_some hsource, List.map_cons, List.map_cons, hsource, ih hrest]

lemma sorted_alike (hreads : ReadsOrder score) (hst : Staged c first orders) (hst' : Staged c' first' orders')
    (hblock : c.block = c'.block) (hsame : (orders.map source).Perm (orders'.map source))
    (hdistinct : (orders.map Checkpoint.hash).Nodup) (hscored : ∀ x, ∃ sc, score x = .ok sc)
    (visit visit' : MapOrder (B256 × Checkpoint P)) :
    ∃ s s', SortedOrders.tryFrom score visit c.historyStaging = .ok s ∧
      SortedOrders.tryFrom score visit' c'.historyStaging = .ok s' ∧
      s.intoIter.map source = s'.intoIter.map source := by
  have hamong : ∀ {c c' first first' : Checkpoint P} {orders orders' : List (Checkpoint P)},
    Staged c first orders →
      Staged c' first' orders' → c.block = c'.block → (orders.map source).Perm (orders'.map source) →
      SortedOrders.Among score orders orders' := by
    intro c c' first first' orders orders' hst hst' hblock hsame x hx
    obtain ⟨y, hy, hsource⟩ := List.mem_map.mp (hsame.mem_iff.mp (List.mem_map_of_mem hx))
    refine ⟨y, hy, hsource, hreads y x ?_ hsource⟩
    rw [block_of_mem_staging hst' (List.mem_cons_of_mem _ hy),
      block_of_mem_staging hst (List.mem_cons_of_mem _ hx), hblock]
  have hdistinct' : (orders'.map Checkpoint.hash).Nodup := by
    have hhash : ∀ l : List (Checkpoint P),
        l.map Checkpoint.hash = (l.map source).map (Option.map Executable.hash) := by
      intro l
      rw [List.map_map]
      exact List.map_congr_left fun x _ => hash_source x
    rw [hhash] at hdistinct ⊢
    exact (hsame.map _).nodup_iff.mp hdistinct
  have hspan : ∀ c : Checkpoint P, ∀ x ∈ SortedOrders.executables c.historyStaging, ∃ sc, score x = .ok sc :=
    fun _ x _ => hscored x
  obtain ⟨s, hs, ho, hscores, hnonces⟩ := SortedOrders.tryFrom_ok (hspan c) visit
  obtain ⟨s', hs', ho', hscores', hnonces'⟩ := SortedOrders.tryFrom_ok (hspan c') visit'
  rw [← executables_staging hst] at hdistinct
  rw [← executables_staging hst'] at hdistinct'
  have hholds := SortedOrders.holds_of_distinct hdistinct ho hscores hnonces
  have hholds' := SortedOrders.holds_of_distinct hdistinct' ho' hscores' hnonces'
  rw [executables_staging hst] at hholds
  rw [executables_staging hst'] at hholds'
  have htwin := hholds.twin hholds' (hamong hst hst' hblock hsame) (hamong hst' hst hblock.symm hsame.symm)
  refine ⟨s, s', hs, hs', ?_⟩
  have hlength : s.allOrders.length = s'.allOrders.length := by
    rw [ho, ho', SortedOrders.collectOrders_eq hdistinct, SortedOrders.collectOrders_eq hdistinct',
      SortedOrders.entries_length, SortedOrders.entries_length, executables_staging hst, executables_staging hst']
    simpa using hsame.length_eq
  rw [SortedOrders.intoIter, SortedOrders.intoIter, hlength]
  exact htwin.drain _

lemma staged_alike (hreads : ReadsOrder score) (hscored : ∀ x, ∃ sc, score x = .ok sc)
    (hst : Staged c first orders) (hst' : Staged c' first' orders') (hfirst : first.forget = first'.forget)
    (hsame : (orders.map source).Perm (orders'.map source)) (hdistinct : (orders.map Checkpoint.hash).Nodup)
    (visit visit' : MapOrder (B256 × Checkpoint P)) (fresh fresh' : ℕ → ℕ × ℕ) :
    outcome (step score visit fresh c) = outcome (step score visit' fresh' c') ∨
      LeftAlone score visit fresh c ∧ LeftAlone score visit' fresh' c' := by
  have hblock : c.block = c'.block := by
    rw [← block_of_mem_staging hst List.mem_cons_self, ← block_of_mem_staging hst' List.mem_cons_self,
      ← block_forget, hfirst, block_forget]
  have hdepth : c.depth = c'.depth := by
    have hlength := hsame.length_eq
    simp only [List.length_map] at hlength
    rw [hst.depth, hst'.depth, hlength, ← depth_forget first, hfirst, depth_forget]
  obtain ⟨s, s', hs, hs', hsorted⟩ := sorted_alike hreads hst hst' hblock hsame hdistinct hscored visit visit'
  exact step_alike hst hst' hfirst hdepth hs hs' hsorted fresh fresh'

end Step

end OrderBy

/-- What a platform takes from the header of the parent and from a transaction to price it. -/
structure FeeRules (P : Type) [PlatformTypes P] where
  baseFee : BlockContext P → ℕ
  effectiveTipPerGas : Transaction P → ℕ → Option ℕ

def effectiveTipPerGas (fees : FeeRules P) (checkpoint : Checkpoint P) : ℕ :=
  (checkpoint.transactions.filterMap fun tx =>
    fees.effectiveTipPerGas tx (fees.baseFee checkpoint.block)).sum % 2 ^ 128

def PriorityFeeScore.score (fees : FeeRules P) (checkpoint : Checkpoint P) : Except Empty ℕ :=
  .ok (effectiveTipPerGas fees checkpoint)

namespace OrderByPriorityFee

open OrderBy

def step (fees : FeeRules P) (visit : MapOrder (B256 × Checkpoint P)) (fresh : ℕ → ℕ × ℕ)
    (payload : Checkpoint P) : Except OrderByPanic (ControlFlow (Checkpoint P) (OrderByError P Empty)) :=
  OrderBy.step (PriorityFeeScore.score fees) visit fresh payload

lemma readsOrder (fees : FeeRules P) : ReadsOrder (PriorityFeeScore.score fees) := by
  intro x y hblock hsource
  rw [PriorityFeeScore.score, PriorityFeeScore.score, effectiveTipPerGas, effectiveTipPerGas, transactions_source,
    transactions_source, hsource, hblock]

variable {block : BlockContext P} {c c' p : Checkpoint P}

/-- Payloads that stage the same orders on the same barrier are sorted to the same payload, up to
the identities of its checkpoints, unless no order can be taken from either. Sorting a sorted
payload again gives that payload. -/
theorem sorting_canonical (fees : FeeRules P) (hb : Checkpoint.Built block c) (hb' : Checkpoint.Built block c')
    (hbarrier : c.historyStaging.head?.map forget = c'.historyStaging.head?.map forget)
    (hsame : c.stagedOrders.Perm c'.stagedOrders)
    (hdistinct : ((SortedOrders.executables c.historyStaging).map Checkpoint.hash).Nodup)
    (visit visit' : MapOrder (B256 × Checkpoint P)) (fresh fresh' : ℕ → ℕ × ℕ) :
    (outcome (step fees visit fresh c) = outcome (step fees visit' fresh' c') ∨
        LeftAlone (PriorityFeeScore.score fees) visit fresh c ∧
          LeftAlone (PriorityFeeScore.score fees) visit' fresh' c') ∧
      ∀ p, step fees visit fresh c = .ok (.ok p) → p.stagedOrders.Perm c.stagedOrders →
        outcome (step fees visit' fresh' p) = .ok (.ok p.forget) := by
  obtain ⟨first, orders, hst⟩ := staged hb
  obtain ⟨first', orders', hst'⟩ := staged hb'
  have hscored : ∀ x : Checkpoint P, ∃ sc, PriorityFeeScore.score fees x = .ok sc := fun x => ⟨_, rfl⟩
  rw [executables_staging hst] at hdistinct
  have hfirst : first.forget = first'.forget := by
    rw [hst.staging, hst'.staging] at hbarrier
    exact Option.some.inj hbarrier
  have hsources := hsame.map some
  rw [← sources_staged hst, ← sources_staged hst'] at hsources
  refine ⟨staged_alike (readsOrder fees) hscored hst hst' hfirst hsources hdistinct visit visit' fresh fresh', ?_⟩
  intro p hp hkept
  have hagain : ∀ orders'', Staged p first orders'' →
    outcome (step fees visit' fresh' p) = .ok (.ok p.forget) := by
    intro orders'' hst''
    have hagain := hkept.symm.map some
    rw [← sources_staged hst, ← sources_staged hst''] at hagain
    obtain hsorted | ⟨-, -, -, -, huntouched⟩ :=
      staged_alike (readsOrder fees) hscored hst hst'' rfl hagain hdistinct visit visit' fresh fresh'
    · rw [step, ← hsorted, ← step, hp]
      rfl
    · rw [step, huntouched]
      rfl
  have hspan : ∀ x ∈ SortedOrders.executables c.historyStaging, ∃ sc, PriorityFeeScore.score fees x = .ok sc :=
    fun x _ => hscored x
  obtain ⟨s, hs, -⟩ := SortedOrders.tryFrom_ok hspan visit
  by_cases hne : s.intoIter = []
  · have huntouched := step_empty hst visit fresh hs hne
    rw [step, huntouched] at hp
    cases hp
    exact hagain orders hst
  · obtain ⟨-, -, added, hadded, -⟩ := step_rebuilt hst hs hne hp
    exact hagain added hadded

section Example

def tips : FeeRules Devnet where
  baseFee _ := 0
  effectiveTipPerGas tx _ := [10, 50, 30][PlainTx.hash tx - 1]?

def rearranged : Checkpoint Devnet :=
  extend (extend (extend (Checkpoint.newAtBlock Devnet.block 0 0) (.transaction (PlainTx.mk 3 8 0)))
    (.transaction (PlainTx.mk 1 7 0))) (.transaction (PlainTx.mk 2 7 1))

def backwards : MapOrder (B256 × Checkpoint Devnet) := ⟨List.reverse, List.reverse_perm⟩

theorem loosePayload_canonical : ∃ p, step tips default (fun n => (n + 10, n)) loosePayload = .ok (.ok p) ∧
    p.history.map Checkpoint.hash = [none, some 3, some 1, some 2] ∧
    outcome (step tips backwards (fun n => (n + 20, 0)) rearranged) = .ok (.ok p.forget) ∧
    outcome (step tips backwards (fun n => (n + 20, 0)) p) = .ok (.ok p.forget) := by
  have hb : Checkpoint.Built Devnet.block loosePayload :=
    built_extend (built_extend (built_extend (.start 0 0) trivial) trivial) trivial
  have hb' : Checkpoint.Built Devnet.block rearranged :=
    built_extend (built_extend (built_extend (.start 0 0) trivial) trivial) trivial
  let first : Executable Devnet := .transaction (PlainTx.mk 1 7 0)
  let second : Executable Devnet := .transaction (PlainTx.mk 2 7 1)
  let third : Executable Devnet := .transaction (PlainTx.mk 3 8 0)
  have hrotated : ([first, second] ++ [third]).Perm ([third] ++ [first, second]) := List.perm_append_comm
  obtain ⟨p, hp, hhashes, hsources⟩ : ∃ p, step tips default (fun n => (n + 10, n)) loosePayload = .ok (.ok p) ∧
      p.history.map Checkpoint.hash = [none, some 3, some 1, some 2] ∧
      p.stagedOrders = [third, first, second] :=
    ⟨_, rfl, by decide +kernel, rfl⟩
  have h := sorting_canonical tips hb hb' rfl hrotated (by decide +kernel) default backwards (fun n => (n + 10, n))
    fun n => (n + 20, 0)
  refine ⟨p, hp, hhashes, ?_, h.2 p hp ?_⟩
  · obtain hsorted | ⟨⟨-, -, -, huntouched⟩, -⟩ := h.1
    · rw [hp] at hsorted
      exact hsorted.symm
    · rw [step, huntouched] at hp
      cases hp
      exact absurd hhashes (by decide +kernel)
  · rw [hsources]
    exact hrotated.symm

end Example

end OrderByPriorityFee

end Rblib.Steps
