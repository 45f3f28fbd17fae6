import Rblib.Payload.BundleRun
import Rblib.Payload.Checkpoint

/-! Chains that were built order by order. -/

namespace Rblib.Payload

open Platform PlatformTypes Library

variable {P : Type} [PlatformTypes P]

def Trims (b b' : FlashbotsBundle P) : Prop :=
  ∃ hashes : List B256, (∀ hash ∈ hashes, b.isOptional hash = true) ∧
    b' = hashes.foldl FlashbotsBundle.withoutTransaction b

lemma discarded_optional {bundle : FlashbotsBundle P} {block : BlockContext P} {db : DatabaseRef}
    {acc : Executable.Progress P}
    (h : bundle.transactionsEncoded.foldlM (Executable.executeBundleTransaction bundle block db) {} = .ok acc) :
    ∀ hash ∈ acc.discarded, bundle.isOptional hash = true := by
  obtain ⟨marks, hm⟩ := executeBundle_marks _ h
  intro hash hmem
  rw [hm.discarded, List.nil_append, List.mem_map] at hmem
  obtain ⟨tx, htx, rfl⟩ := hmem
  obtain ⟨m, hmark, rfl⟩ := List.mem_map.mp htx
  obtain ⟨hm', hleft⟩ := List.mem_filter.mp hmark
  exact hm.optional m hm' (by simpa using hleft)

namespace Checkpoint

variable {block : BlockContext P} {K : FlashbotsBundle P → Prop} {c x : Checkpoint P}

def Admits (K : FlashbotsBundle P → Prop) (executable : Executable P) : Prop := ∀ b, executable = .bundle b → K b

/-- Chains made of barriers and of orders whose bundles satisfy `K`. -/
inductive Assembled (block : BlockContext P) (K : FlashbotsBundle P → Prop) : Checkpoint P → Prop
  | start (id now : ℕ) : Assembled block K (newAtBlock block id now)
  | apply {c c' : Checkpoint P} {executable : Executable P} {id now : ℕ} : Assembled block K c →
      Admits K executable → c.apply executable id now = .ok c' → Assembled block K c'
  | barrier {c : Checkpoint P} (id now : ℕ) : Assembled block K c → Assembled block K (c.barrier id now)

def Hereditary (K : FlashbotsBundle P → Prop) : Prop := ∀ b b', Trims b b' → K b → K b'

lemma admits_transaction (K : FlashbotsBundle P → Prop) (tx : Transaction P) : Admits K (.transaction tx) := nofun

lemma admits_bundle {b : FlashbotsBundle P} (h : K b) : Admits K (.bundle b) := by
  intro b' hb
  cases hb
  exact h

lemma hereditary_of_withoutTransaction (h : ∀ b hash, K b → K (b.withoutTransaction hash)) : Hereditary K := by
  rintro b b' ⟨hashes, -, rfl⟩ hb
  induction hashes generalizing b with
  | nil => exact hb
  | cons hash hashes ih => exact ih _ (h b hash hb)

lemma Hereditary.source (hK : Hereditary K) {db : DatabaseRef} {executable : Executable P}
    {result : ExecutionResult P}
    (h : Admits K executable) (hr : executable.execute block db = .ok result) : Admits K result.source := by
  cases executable with
  | transaction tx =>
    obtain ⟨r, -, rfl⟩ := execute_transaction_ok hr
    exact admits_transaction K tx
  | bundle b =>
    obtain ⟨-, acc, hfold, rfl⟩ := executeBundle_ok_iff.mp hr
    exact admits_bundle (hK b _ ⟨acc.discarded, discarded_optional hfold, rfl⟩ (h b rfl))

lemma Assembled.block_eq (h : Assembled block K c) : c.block = block := by
  induction h with
  | start id now => rfl
  | apply _ _ ha ih =>
    obtain ⟨result, -, rfl⟩ := apply_eq ha
    exact ih
  | barrier id now _ ih => exact ih

lemma Assembled.of_mem_history (h : Assembled block K c) (hx : x ∈ c.history) : Assembled block K x := by
  induction h with
  | start id now =>
    obtain rfl := List.mem_singleton.mp hx
    exact .start id now
  | @apply c c' executable id now hc hadmits ha ih =>
    have hself := hc.apply hadmits ha
    obtain ⟨result, -, rfl⟩ := apply_eq ha
    rw [applyWith, history_next, List.mem_append, List.mem_singleton] at hx
    obtain hx | rfl := hx
    · exact ih hx
    · exact hself
  | @barrier c id now hc ih =>
    rw [Checkpoint.barrier, applyWith, history_next, List.mem_append, List.mem_singleton] at hx
    obtain hx | rfl := hx
    · exact ih hx
    · exact hc.barrier id now

lemma Assembled.recorded_source (hK : Hereditary K) (h : Assembled block K c) {result : ExecutionResult P}
    (hr : c.result = some result) : Admits K result.source := by
  cases h with
  | start id now => cases hr
  | apply hc hadmits ha =>
    obtain ⟨recorded, hexec, rfl⟩ := apply_eq ha
    obtain rfl : recorded = result := Option.some.inj hr
    exact hK.source hadmits hexec
  | barrier id now hc => cases hr

end Checkpoint

end Rblib.Payload
