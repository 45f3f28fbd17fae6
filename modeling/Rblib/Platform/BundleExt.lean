import Rblib.Platform.Bundle

namespace Rblib.Platform.FlashbotsBundle

open Payload PlatformTypes

variable {P : Type} [PlatformTypes P]

def failableTxs (bundle : FlashbotsBundle P) : List (Transaction P) :=
  bundle.transactions.filter fun tx => !bundle.isAllowedToFail (txHash tx)

def optionalTxs (bundle : FlashbotsBundle P) : List (Transaction P) :=
  bundle.transactions.filter fun tx => bundle.isOptional (txHash tx)

def requiredTxs (bundle : FlashbotsBundle P) : List (Transaction P) :=
  bundle.transactions.filter fun tx => !bundle.isOptional (txHash tx)

def criticalTxs (bundle : FlashbotsBundle P) : List (Transaction P) :=
  bundle.transactions.filter fun tx => !bundle.isAllowedToFail (txHash tx) && !bundle.isOptional (txHash tx)

variable {bundle : FlashbotsBundle P} {tx : Transaction P}

lemma mem_failableTxs :
    tx ∈ bundle.failableTxs ↔ tx ∈ bundle.transactions ∧ bundle.isAllowedToFail (txHash tx) = false := by
  rw [failableTxs, List.mem_filter, Bool.not_eq_true']

lemma mem_requiredTxs :
    tx ∈ bundle.requiredTxs ↔ tx ∈ bundle.transactions ∧ bundle.isOptional (txHash tx) = false := by
  rw [requiredTxs, List.mem_filter, Bool.not_eq_true']

lemma mem_criticalTxs :
    tx ∈ bundle.criticalTxs ↔ tx ∈ bundle.requiredTxs ∧ bundle.isAllowedToFail (txHash tx) = false := by
  rw [mem_requiredTxs, criticalTxs, List.mem_filter, Bool.and_eq_true, Bool.not_eq_true', Bool.not_eq_true']
  tauto

end Rblib.Platform.FlashbotsBundle
