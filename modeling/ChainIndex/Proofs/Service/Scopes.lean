import ChainIndex.Proofs.Service.Reprocess
import Mathlib.Data.Finset.Insert

/-!
# Reprocessing the same addresses

The scope of a list of addresses is a set of addresses in small letters, written in increasing order.  So
lists that differ in the case of letters, in the order of addresses or in how often they are repeated have the
same scope, and reprocessing one of them is reprocessing the other (`canonical_scope`).
-/

namespace ChainIndex

open Derived.AddressScope (ofAddresses)
open Text (lower)

theorem Reprocess.addresses_congr {list list' : List String} (h : ofAddresses list = ofAddresses list') :
    Reprocess.addresses list = Reprocess.addresses list' := by
  -- A list without addresses has a scope of its own, so that both lists have some or neither has.
  have hempty : list = [] ↔ list' = [] := by
    rw [← List.map_eq_nil_iff (f := lower), ← List.toFinset_eq_empty_iff,
      Derived.AddressScope.ofAddresses_eq_iff.1 h, List.toFinset_eq_empty_iff, List.map_eq_nil_iff]
  unfold Reprocess.addresses
  simp only [List.isEmpty_iff, hempty, h]

/-- The scope of a list holds addresses in small letters, in increasing order.  An address is in it exactly if
it is in the list, whatever the case of its letters, and exactly if its small letters are one of those
addresses.  Two lists have the same scope exactly if they have the same addresses in small letters.  So if each
address of one is in the other, whatever the order, the repetitions and the case of letters, reprocessing them
has the same outcome and leaves the same tables, in any store. -/
theorem Derived.AddressScope.canonical_scope (addresses : List String) :
    (∃ list, ofAddresses addresses = .only list ∧ list.SortedLT ∧ (∀ a ∈ list, lower a = a) ∧
      ∀ a, ((ofAddresses addresses).contains a ↔ ∃ b ∈ addresses, Text.eqIgnoringCase b a) ∧
        ((ofAddresses addresses).contains a ↔ lower a ∈ list)) ∧
    ∀ addresses', (ofAddresses addresses = ofAddresses addresses' ↔
        (addresses.map lower).toFinset = (addresses'.map lower).toFinset) ∧
      ((∀ a ∈ addresses, ∃ b ∈ addresses', Text.eqIgnoringCase a b) →
        (∀ b ∈ addresses', ∃ a ∈ addresses, Text.eqIgnoringCase a b) →
        ∀ {ν σ : Type} (node : Node ν) (store : Store σ) (w : Routine.World ν σ),
          (Reprocess.addresses addresses).run.run node store w =
            (Reprocess.addresses addresses').run.run node store w) := by
  refine ⟨⟨_, rfl, sortedLT_sortedTexts _, fun a ha => lower_of_mem_sortedTexts ha, fun a =>
    ⟨contains_ofAddresses_iff a, contains_ofAddresses_iff_mem a⟩⟩, fun addresses' =>
    ⟨ofAddresses_eq_iff, fun h h' _ _ node store w => ?_⟩⟩
  rw [Reprocess.addresses_congr (ofAddresses_eq_iff.2 (toFinset_map_lower_eq h h'))]

open Sample in
theorem Derived.AddressScope.canonical_scope_sample :
    ofAddresses ["0xA1", "0xb2"] = ofAddresses ["0xB2", "0xa1", "0xb2"] ∧
    (Operation.reprocess ["0xA1", "0xb2"]).run service node
        ⟨(), .memory { live := { derived := decoded } }⟩ =
      (Operation.reprocess ["0xB2", "0xa1", "0xb2"]).run service node
        ⟨(), .memory { live := { derived := decoded } }⟩ := by
  have h : ∀ a ∈ ["0xA1", "0xb2"], ∃ b ∈ ["0xB2", "0xa1", "0xb2"], Text.eqIgnoringCase a b := by decide
  have h' : ∀ b ∈ ["0xB2", "0xa1", "0xb2"], ∃ a ∈ ["0xA1", "0xb2"], Text.eqIgnoringCase a b := by decide
  have hsame := (canonical_scope ["0xA1", "0xb2"]).2 ["0xB2", "0xa1", "0xb2"]
  exact ⟨hsame.1.2 (toFinset_map_lower_eq h h'), hsame.2 h h' node Storage.store _⟩

end ChainIndex
