import ChainIndex.Proofs.Derived.Invalidation
import ChainIndex.Store.Relational

/-!
# Invalidations in several statements

A database works a scope off in statements of some of its addresses each.  Statements of lists without a
common address do one after the other what one statement of all the addresses does (`runAll_forSome`), so
that a step does to the derived tables of a database what it does to tables in memory (`invalidate_eq`).
-/

namespace ChainIndex

open Derived (AddressScope Invalidation Owners Tables)
open Text (lower)

/-- The scope is one that can be asked for: all addresses, or those of a list in their canonical form. -/
def Derived.AddressScope.IsCanonical (scope : AddressScope) : Prop :=
  scope = .all ∨ ∃ addresses, scope = .ofAddresses addresses

namespace Relational

/-! ## Owners of a statement -/

/-- The owners whose rows the statement of some addresses touches. -/
def ownersAmong (addresses : List String) : Owners := fun owner? => owner?.any (among addresses)

theorem ownersAmong_nil : ownersAmong [] = fun _ => false := by
  funext owner?
  cases owner? <;> rfl

theorem ownersAmong_append (xs ys : List String) :
    ownersAmong (xs ++ ys) = fun owner => ownersAmong xs owner || ownersAmong ys owner := by
  funext owner?
  cases owner? with
  | none => rfl
  | some owner =>
    unfold ownersAmong among
    rw [Option.any_some, Option.any_some, Option.any_some, List.contains_append]

/-- An owner is among the addresses of one statement at most. -/
theorem ownersAmong_eq_false {xs ys : List String} (h : (xs ++ ys).Nodup) {owner : Option String}
    (hx : ownersAmong xs owner = true) : ownersAmong ys owner = false := by
  cases owner with
  | none => cases hx
  | some owner =>
    unfold ownersAmong among at hx ⊢
    rw [Option.any_some, List.contains_iff_mem] at hx
    rw [Option.any_some, ← Bool.not_eq_true, List.contains_iff_mem]
    exact List.disjoint_of_nodup_append h hx

/-- Addresses in small letters are compared whatever the case of their letters. -/
theorem ownersAmong_eq_owners {addresses : List String} (h : ∀ a ∈ addresses, lower a = a) :
    ownersAmong addresses = (AddressScope.only addresses).owners := by
  have hamong : among addresses = (AddressScope.only addresses).contains := by
    funext a
    rw [Bool.eq_iff_iff]
    unfold among AddressScope.contains
    simp only [List.contains_iff_mem, List.any_eq_true, Text.eqIgnoringCase_iff]
    constructor
    · exact fun hmem => ⟨lower a, hmem, h _ hmem⟩
    · rintro ⟨b, hb, heq⟩
      rw [← heq, h b hb]
      exact hb
  unfold ownersAmong
  rw [hamong]
  rfl

/-! ## Statements -/

theorem forAll_eq_takeBack (step : Invalidation) : forAll step = Tables.takeBack .all step := by
  cases step <;> rfl

theorem multisigAmong_eq (addresses : List String) : multisigAmong addresses = fun d hash =>
    ownersAmong addresses ((d.multisigTxs.get? hash).map Derived.MultisigTx.safe) := by
  funext d hash
  exact Option.any_map.symm

theorem senderAmong_eq (addresses : List String) :
    senderAmong addresses = fun d key => ownersAmong addresses (d.markerOwner key) := by
  funext d key
  exact Option.any_map.symm

theorem forSome_eq_takeBack (addresses : List String) (step : Invalidation) :
    forSome addresses step = Tables.takeBack (ownersAmong addresses) step := by
  cases step with
  | confirmations =>
    show deleteConfirmations (multisigAmong addresses) = _
    rw [multisigAmong_eq]
    rfl
  | markers =>
    show resetMarkers (senderAmong addresses) = _
    rw [senderAmong_eq]
    rfl
  | _ => rfl

/-- The statements of the parts of a list of addresses do what one statement of the list does. -/
theorem runAll_forSome (step : Invalidation) {parts : List (List String)} (h : parts.flatten.Nodup)
    (d : Tables) : runAll (parts.map fun part => forSome part step) d = forSome parts.flatten step d := by
  induction parts generalizing d with
  | nil =>
    rw [List.flatten_nil, forSome_eq_takeBack, ownersAmong_nil, Tables.takeBack_nobody]
    rfl
  | cons part rest ih =>
    rw [List.flatten_cons] at h ⊢
    rw [forSome_eq_takeBack, ownersAmong_append, Tables.takeBack_or fun _ => ownersAmong_eq_false h,
      ← forSome_eq_takeBack, ← forSome_eq_takeBack, ← ih h.of_append_right]
    rfl

/-- The statements of a scope do what the step does. -/
theorem runAll_statements {scope : AddressScope} (h : scope.IsCanonical) (step : Invalidation)
    (d : Tables) : runAll (statements step scope) d = d.invalidate step scope := by
  rw [Tables.invalidate_eq_takeBack]
  rcases h with rfl | ⟨addresses, rfl⟩
  · show runAll [forAll step] d = _
    rw [forAll_eq_takeBack]
    rfl
  · unfold AddressScope.ofAddresses statements
    have hnodup := Derived.nodup_sortedTexts (addresses.map lower)
    rw [← flatten_chunks maxParameters (Derived.sortedTexts _)] at hnodup
    rw [runAll_forSome step hnodup, flatten_chunks, forSome_eq_takeBack,
      ownersAmong_eq_owners fun a ha => Derived.lower_of_mem_sortedTexts ha]

/-- A step does to the derived tables of a database what it does to tables in memory. -/
theorem invalidate_eq {scope : AddressScope} (h : scope.IsCanonical) (step : Invalidation)
    (r : Relational) : invalidate step scope r = ((r.derived.invalidate step scope).1,
      { r with derived := (r.derived.invalidate step scope).2 }) := by
  unfold invalidate
  rw [runAll_statements h]

end Relational

end ChainIndex
