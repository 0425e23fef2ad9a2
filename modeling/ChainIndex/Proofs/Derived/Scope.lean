import ChainIndex.Derived.Scope
import ChainIndex.Proofs.Text.Canonical
import Mathlib.Data.Finset.Dedup
import Mathlib.Data.List.Sort
import Mathlib.Data.String.Basic

/-!
# The owners in a scope

A row belongs to the safe that it names, or through the row that it refers to; if that row is not stored,
its owner is not known (`none`).  `Owners` tells which owners' rows an operation touches.  The scope of a
list of addresses has the owners that the list has (`owners_ofAddresses`), and holds each of them once and
in small letters (`nodup_sortedTexts`, `lower_of_mem_sortedTexts`).  Two lists have the same scope exactly if
they have the same addresses in small letters (`ofAddresses_eq_iff`).
-/

namespace ChainIndex.Derived

open Text (lower lower_lower)

/-! ## Sorted lists of texts -/

theorem mem_insertSorted {s t : String} {xs : List String} :
    t ∈ insertSorted s xs ↔ t = s ∨ t ∈ xs := by
  induction xs with
  | nil => simp [insertSorted]
  | cons x rest ih =>
    unfold insertSorted
    split
    · rw [List.mem_cons]
    · rename_i heq
      rw [Std.LawfulEqCmp.compare_eq_iff_eq.1 heq, List.mem_cons]
      simp
    · rw [List.mem_cons, List.mem_cons, ih]
      exact or_left_comm

theorem mem_sortedTexts {t : String} {xs : List String} : t ∈ sortedTexts xs ↔ t ∈ xs := by
  unfold sortedTexts
  induction xs with
  | nil => rfl
  | cons x rest ih => rw [List.foldr_cons, mem_insertSorted, ih, List.mem_cons]

theorem pairwise_insertSorted (s : String) {xs : List String}
    (h : xs.Pairwise fun a b => compare a b = .lt) :
    (insertSorted s xs).Pairwise fun a b => compare a b = .lt := by
  induction xs with
  | nil => exact List.pairwise_singleton _ _
  | cons x rest ih =>
    obtain ⟨hx, hrest⟩ := List.pairwise_cons.1 h
    unfold insertSorted
    split
    · rename_i hlt
      refine List.pairwise_cons.2 ⟨fun t ht => ?_, h⟩
      rcases List.mem_cons.1 ht with rfl | ht
      · exact hlt
      · exact Std.TransCmp.lt_trans hlt (hx t ht)
    · exact h
    · rename_i hgt
      refine List.pairwise_cons.2 ⟨fun t ht => ?_, ih hrest⟩
      rcases mem_insertSorted.1 ht with rfl | ht
      · exact Std.OrientedCmp.gt_iff_lt.1 hgt
      · exact hx t ht

theorem pairwise_sortedTexts (xs : List String) :
    (sortedTexts xs).Pairwise fun a b => compare a b = .lt := by
  unfold sortedTexts
  induction xs with
  | nil => exact .nil
  | cons x rest ih => exact pairwise_insertSorted x ih

theorem nodup_sortedTexts (xs : List String) : (sortedTexts xs).Nodup := by
  refine (pairwise_sortedTexts xs).imp fun {a b} hlt heq => ?_
  have hself : compare b b = .eq := Std.ReflCmp.compare_self
  rw [heq, hself] at hlt
  cases hlt

theorem sortedLT_sortedTexts (xs : List String) : (sortedTexts xs).SortedLT :=
  ((pairwise_sortedTexts xs).imp fun hlt => compare_lt_iff_lt.1 hlt).sortedLT

/-- A sorted list is told by what it holds. -/
theorem sortedTexts_eq_iff {xs ys : List String} :
    sortedTexts xs = sortedTexts ys ↔ xs.toFinset = ys.toFinset := by
  rw [Finset.ext_iff]
  simp only [List.mem_toFinset]
  constructor
  · intro h a
    rw [← mem_sortedTexts, h, mem_sortedTexts]
  · intro h
    refine (sortedLT_sortedTexts xs).eq_of_mem_iff (sortedLT_sortedTexts ys) fun a => ?_
    rw [mem_sortedTexts, mem_sortedTexts, h]

theorem lower_of_mem_sortedTexts {addresses : List String} {a : String}
    (h : a ∈ sortedTexts (addresses.map lower)) : lower a = a := by
  obtain ⟨b, -, rfl⟩ := List.mem_map.1 (mem_sortedTexts.1 h)
  exact lower_lower b

/-! ## Owners -/

/-- The owners of rows that an operation touches. -/
abbrev Owners := Option String → Bool

/-- Every owner, known or not. -/
def Owners.all : Owners := fun _ => true

/-- The owners in a list of addresses, whatever the case of their letters. -/
def Owners.among (addresses : List String) : Owners :=
  fun owner? => owner?.any fun owner => addresses.any fun a => lower a == lower owner

/-- The owners in a scope. -/
def AddressScope.owners : AddressScope → Owners
  | .all => .all
  | .only list => fun owner? => owner?.any (AddressScope.only list).contains

theorem Owners.among_some {addresses : List String} {owner : String} :
    among addresses (some owner) = true ↔ ∃ a ∈ addresses, lower a = lower owner := by
  unfold among
  simp only [Option.any_some, List.any_eq_true, beq_iff_eq]

theorem AddressScope.contains_eq_owners (scope : AddressScope) (owner : String) :
    scope.contains owner = scope.owners (some owner) := by
  cases scope <;> rfl

theorem AddressScope.owners_ofAddresses (addresses : List String) :
    (ofAddresses addresses).owners = .among addresses := by
  funext owner?
  cases owner? with
  | none => rfl
  | some owner =>
    rw [Bool.eq_iff_iff, Owners.among_some]
    show (List.any _ _ : Bool) = true ↔ _
    simp only [List.any_eq_true, Text.eqIgnoringCase_iff, mem_sortedTexts, List.mem_map]
    constructor
    · rintro ⟨_, ⟨a, ha, rfl⟩, h⟩
      exact ⟨a, ha, by rw [← h, lower_lower]⟩
    · rintro ⟨a, ha, h⟩
      exact ⟨lower a, ⟨a, ha, rfl⟩, by rw [lower_lower, h]⟩

/-! ## Canonical scopes -/

namespace AddressScope

variable {addresses addresses' : List String}

theorem contains_ofAddresses_iff (a : String) :
    (ofAddresses addresses).contains a ↔ ∃ b ∈ addresses, Text.eqIgnoringCase b a := by
  rw [contains_eq_owners, owners_ofAddresses, Owners.among_some]
  simp only [Text.eqIgnoringCase_iff]

theorem contains_ofAddresses_iff_mem (a : String) :
    (ofAddresses addresses).contains a ↔ lower a ∈ sortedTexts (addresses.map lower) := by
  rw [contains_eq_owners, owners_ofAddresses, Owners.among_some, mem_sortedTexts, List.mem_map]

theorem ofAddresses_eq_iff : ofAddresses addresses = ofAddresses addresses' ↔
    (addresses.map lower).toFinset = (addresses'.map lower).toFinset := by
  rw [ofAddresses, ofAddresses, only.injEq, sortedTexts_eq_iff]

/-- The addresses in small letters are the same if each address of one list is in the other one, whatever the
case of its letters. -/
theorem toFinset_map_lower_eq (h : ∀ a ∈ addresses, ∃ b ∈ addresses', Text.eqIgnoringCase a b)
    (h' : ∀ b ∈ addresses', ∃ a ∈ addresses, Text.eqIgnoringCase a b) :
    (addresses.map lower).toFinset = (addresses'.map lower).toFinset := by
  ext a
  rw [List.mem_toFinset, List.mem_toFinset, List.mem_map, List.mem_map]
  constructor
  · rintro ⟨a, ha, rfl⟩
    obtain ⟨b, hb, hab⟩ := h a ha
    exact ⟨b, hb, ((Text.eqIgnoringCase_iff a b).1 hab).symm⟩
  · rintro ⟨b, hb, rfl⟩
    obtain ⟨a, ha, hab⟩ := h' b hb
    exact ⟨a, ha, (Text.eqIgnoringCase_iff a b).1 hab⟩

end AddressScope

end ChainIndex.Derived
