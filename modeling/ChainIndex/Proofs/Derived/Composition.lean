import ChainIndex.Proofs.Derived.Invalidation

/-!
# Invalidations one after the other

Taking back the rows of some owners and then those of others takes back the rows of both
(`Invalidated.trans`), although the second invalidation finds tables that the first one has shrunk.  It
cannot miss a confirmation for that: the confirmations that are left and may go still find the multisig
transaction that they found before (`Invalidated.confirmationOwner`).

An invalidation is told by the owners whose rows it touches (`Invalidated.unique`), so that the order of
two of them, or a second one of the same rows, makes no difference to the tables.
-/

namespace ChainIndex.Derived

open Text (lower)

attribute [ext] Summary Tables

/-! ## Owners of two lists -/

/-- The owners that are of one kind or another. -/
def Owners.or (p q : Owners) : Owners := fun owner => p owner || q owner

theorem Owners.or_comm (p q : Owners) : p.or q = q.or p := funext fun _ => Bool.or_comm _ _

@[simp] theorem Owners.or_self (p : Owners) : p.or p = p := funext fun _ => Bool.or_self _

@[simp] theorem Owners.or_all (p : Owners) : p.or .all = .all := funext fun _ => Bool.or_true _

@[simp] theorem Owners.all_or (p : Owners) : Owners.all.or p = .all := funext fun _ => Bool.true_or _

theorem Owners.among_append (xs ys : List String) : among (xs ++ ys) = (among xs).or (among ys) := by
  funext owner?
  cases owner? with
  | none => rfl
  | some owner => exact List.any_append

theorem Owners.among_eq_false {xs ys : List String} (h : ∀ x ∈ xs, ∀ y ∈ ys, lower x ≠ lower y)
    {owner : Option String} (hx : among xs owner = true) : among ys owner = false := by
  cases owner with
  | none => cases hx
  | some owner =>
    obtain ⟨x, hmem, hxo⟩ := among_some.1 hx
    refine Bool.eq_false_iff.2 fun hy => ?_
    obtain ⟨y, hmem', hyo⟩ := among_some.1 hy
    exact h x hmem y hmem' (hxo.trans hyo.symm)

/-! ## Numbers of rows -/

/-- In each table, an invalidation deletes as many rows as two others together. -/
structure Summary.Adds (first second whole : Summary) : Prop where
  confirmations : whole.confirmationsDeleted = first.confirmationsDeleted + second.confirmationsDeleted
  multisigTxs : whole.multisigTxsDeleted = first.multisigTxsDeleted + second.multisigTxsDeleted
  moduleTxs : whole.moduleTxsDeleted = first.moduleTxsDeleted + second.moduleTxsDeleted
  safeStatuses : whole.safeStatusesDeleted = first.safeStatusesDeleted + second.safeStatusesDeleted

/-- An invalidation that deletes no row. -/
structure Summary.DeletesNothing (s : Summary) : Prop where
  confirmations : s.confirmationsDeleted = 0
  multisigTxs : s.multisigTxsDeleted = 0
  moduleTxs : s.moduleTxsDeleted = 0
  safeStatuses : s.safeStatusesDeleted = 0

theorem Summary.Adds.deletesNothing {first second : Summary} (h : first.Adds second first) :
    second.DeletesNothing where
  confirmations := Nat.add_eq_left.1 h.confirmations.symm
  multisigTxs := Nat.add_eq_left.1 h.multisigTxs.symm
  moduleTxs := Nat.add_eq_left.1 h.moduleTxs.symm
  safeStatuses := Nat.add_eq_left.1 h.safeStatuses.symm

/-! ## Tables -/

namespace Tables

variable {p q : Owners} {d d₁ d₂ : Tables} {first second : Summary}

/-- The owners tell what an invalidation reports and leaves. -/
theorem Invalidated.unique (h₁ : d.Invalidated p first d₁) (h₂ : d.Invalidated p second d₂) :
    first = second ∧ d₁ = d₂ := by
  have hconfirmations := h₁.confirmations.unique h₂.confirmations
  have hmultisigTxs := h₁.multisigTxs.unique h₂.multisigTxs
  have hmoduleTxs := h₁.moduleTxs.unique h₂.moduleTxs
  have hsafeStatuses := h₁.safeStatuses.unique h₂.safeStatuses
  have hmarkers := h₁.markers.unique h₂.markers
  exact ⟨Summary.ext hconfirmations.1 hmultisigTxs.1 hmoduleTxs.1 hsafeStatuses.1 hmarkers.1,
    Tables.ext (h₁.internalTxs.trans h₂.internalTxs.symm) hmarkers.2 hmultisigTxs.2 hconfirmations.2
      hmoduleTxs.2 hsafeStatuses.2⟩

/-- A confirmation that is known from the chain alone and left over belongs to whom it did. -/
theorem Invalidated.confirmationOwner (h : d.Invalidated p first d₁) {key : ConfirmationKey}
    {c : Confirmation} (hc : d₁.confirmations.get? key = some c) (hon : c.signature.isNone = true) :
    d₁.confirmationOwner c = d.confirmationOwner c := by
  obtain ⟨-, hleft⟩ := h.confirmations.get?_iff.1 hc
  rw [hon, Bool.true_and] at hleft
  unfold Tables.confirmationOwner at hleft ⊢
  congr 1
  cases hm : d.multisigTxs.get? c.multisigHash with
  | none =>
    refine Option.eq_none_iff_forall_not_mem.2 fun m hm' => ?_
    rw [(h.multisigTxs.get?_iff.1 hm').1] at hm
    cases hm
  | some m =>
    rw [hm, Option.map_some] at hleft
    rw [h.multisigTxs.get?_iff]
    exact ⟨hm, by rw [hleft, Bool.and_false]⟩

/-- What two invalidations leave is left by one of the rows of both. -/
theorem Invalidated.trans (h₁ : d.Invalidated p first d₁) (h₂ : d₁.Invalidated q second d₂) :
    ∃ whole, d.Invalidated (p.or q) whole d₂ ∧ first.Adds second whole ∧
      ((∀ owner, p owner = true → q owner = false) →
        whole.internalTxsMarked = first.internalTxsMarked + second.internalTxsMarked) := by
  have howner : d₁.markerOwner = d.markerOwner := by
    unfold markerOwner
    rw [h₁.internalTxs]
  have hmarkers := h₂.markers
  rw [howner] at hmarkers
  refine ⟨{ confirmationsDeleted := first.confirmationsDeleted + second.confirmationsDeleted,
            multisigTxsDeleted := first.multisigTxsDeleted + second.multisigTxsDeleted,
            moduleTxsDeleted := first.moduleTxsDeleted + second.moduleTxsDeleted,
            safeStatusesDeleted := first.safeStatusesDeleted + second.safeStatusesDeleted,
            internalTxsMarked := d.markers.count fun key _ => p.or q (d.markerOwner key) },
    { internalTxs := h₂.internalTxs.trans h₁.internalTxs
      confirmations := ?_
      multisigTxs := ?_
      moduleTxs := h₁.moduleTxs.trans h₂.moduleTxs fun _ => rfl
      safeStatuses := h₁.safeStatuses.trans h₂.safeStatuses fun _ => rfl
      markers := h₁.markers.trans (fun _ => rfl) hmarkers },
    ⟨rfl, rfl, rfl, rfl⟩, fun h => h₁.markers.count_or hmarkers fun key => h (d.markerOwner key)⟩
  · simp only [Owners.or, Bool.and_or_distrib_left]
    refine h₁.confirmations.trans h₂.confirmations fun {key c} hc => ?_
    cases hon : c.signature.isNone with
    | false => rw [Bool.false_and, Bool.false_and]
    | true => rw [h₁.confirmationOwner hc hon]
  · simp only [Owners.or, Bool.and_or_distrib_left]
    exact h₁.multisigTxs.trans h₂.multisigTxs fun _ => rfl

end Tables

end ChainIndex.Derived
