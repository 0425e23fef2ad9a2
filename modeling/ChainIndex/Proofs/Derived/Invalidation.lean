import ChainIndex.Derived.Tables
import ChainIndex.Proofs.Derived.Scope
import ChainIndex.Proofs.Table.Selection

/-!
# What an invalidation takes back

`takeBack` is a step of an invalidation, given the owners whose rows it touches.  A step for one kind of
owners or another is a step for the first and then one for the others (`takeBack_or`).

`Invalidated` says what the five steps do together, told by the tables before the first of them.  A
confirmation belongs to the safe of its multisig transaction, which the second step may delete: the first
step looks it up while it is there.
-/

namespace ChainIndex.Derived

/-- The steps of an invalidation one after the other, given what each of them does. -/
def stepsInTurn {δ : Type} (step : Invalidation → δ → Nat × δ) (t : δ) : Summary × δ :=
  let (confirmationsDeleted, t) := step .confirmations t
  let (multisigTxsDeleted, t) := step .multisigTxs t
  let (moduleTxsDeleted, t) := step .moduleTxs t
  let (safeStatusesDeleted, t) := step .safeStatuses t
  let (internalTxsMarked, t) := step .markers t
  ({ confirmationsDeleted, multisigTxsDeleted, moduleTxsDeleted, safeStatusesDeleted, internalTxsMarked },
    t)

namespace Tables

/-- The safe whose multisig transaction a confirmation is of, if that is stored. -/
def confirmationOwner (d : Tables) (c : Confirmation) : Option String :=
  (d.multisigTxs.get? c.multisigHash).map MultisigTx.safe

/-- The sender of the internal transaction of a marker, if that is stored. -/
def markerOwner (d : Tables) (key : FrameKey) : Option String :=
  (d.internalTxs.get? key).map InternalTx.sender

/-! ## Steps -/

/-- A step of an invalidation, given the owners whose rows it touches. -/
def takeBack (owners : Owners) (step : Invalidation) (d : Tables) : Nat × Tables :=
  match step with
  | .confirmations =>
    let (n, confirmations) :=
      d.confirmations.deleteWhere fun _ c => c.signature.isNone && owners (d.confirmationOwner c)
    (n, { d with confirmations })
  | .multisigTxs =>
    let (n, multisigTxs) :=
      d.multisigTxs.deleteWhere fun _ t => t.ethereumTx.isSome && owners (some t.safe)
    (n, { d with multisigTxs })
  | .moduleTxs =>
    let (n, moduleTxs) := d.moduleTxs.deleteWhere fun _ t => owners (some t.safe)
    (n, { d with moduleTxs })
  | .safeStatuses =>
    let (n, safeStatuses) := d.safeStatuses.deleteWhere fun _ s => owners (some s.address)
    (n, { d with safeStatuses })
  | .markers =>
    let (n, markers) := d.markers.updateWhere (fun key _ => owners (d.markerOwner key))
      fun m => { m with processed := false }
    (n, { d with markers })

theorem confirmationInScope_eq_owners (d : Tables) (scope : AddressScope) (c : Confirmation) :
    d.confirmationInScope scope c = scope.owners (d.confirmationOwner c) := by
  cases scope with
  | all => rfl
  | only list => exact Option.any_map.symm

theorem markerInScope_eq_owners (d : Tables) (scope : AddressScope) (key : FrameKey) :
    d.markerInScope scope key = scope.owners (d.markerOwner key) := by
  cases scope with
  | all => rfl
  | only list => exact Option.any_map.symm

theorem invalidate_eq_takeBack (d : Tables) (step : Invalidation) (scope : AddressScope) :
    d.invalidate step scope = takeBack scope.owners step d := by
  unfold invalidate takeBack
  simp only [confirmationInScope_eq_owners, markerInScope_eq_owners, AddressScope.contains_eq_owners]
  cases step <;> rfl

theorem takeBack_nobody (step : Invalidation) (d : Tables) : takeBack (fun _ => false) step d = (0, d) := by
  unfold takeBack
  cases step <;> simp only [Bool.and_false]
  case markers => rw [Table.updateWhere_none fun _ _ => rfl]
  all_goals rw [Table.deleteWhere_none fun _ _ => rfl]

/-- A step may be done for some owners first and for others then. -/
theorem takeBack_or {p q : Owners} (h : ∀ owner, p owner = true → q owner = false) (step : Invalidation)
    (d : Tables) : takeBack (fun owner => p owner || q owner) step d =
      ((takeBack p step d).1 + (takeBack q step (takeBack p step d).2).1,
        (takeBack q step (takeBack p step d).2).2) := by
  unfold takeBack
  cases step with
  | markers =>
    -- A marker whose owner were of both kinds would count twice.
    have hkeys : ∀ key, p (d.markerOwner key) = true → q (d.markerOwner key) = false :=
      fun key => h (d.markerOwner key)
    simp only [Table.updateWhere_or _ hkeys]
    rfl
  | confirmations =>
    simp only [Bool.and_or_distrib_left, Table.deleteWhere_or]
    rfl
  | _ => simp only [Bool.and_or_distrib_left, Table.deleteWhere_or]

/-! ## All steps -/

/-- What the invalidation of the rows of some owners makes of derived tables, with what it reports. -/
structure Invalidated (owners : Owners) (d : Tables) (summary : Summary) (d' : Tables) : Prop where
  internalTxs : d'.internalTxs = d.internalTxs
  /-- Confirmations without a signature go, if their multisig transaction belonged to an owner. -/
  confirmations : d.confirmations.Removed
    (fun _ c => c.signature.isNone && owners (d.confirmationOwner c))
    summary.confirmationsDeleted d'.confirmations
  /-- Executed multisig transactions go. -/
  multisigTxs : d.multisigTxs.Removed (fun _ t => t.ethereumTx.isSome && owners (some t.safe))
    summary.multisigTxsDeleted d'.multisigTxs
  moduleTxs : d.moduleTxs.Removed (fun _ t => owners (some t.safe)) summary.moduleTxsDeleted d'.moduleTxs
  safeStatuses : d.safeStatuses.Removed (fun _ s => owners (some s.address))
    summary.safeStatusesDeleted d'.safeStatuses
  /-- Markers of internal transactions that an owner sent wait for the decoder again. -/
  markers : d.markers.Changed (fun key _ => owners (d.markerOwner key))
    (fun m => { m with processed := false }) summary.internalTxsMarked d'.markers

/-- The five steps take back the rows of the owners: each finds what it reads as it was at first. -/
theorem invalidated_takeBack (owners : Owners) (d : Tables) :
    d.Invalidated owners (stepsInTurn (takeBack owners) d).1 (stepsInTurn (takeBack owners) d).2 where
  internalTxs := rfl
  confirmations := d.confirmations.removed_deleteWhere _
  multisigTxs := d.multisigTxs.removed_deleteWhere _
  moduleTxs := d.moduleTxs.removed_deleteWhere _
  safeStatuses := d.safeStatuses.removed_deleteWhere _
  markers := d.markers.changed_updateWhere _ _

end Tables

end ChainIndex.Derived
