import ChainIndex.Effect.Routine

/-!
# Reprocessing

Takes back what was decoded for some addresses, in one unit of work: either all steps of the invalidation
take effect or none does.  The first fault is the one that is reported, even if rolling back fails too.
-/

namespace ChainIndex.Reprocess

open Derived (AddressScope Invalidation Summary)

/-- The steps of an invalidation within the open unit of work. -/
def steps (scope : AddressScope) : Attempt Summary := do
  let confirmationsDeleted ← (Action.invalidate .confirmations scope).perform
  let multisigTxsDeleted ← (Action.invalidate .multisigTxs scope).perform
  let moduleTxsDeleted ← (Action.invalidate .moduleTxs scope).perform
  let safeStatusesDeleted ← (Action.invalidate .safeStatuses scope).perform
  let internalTxsMarked ← (Action.invalidate .markers scope).perform
  return { confirmationsDeleted, multisigTxsDeleted, moduleTxsDeleted, safeStatusesDeleted,
           internalTxsMarked }

/-- Invalidates the addresses of a scope. -/
def scope (s : AddressScope) : Attempt Summary := do
  Action.beginUnit.perform
  match ← ExceptT.lift (steps s).run with
  | .ok summary =>
    Action.commit.perform
    return summary
  | .error fault =>
    let _ ← ExceptT.lift Action.rollback.perform.run
    throw fault

/-- Invalidates some addresses; without any there is nothing to do. -/
def addresses (list : List String) : Attempt Summary :=
  if list.isEmpty then pure {} else scope (.ofAddresses list)

/-- Invalidates every address. -/
def all : Attempt Summary := scope .all

end ChainIndex.Reprocess
