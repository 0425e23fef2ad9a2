import ChainIndex.Resolve.Batch

/-!
# Indexers

An `Indexer` finds the elements of a range of blocks that concern some addresses and stores them.  It
carries a state of its own that outlives faults; part of it is whether it is in exact mode, in which it
looks at the given addresses only.

`store` is what indexers have in common: the transactions of the elements are resolved first, so that
every stored row has a transaction.
-/

namespace ChainIndex

/-- A way to find and to store elements, with a state of type `ι`. -/
structure Indexer (ι : Type) where
  name : String
  /-- Whether the given addresses are looked at and no others. -/
  exact : ι → Bool
  setExact : Bool → ι → ι
  /-- The elements of the blocks from the first number up to, but not including, the second. -/
  find : List String → UInt64 → UInt64 → StateAttempt ι (List Chain.Element)
  /-- Stores elements and counts the new ones. -/
  process : List Chain.Element → StateAttempt ι Nat
  /-- The addresses to look at when none are given. -/
  tracked : StateAttempt ι (List String)

namespace Indexer

open Derived (InternalTx Marker)

/-- The first and the last block of a range that ends before its second bound; there are none in an
empty range. -/
def bounds? (first stop : UInt64) : Option (UInt64 × UInt64) :=
  if first < stop then some (first, stop - 1) else none

/-- The rows and markers that some elements are stored as. -/
structure Rows where
  rows : List InternalTx
  markers : List Marker

/-- Resolves the transactions of some rows and stores the rows with their markers. -/
def store (policy : ConfirmationPolicy) (r : Rows) : Attempt Nat := do
  if r.rows.isEmpty then return 0
  let _ ← Resolve.transactions policy (r.rows.map fun row => row.key.txHash)
  (Access.insertInternal r.rows r.markers).perform

end Indexer

end ChainIndex
