/-!
# Confirmation by depth

A block counts as final once enough blocks have been built on top of it.  `isConfirmed` says so of one
block, `tip?` gives the highest number that is final.
-/

namespace ChainIndex

/-- How many blocks have to be built on a block before it is final. -/
structure ConfirmationPolicy where
  reorgDepth : UInt64
  deriving DecidableEq

namespace ConfirmationPolicy

/-- How far a block lies below the head; nothing for a block above it. -/
def depthBelow (number head : UInt64) : UInt64 := if number ≤ head then head - number else 0

/-- Whether a block is final when the chain has the given head. -/
def isConfirmed (p : ConfirmationPolicy) (number head : UInt64) : Bool :=
  p.reorgDepth ≤ depthBelow number head

/-- The highest final number, if the chain is long enough. -/
def tip? (p : ConfirmationPolicy) (head : UInt64) : Option UInt64 :=
  if p.reorgDepth ≤ head then some (head - p.reorgDepth) else none

end ConfirmationPolicy

end ChainIndex
