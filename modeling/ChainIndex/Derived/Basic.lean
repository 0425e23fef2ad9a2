/-!
# Derived records

Internal transactions with their decoder markers, and what the decoder makes of them: multisig
transactions and their confirmations, module transactions, and the states of a safe.
-/

namespace ChainIndex.Derived

/-- The place of an internal transaction: its transaction and its position in the call tree. -/
structure FrameKey where
  txHash : String
  traceAddress : String
  deriving DecidableEq

/-- A stored frame, or an event log in its place. -/
structure InternalTx where
  key : FrameKey
  blockNumber : UInt64
  sender : String
  recipient : Option String
  value : String
  callType : Option String
  data : String
  deriving DecidableEq

/-- Tells the decoder that an internal transaction carries a call it understands.  An unprocessed
marker waits to be decoded. -/
structure Marker where
  key : FrameKey
  /-- The first four bytes of the input, or the first topic of an event. -/
  selector : String
  processed : Bool
  deriving DecidableEq

/-- A multisig transaction, proposed or executed. -/
structure MultisigTx where
  safeTxHash : String
  safe : String
  /-- The transaction that executed it, if one did. -/
  ethereumTx : Option String
  nonce : UInt64
  deriving DecidableEq

/-- The place of a confirmation: the multisig transaction and the owner who confirmed it. -/
structure ConfirmationKey where
  multisigHash : String
  owner : String
  deriving DecidableEq

/-- An owner's confirmation of a multisig transaction. -/
structure Confirmation where
  multisigHash : String
  owner : String
  ethereumTx : Option String
  /-- The signature given off the chain, if one was. -/
  signature : Option String
  deriving DecidableEq

namespace Confirmation

def key (c : Confirmation) : ConfirmationKey := ⟨c.multisigHash, c.owner⟩

/-- Whether the confirmation is known from the chain alone. -/
def isOnchain (c : Confirmation) : Bool := c.signature.isNone

end Confirmation

/-- A transaction that a module of a safe executed. -/
structure ModuleTx where
  internalTx : FrameKey
  safe : String
  module : String
  recipient : String
  value : String
  data : String
  deriving DecidableEq

/-- The state of a safe after an internal transaction. -/
structure SafeStatus where
  internalTx : FrameKey
  address : String
  nonce : UInt64
  owners : List String
  threshold : UInt32
  masterCopy : String
  deriving DecidableEq

/-! ## Counts -/

/-- What one invalidation did: the rows removed of each kind, and the markers in its scope. -/
structure Summary where
  confirmationsDeleted : Nat := 0
  multisigTxsDeleted : Nat := 0
  moduleTxsDeleted : Nat := 0
  safeStatusesDeleted : Nat := 0
  internalTxsMarked : Nat := 0
  deriving DecidableEq

/-- Whether an invalidation found nothing to do. -/
def Summary.isEmpty (s : Summary) : Bool := s = {}

/-- The number of rows of each kind. -/
structure Counts where
  blocks : Nat := 0
  transactions : Nat := 0
  internalTxs : Nat := 0
  decodedPending : Nat := 0
  decodedProcessed : Nat := 0
  multisigTxs : Nat := 0
  confirmations : Nat := 0
  moduleTxs : Nat := 0
  safeStatuses : Nat := 0
  deriving DecidableEq

end ChainIndex.Derived
