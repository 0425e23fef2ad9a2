import ChainIndex.Derived.Key
import ChainIndex.Derived.Scope
import ChainIndex.Table

/-!
# The derived tables

The tables that hold internal transactions, decoder markers and what the decoder made of them, with
the operations on them.  `invalidate` takes back what was decoded for the addresses of a scope, one
table at a time, so that the decoder makes it anew.
-/

namespace ChainIndex.Derived

structure Tables where
  internalTxs : Table FrameKey InternalTx := ∅
  markers : Table FrameKey Marker := ∅
  multisigTxs : Table String MultisigTx := ∅
  confirmations : Table ConfirmationKey Confirmation := ∅
  moduleTxs : Table FrameKey ModuleTx := ∅
  safeStatuses : Table FrameKey SafeStatus := ∅

/-- The five steps of an invalidation. -/
inductive Invalidation where
  /-- Deletes the confirmations without a signature given off the chain. -/
  | confirmations
  /-- Deletes the multisig transactions that were executed. -/
  | multisigTxs
  | moduleTxs
  | safeStatuses
  /-- Makes the decoder process the markers again. -/
  | markers
  deriving DecidableEq

namespace Tables

/-- Adds the internal transactions whose keys are new, and counts those. -/
def addInternalTxs (t : Table FrameKey InternalTx) : List InternalTx → Nat × Table FrameKey InternalTx
  | [] => (0, t)
  | row :: rest =>
    let (n, t') := addInternalTxs (t.insertIfNew row.key row) rest
    (if t.contains row.key then n else n + 1, t')

def addMarkers (t : Table FrameKey Marker) (markers : List Marker) : Table FrameKey Marker :=
  markers.foldl (fun t m => t.insertIfNew m.key m) t

/-- Adds internal transactions and markers, each kind by its own keys; existing rows stay as they are.
The count is that of the internal transactions. -/
def insertInternal (d : Tables) (rows : List InternalTx) (markers : List Marker) : Nat × Tables :=
  let (n, internalTxs) := addInternalTxs d.internalTxs rows
  (n, { d with internalTxs, markers := addMarkers d.markers markers })

/-- Stores a multisig transaction, in place of an older row. -/
def putMultisigTx (d : Tables) (t : MultisigTx) : Tables :=
  { d with multisigTxs := d.multisigTxs.insert t.safeTxHash t }

/-- Stores a confirmation, in place of an older row. -/
def putConfirmation (d : Tables) (c : Confirmation) : Tables :=
  { d with confirmations := d.confirmations.insert c.key c }

/-- Stores a module transaction, in place of an older row. -/
def putModuleTx (d : Tables) (t : ModuleTx) : Tables :=
  { d with moduleTxs := d.moduleTxs.insert t.internalTx t }

/-- Stores the state of a safe, in place of an older row. -/
def putSafeStatus (d : Tables) (s : SafeStatus) : Tables :=
  { d with safeStatuses := d.safeStatuses.insert s.internalTx s }

/-- The markers that wait for the decoder, in the order of their keys. -/
def pendingMarkers (d : Tables) : List Marker := d.markers.values.filter fun m => !m.processed

/-- Notes that the decoder has handled a marker, if there is one. -/
def setProcessed (d : Tables) (key : FrameKey) : Tables :=
  { d with markers := d.markers.modify key fun m => { m with processed := true } }

/-- The numbers of derived rows, beside given numbers of blocks and transactions. -/
def counts (d : Tables) (blocks transactions : Nat) : Counts where
  blocks := blocks
  transactions := transactions
  internalTxs := d.internalTxs.size
  decodedPending := d.markers.count fun _ m => !m.processed
  decodedProcessed := d.markers.count fun _ m => m.processed
  multisigTxs := d.multisigTxs.size
  confirmations := d.confirmations.size
  moduleTxs := d.moduleTxs.size
  safeStatuses := d.safeStatuses.size

/-! ## Invalidation -/

/-- Whether a confirmation is of a multisig transaction of a safe in the scope.  The scope of all
addresses has every confirmation, also one whose multisig transaction is unknown. -/
def confirmationInScope (d : Tables) (scope : AddressScope) (c : Confirmation) : Bool :=
  match scope with
  | .all => true
  | .only _ => (d.multisigTxs.get? c.multisigHash).any fun m => scope.contains m.safe

/-- Whether a marker belongs to an internal transaction sent from an address of the scope.  The scope
of all addresses has every marker, also one without an internal transaction. -/
def markerInScope (d : Tables) (scope : AddressScope) (key : FrameKey) : Bool :=
  match scope with
  | .all => true
  | .only _ => (d.internalTxs.get? key).any fun t => scope.contains t.sender

/-- One step of an invalidation, with the number of rows it deletes or marks. -/
def invalidate (d : Tables) (step : Invalidation) (scope : AddressScope) : Nat × Tables :=
  match step with
  | .confirmations =>
    let (n, confirmations) :=
      d.confirmations.deleteWhere fun _ c => c.isOnchain && d.confirmationInScope scope c
    (n, { d with confirmations })
  | .multisigTxs =>
    let (n, multisigTxs) :=
      d.multisigTxs.deleteWhere fun _ t => t.ethereumTx.isSome && scope.contains t.safe
    (n, { d with multisigTxs })
  | .moduleTxs =>
    let (n, moduleTxs) := d.moduleTxs.deleteWhere fun _ t => scope.contains t.safe
    (n, { d with moduleTxs })
  | .safeStatuses =>
    let (n, safeStatuses) := d.safeStatuses.deleteWhere fun _ s => scope.contains s.address
    (n, { d with safeStatuses })
  | .markers =>
    let (n, markers) := d.markers.updateWhere (fun key _ => d.markerInScope scope key)
      fun m => { m with processed := false }
    (n, { d with markers })

end Tables

end ChainIndex.Derived
