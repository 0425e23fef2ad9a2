import ChainIndex.Chunks
import ChainIndex.Store.Row
import ChainIndex.Store.Session

/-!
# Tables of a database

The store that keeps its rows in a relational database.  Compared with tables in memory, numbers are
compared as signed integers, a transaction can only be linked to a block that is stored, and long lists
of hashes or addresses are worked off in statements of at most `maxParameters` of them.
-/

namespace ChainIndex

/-- The tables of a database. -/
structure Relational where
  blocks : Table String Relational.BlockRow := ∅
  transactions : Table String Relational.TransactionRow := ∅
  masterCopies : Table String Unit := ∅
  safeContracts : Table String Unit := ∅
  derived : Derived.Tables := {}

namespace Relational

open Derived (AddressScope Invalidation Tables)

/-- The most hashes or addresses in one statement. -/
def maxParameters : Nat := 500

/-- The fault of a row that refers to a block which is not stored. -/
def foreignKeyFault : Fault :=
  .storage "error returned from database: (code: 787) FOREIGN KEY constraint failed"

/-! ## Blocks and transactions -/

/-- Stores a block; a row that is there takes the higher of the two confirmations. -/
def createBlock (d : Relational) (b : Chain.Block) (confirmed : Bool) : Ledger.Block × Relational :=
  let row := match d.blocks.get? b.hash with
    | none => .encode b confirmed
    | some row => { row with confirmed := row.confirmed || confirmed }
  (row.decode, { d with blocks := d.blocks.insert b.hash row })

/-- Confirms the unconfirmed blocks up to a number, compared as a signed integer. -/
def confirmBlocks (d : Relational) (upTo : UInt64) : Nat × Relational :=
  let (n, blocks) := d.blocks.updateWhere
    (fun _ row => !row.confirmed && row.number ≤ wordColumn upTo)
    fun row => { row with confirmed := true }
  (n, { d with blocks })

def getTransaction (d : Relational) (hash : String) : Except Fault (Option Ledger.Transaction) :=
  match d.transactions.get? hash with
  | none => .ok none
  | some row => row.decode.map some

/-- Whether the block that a transaction refers to is stored, if it refers to one. -/
def refersToBlock (d : Relational) (blockHash : Option String) : Bool :=
  blockHash.all d.blocks.contains

/-- Stores a new transaction. -/
def addTransaction (d : Relational) (t : Ledger.Transaction) :
    Except Fault Ledger.Transaction × Relational :=
  if d.transactions.contains t.txHash then (.error (.duplicateTransaction t.txHash), d)
  else if d.refersToBlock t.blockHash then
    (.ok t, { d with transactions := d.transactions.insert t.txHash (.encode t) })
  else (.error foreignKeyFault, d)

def linkTransaction (d : Relational) (hash : String) (b : Ledger.Block) (r : Chain.Receipt) :
    Except Fault Ledger.Transaction × Relational :=
  match d.getTransaction hash with
  | .error e => (.error e, d)
  | .ok none => (.error (.transactionNotFound hash), d)
  | .ok (some t) =>
    let t := t.link b r
    if d.refersToBlock t.blockHash then
      (.ok t, { d with transactions := d.transactions.modify hash fun row => row.updateLink t })
    else (.error foreignKeyFault, d)

/-- The linked transactions with one of the hashes of one statement, in the order of their hashes. -/
def minedAmong (d : Relational) (hashes : List String) : Except Fault (List Ledger.Transaction) :=
  let rows := d.transactions.filter fun hash row => row.blockHash.isSome && hashes.contains hash
  rows.values.mapM TransactionRow.decode

/-- The stored transactions with the given hashes that are linked to a block. -/
def getMined (d : Relational) (hashes : List String) : Except Fault (List Ledger.Transaction) :=
  ((chunks maxParameters hashes).mapM d.minedAmong).map List.flatten

def access : (a : Access) → Relational → Except Fault a.Reply × Relational
  | .getBlock hash, d => (.ok ((d.blocks.get? hash).map BlockRow.decode), d)
  | .createBlock b confirmed, d =>
    let (row, d) := d.createBlock b confirmed
    (.ok row, d)
  | .confirmBlocks upTo, d =>
    let (n, d) := d.confirmBlocks upTo
    (.ok n, d)
  | .getTransaction hash, d => (d.getTransaction hash, d)
  | .getMined hashes, d => (d.getMined hashes, d)
  | .createTransaction t r b, d => d.addTransaction (.mined t r b)
  | .createPending t, d => d.addTransaction (.pending t)
  | .linkTransaction hash b r, d => d.linkTransaction hash b r
  | .insertInternal rows markers, d =>
    let (n, derived) := d.derived.insertInternal rows markers
    (.ok n, { d with derived })
  | .masterCopies, d => (.ok d.masterCopies.keys, d)
  | .safeContracts, d => (.ok d.safeContracts.keys, d)
  | .addMasterCopy a, d => (.ok (), { d with masterCopies := d.masterCopies.insertIfNew a () })
  | .addSafeContract a, d => (.ok (), { d with safeContracts := d.safeContracts.insertIfNew a () })
  | .putMultisigTx row, d => (.ok (), { d with derived := d.derived.putMultisigTx row })
  | .putConfirmation row, d => (.ok (), { d with derived := d.derived.putConfirmation row })
  | .putModuleTx row, d => (.ok (), { d with derived := d.derived.putModuleTx row })
  | .putSafeStatus row, d => (.ok (), { d with derived := d.derived.putSafeStatus row })
  | .pendingMarkers, d => (.ok d.derived.pendingMarkers, d)
  | .setProcessed key, d => (.ok (), { d with derived := d.derived.setProcessed key })
  | .counts, d => (.ok (d.derived.counts d.blocks.size d.transactions.size), d)

/-! ## Invalidation -/

/-- Something that changes the derived tables and counts the rows it touches. -/
abbrev Statement := Tables → Nat × Tables

/-- Runs statements one after the other and adds their counts up. -/
def runAll : List Statement → Statement
  | [], d => (0, d)
  | s :: rest, d =>
    let (n, d) := s d
    let (m, d) := runAll rest d
    (n + m, d)

/-- The statement that deletes confirmations without a signature, given which multisig transactions
they may belong to. -/
def deleteConfirmations (belongs : Tables → String → Bool) : Statement := fun d =>
  let (n, confirmations) := d.confirmations.deleteWhere
    fun _ c => c.signature.isNone && belongs d c.multisigHash
  (n, { d with confirmations })

/-- The statement that deletes executed multisig transactions of some safes. -/
def deleteMultisigTxs (chosen : String → Bool) : Statement := fun d =>
  let (n, multisigTxs) := d.multisigTxs.deleteWhere fun _ t => t.ethereumTx.isSome && chosen t.safe
  (n, { d with multisigTxs })

/-- The statement that deletes the module transactions of some safes. -/
def deleteModuleTxs (chosen : String → Bool) : Statement := fun d =>
  let (n, moduleTxs) := d.moduleTxs.deleteWhere fun _ t => chosen t.safe
  (n, { d with moduleTxs })

/-- The statement that deletes the states of some safes. -/
def deleteSafeStatuses (chosen : String → Bool) : Statement := fun d =>
  let (n, safeStatuses) := d.safeStatuses.deleteWhere fun _ s => chosen s.address
  (n, { d with safeStatuses })

def resetMarkers (chosen : Tables → Derived.FrameKey → Bool) : Statement := fun d =>
  let (n, markers) := d.markers.updateWhere (fun key _ => chosen d key)
    fun m => { m with processed := false }
  (n, { d with markers })

/-- Whether an address in small letters is among the addresses of a statement. -/
def among (addresses : List String) (address : String) : Bool :=
  addresses.contains (Text.lower address)

/-- Whether a multisig transaction of that hash is stored for a safe among some addresses. -/
def multisigAmong (addresses : List String) (d : Tables) (hash : String) : Bool :=
  (d.multisigTxs.get? hash).any fun t => among addresses t.safe

/-- Whether an internal transaction of that key is stored with a sender among some addresses. -/
def senderAmong (addresses : List String) (d : Tables) (key : Derived.FrameKey) : Bool :=
  (d.internalTxs.get? key).any fun t => among addresses t.sender

/-- The statement of a step for all addresses. -/
def forAll : Invalidation → Statement
  | .confirmations => deleteConfirmations fun _ _ => true
  | .multisigTxs => deleteMultisigTxs fun _ => true
  | .moduleTxs => deleteModuleTxs fun _ => true
  | .safeStatuses => deleteSafeStatuses fun _ => true
  | .markers => resetMarkers fun _ _ => true

def forSome (addresses : List String) : Invalidation → Statement
  | .confirmations => deleteConfirmations (multisigAmong addresses)
  | .multisigTxs => deleteMultisigTxs (among addresses)
  | .moduleTxs => deleteModuleTxs (among addresses)
  | .safeStatuses => deleteSafeStatuses (among addresses)
  | .markers => resetMarkers (senderAmong addresses)

/-- The statements of a step: one for all addresses, or one for each part of a list of addresses. -/
def statements (step : Invalidation) : AddressScope → List Statement
  | .all => [forAll step]
  | .only addresses => (chunks maxParameters addresses).map fun part => forSome part step

def invalidate (step : Invalidation) (scope : AddressScope) (d : Relational) : Nat × Relational :=
  let (n, derived) := runAll (statements step scope) d.derived
  (n, { d with derived })

/-- The operations of a database. -/
def backend : Backend Relational where
  access := access
  invalidate := invalidate

end Relational

end ChainIndex
