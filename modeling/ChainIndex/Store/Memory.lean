import ChainIndex.Store.Session

/-!
# Tables in memory

The store that keeps its rows as they are.  Blocks and transactions stand under their hashes, exactly as
spelled.
-/

namespace ChainIndex

/-- The tables of a store in memory. -/
structure Memory where
  blocks : Table String Ledger.Block := ∅
  transactions : Table String Ledger.Transaction := ∅
  masterCopies : Table String Unit := ∅
  safeContracts : Table String Unit := ∅
  derived : Derived.Tables := {}

namespace Memory

/-- Stores a block unless there is one of its hash; the row becomes confirmed if it is to be. -/
def createBlock (m : Memory) (b : Chain.Block) (confirmed : Bool) : Ledger.Block × Memory :=
  let row := (m.blocks.get? b.hash).getD (.ofChain b confirmed)
  let row := { row with confirmed := row.confirmed || confirmed }
  (row, { m with blocks := m.blocks.insert b.hash row })

def confirmBlocks (m : Memory) (upTo : UInt64) : Nat × Memory :=
  let (n, blocks) := m.blocks.updateWhere (fun _ b => !b.confirmed && b.number ≤ upTo)
    fun b => { b with confirmed := true }
  (n, { m with blocks })

/-- Stores a new transaction. -/
def addTransaction (m : Memory) (row : Ledger.Transaction) :
    Except Fault Ledger.Transaction × Memory :=
  if m.transactions.contains row.txHash then (.error (.duplicateTransaction row.txHash), m)
  else (.ok row, { m with transactions := m.transactions.insert row.txHash row })

def linkTransaction (m : Memory) (hash : String) (b : Ledger.Block) (r : Chain.Receipt) :
    Except Fault Ledger.Transaction × Memory :=
  match m.transactions.get? hash with
  | none => (.error (.transactionNotFound hash), m)
  | some row =>
    let row := row.link b r
    (.ok row, { m with transactions := m.transactions.insert hash row })

/-- The stored transactions with the given hashes that are linked to a block, one for each hash. -/
def getMined (m : Memory) (hashes : List String) : List Ledger.Transaction :=
  (hashes.filterMap m.transactions.get?).filter Ledger.Transaction.isMined

def access : (a : Access) → Memory → Except Fault a.Reply × Memory
  | .getBlock hash, m => (.ok (m.blocks.get? hash), m)
  | .createBlock b confirmed, m =>
    let (row, m) := m.createBlock b confirmed
    (.ok row, m)
  | .confirmBlocks upTo, m =>
    let (n, m) := m.confirmBlocks upTo
    (.ok n, m)
  | .getTransaction hash, m => (.ok (m.transactions.get? hash), m)
  | .getMined hashes, m => (.ok (m.getMined hashes), m)
  | .createTransaction t r b, m => m.addTransaction (.mined t r b)
  | .createPending t, m => m.addTransaction (.pending t)
  | .linkTransaction hash b r, m => m.linkTransaction hash b r
  | .insertInternal rows markers, m =>
    let (n, derived) := m.derived.insertInternal rows markers
    (.ok n, { m with derived })
  | .masterCopies, m => (.ok m.masterCopies.keys, m)
  | .safeContracts, m => (.ok m.safeContracts.keys, m)
  | .addMasterCopy a, m => (.ok (), { m with masterCopies := m.masterCopies.insert a () })
  | .addSafeContract a, m => (.ok (), { m with safeContracts := m.safeContracts.insert a () })
  | .putMultisigTx row, m => (.ok (), { m with derived := m.derived.putMultisigTx row })
  | .putConfirmation row, m => (.ok (), { m with derived := m.derived.putConfirmation row })
  | .putModuleTx row, m => (.ok (), { m with derived := m.derived.putModuleTx row })
  | .putSafeStatus row, m => (.ok (), { m with derived := m.derived.putSafeStatus row })
  | .pendingMarkers, m => (.ok m.derived.pendingMarkers, m)
  | .setProcessed key, m => (.ok (), { m with derived := m.derived.setProcessed key })
  | .counts, m => (.ok (m.derived.counts m.blocks.size m.transactions.size), m)

def invalidate (step : Derived.Invalidation) (scope : Derived.AddressScope) (m : Memory) :
    Nat × Memory :=
  let (n, derived) := m.derived.invalidate step scope
  (n, { m with derived })

/-- The operations of tables in memory. -/
def backend : Backend Memory where
  access := access
  invalidate := invalidate

end Memory

end ChainIndex
