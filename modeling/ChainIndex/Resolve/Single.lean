import ChainIndex.Confirmation
import ChainIndex.Resolve.Retry
import ChainIndex.Text.Blank

/-!
# Resolving a hash

A hash is resolved into a stored row: the row that is there, or else what the node reports, which is
stored first.  A transaction that was stored while pending is linked to its block in place, and so is
one that another writer stores at the same time.
-/

namespace ChainIndex.Resolve

open Text (canonical)

/-- Stores a block, confirmed if it is deep enough below the head. -/
def storeBlock (policy : ConfirmationPolicy) (head : UInt64) (b : Chain.Block) : Attempt Ledger.Block :=
  (Access.createBlock b (policy.isConfirmed b.number head)).perform

/-- The stored block of a hash, fetched if it is missing. -/
def block (policy : ConfirmationPolicy) (hash : String) : Attempt Ledger.Block := do
  let hash := canonical hash
  match ← (Access.getBlock hash).perform with
  | some b => return b
  | none =>
    let head ← Query.head.send
    let first ← (Query.block hash).send
    let found ← settleBlock hash first
    storeBlock policy head found

/-- Confirms every stored block that is deep enough below the head, and counts those that were not
confirmed before. -/
def confirmBlocks (policy : ConfirmationPolicy) : Attempt Nat := do
  let head ← Query.head.send
  match policy.tip? head with
  | none => return 0
  | some tip => (Access.confirmBlocks tip).perform

/-- Stores a mined transaction; if another writer stored it first, links the stored row. -/
def createOrLink (t : Chain.Transaction) (r : Chain.Receipt) (b : Ledger.Block) :
    Attempt Ledger.Transaction :=
  tryCatch (Access.createTransaction t r b).perform fun fault =>
    if fault.isDuplicate then (Access.linkTransaction t.hash b r).perform else throw fault

/-- The mined receipt of a transaction with its stored block. -/
def receiptAndBlock (policy : ConfirmationPolicy) (hash : String) :
    Attempt (Chain.Receipt × Ledger.Block) := do
  let first ← (Query.receipt hash).send
  let (receipt, blockHash) ← settleReceipt hash first
  let b ← block policy blockHash
  return (receipt, b)

/-- The stored transaction of a hash, linked to its block. -/
def transaction (policy : ConfirmationPolicy) (hash : String) : Attempt Ledger.Transaction := do
  let hash := canonical hash
  match ← (Access.getTransaction hash).perform with
  | some row =>
    if row.isMined then return row
    let (receipt, b) ← receiptAndBlock policy hash
    (Access.linkTransaction hash b receipt).perform
  | none =>
    let (receipt, b) ← receiptAndBlock policy hash
    let first ← (Query.transaction hash).send
    let (found, _) ← settleTransaction hash first
    createOrLink found receipt b

end ChainIndex.Resolve
