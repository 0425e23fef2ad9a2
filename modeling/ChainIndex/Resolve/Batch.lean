import ChainIndex.Resolve.Single

/-!
# Resolving many hashes

Many hashes are resolved with few questions.  First everything is gathered from the node, and only when
nothing is missing is it stored, so that a hash that cannot be resolved leaves the store as it was.  The
rows come in the order of the hashes, one for each that differs in more than case and blanks.
-/

namespace ChainIndex.Resolve

open Text (canonical)

/-- The entry of a reply for each hash; an entry that the reply lacks is absent. -/
def entries {α : Type} : List String → List (Option α) → List (String × Option α)
  | [], _ => []
  | hash :: hashes, [] => (hash, none) :: entries hashes []
  | hash :: hashes, r :: rs => (hash, r) :: entries hashes rs

/-- A mined transaction with its receipt and the hash of the block that it names. -/
structure Found where
  transaction : Chain.Transaction
  receipt : Chain.Receipt
  blockHash : String

/-- All that the node told about some hashes. -/
structure Gathered where
  found : List Found
  /-- The blocks by the hashes they were asked for. -/
  blocks : List (String × Chain.Block)
  head : UInt64

def gatherReceipts (hashes : List String) : Attempt (List Chain.Receipt) := do
  let replies ← (Query.receipts hashes).send
  (entries hashes replies).mapM fun (hash, first) => do
    let (receipt, _) ← settleReceipt hash first
    return receipt

/-- Gathers some transactions, each with the hash of its block. -/
def gatherTransactions (hashes : List String) : Attempt (List (Chain.Transaction × String)) := do
  let replies ← (Query.transactions hashes).send
  (entries hashes replies).mapM fun (hash, first) => do
    let (t, blockHash) ← settleTransaction hash first
    return (t, canonical blockHash)

def gatherBlocks (hashes : List String) : Attempt (List (String × Chain.Block)) := do
  let replies ← (Query.blocks hashes).send
  (entries hashes replies).mapM fun (hash, first) => do
    let b ← settleBlock hash first
    return (hash, b)

/-- Gathers everything about some transactions, and the head last. -/
def gather (hashes : List String) : Attempt Gathered := do
  let receipts ← gatherReceipts hashes
  let transactions ← gatherTransactions hashes
  let blocks ← gatherBlocks (transactions.map Prod.snd).eraseDups
  let head ← Query.head.send
  let found := List.zipWith (fun (t, blockHash) receipt => { transaction := t, receipt, blockHash })
    transactions receipts
  return { found, blocks, head }

/-- Stores what was found, each block once before its first transaction.  `stored` holds the blocks
stored so far by the hashes they were asked for. -/
def storeFound (policy : ConfirmationPolicy) (g : Gathered) :
    List (String × Ledger.Block) → List Found → Attempt (List Ledger.Transaction)
  | _, [] => pure []
  | stored, f :: rest => do
    match stored.lookup f.blockHash with
    | some b =>
      let row ← createOrLink f.transaction f.receipt b
      let rows ← storeFound policy g stored rest
      return row :: rows
    | none =>
      match g.blocks.lookup f.blockHash with
      | none => throw (.blockNotFound f.blockHash)
      | some found =>
        let b ← storeBlock policy g.head found
        let row ← createOrLink f.transaction f.receipt b
        let rows ← storeFound policy g ((f.blockHash, b) :: stored) rest
        return row :: rows

def fetch (policy : ConfirmationPolicy) (hashes : List String) : Attempt (List Ledger.Transaction) := do
  let g ← gather hashes
  storeFound policy g [] g.found

/-- The last of the rows whose hash is the given one in its canonical form. -/
def rowOf? (rows : List Ledger.Transaction) (hash : String) : Option Ledger.Transaction :=
  rows.reverse.find? fun row => canonical row.txHash == hash

def rowsOf (rows : List Ledger.Transaction) (hashes : List String) :
    Attempt (List Ledger.Transaction) :=
  hashes.mapM fun hash =>
    match rowOf? rows hash with
    | some row => pure row
    | none => throw (.transactionNotFound hash)

/-- The stored transactions of some hashes, linked to their blocks. -/
def transactions (policy : ConfirmationPolicy) (hashes : List String) :
    Attempt (List Ledger.Transaction) := do
  let distinct := (hashes.map canonical).eraseDups
  if distinct.isEmpty then return []
  let known ← (Access.getMined distinct).perform
  let missing := distinct.filter fun hash => (rowOf? known hash).isNone
  if missing.isEmpty then
    rowsOf known distinct
  else
    let fetched ← fetch policy missing
    rowsOf (known ++ fetched) distinct

end ChainIndex.Resolve
