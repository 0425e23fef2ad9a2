import ChainIndex.Chain.Basic

/-!
# Stored blocks and transactions

The rows of the ledger.  A transaction is stored pending or linked to a block; `link` makes the second
of the first, and `Transaction.mined` builds a linked row at once.
-/

namespace ChainIndex.Ledger

structure Block where
  number : UInt64
  blockHash : String
  parentHash : String
  timestamp : Int64
  /-- Enough blocks have been built on this one to treat it as final. -/
  confirmed : Bool
  deriving DecidableEq

/-- The row of a block that the node reported. -/
def Block.ofChain (b : Chain.Block) (confirmed : Bool) : Block where
  number := b.number
  blockHash := b.hash
  parentHash := b.parentHash
  timestamp := b.timestamp
  confirmed := confirmed

structure Transaction where
  txHash : String
  /-- The block that the transaction is in; absent while it is pending. -/
  blockHash : Option String
  blockNumber : Option UInt64
  transactionIndex : Option UInt32
  sender : String
  recipient : Option String
  value : String
  gas : UInt64
  gasPrice : Option String
  nonce : UInt64
  data : String
  gasUsed : Option UInt64
  status : Option UInt64
  logs : List Chain.Log
  deriving DecidableEq

namespace Transaction

/-- The row of a transaction seen before it was mined. -/
def pending (t : Chain.Transaction) : Transaction where
  txHash := t.hash
  blockHash := none
  blockNumber := none
  transactionIndex := t.transactionIndex
  sender := t.sender
  recipient := t.recipient
  value := t.value
  gas := t.gas
  gasPrice := t.gasPrice
  nonce := t.nonce
  data := t.input
  gasUsed := none
  status := none
  logs := []

/-- Links a row to a block and takes over what the receipt says; the price paid replaces the price
offered. -/
def link (row : Transaction) (b : Block) (r : Chain.Receipt) : Transaction :=
  { row with
    blockHash := some b.blockHash
    blockNumber := some b.number
    gasUsed := some r.gasUsed
    status := r.status
    logs := r.logs
    gasPrice := r.effectiveGasPrice <|> row.gasPrice }

def mined (t : Chain.Transaction) (r : Chain.Receipt) (b : Block) : Transaction :=
  (pending t).link b r

/-- Whether the row is linked to a block. -/
def isMined (row : Transaction) : Bool := row.blockHash.isSome

end Transaction

end ChainIndex.Ledger
