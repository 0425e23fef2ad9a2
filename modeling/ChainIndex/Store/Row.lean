import ChainIndex.Chain.Record
import ChainIndex.Fault
import ChainIndex.Ledger.Basic

/-!
# Rows of a database

A database column holds a text, a signed 64-bit integer or nothing.  Unsigned words are kept as the signed
integer with the same bits, truth values as 0 and 1, and lists as JSON documents.  `encode` and `decode`
go between the rows of blocks and transactions and what they stand for.
-/

namespace ChainIndex.Relational

open Json

/-- An unsigned word as the column with its bits. -/
def wordColumn (n : UInt64) : Int64 := n.toInt64

/-- The unsigned word with the bits of a column. -/
def columnWord (n : Int64) : UInt64 := n.toUInt64

structure BlockRow where
  blockHash : String
  number : Int64
  parentHash : String
  timestamp : Int64
  confirmed : Bool

def BlockRow.encode (b : Chain.Block) (confirmed : Bool) : BlockRow where
  blockHash := b.hash
  number := wordColumn b.number
  parentHash := b.parentHash
  timestamp := b.timestamp
  confirmed := confirmed

def BlockRow.decode (row : BlockRow) : Ledger.Block where
  number := columnWord row.number
  blockHash := row.blockHash
  parentHash := row.parentHash
  timestamp := row.timestamp
  confirmed := row.confirmed

structure TransactionRow where
  txHash : String
  blockHash : Option String
  blockNumber : Option Int64
  transactionIndex : Option Int64
  sender : String
  recipient : Option String
  value : String
  gas : Int64
  gasPrice : Option String
  nonce : Int64
  data : String
  gasUsed : Option Int64
  status : Option Int64
  logs : Json

namespace TransactionRow

def logsDocument (logs : List Chain.Log) : Json := ofList Chain.Log.toJson logs

def encode (t : Ledger.Transaction) : TransactionRow where
  txHash := t.txHash
  blockHash := t.blockHash
  blockNumber := t.blockNumber.map wordColumn
  transactionIndex := t.transactionIndex.map fun n => wordColumn n.toUInt64
  sender := t.sender
  recipient := t.recipient
  value := t.value
  gas := wordColumn t.gas
  gasPrice := t.gasPrice
  nonce := wordColumn t.nonce
  data := t.data
  gasUsed := t.gasUsed.map wordColumn
  status := t.status.map wordColumn
  logs := logsDocument t.logs

/-- The fault of a row whose logs cannot be read.  What the reader of the document says about it, which follows
in the message, is left out. -/
def unreadableLogs : Fault := .storage "decode logs_json"

def decode (row : TransactionRow) : Except Fault Ledger.Transaction :=
  match (Reader.list Chain.Log.reader).ofJson? row.logs with
  | none => .error unreadableLogs
  | some logs => .ok {
      txHash := row.txHash
      blockHash := row.blockHash
      blockNumber := row.blockNumber.map columnWord
      transactionIndex := row.transactionIndex.map fun n => (columnWord n).toUInt32
      sender := row.sender
      recipient := row.recipient
      value := row.value
      gas := columnWord row.gas
      gasPrice := row.gasPrice
      nonce := columnWord row.nonce
      data := row.data
      gasUsed := row.gasUsed.map columnWord
      status := row.status.map columnWord
      logs }

/-- The row with the columns that a link changes taken from a transaction. -/
def updateLink (row : TransactionRow) (t : Ledger.Transaction) : TransactionRow :=
  { row with
    blockHash := t.blockHash
    blockNumber := t.blockNumber.map wordColumn
    gasUsed := t.gasUsed.map wordColumn
    status := t.status.map wordColumn
    gasPrice := t.gasPrice
    logs := logsDocument t.logs }

end TransactionRow

end ChainIndex.Relational
