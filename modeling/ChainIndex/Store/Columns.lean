import ChainIndex.Derived.Record
import ChainIndex.Json.Printer
import ChainIndex.Store.Relational

/-!
# The columns of a database

What the tables of a database hold, column by column.  `Relational.rowsOf?` lists the rows of a table
under their column names.
-/

namespace ChainIndex.Relational

open Derived Json

/-- The content of a column. -/
inductive Cell where
  | null
  | integer (n : Int64)
  | text (s : String)

/-- The content of a column as JSON. -/
def Cell.toJson : Cell → Json
  | .null => .null
  | .integer n => ofInt64 n
  | .text s => .str s

/-- The columns of a row, by name. -/
abbrev Cells := List (String × Cell)

def word (n : UInt64) : Cell := .integer (wordColumn n)

/-- The cell of a truth value. -/
def flag (b : Bool) : Cell := .integer (if b then 1 else 0)

def optional {α : Type} (cell : α → Cell) : Option α → Cell
  | none => .null
  | some a => cell a

def document (v : Json) : Cell := .text v.compact

/-- The columns of a frame's place. -/
def keyCells (key : FrameKey) : Cells :=
  [("tx_hash", .text key.txHash), ("trace_address", .text key.traceAddress)]

def BlockRow.cells (row : BlockRow) : Cells := [
  ("block_hash", .text row.blockHash), ("number", .integer row.number),
  ("parent_hash", .text row.parentHash), ("timestamp", .integer row.timestamp),
  ("confirmed", flag row.confirmed)]

def TransactionRow.cells (row : TransactionRow) : Cells := [
  ("tx_hash", .text row.txHash), ("block_hash", optional .text row.blockHash),
  ("block_number", optional .integer row.blockNumber),
  ("transaction_index", optional .integer row.transactionIndex),
  ("from_address", .text row.sender), ("to_address", optional .text row.recipient),
  ("value", .text row.value), ("gas", .integer row.gas), ("gas_price", optional .text row.gasPrice),
  ("nonce", .integer row.nonce), ("data", .text row.data),
  ("gas_used", optional .integer row.gasUsed), ("status", optional .integer row.status),
  ("logs_json", document row.logs)]

/-- The columns of an internal transaction. -/
def internalTxCells (t : InternalTx) : Cells := keyCells t.key ++ [
  ("block_number", word t.blockNumber), ("from_address", .text t.sender),
  ("to_address", optional .text t.recipient), ("value", .text t.value),
  ("call_type", optional .text t.callType), ("data", .text t.data)]

def markerCells (m : Marker) : Cells := keyCells m.key ++ [
  ("selector", .text m.selector), ("processed", flag m.processed)]

/-- The columns of a multisig transaction. -/
def multisigTxCells (t : MultisigTx) : Cells := [
  ("safe_tx_hash", .text t.safeTxHash), ("safe", .text t.safe),
  ("ethereum_tx", optional .text t.ethereumTx), ("nonce", word t.nonce)]

def confirmationCells (c : Confirmation) : Cells := [
  ("multisig_transaction_hash", .text c.multisigHash), ("owner", .text c.owner),
  ("ethereum_tx", optional .text c.ethereumTx), ("signature", optional .text c.signature)]

/-- The columns of a module transaction. -/
def moduleTxCells (t : ModuleTx) : Cells := keyCells t.internalTx ++ [
  ("safe", .text t.safe), ("module", .text t.module), ("to_address", .text t.recipient),
  ("value", .text t.value), ("data", .text t.data)]

def safeStatusCells (s : SafeStatus) : Cells := keyCells s.internalTx ++ [
  ("address", .text s.address), ("nonce", word s.nonce),
  ("owners_json", document (ofStrings s.owners)), ("threshold", word s.threshold.toUInt64),
  ("master_copy", .text s.masterCopy)]

/-- The column of a tracked address. -/
def addressCells (address : String) : Cells := [("address", .text address)]

/-- The rows of a table, if there is a table of that name. -/
def rowsOf? (d : Relational) : String → Option (List Cells)
  | "blocks" => some (d.blocks.values.map BlockRow.cells)
  | "ethereum_txs" => some (d.transactions.values.map TransactionRow.cells)
  | "internal_txs" => some (d.derived.internalTxs.values.map internalTxCells)
  | "internal_txs_decoded" => some (d.derived.markers.values.map markerCells)
  | "multisig_txs" => some (d.derived.multisigTxs.values.map multisigTxCells)
  | "multisig_confirmations" => some (d.derived.confirmations.values.map confirmationCells)
  | "module_txs" => some (d.derived.moduleTxs.values.map moduleTxCells)
  | "safe_statuses" => some (d.derived.safeStatuses.values.map safeStatusCells)
  | "master_copies" => some (d.masterCopies.keys.map addressCells)
  | "safe_contracts" => some (d.safeContracts.keys.map addressCells)
  | _ => none

/-- The rows of a table as JSON objects, in the order of their texts. -/
def dump? (d : Relational) (table : String) : Option (List Json) :=
  (d.rowsOf? table).map fun rows =>
    let objects := rows.map fun cells => ofFields (cells.map fun c => (c.1, c.2.toJson))
    let keyed := objects.map fun o => (o.compact, o)
    (keyed.mergeSort fun a b => decide (a.1 ≤ b.1)).map Prod.snd

end ChainIndex.Relational
