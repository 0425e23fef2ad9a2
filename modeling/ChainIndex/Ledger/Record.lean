import ChainIndex.Chain.Record
import ChainIndex.Ledger.Basic

/-!
# Ledger rows as JSON records
-/

namespace ChainIndex.Ledger

open Json

def Block.toJson (b : Block) : Json := .obj [
  ("number", ofUInt64 b.number), ("block_hash", .str b.blockHash),
  ("parent_hash", .str b.parentHash), ("timestamp", ofInt64 b.timestamp),
  ("confirmed", .bool b.confirmed)]

def Block.reader : Reader Block := .record do
  let number ← .required "number" .uint64
  let blockHash ← .required "block_hash" .text
  let parentHash ← .required "parent_hash" .text
  let timestamp ← .required "timestamp" .int64
  let confirmed ← .required "confirmed" .bool
  return { number, blockHash, parentHash, timestamp, confirmed }

def Transaction.toJson (t : Transaction) : Json := .obj [
  ("tx_hash", .str t.txHash), ("block_hash", ofOption .str t.blockHash),
  ("block_number", ofOption ofUInt64 t.blockNumber),
  ("transaction_index", ofOption ofUInt32 t.transactionIndex), ("from", .str t.sender),
  ("to", ofOption .str t.recipient), ("value", .str t.value), ("gas", ofUInt64 t.gas),
  ("gas_price", ofOption .str t.gasPrice), ("nonce", ofUInt64 t.nonce), ("data", .str t.data),
  ("gas_used", ofOption ofUInt64 t.gasUsed), ("status", ofOption ofUInt64 t.status),
  ("logs", ofList Chain.Log.toJson t.logs)]

def Transaction.reader : Reader Transaction := .record do
  let txHash ← .required "tx_hash" .text
  let blockHash ← .optional "block_hash" .text
  let blockNumber ← .optional "block_number" .uint64
  let transactionIndex ← .optional "transaction_index" .uint32
  let sender ← .required "from" .text
  let recipient ← .optional "to" .text
  let value ← .required "value" .text
  let gas ← .required "gas" .uint64
  let gasPrice ← .optional "gas_price" .text
  let nonce ← .required "nonce" .uint64
  let data ← .required "data" .text
  let gasUsed ← .optional "gas_used" .uint64
  let status ← .optional "status" .uint64
  let logs ← .required "logs" (.list Chain.Log.reader)
  return { txHash, blockHash, blockNumber, transactionIndex, sender, recipient, value, gas,
           gasPrice, nonce, data, gasUsed, status, logs }

end ChainIndex.Ledger
