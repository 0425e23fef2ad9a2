import ChainIndex.Chain.Basic
import ChainIndex.Json.Record

/-!
# Chain data as JSON records

How blocks, transactions, logs, receipts, frames and elements are written as JSON records and read
back.  Fields are written in the order of the structures.
-/

namespace ChainIndex.Chain

open Json

def Block.toJson (b : Block) : Json := .obj [
  ("number", ofUInt64 b.number), ("hash", .str b.hash), ("parent_hash", .str b.parentHash),
  ("timestamp", ofInt64 b.timestamp)]

def Block.reader : Reader Block := .record do
  let number ← .required "number" .uint64
  let hash ← .required "hash" .text
  let parentHash ← .required "parent_hash" .text
  let timestamp ← .required "timestamp" .int64
  return { number, hash, parentHash, timestamp }

def Transaction.toJson (t : Transaction) : Json := .obj [
  ("hash", .str t.hash), ("block_hash", ofOption .str t.blockHash),
  ("block_number", ofOption ofUInt64 t.blockNumber),
  ("transaction_index", ofOption ofUInt32 t.transactionIndex), ("from", .str t.sender),
  ("to", ofOption .str t.recipient), ("value", .str t.value), ("gas", ofUInt64 t.gas),
  ("gas_price", ofOption .str t.gasPrice), ("nonce", ofUInt64 t.nonce), ("input", .str t.input)]

def Transaction.reader : Reader Transaction := .record do
  let hash ← .required "hash" .text
  let blockHash ← .optional "block_hash" .text
  let blockNumber ← .optional "block_number" .uint64
  let transactionIndex ← .optional "transaction_index" .uint32
  let sender ← .required "from" .text
  let recipient ← .optional "to" .text
  let value ← .required "value" .text
  let gas ← .required "gas" .uint64
  let gasPrice ← .optional "gas_price" .text
  let nonce ← .required "nonce" .uint64
  let input ← .required "input" .text
  return { hash, blockHash, blockNumber, transactionIndex, sender, recipient, value, gas, gasPrice,
           nonce, input }

def Log.toJson (l : Log) : Json := .obj [
  ("address", .str l.address), ("topics", ofStrings l.topics), ("data", .str l.data),
  ("block_number", ofUInt64 l.blockNumber), ("block_hash", .str l.blockHash),
  ("tx_hash", .str l.txHash), ("log_index", ofUInt32 l.logIndex), ("removed", .bool l.removed)]

/-- Reads the record of a log, which is not removed unless it says so. -/
def Log.reader : Reader Log := .record do
  let address ← .required "address" .text
  let topics ← .required "topics" (.list .text)
  let data ← .required "data" .text
  let blockNumber ← .required "block_number" .uint64
  let blockHash ← .required "block_hash" .text
  let txHash ← .required "tx_hash" .text
  let logIndex ← .required "log_index" .uint32
  let removed ← .defaulted "removed" false .bool
  return { address, topics, data, blockNumber, blockHash, txHash, logIndex, removed }

def Receipt.toJson (r : Receipt) : Json := .obj [
  ("transaction_hash", .str r.transactionHash), ("block_hash", ofOption .str r.blockHash),
  ("block_number", ofOption ofUInt64 r.blockNumber), ("gas_used", ofUInt64 r.gasUsed),
  ("effective_gas_price", ofOption .str r.effectiveGasPrice),
  ("status", ofOption ofUInt64 r.status), ("logs", ofList Log.toJson r.logs)]

def Receipt.reader : Reader Receipt := .record do
  let transactionHash ← .required "transaction_hash" .text
  let blockHash ← .optional "block_hash" .text
  let blockNumber ← .optional "block_number" .uint64
  let gasUsed ← .required "gas_used" .uint64
  let effectiveGasPrice ← .optional "effective_gas_price" .text
  let status ← .optional "status" .uint64
  let logs ← .defaulted "logs" [] (.list Log.reader)
  return { transactionHash, blockHash, blockNumber, gasUsed, effectiveGasPrice, status, logs }

/-- The record of a call frame. -/
def Trace.toJson (t : Trace) : Json := .obj [
  ("tx_hash", .str t.txHash), ("block_number", ofUInt64 t.blockNumber),
  ("trace_address", .str t.traceAddress), ("call_type", ofOption .str t.callType),
  ("from", .str t.sender), ("to", ofOption .str t.recipient), ("value", .str t.value),
  ("input", .str t.input), ("error", ofOption .str t.error)]

/-- Reads the record of a call frame. -/
def Trace.reader : Reader Trace := .record do
  let txHash ← .required "tx_hash" .text
  let blockNumber ← .required "block_number" .uint64
  let traceAddress ← .required "trace_address" .text
  let callType ← .optional "call_type" .text
  let sender ← .required "from" .text
  let recipient ← .optional "to" .text
  let value ← .required "value" .text
  let input ← .required "input" .text
  let error ← .optional "error" .text
  return { txHash, blockNumber, traceAddress, callType, sender, recipient, value, input, error }

/-- An element, under the name of its kind. -/
def Element.toJson : Element → Json
  | .trace t => .obj [("Trace", t.toJson)]
  | .log l => .obj [("Log", l.toJson)]

def Element.reader : Reader Element := .enumeration (fun _ => none) fun
  | "Trace" => some fun depth d => (Trace.reader depth d).map .trace
  | "Log" => some fun depth d => (Log.reader depth d).map .log
  | _ => none

end ChainIndex.Chain
