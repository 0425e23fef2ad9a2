import ChainIndex.Chain.Basic
import ChainIndex.Json.Value
import ChainIndex.Quantity

/-!
# Reading a node's answers

Each function reads one object of a node's answer and gives `none` when the object is malformed.
Quantities of 64 bits have to be well-formed; amounts of wei are rewritten in decimal where they can
be.  Indexes and the time keep the low bits of their quantity.
-/

namespace ChainIndex.Chain

/-- A quantity that may be `null`: `some none` when it is, `none` when it is malformed. -/
def quantity? : Json → Option (Option UInt64)
  | .null => some none
  | .str s => (Quantity.parse? s).map some
  | _ => none

/-- A quantity that has to be there. -/
def requiredQuantity? (v : Json) : Option UInt64 := v.str? >>= Quantity.parse?

def Block.decode? (v : Json) : Option Block := do
  let number ← requiredQuantity? (v.get "number")
  let hash ← (v.get "hash").str?
  let parentHash ← (v.get "parentHash").str?
  let timestamp ← requiredQuantity? (v.get "timestamp")
  return { number, hash, parentHash, timestamp := timestamp.toInt64 }

def Transaction.decode? (v : Json) : Option Transaction := do
  let hash ← (v.get "hash").str?
  let blockNumber ← quantity? (v.get "blockNumber")
  let transactionIndex ← quantity? (v.get "transactionIndex")
  let sender ← (v.get "from").str?
  let gas ← quantity? (v.get "gas")
  let nonce ← quantity? (v.get "nonce")
  return {
    hash
    blockHash := (v.get "blockHash").str?
    blockNumber
    transactionIndex := transactionIndex.map UInt64.toUInt32
    sender
    recipient := (v.get "to").str?
    value := Quantity.toDecimal ((v.get "value").str?.getD "0x0")
    gas := gas.getD 0
    gasPrice := (v.get "gasPrice").str?.map Quantity.toDecimal
    nonce := nonce.getD 0
    input := (v.get "input").str?.getD "0x"
  }

/-- Reads a log.  Topics that are no strings are left out. -/
def Log.decode? (v : Json) : Option Log := do
  let address ← (v.get "address").str?
  let topics ← (v.get "topics").arr?
  let blockNumber ← requiredQuantity? (v.get "blockNumber")
  let blockHash ← (v.get "blockHash").str?
  let txHash ← (v.get "transactionHash").str?
  let logIndex ← quantity? (v.get "logIndex")
  return {
    address
    topics := topics.filterMap Json.str?
    data := (v.get "data").str?.getD "0x"
    blockNumber
    blockHash
    txHash
    logIndex := (logIndex.getD 0).toUInt32
    removed := (v.get "removed").bool?.getD false
  }

/-- Reads a receipt.  One malformed log spoils it; without an array of logs it has none. -/
def Receipt.decode? (v : Json) : Option Receipt := do
  let logs ← match (v.get "logs").arr? with
    | some items => items.mapM Log.decode?
    | none => some []
  let transactionHash ← (v.get "transactionHash").str?
  let blockNumber ← quantity? (v.get "blockNumber")
  let gasUsed ← quantity? (v.get "gasUsed")
  let status ← quantity? (v.get "status")
  return {
    transactionHash
    blockHash := (v.get "blockHash").str?
    blockNumber
    gasUsed := gasUsed.getD 0
    effectiveGasPrice := (v.get "effectiveGasPrice").str?.map Quantity.toDecimal
    status
    logs
  }

/-- The text of a position in the call tree: its integers in decimal with commas between them. -/
def traceAddressText (path : List UInt64) : String :=
  ",".intercalate (path.map fun n => toString n.toNat)

/-- The kind of a frame: its call type if it is a call, otherwise the type of the frame. -/
def callType? (v : Json) : Option String :=
  let kind := (v.get "type").str?.getD "call"
  if kind = "call" then ((v.get "action").get "callType").str? else some kind

/-- Reads a call frame.  There is none without a transaction. -/
def Trace.decode? (v : Json) : Option Trace := do
  let action := v.get "action"
  let txHash ← (v.get "transactionHash").str?
  let blockNumber ← (v.get "blockNumber").uint64?
  let sender ← (action.get "from").str? <|> (action.get "address").str?
  return {
    txHash
    blockNumber
    traceAddress := traceAddressText (((v.get "traceAddress").arr?.getD []).filterMap Json.uint64?)
    callType := callType? v
    sender
    recipient := (action.get "to").str? <|> ((v.get "result").get "address").str?
    value := Quantity.toDecimal
      (((action.get "value").str? <|> (action.get "balance").str?).getD "0x0")
    input := ((action.get "input").str? <|> (action.get "init").str?).getD "0x"
    error := (v.get "error").str?
  }

end ChainIndex.Chain
