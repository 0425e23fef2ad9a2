import ChainIndex.Derived.Basic
import ChainIndex.Derived.Scope
import ChainIndex.Json.Record

/-!
# Derived records as JSON records
-/

namespace ChainIndex.Derived

open Json

/-- A scope: its name, or the list of its addresses under its name. -/
def AddressScope.toJson : AddressScope → Json
  | .all => .str "All"
  | .only list => .obj [("Only", ofStrings list)]

/-- Reads a scope.  The list is taken as it stands. -/
def AddressScope.reader : Reader AddressScope :=
  .enumeration (fun name => if name = "All" then some .all else none) fun
    | "Only" => some fun depth d => (Reader.list .text depth d).map .only
    | _ => none

/-- The record of a frame's place. -/
def FrameKey.toJson (k : FrameKey) : Json := .obj [
  ("tx_hash", .str k.txHash), ("trace_address", .str k.traceAddress)]

/-- Reads the record of a frame's place. -/
def FrameKey.reader : Reader FrameKey := .record do
  let txHash ← .required "tx_hash" .text
  let traceAddress ← .required "trace_address" .text
  return { txHash, traceAddress }

def InternalTx.toJson (t : InternalTx) : Json := .obj [
  ("key", t.key.toJson), ("block_number", ofUInt64 t.blockNumber), ("from", .str t.sender),
  ("to", ofOption .str t.recipient), ("value", .str t.value),
  ("call_type", ofOption .str t.callType), ("data", .str t.data)]

def InternalTx.reader : Reader InternalTx := .record do
  let key ← .required "key" FrameKey.reader
  let blockNumber ← .required "block_number" .uint64
  let sender ← .required "from" .text
  let recipient ← .optional "to" .text
  let value ← .required "value" .text
  let callType ← .optional "call_type" .text
  let data ← .required "data" .text
  return { key, blockNumber, sender, recipient, value, callType, data }

def Marker.toJson (m : Marker) : Json := .obj [
  ("key", m.key.toJson), ("selector", .str m.selector), ("processed", .bool m.processed)]

def Marker.reader : Reader Marker := .record do
  let key ← .required "key" FrameKey.reader
  let selector ← .required "selector" .text
  let processed ← .required "processed" .bool
  return { key, selector, processed }

def MultisigTx.toJson (t : MultisigTx) : Json := .obj [
  ("safe_tx_hash", .str t.safeTxHash), ("safe", .str t.safe),
  ("ethereum_tx", ofOption .str t.ethereumTx), ("nonce", ofUInt64 t.nonce)]

def MultisigTx.reader : Reader MultisigTx := .record do
  let safeTxHash ← .required "safe_tx_hash" .text
  let safe ← .required "safe" .text
  let ethereumTx ← .optional "ethereum_tx" .text
  let nonce ← .required "nonce" .uint64
  return { safeTxHash, safe, ethereumTx, nonce }

def Confirmation.toJson (c : Confirmation) : Json := .obj [
  ("multisig_transaction_hash", .str c.multisigHash), ("owner", .str c.owner),
  ("ethereum_tx", ofOption .str c.ethereumTx), ("signature", ofOption .str c.signature)]

def Confirmation.reader : Reader Confirmation := .record do
  let multisigHash ← .required "multisig_transaction_hash" .text
  let owner ← .required "owner" .text
  let ethereumTx ← .optional "ethereum_tx" .text
  let signature ← .optional "signature" .text
  return { multisigHash, owner, ethereumTx, signature }

def ModuleTx.toJson (t : ModuleTx) : Json := .obj [
  ("internal_tx", t.internalTx.toJson), ("safe", .str t.safe), ("module", .str t.module),
  ("to", .str t.recipient), ("value", .str t.value), ("data", .str t.data)]

def ModuleTx.reader : Reader ModuleTx := .record do
  let internalTx ← .required "internal_tx" FrameKey.reader
  let safe ← .required "safe" .text
  let module ← .required "module" .text
  let recipient ← .required "to" .text
  let value ← .required "value" .text
  let data ← .required "data" .text
  return { internalTx, safe, module, recipient, value, data }

def SafeStatus.toJson (s : SafeStatus) : Json := .obj [
  ("internal_tx", s.internalTx.toJson), ("address", .str s.address), ("nonce", ofUInt64 s.nonce),
  ("owners", ofStrings s.owners), ("threshold", ofUInt32 s.threshold),
  ("master_copy", .str s.masterCopy)]

/-- Reads the record of a safe's state. -/
def SafeStatus.reader : Reader SafeStatus := .record do
  let internalTx ← .required "internal_tx" FrameKey.reader
  let address ← .required "address" .text
  let nonce ← .required "nonce" .uint64
  let owners ← .required "owners" (.list .text)
  let threshold ← .required "threshold" .uint32
  let masterCopy ← .required "master_copy" .text
  return { internalTx, address, nonce, owners, threshold, masterCopy }

/-- The record of what an invalidation did. -/
def Summary.toJson (s : Summary) : Json := .obj [
  ("confirmations_deleted", ofNat s.confirmationsDeleted),
  ("multisig_txs_deleted", ofNat s.multisigTxsDeleted),
  ("module_txs_deleted", ofNat s.moduleTxsDeleted),
  ("safe_statuses_deleted", ofNat s.safeStatusesDeleted),
  ("internal_txs_marked", ofNat s.internalTxsMarked)]

/-- Reads the record of what an invalidation did. -/
def Summary.reader : Reader Summary := .record do
  let confirmationsDeleted ← .required "confirmations_deleted" .count
  let multisigTxsDeleted ← .required "multisig_txs_deleted" .count
  let moduleTxsDeleted ← .required "module_txs_deleted" .count
  let safeStatusesDeleted ← .required "safe_statuses_deleted" .count
  let internalTxsMarked ← .required "internal_txs_marked" .count
  return { confirmationsDeleted, multisigTxsDeleted, moduleTxsDeleted, safeStatusesDeleted,
           internalTxsMarked }

/-- The record of the numbers of rows. -/
def Counts.toJson (c : Counts) : Json := .obj [
  ("blocks", ofNat c.blocks), ("transactions", ofNat c.transactions),
  ("internal_txs", ofNat c.internalTxs), ("decoded_pending", ofNat c.decodedPending),
  ("decoded_processed", ofNat c.decodedProcessed), ("multisig_txs", ofNat c.multisigTxs),
  ("confirmations", ofNat c.confirmations), ("module_txs", ofNat c.moduleTxs),
  ("safe_statuses", ofNat c.safeStatuses)]

/-- Reads the record of the numbers of rows. -/
def Counts.reader : Reader Counts := .record do
  let blocks ← .required "blocks" .count
  let transactions ← .required "transactions" .count
  let internalTxs ← .required "internal_txs" .count
  let decodedPending ← .required "decoded_pending" .count
  let decodedProcessed ← .required "decoded_processed" .count
  let multisigTxs ← .required "multisig_txs" .count
  let confirmations ← .required "confirmations" .count
  let moduleTxs ← .required "module_txs" .count
  let safeStatuses ← .required "safe_statuses" .count
  return { blocks, transactions, internalTxs, decodedPending, decodedProcessed, multisigTxs,
           confirmations, moduleTxs, safeStatuses }

end ChainIndex.Derived
