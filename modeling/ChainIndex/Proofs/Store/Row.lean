import ChainIndex.Proofs.Json.Reading
import ChainIndex.Store.Row

/-!
# Rows stand for what they were made of

Decoding a row gives back the block or the transaction that was encoded, logs included
(`decode_encode`).  Changing the columns of a link in a row makes the row of the linked transaction
(`updateLink_encode`).
-/

namespace ChainIndex

/-! ## Logs -/

namespace Chain.Log

open Json

/-- The fields of the document of a log. -/
def fields (l : Log) : List (String × Document) := [
  ("address", .str (some l.address)), ("topics", .ofJson (ofStrings l.topics)),
  ("data", .str (some l.data)), ("block_number", .ofJson (ofUInt64 l.blockNumber)),
  ("block_hash", .str (some l.blockHash)), ("tx_hash", .str (some l.txHash)),
  ("log_index", .ofJson (ofUInt32 l.logIndex)), ("removed", .bool l.removed)]

theorem reader_toJson (l : Log) : Log.reader 2 (Document.ofJson l.toJson) = some l := by
  have hn : (l.fields.map Prod.fst).Nodup := by simp [fields]
  have ht : Reader.text.list 1 (Document.ofJson (ofStrings l.topics)) = some l.topics :=
    list_ofList (fun _ => rfl) _
  simp only [toJson, Document.ofJson, Document.ofFields, Log.reader, Reader.record, Reader.names?,
    List.mapM_cons, List.mapM_nil, Option.map_some, Option.pure_def, Option.bind_eq_bind,
    Option.bind_some, RecordM.required, RecordM.defaulted]
  rw [show [("address", Document.str (some l.address)), _, _, _, _, _, _, _] = l.fields from rfl,
    field_bind (i := 0) hn rfl rfl, field_bind (i := 1) hn rfl ht, field_bind (i := 2) hn rfl rfl,
    field_bind (i := 3) hn rfl (uint64_ofUInt64 _ _), field_bind (i := 4) hn rfl rfl,
    field_bind (i := 5) hn rfl rfl, field_bind (i := 6) hn rfl (uint32_ofUInt32 _ _),
    field_bind (i := 7) hn rfl rfl]
  rfl

theorem depth_toJson (l : Log) : l.toJson.depth = 2 := by
  simp [toJson, depth, depthOfFields, depth_ofStrings, ofUInt64, ofUInt32, ofNat]

end Chain.Log

namespace Relational

open Json

theorem ofJson?_logsDocument (logs : List Chain.Log) :
    (Reader.list Chain.Log.reader).ofJson? (TransactionRow.logsDocument logs) = some logs := by
  cases logs with
  | nil => rfl
  | cons l rest =>
    rw [Reader.ofJson?, TransactionRow.logsDocument,
      depth_ofList Chain.Log.depth_toJson (List.cons_ne_nil _ _)]
    exact list_ofList Chain.Log.reader_toJson _

/-! ## Words -/

@[simp] theorem columnWord_wordColumn (n : UInt64) : columnWord (wordColumn n) = n :=
  UInt64.toUInt64_toInt64 n

theorem columnWord_comp_wordColumn : columnWord ∘ wordColumn = id :=
  funext columnWord_wordColumn

/-! ## Blocks and transactions -/

@[simp] theorem BlockRow.decode_encode (b : Chain.Block) (confirmed : Bool) :
    (BlockRow.encode b confirmed).decode = .ofChain b confirmed := by
  simp [BlockRow.encode, BlockRow.decode, Ledger.Block.ofChain]

namespace TransactionRow

@[simp] theorem decode_encode (t : Ledger.Transaction) : (encode t).decode = .ok t := by
  have hi : (t.transactionIndex.map fun n => wordColumn n.toUInt64).map
      (fun n => (columnWord n).toUInt32) = t.transactionIndex := by
    cases t.transactionIndex <;> simp
  simp only [decode, encode, ofJson?_logsDocument, hi, Option.map_map, columnWord_comp_wordColumn,
    Option.map_id, columnWord_wordColumn, id_eq]

/-- Linking touches the columns that `updateLink` writes and no others. -/
@[simp] theorem updateLink_encode (t : Ledger.Transaction) (b : Ledger.Block) (r : Chain.Receipt) :
    (encode t).updateLink (t.link b r) = encode (t.link b r) := rfl

end TransactionRow

end Relational

end ChainIndex
