import ChainIndex.Proofs.Lists
import ChainIndex.Proofs.Store.Signed

/-!
# What was written is read back

Whatever a database holds, a transaction that was stored in it is read back as it was stored, one that was
linked as the link returned it, and a block as it was first stored (`written_read_back`).  Linking writes some
columns of a row only; the others stand for the same as before (`TransactionRow.decode_updateLink`).

The linked transactions among some hashes are those that can be read for one of them (`mem_iff_of_getMined`),
in as many statements as it takes.
-/

namespace ChainIndex

namespace Relational

namespace TransactionRow

variable {row : TransactionRow} {t : Ledger.Transaction}

/-- A row refers to a block exactly if the transaction that it stands for is linked. -/
theorem isMined_of_decode (h : row.decode = .ok t) : t.isMined = row.blockHash.isSome := by
  unfold decode at h
  split at h
  · cases h
  · cases h
    rfl

/-- The columns that linking does not write stand for what they stood for. -/
theorem decode_updateLink (h : row.decode = .ok t) (b : Ledger.Block) (r : Chain.Receipt) :
    (row.updateLink (t.link b r)).decode = .ok (t.link b r) := by
  unfold decode at h
  split at h
  · cases h
  · cases h
    unfold decode
    simp only [updateLink, Ledger.Transaction.link, ofJson?_logsDocument, Option.map_map,
      columnWord_comp_wordColumn, Option.map_id, id_eq]

end TransactionRow

variable {d d' : Relational} {hash : String} {t : Ledger.Transaction}

/-! ## Reading transactions -/

theorem getTransaction_eq_some_iff :
    d.getTransaction hash = .ok (some t) ↔ ∃ row, d.transactions.get? hash = some row ∧ row.decode = .ok t := by
  unfold getTransaction
  cases d.transactions.get? hash with
  | none => simp
  | some row => cases hrow : row.decode <;> simp [Except.map, hrow]

/-- The rows of one statement are those under its hashes that refer to a block. -/
theorem mem_values_linked {hashes : List String} {row : TransactionRow} :
    row ∈ (d.transactions.filter fun hash row => row.blockHash.isSome && hashes.contains hash).values ↔
      ∃ hash ∈ hashes, d.transactions.get? hash = some row ∧ row.blockHash.isSome := by
  rw [Table.mem_values]
  simp only [Table.get?_filter, Option.filter_eq_some_iff, Bool.and_eq_true, List.contains_iff_mem]
  refine exists_congr fun hash => ?_
  constructor
  · rintro ⟨hrow, hlinked, hhash⟩
    exact ⟨hhash, hrow, hlinked⟩
  · rintro ⟨hhash, hrow, hlinked⟩
    exact ⟨hrow, hlinked, hhash⟩

/-- One statement lists the linked transactions that can be read for its hashes. -/
theorem mem_iff_of_minedAmong {hashes : List String} {ts : List Ledger.Transaction}
    (h : d.minedAmong hashes = .ok ts) :
    t ∈ ts ↔ ∃ hash ∈ hashes, d.getTransaction hash = .ok (some t) ∧ t.isMined := by
  have hread := mapM_eq_ok_iff.1 h
  constructor
  · intro ht
    obtain ⟨row, hrow, hdecode⟩ := exists_of_mem_right hread ht
    obtain ⟨hash, hhash, hget, hlinked⟩ := mem_values_linked.1 hrow
    refine ⟨hash, hhash, getTransaction_eq_some_iff.2 ⟨row, hget, hdecode⟩, ?_⟩
    rw [TransactionRow.isMined_of_decode hdecode, hlinked]
  · rintro ⟨hash, hhash, hget, hmined⟩
    obtain ⟨row, hrow, hdecode⟩ := getTransaction_eq_some_iff.1 hget
    rw [TransactionRow.isMined_of_decode hdecode] at hmined
    obtain ⟨u, hu, hdecode'⟩ := exists_of_mem_left hread (mem_values_linked.2 ⟨hash, hhash, hrow, hmined⟩)
    rw [hdecode] at hdecode'
    exact Except.ok.inj hdecode' ▸ hu

theorem exists_minedAmong {hashes : List String}
    (h : ∀ hash ∈ hashes, ∃ found?, d.getTransaction hash = .ok found?) : ∃ ts, d.minedAmong hashes = .ok ts := by
  refine exists_mapM_eq_ok fun row hrow => ?_
  obtain ⟨hash, hhash, hget, -⟩ := mem_values_linked.1 hrow
  obtain ⟨found?, hfound⟩ := h hash hhash
  rw [getTransaction, hget] at hfound
  cases hdecode : row.decode with
  | error e =>
    simp only [hdecode] at hfound
    cases hfound
  | ok t => exact ⟨t, rfl⟩

/-- The statements for a list of hashes together list the linked transactions that can be read for them. -/
theorem mem_iff_of_getMined {hashes : List String} {ts : List Ledger.Transaction}
    (h : d.getMined hashes = .ok ts) :
    t ∈ ts ↔ ∃ hash ∈ hashes, d.getTransaction hash = .ok (some t) ∧ t.isMined := by
  unfold getMined at h
  cases hlists : (chunks maxParameters hashes).mapM d.minedAmong with
  | error e =>
    rw [hlists] at h
    cases h
  | ok lists =>
    rw [hlists] at h
    have hmem := mem_flatten_iff (b := t) ((mapM_eq_ok_iff.1 hlists).imp fun part list hlist t =>
      mem_iff_of_minedAmong (t := t) hlist)
    rwa [flatten_chunks, Except.ok.inj h] at hmem

theorem exists_getMined {hashes : List String}
    (h : ∀ hash ∈ hashes, ∃ found?, d.getTransaction hash = .ok found?) : ∃ ts, d.getMined hashes = .ok ts := by
  obtain ⟨lists, hlists⟩ : ∃ lists, (chunks maxParameters hashes).mapM d.minedAmong = .ok lists :=
    exists_mapM_eq_ok fun part hpart => exists_minedAmong fun hash hhash =>
      h hash ((infix_of_mem_chunks hpart).subset hhash)
  exact ⟨lists.flatten, by rw [getMined, hlists]; rfl⟩

theorem getMined_singleton (h : d.getTransaction hash = .ok (some t)) :
    d.getMined [hash] = .ok ([t].filter Ledger.Transaction.isMined) := by
  obtain ⟨row, hrow, hdecode⟩ := getTransaction_eq_some_iff.1 h
  have hmined := TransactionRow.isMined_of_decode hdecode
  have hchosen : (d.transactions.filter fun key row => row.blockHash.isSome && [hash].contains key) =
      if t.isMined then (∅ : Table String TransactionRow).insert hash row else ∅ := by
    refine Table.ext_get? fun key => ?_
    rw [Table.get?_filter, hmined]
    by_cases hkey : key = hash
    · cases hsome : row.blockHash.isSome <;> simp only [hkey, hrow, Option.filter_some, hsome] <;> simp
    · cases row.blockHash.isSome <;> simp [hkey]
  have hone : d.minedAmong [hash] = .ok ([t].filter Ledger.Transaction.isMined) := by
    unfold minedAmong
    simp only [hchosen]
    cases ht : t.isMined with
    | false =>
      rw [List.filter_cons_of_neg (by simp [ht])]
      rfl
    | true =>
      rw [List.filter_cons_of_pos ht]
      exact mapM_eq_ok_iff.2 (.cons hdecode .nil)
  have hchunks : chunks maxParameters [hash] = [[hash]] := by simp [chunks]
  rw [getMined, hchunks, List.mapM_cons, hone]
  exact congrArg Except.ok (List.append_nil _)

/-- Reading a database gives a transaction for a hash. -/
structure ReadsBack (d : Relational) (hash : String) (t : Ledger.Transaction) : Prop where
  getTransaction : d.getTransaction hash = .ok (some t)
  /-- By itself, it is listed exactly if it is linked. -/
  getMined : d.getMined [hash] = .ok ([t].filter Ledger.Transaction.isMined)
  /-- Among other hashes, too; nothing is listed but what can be read for one of them. -/
  listed : ∀ {hashes}, hash ∈ hashes → (∀ h ∈ hashes, ∃ found?, d.getTransaction h = .ok found?) →
    ∃ ts, d.getMined hashes = .ok ts ∧ (t ∈ ts ↔ t.isMined) ∧
      ∀ u ∈ ts, ∃ h ∈ hashes, d.getTransaction h = .ok (some u)

theorem readsBack_of_getTransaction (h : d.getTransaction hash = .ok (some t)) : d.ReadsBack hash t where
  getTransaction := h
  getMined := getMined_singleton h
  listed {hashes} hhash hread := by
    obtain ⟨ts, hts⟩ := exists_getMined hread
    refine ⟨ts, hts, ?_, fun u hu => ?_⟩
    · rw [mem_iff_of_getMined hts]
      exact ⟨fun ⟨_, _, _, hmined⟩ => hmined, fun hmined => ⟨hash, hhash, h, hmined⟩⟩
    · obtain ⟨h, hh, hget, -⟩ := (mem_iff_of_getMined hts).1 hu
      exact ⟨h, hh, hget⟩

/-! ## Writing -/

/-- A transaction is stored exactly if it is new and the block that it refers to, if any, is there. -/
theorem addTransaction_eq_ok_iff {t' : Ledger.Transaction} :
    d.addTransaction t = (.ok t', d') ↔
      d.transactions.contains t.txHash = false ∧ d.refersToBlock t.blockHash ∧ t' = t ∧
        d' = { d with transactions := d.transactions.insert t.txHash (.encode t) } := by
  unfold addTransaction
  cases d.transactions.contains t.txHash with
  | true => simp
  | false => cases d.refersToBlock t.blockHash <;> simp [eq_comm]

/-- A transaction is linked exactly if it can be read and the block is there. -/
theorem linkTransaction_eq_ok_iff {b : Ledger.Block} {r : Chain.Receipt} :
    d.linkTransaction hash b r = (.ok t, d') ↔
      ∃ t₀, d.getTransaction hash = .ok (some t₀) ∧ d.refersToBlock (some b.blockHash) ∧ t = t₀.link b r ∧
        d' = { d with transactions := d.transactions.modify hash fun row => row.updateLink t } := by
  unfold linkTransaction
  match d.getTransaction hash with
  | .error e => simp
  | .ok none => simp
  | .ok (some t₀) =>
    have hhash : (t₀.link b r).blockHash = some b.blockHash := rfl
    simp only [hhash, Except.ok.injEq, Option.some.injEq, exists_eq_left']
    cases d.refersToBlock (some b.blockHash) with
    | false => simp
    | true =>
      simp only [if_pos, Prod.mk.injEq, Except.ok.injEq, true_and]
      constructor <;> (rintro ⟨rfl, rfl⟩; exact ⟨rfl, rfl⟩)

/-- What was written is read back, whatever else is stored: a transaction that was stored as it was given, a
transaction that was linked as the link returned it, with the block and the receipt taken over into what was
read before, and a block that was not there as it was given. -/
theorem written_read_back (d : Relational) :
    (∀ t t' d', d.addTransaction t = (.ok t', d') → t' = t ∧ d'.ReadsBack t.txHash t) ∧
    (∀ hash b r t d', d.linkTransaction hash b r = (.ok t, d') →
      (∃ t₀, d.getTransaction hash = .ok (some t₀) ∧ t = t₀.link b r) ∧ d'.ReadsBack hash t) ∧
    ∀ b confirmed, d.blocks.get? b.hash = none → ∃ d',
      access (.createBlock b confirmed) d = (.ok (.ofChain b confirmed), d') ∧
      access (.getBlock b.hash) d' = (.ok (some (.ofChain b confirmed)), d') := by
  refine ⟨fun t t' d' h => ?_, fun hash b r t d' h => ?_, fun b confirmed h => ?_⟩
  · obtain ⟨-, -, rfl, rfl⟩ := addTransaction_eq_ok_iff.1 h
    refine ⟨rfl, readsBack_of_getTransaction (getTransaction_eq_some_iff.2 ⟨.encode t', ?_, ?_⟩)⟩
    · rw [Table.get?_insert, if_pos rfl]
    · rw [TransactionRow.decode_encode]
  · obtain ⟨t₀, hget, -, rfl, rfl⟩ := linkTransaction_eq_ok_iff.1 h
    obtain ⟨row, hrow, hdecode⟩ := getTransaction_eq_some_iff.1 hget
    refine ⟨⟨t₀, hget, rfl⟩, readsBack_of_getTransaction (getTransaction_eq_some_iff.2 ⟨_, ?_,
      TransactionRow.decode_updateLink hdecode b r⟩)⟩
    rw [Table.get?_modify, if_pos rfl, hrow]
    rfl
  · have hrow : (BlockRow.encode b confirmed).decode = .ofChain b confirmed := BlockRow.decode_encode b confirmed
    refine ⟨{ d with blocks := d.blocks.insert b.hash (.encode b confirmed) }, ?_, ?_⟩
    · simp only [access, createBlock, h, hrow]
    · simp only [access, Table.get?_insert, if_pos, Option.map_some, hrow]

end Relational

namespace Sample

/-- A transaction of the distant block whose numbers are as large as they can be. -/
def extreme : Ledger.Transaction where
  txHash := "0xaa"
  blockHash := some "0xb8"
  blockNumber := some 0xffffffffffffffff
  transactionIndex := some 0xffffffff
  sender := "0x01"
  recipient := none
  value := "1"
  gas := 0xffffffffffffffff
  gasPrice := none
  nonce := 0x8000000000000000
  data := "0x"
  gasUsed := some 0xffffffffffffffff
  status := none
  logs := [{
    address := "0x05"
    topics := ["0xbb", "\""]
    data := "0x"
    blockNumber := 0xffffffffffffffff
    blockHash := "0xb8"
    txHash := "0xaa"
    logIndex := 0xffffffff
    removed := true }]

/-- The same transaction before it was mined. -/
def waiting : Ledger.Transaction :=
  { extreme with blockHash := none, blockNumber := none, gasUsed := none, logs := [] }

/-- The receipt of that transaction. -/
def lateReceipt : Chain.Receipt where
  transactionHash := "0xaa"
  blockHash := some "0xb8"
  blockNumber := some 0x8000000000000000
  gasUsed := 0xffffffffffffffff
  effectiveGasPrice := none
  status := some 0xffffffffffffffff
  logs := extreme.logs

/-- A database that holds the distant block and the transaction before it was mined. -/
def holdingBoth : Relational := ((holding distant).addTransaction waiting).2

end Sample

namespace Relational

open Sample

theorem written_read_back_sample :
    (∃ d', (holding distant).addTransaction extreme = (.ok extreme, d') ∧ d'.ReadsBack "0xaa" extreme) ∧
    (∃ t d', holdingBoth.linkTransaction "0xaa" (.ofChain distant false) lateReceipt = (.ok t, d') ∧
      t.isMined ∧ d'.ReadsBack "0xaa" t) ∧
    ∃ d', access (.createBlock distant true) {} = (.ok (.ofChain distant true), d') ∧
      access (.getBlock "0xb8") d' = (.ok (some (.ofChain distant true)), d') := by
  obtain ⟨-, hlink, -⟩ := written_read_back holdingBoth
  refine ⟨⟨_, rfl, ?_⟩, ⟨waiting.link (.ofChain distant false) lateReceipt, _, rfl, rfl, ?_⟩, ?_⟩
  · exact ((written_read_back (holding distant)).1 extreme _ _ rfl).2
  · exact (hlink "0xaa" (.ofChain distant false) lateReceipt _ _ rfl).2
  · exact (written_read_back {}).2.2 distant true rfl

end Relational

end ChainIndex
