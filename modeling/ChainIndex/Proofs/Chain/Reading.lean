import ChainIndex.Chain.Decode
import ChainIndex.Proofs.Lists

/-!
# What objects are decoded from

For each kind of object, what has to be read from a value for it to be decoded as a given one.  The topics of
a log are the texts among the entries of an array (`Log.TopicsFrom`), and the frames that can be read are
those of a transaction with a block number and a sender (`Trace.readable`).
-/

namespace ChainIndex.Chain

variable {v : Json}

/-! ## Parts of a value -/

theorem str?_eq_some_iff {s : String} : v.str? = some s ↔ v = .str s := by
  cases v <;> simp [Json.str?]

theorem arr?_eq_some_iff {items : List Json} : v.arr? = some items ↔ v = .arr items := by
  cases v <;> simp [Json.arr?]

/-! ## Objects -/

theorem Block.decode?_eq_some_iff {b : Block} :
    Block.decode? v = some b ↔
      requiredQuantity? (v.get "number") = some b.number ∧ (v.get "hash").str? = some b.hash ∧
      (v.get "parentHash").str? = some b.parentHash ∧
      (requiredQuantity? (v.get "timestamp")).map UInt64.toInt64 = some b.timestamp := by
  simp only [Block.decode?, Option.bind_eq_bind, Option.bind_eq_some_iff, Option.pure_def, Option.some.injEq,
    Option.map_eq_some_iff]
  constructor
  · rintro ⟨number, hnumber, hash, hhash, parent, hparent, time, htime, rfl⟩
    exact ⟨hnumber, hhash, hparent, time, htime, rfl⟩
  · rintro ⟨hnumber, hhash, hparent, time, htime, heq⟩
    exact ⟨_, hnumber, _, hhash, _, hparent, time, htime, by rw [heq]⟩

theorem Transaction.decode?_eq_some_iff {t : Transaction} :
    Transaction.decode? v = some t ↔
      (v.get "hash").str? = some t.hash ∧ (v.get "from").str? = some t.sender ∧
      quantity? (v.get "blockNumber") = some t.blockNumber ∧
      (quantity? (v.get "transactionIndex")).map (Option.map UInt64.toUInt32) = some t.transactionIndex ∧
      (quantity? (v.get "gas")).map (Option.getD · 0) = some t.gas ∧
      (quantity? (v.get "nonce")).map (Option.getD · 0) = some t.nonce ∧
      (v.get "blockHash").str? = t.blockHash ∧ (v.get "to").str? = t.recipient ∧
      Quantity.toDecimal ((v.get "value").str?.getD "0x0") = t.value ∧
      (v.get "gasPrice").str?.map Quantity.toDecimal = t.gasPrice ∧
      (v.get "input").str?.getD "0x" = t.input := by
  simp only [Transaction.decode?, Option.bind_eq_bind, Option.bind_eq_some_iff, Option.pure_def,
    Option.some.injEq, Option.map_eq_some_iff]
  constructor
  · rintro ⟨hash, hhash, number, hnumber, index, hindex, sender, hsender, gas, hgas, nonce, hnonce, rfl⟩
    exact ⟨hhash, hsender, hnumber, ⟨index, hindex, rfl⟩, ⟨gas, hgas, rfl⟩, ⟨nonce, hnonce, rfl⟩,
      rfl, rfl, rfl, rfl, rfl⟩
  · rintro ⟨hhash, hsender, hnumber, ⟨index, hindex, htrunc⟩, ⟨gas, hgas, hg⟩, ⟨nonce, hnonce, hn⟩,
      hblock, hto, hvalue, hprice, hinput⟩
    exact ⟨_, hhash, _, hnumber, index, hindex, _, hsender, gas, hgas, nonce, hnonce,
      by rw [hblock, htrunc, hto, hvalue, hg, hprice, hn, hinput]⟩

theorem Log.decode?_eq_some_iff {l : Log} :
    Log.decode? v = some l ↔
      (v.get "address").str? = some l.address ∧
      (v.get "topics").arr?.map (List.filterMap Json.str?) = some l.topics ∧
      requiredQuantity? (v.get "blockNumber") = some l.blockNumber ∧
      (v.get "blockHash").str? = some l.blockHash ∧ (v.get "transactionHash").str? = some l.txHash ∧
      (quantity? (v.get "logIndex")).map (fun index => (index.getD 0).toUInt32) = some l.logIndex ∧
      (v.get "data").str?.getD "0x" = l.data ∧ (v.get "removed").bool?.getD false = l.removed := by
  simp only [Log.decode?, Option.bind_eq_bind, Option.bind_eq_some_iff, Option.pure_def, Option.some.injEq,
    Option.map_eq_some_iff]
  constructor
  · rintro ⟨address, haddress, topics, htopics, number, hnumber, block, hblock, tx, htx, index, hindex, rfl⟩
    exact ⟨haddress, ⟨topics, htopics, rfl⟩, hnumber, hblock, htx, ⟨index, hindex, rfl⟩, rfl, rfl⟩
  · rintro ⟨haddress, ⟨topics, htopics, hkept⟩, hnumber, hblock, htx, ⟨index, hindex, htrunc⟩, hdata,
      hremoved⟩
    exact ⟨_, haddress, topics, htopics, _, hnumber, _, hblock, _, htx, index, hindex,
      by rw [hkept, hdata, htrunc, hremoved]⟩

/-- One object for each of the items, in order. -/
def OneByOne {α : Type} (decode? : Json → Option α) (items : List Json) (xs : List α) : Prop :=
  List.Forall₂ (fun item x => decode? item = some x) items xs

/-- The items of the array of logs, none if there is no such array. -/
def Receipt.logItems (v : Json) : List Json := (v.get "logs").arr?.getD []

theorem Receipt.decode?_eq (v : Json) : Receipt.decode? v = do
    let logs ← (Receipt.logItems v).mapM Log.decode?
    let transactionHash ← (v.get "transactionHash").str?
    let blockNumber ← quantity? (v.get "blockNumber")
    let gasUsed ← quantity? (v.get "gasUsed")
    let status ← quantity? (v.get "status")
    return {
      transactionHash
      blockHash := (v.get "blockHash").str?
      blockNumber
      gasUsed := gasUsed.getD 0
      effectiveGasPrice := (v.get "effectiveGasPrice").str?.map Quantity.toDecimal
      status
      logs
    } := by
  unfold Receipt.decode? Receipt.logItems
  cases (v.get "logs").arr? <;> rfl

theorem Receipt.decode?_eq_some_iff {r : Receipt} :
    Receipt.decode? v = some r ↔
      OneByOne Log.decode? (Receipt.logItems v) r.logs ∧
      (v.get "transactionHash").str? = some r.transactionHash ∧
      quantity? (v.get "blockNumber") = some r.blockNumber ∧
      (quantity? (v.get "gasUsed")).map (Option.getD · 0) = some r.gasUsed ∧
      quantity? (v.get "status") = some r.status ∧ (v.get "blockHash").str? = r.blockHash ∧
      (v.get "effectiveGasPrice").str?.map Quantity.toDecimal = r.effectiveGasPrice := by
  simp only [Receipt.decode?_eq, Option.bind_eq_bind, Option.bind_eq_some_iff, Option.pure_def,
    Option.some.injEq, Option.map_eq_some_iff, OneByOne, ← mapM_eq_some_iff]
  constructor
  · rintro ⟨logs, hlogs, tx, htx, number, hnumber, gas, hgas, status, hstatus, rfl⟩
    exact ⟨hlogs, htx, hnumber, ⟨gas, hgas, rfl⟩, hstatus, rfl, rfl⟩
  · rintro ⟨hlogs, htx, hnumber, ⟨gas, hgas, hg⟩, hstatus, hblock, hprice⟩
    exact ⟨_, hlogs, _, htx, _, hnumber, gas, hgas, _, hstatus, by rw [hblock, hg, hprice]⟩

theorem Receipt.decode?_eq_none {item : Json} (hitem : item ∈ Receipt.logItems v)
    (h : Log.decode? item = none) : Receipt.decode? v = none := by
  rw [Receipt.decode?_eq, mapM_eq_none_iff.2 ⟨item, hitem, h⟩]
  rfl

/-- The account that a call frame comes from, or that is destroyed. -/
def Trace.sender? (v : Json) : Option String :=
  ((v.get "action").get "from").str? <|> ((v.get "action").get "address").str?

/-- The items of the array of a frame's position, none if there is no such array. -/
def Trace.pathItems (v : Json) : List Json := (v.get "traceAddress").arr?.getD []

theorem Trace.decode?_eq_some_iff {t : Trace} :
    Trace.decode? v = some t ↔
      (v.get "transactionHash").str? = some t.txHash ∧ (v.get "blockNumber").uint64? = some t.blockNumber ∧
      Trace.sender? v = some t.sender ∧
      traceAddressText ((Trace.pathItems v).filterMap Json.uint64?) = t.traceAddress ∧
      callType? v = t.callType ∧
      (((v.get "action").get "to").str? <|> ((v.get "result").get "address").str?) = t.recipient ∧
      Quantity.toDecimal ((((v.get "action").get "value").str? <|>
        ((v.get "action").get "balance").str?).getD "0x0") = t.value ∧
      (((v.get "action").get "input").str? <|> ((v.get "action").get "init").str?).getD "0x" = t.input ∧
      (v.get "error").str? = t.error := by
  simp only [Trace.decode?, Option.bind_eq_bind, Option.bind_eq_some_iff, Option.pure_def, Option.some.injEq]
  constructor
  · rintro ⟨tx, htx, number, hnumber, sender, hsender, rfl⟩
    exact ⟨htx, hnumber, hsender, rfl, rfl, rfl, rfl, rfl, rfl⟩
  · rintro ⟨htx, hnumber, hsender, hpath, htype, hto, hvalue, hinput, herror⟩
    exact ⟨_, htx, _, hnumber, _, hsender,
      by rw [← Trace.pathItems, hpath, htype, hto, hvalue, hinput, herror]⟩

/-! ## The topics of a log -/

/-- Each of the entries is a text. -/
def AllTexts (entries : List Json) : Prop := ∀ entry ∈ entries, entry.str?.isSome

theorem map_str_filterMap_eq_iff {entries : List Json} :
    (entries.filterMap Json.str?).map .str = entries ↔ AllTexts entries := by
  constructor
  · intro h entry hentry
    rw [← h] at hentry
    obtain ⟨s, -, rfl⟩ := List.mem_map.1 hentry
    rfl
  · intro h
    induction entries with
    | nil => rfl
    | cons entry rest ih =>
      obtain ⟨hentry, hrest⟩ := List.forall_mem_cons.1 h
      obtain ⟨s, hs⟩ := Option.isSome_iff_exists.1 hentry
      cases str?_eq_some_iff.1 hs
      show Json.str s :: (rest.filterMap Json.str?).map .str = _
      rw [ih hrest]

/-- The topics of a log are the texts among the entries, so that they are the entries, each at its place,
exactly if these are texts.  The first entry is the first topic if it is a text itself. -/
structure Log.TopicsFrom (l : Log) (entries : List Json) : Prop where
  texts : l.topics = entries.filterMap Json.str?
  inPlace : l.topics.map .str = entries ↔ AllTexts entries
  first : ∀ s rest, entries = .str s :: rest → l.topic0 = some s

theorem Log.topicsFrom_of_decode {l : Log} (h : Log.decode? v = some l) :
    ∃ entries, v.get "topics" = .arr entries ∧ l.TopicsFrom entries := by
  obtain ⟨-, htopics, -⟩ := Log.decode?_eq_some_iff.1 h
  obtain ⟨entries, hentries, htexts⟩ := Option.map_eq_some_iff.1 htopics
  refine ⟨entries, arr?_eq_some_iff.1 hentries, htexts.symm, ?_, ?_⟩
  · rw [← htexts]
    exact map_str_filterMap_eq_iff
  · rintro s rest rfl
    rw [Log.topic0, ← htexts]
    rfl

/-! ## The frames of transactions -/

section

variable {tr : Trace}

/-- Whether the frame belongs to a transaction. -/
def Trace.namesTransaction (v : Json) : Bool := (v.get "transactionHash").str?.isSome

/-- Whether the frame has a block number that is an integer and says where it comes from. -/
def Trace.isReadable (v : Json) : Bool := (v.get "blockNumber").uint64?.isSome && (Trace.sender? v).isSome

/-- The call frame has been read from the value, with every part of its position. -/
def Trace.ReadFrom (tr : Trace) (v : Json) : Prop :=
  Trace.decode? v = some tr ∧
  ∃ path, (Trace.pathItems v).mapM Json.uint64? = some path ∧ tr.traceAddress = traceAddressText path

theorem Trace.isSome_decode? (v : Json) :
    (Trace.decode? v).isSome = (Trace.namesTransaction v && Trace.isReadable v) := by
  rw [Bool.eq_iff_iff, Option.isSome_iff_exists, Trace.namesTransaction, Trace.isReadable]
  simp only [Bool.and_eq_true, Option.isSome_iff_exists, Trace.decode?_eq_some_iff]
  constructor
  · rintro ⟨tr, htx, hnumber, hsender, -⟩
    exact ⟨⟨_, htx⟩, ⟨_, hnumber⟩, ⟨_, hsender⟩⟩
  · rintro ⟨⟨tx, htx⟩, ⟨number, hnumber⟩, ⟨sender, hsender⟩⟩
    exact ⟨⟨tx, number, _, _, sender, _, _, _, _⟩, htx, hnumber, hsender, rfl, rfl, rfl, rfl, rfl, rfl⟩

/-- The frames of transactions that can be read, in order. -/
def Trace.readable (items : List Json) : List Json :=
  (items.filter Trace.namesTransaction).filter Trace.isReadable

theorem Trace.traceAddress_of_decode (h : Trace.decode? v = some tr) :
    tr.traceAddress = traceAddressText ((Trace.pathItems v).filterMap Json.uint64?) := by
  obtain ⟨-, -, -, hpath, -⟩ := Trace.decode?_eq_some_iff.1 h
  exact hpath.symm

theorem Trace.readable_eq_filter (items : List Json) :
    Trace.readable items = items.filter fun item => (Trace.decode? item).isSome := by
  rw [Trace.readable, List.filter_filter]
  congr 1
  funext item
  rw [Trace.isSome_decode?, Bool.and_comm]

theorem Trace.length_readable_eq_iff {items : List Json} :
    (Trace.readable items).length = (items.filter Trace.namesTransaction).length ↔
      ∀ item ∈ items, Trace.namesTransaction item → Trace.isReadable item := by
  rw [Trace.readable, List.length_filter_eq_length_iff]
  simp only [List.mem_filter, and_imp]

/-- Where each frame of a transaction can be read and has integers only in its position, nothing is lost. -/
theorem Trace.readFrom_of_oneByOne {items : List Json} {ts : List Trace}
    (hts : OneByOne Trace.decode? (Trace.readable items) ts)
    (hwhole : ∀ item ∈ items, Trace.namesTransaction item →
      Trace.isReadable item ∧ ∀ part ∈ Trace.pathItems item, part.uint64?.isSome) :
    List.Forall₂ (fun item tr => tr.ReadFrom item) (items.filter Trace.namesTransaction) ts := by
  have hall : Trace.readable items = items.filter Trace.namesTransaction :=
    List.filter_eq_self.2 fun item hitem =>
      (hwhole item (List.mem_filter.1 hitem).1 (List.mem_filter.1 hitem).2).1
  have hparts : ∀ item ∈ items.filter Trace.namesTransaction,
      ∀ part ∈ Trace.pathItems item, part.uint64?.isSome := fun item hitem =>
    (hwhole item (List.mem_filter.1 hitem).1 (List.mem_filter.1 hitem).2).2
  rw [hall] at hts
  -- Reading what is an integer in a position leaves nothing out if all its parts are.
  refine ((List.forall₂_and_left _ _).2 ⟨hparts, hts⟩).imp fun item tr ⟨hitem, hdecode⟩ => ⟨hdecode, ?_⟩
  obtain ⟨path, hpath⟩ := exists_mapM_eq_some hitem
  exact ⟨path, hpath, by
    rw [Trace.traceAddress_of_decode hdecode, filterMap_eq_of_forall₂ (mapM_eq_some_iff.1 hpath)]⟩

end

end ChainIndex.Chain
