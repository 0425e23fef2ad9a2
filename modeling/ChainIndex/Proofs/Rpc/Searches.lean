import ChainIndex.Proofs.Chain.Reading
import ChainIndex.Proofs.Rpc.Batching

/-!
# What searches find

A search for logs or for call frames is answered with an array.  Every item of an array of logs becomes a log,
in order, or the search fails and names the first item that is none (`logs_in_order`).  Of an array of call
frames those that name a transaction and can be read are found, in order (`frames_in_order`).

Some things are passed over without a fault: an entry of a log's topics that is no text, so that the topics
behind it move up (`topics_move_up`), a frame that names a transaction and cannot be read, and a part of a
frame's position that is no integer (`frames_left_out`).
-/

namespace ChainIndex.Rpc

open Chain

variable {τ : Type}

/-! ## The result of a search -/

theorem required_bind_eq_ok_iff {α : Type} {o : Except Fault Outcome} {method : String}
    {decode : Json → Except Fault α} {a : α} :
    ((o >>= Outcome.required method) >>= decode) = .ok a ↔ ∃ v, o = .ok (.found v) ∧ decode v = .ok a := by
  constructor
  · rcases o with fault | ⟨v | _ | refusal⟩
    · exact nofun
    · exact fun h => ⟨v, rfl, h⟩
    · exact nofun
    · exact nofun
  · rintro ⟨v, rfl, h⟩
    exact h

/-- A decoder of arrays makes of a search what it makes of the array that is the result. -/
theorem required_array_eq_ok_iff {α : Type} {o : Except Fault Outcome} {method : String}
    {decode : Json → Except Fault α} {P : List Json → α → Prop}
    (hdecode : ∀ {v a}, decode v = .ok a ↔ ∃ items, v = .arr items ∧ P items a) {a : α} :
    ((o >>= Outcome.required method) >>= decode) = .ok a ↔
      ∃ items, o = .ok (.found (.arr items)) ∧ P items a := by
  rw [required_bind_eq_ok_iff]
  simp only [hdecode]
  constructor
  · rintro ⟨_, ho, items, rfl, h⟩
    exact ⟨items, ho, h⟩
  · rintro ⟨items, ho, h⟩
    exact ⟨_, ho, items, rfl, h⟩

/-! ## Logs -/

theorem decodeLogs_cons (item : Json) (rest : List Json) :
    decodeLogs (.arr (item :: rest)) =
      match Log.decode? item with
      | some l => (decodeLogs (.arr rest)).map (l :: ·)
      | none => .error (malformed "log" item) := by
  simp only [decodeLogs, Json.arr?, List.mapM_cons]
  cases Log.decode? item <;> rfl

theorem decodeLogs_eq_ok_iff {v : Json} {ls : List Log} :
    decodeLogs v = .ok ls ↔ ∃ items, v = .arr items ∧ OneByOne Log.decode? items ls := by
  cases v with
  | arr items =>
    simp only [Json.arr.injEq, exists_eq_left', OneByOne]
    induction items generalizing ls with
    | nil =>
      rw [List.forall₂_nil_left_iff]
      show Except.ok [] = Except.ok ls ↔ ls = []
      rw [Except.ok.injEq, eq_comm]
    | cons item rest ih =>
      rw [decodeLogs_cons, List.forall₂_cons_left_iff]
      cases Log.decode? item with
      | none => simp
      | some l =>
        constructor
        · intro h
          cases hrest : decodeLogs (.arr rest) with
          | error fault =>
            rw [hrest] at h
            cases h
          | ok ls' =>
            rw [hrest] at h
            cases h
            exact ⟨l, ls', rfl, ih.1 hrest, rfl⟩
        · rintro ⟨_, ls', hl, hls, rfl⟩
          cases hl
          rw [ih.2 hls]
          rfl
  | _ => simp [decodeLogs, Json.arr?]

/-- The first item that is no log is the one that a failed search names. -/
theorem decodeLogs_of_find {items : List Json} {bad : Json}
    (h : items.find? (fun item => (Log.decode? item).isNone) = some bad) :
    decodeLogs (.arr items) = .error (malformed "log" bad) := by
  induction items with
  | nil => cases h
  | cons item rest ih =>
    rw [decodeLogs_cons]
    cases hitem : Log.decode? item with
    | none =>
      rw [List.find?_cons_of_pos (by rw [hitem]; rfl)] at h
      cases h
      rfl
    | some l =>
      rw [List.find?_cons_of_neg (by rw [hitem]; exact Bool.false_ne_true)] at h
      rw [ih h]
      rfl

section

variable (t : Transport τ) (batchSize : Nat) (addresses topics : List String) (first last : UInt64)
  (c : Client τ)

/-- What a search for logs is answered with. -/
def logsResult : Except Fault Outcome := (call t "eth_getLogs" [logFilter addresses topics first last] c).1

/-- Logs are decoded one for each item, in order, or not at all, by themselves, of a receipt and of a search,
which names the first item that is no log; and each has the texts among its entries as topics. -/
theorem logs_in_order (v : Json) :
    (∀ l, Log.decode? v = some l → ∃ entries, v.get "topics" = .arr entries ∧ l.TopicsFrom entries) ∧
    (∀ r, Receipt.decode? v = some r → OneByOne Log.decode? (Receipt.logItems v) r.logs) ∧
    (∀ item ∈ Receipt.logItems v, Log.decode? item = none → Receipt.decode? v = none) ∧
    (∀ ls, ((node t batchSize).answer (.logs addresses topics first last) c).1 = .ok ls ↔
      ∃ items, logsResult t addresses topics first last c = .ok (.found (.arr items)) ∧
        OneByOne Log.decode? items ls) ∧
    ∀ items bad, logsResult t addresses topics first last c = .ok (.found (.arr items)) →
      items.find? (fun item => (Log.decode? item).isNone) = some bad →
      ((node t batchSize).answer (.logs addresses topics first last) c).1 =
        .error (malformed "log" bad) := by
  refine ⟨fun l => Log.topicsFrom_of_decode, fun r h => (Receipt.decode?_eq_some_iff.1 h).1,
    fun item => Receipt.decode?_eq_none, fun ls => required_array_eq_ok_iff decodeLogs_eq_ok_iff,
    fun items bad hresult hbad => ?_⟩
  show (logsResult t addresses topics first last c >>= Outcome.required "eth_getLogs") >>= decodeLogs = _
  rw [hresult]
  exact decodeLogs_of_find hbad

end

namespace Sample

/-- A node that answers every call with an array of some items. -/
def answering (items : List Char) : Transport Unit :=
  constant ("\x7b\"result\":[".toList ++ items ++ "]\x7d".toList) []

/-- A log as a node answers it, with an entry that is no text before its topic. -/
def logItem : Json := .obj [
  ("address", .str "0x05"), ("blockHash", .str "0xb7"), ("blockNumber", .str "0x7"),
  ("topics", .arr [.null, .str "0xbb"]), ("transactionHash", .str "0xaa")]

def logText : List Char :=
  "\x7b\"address\":\"0x05\",\"blockHash\":\"0xb7\",\"blockNumber\":\"0x7\",".toList ++
    "\"topics\":[null,\"0xbb\"],\"transactionHash\":\"0xaa\"\x7d".toList

/-- The log that it is decoded as. -/
def log : Log where
  address := "0x05"
  topics := ["0xbb"]
  data := "0x"
  blockNumber := 7
  blockHash := "0xb7"
  txHash := "0xaa"
  logIndex := 0
  removed := false

theorem decode?_logItem : Log.decode? logItem = some log := by decide +kernel

end Sample

open ChainIndex.Rpc.Sample in
theorem logs_in_order_sample :
    Log.decode? logItem = some log ∧
    (∃ entries, logItem.get "topics" = .arr entries ∧ log.TopicsFrom entries) ∧
    logsResult (answering logText) [] [] 7 7 { transport := () } = .ok (.found (.arr [logItem])) ∧
    ((node (answering logText) 1).answer (.logs [] [] 7 7) { transport := () }).1 = .ok [log] := by
  have hresult : logsResult (answering logText) [] [] 7 7 { transport := () } =
      .ok (.found (.arr [logItem])) := by
    simp only [logsResult, call, post, answering, read_single]
    decide +kernel
  have hlogs := logs_in_order (answering logText) 1 [] [] 7 7 { transport := () } logItem
  exact ⟨decode?_logItem, hlogs.1 _ decode?_logItem, hresult,
    (hlogs.2.2.2.1 _).2 ⟨_, hresult, .cons decode?_logItem .nil⟩⟩

open ChainIndex.Rpc.Sample in
/-- A topic that stands behind an entry that is no text becomes the first topic. -/
theorem topics_move_up :
    logItem.get "topics" = .arr [.null, .str "0xbb"] ∧ Log.decode? logItem = some log ∧
    log.topic0 = some "0xbb" :=
  ⟨rfl, decode?_logItem, rfl⟩

/-! ## Call frames -/

/-- The traces are what the frames of transactions that can be read are read as, one by one. -/
theorem decodeTraces_eq_ok_iff {v : Json} {ts : List Trace} :
    decodeTraces v = .ok ts ↔ ∃ items, v = .arr items ∧ OneByOne Trace.decode? (Trace.readable items) ts := by
  simp only [Trace.readable_eq_filter, OneByOne, ← filterMap_eq_iff]
  cases v <;> simp [decodeTraces, Json.arr?]

section

variable (t : Transport τ) (batchSize : Nat) (recipients : List String) (first last : UInt64) (c : Client τ)

/-- What a search for call frames is answered with. -/
def tracesResult : Except Fault Outcome := (call t "trace_filter" [traceFilter recipients first last] c).1

/-- A search for call frames finds those that name a transaction and can be read, in order.  So it finds every
frame of a transaction exactly if all of these can be read; and where their positions consist of integers, it
finds them with all of it. -/
theorem frames_in_order :
    (∀ ts, ((node t batchSize).answer (.traces recipients first last) c).1 = .ok ts ↔
      ∃ items, tracesResult t recipients first last c = .ok (.found (.arr items)) ∧
        OneByOne Trace.decode? (Trace.readable items) ts) ∧
    (∀ v tr, Trace.decode? v = some tr →
      tr.traceAddress = traceAddressText ((Trace.pathItems v).filterMap Json.uint64?)) ∧
    ∀ items, tracesResult t recipients first last c = .ok (.found (.arr items)) →
      ∃ ts, ((node t batchSize).answer (.traces recipients first last) c).1 = .ok ts ∧
        (ts.length = (items.filter Trace.namesTransaction).length ↔
          ∀ item ∈ items, Trace.namesTransaction item → Trace.isReadable item) ∧
        ((∀ item ∈ items, Trace.namesTransaction item →
            Trace.isReadable item ∧ ∀ part ∈ Trace.pathItems item, part.uint64?.isSome) →
          List.Forall₂ (fun item tr => tr.ReadFrom item) (items.filter Trace.namesTransaction) ts) := by
  have hok (ts : List Trace) : ((node t batchSize).answer (.traces recipients first last) c).1 = .ok ts ↔
      ∃ items, tracesResult t recipients first last c = .ok (.found (.arr items)) ∧
        OneByOne Trace.decode? (Trace.readable items) ts := required_array_eq_ok_iff decodeTraces_eq_ok_iff
  refine ⟨hok, fun v tr => Trace.traceAddress_of_decode, fun items hresult => ?_⟩
  have hts : OneByOne Trace.decode? (Trace.readable items) (items.filterMap Trace.decode?) :=
    Trace.readable_eq_filter items ▸ filterMap_eq_iff.1 rfl
  exact ⟨_, (hok _).2 ⟨items, hresult, hts⟩, hts.length_eq ▸ Trace.length_readable_eq_iff,
    Trace.readFrom_of_oneByOne hts⟩

end

namespace Sample

/-- A call frame as a node answers it. -/
def frame : Json := .obj [
  ("action", .obj [("from", .str "0x05")]), ("blockNumber", .ofNat 7),
  ("traceAddress", .arr [.ofNat 0, .ofNat 1]), ("transactionHash", .str "0xaa")]

def frameText : List Char :=
  "\x7b\"action\":\x7b\"from\":\"0x05\"\x7d,\"blockNumber\":7,\"traceAddress\":[0,1],".toList ++
    "\"transactionHash\":\"0xaa\"\x7d".toList

/-- The frame with the number of its block in a text. -/
def textNumber : Json := .obj [
  ("action", .obj [("from", .str "0x05")]), ("blockNumber", .str "0x7"),
  ("traceAddress", .arr [.ofNat 0, .ofNat 1]), ("transactionHash", .str "0xaa")]

/-- The frame with the last part of its position in a text. -/
def textPart : Json := .obj [
  ("action", .obj [("from", .str "0x05")]), ("blockNumber", .ofNat 7),
  ("traceAddress", .arr [.ofNat 0, .str "0x1"]), ("transactionHash", .str "0xaa")]

def leftOutText : List Char :=
  "\x7b\"action\":\x7b\"from\":\"0x05\"\x7d,\"blockNumber\":\"0x7\",\"traceAddress\":[0,1],".toList ++
    "\"transactionHash\":\"0xaa\"\x7d,".toList ++
  "\x7b\"action\":\x7b\"from\":\"0x05\"\x7d,\"blockNumber\":7,\"traceAddress\":[0,\"0x1\"],".toList ++
    "\"transactionHash\":\"0xaa\"\x7d".toList

/-- The frame that these are read as, at a position. -/
def trace (position : String) : Trace where
  txHash := "0xaa"
  blockNumber := 7
  traceAddress := position
  callType := none
  sender := "0x05"
  recipient := none
  value := "0"
  input := "0x"
  error := none

end Sample

open ChainIndex.Rpc.Sample in
theorem frames_in_order_sample :
    tracesResult (answering frameText) ["0x06"] 7 7 { transport := () } = .ok (.found (.arr [frame])) ∧
    (∀ item ∈ [frame], Trace.namesTransaction item →
      Trace.isReadable item ∧ ∀ part ∈ Trace.pathItems item, part.uint64?.isSome) ∧
    ((node (answering frameText) 1).answer (.traces ["0x06"] 7 7) { transport := () }).1 =
      .ok [trace "0,1"] ∧
    ∃ ts, ((node (answering frameText) 1).answer (.traces ["0x06"] 7 7) { transport := () }).1 = .ok ts ∧
      List.Forall₂ (fun item tr => tr.ReadFrom item) ([frame].filter Trace.namesTransaction) ts := by
  have hresult : tracesResult (answering frameText) ["0x06"] 7 7 { transport := () } =
      .ok (.found (.arr [frame])) := by
    simp only [tracesResult, call, post, answering, read_single]
    decide +kernel
  have hwhole : ∀ item ∈ [frame], Trace.namesTransaction item →
      Trace.isReadable item ∧ ∀ part ∈ Trace.pathItems item, part.uint64?.isSome := by decide +kernel
  have hdecode : Trace.decode? frame = some (trace "0,1") := by decide +kernel
  have hframes := frames_in_order (answering frameText) 1 ["0x06"] 7 7 { transport := () }
  obtain ⟨ts, hts, -, hread⟩ := hframes.2.2 _ hresult
  exact ⟨hresult, hwhole, (hframes.1 _).2 ⟨_, hresult, .cons hdecode .nil⟩, ts, hts, hread hwhole⟩

open ChainIndex.Rpc.Sample in
/-- A frame of a transaction with its block number in a text is not found, and no fault tells so; and a frame
with a text in its position is found at another one. -/
theorem frames_left_out :
    tracesResult (answering leftOutText) ["0x06"] 7 7 { transport := () } =
      .ok (.found (.arr [textNumber, textPart])) ∧
    Trace.namesTransaction textNumber ∧ Trace.namesTransaction textPart ∧
    ((node (answering leftOutText) 1).answer (.traces ["0x06"] 7 7) { transport := () }).1 =
      .ok [trace "0"] := by
  simp only [tracesResult, node, call, post, answering, read_single]
  exact ⟨by decide +kernel, by decide +kernel, by decide +kernel, by decide +kernel⟩

end ChainIndex.Rpc
