import ChainIndex.Chain.Decode
import ChainIndex.Chunks
import ChainIndex.Effect.Query
import ChainIndex.Json.Printer
import ChainIndex.Rpc.Envelope

/-!
# A node behind remote calls

A `Transport` posts messages and answers with a status and a text.  `Rpc.node` is the node that is reached
that way: it numbers its calls, sends many look-ups in batches, and decodes the results.  In a batch, a call
that was refused or not answered counts as not found.
-/

namespace ChainIndex.Rpc

open Chain

/-- How a message was answered. -/
inductive Response where
  | answer (status : Nat) (body : String)
  /-- The message did not get through. -/
  | unreachable (text : String)

/-- A way to post messages, with a state of its own. -/
structure Transport (τ : Type) where
  post : Json → τ → Response × τ

/-- The state of a client: the number of its next call, and the transport's state. -/
structure Client (τ : Type) where
  nextId : UInt64 := 1
  transport : τ

def Response.read {α : Type} (r : Json.Reader α) : Response → Except Fault α
  | .unreachable text => .error (.rpc text)
  | .answer status body =>
    if 200 ≤ status ∧ status < 300 then
      match r.ofText? body with
      | some a => .ok a
      | none => .error (.rpc "error decoding response body")
    else .error (.rpc ("HTTP " ++ toString status ++ ": " ++ body))

section

variable {τ : Type} (t : Transport τ)

def post {α : Type} (r : Json.Reader α) (message : Json) (c : Client τ) :
    Except Fault α × Client τ :=
  let (response, transport) := t.post message c.transport
  (response.read r, { c with transport })

def call (method : String) (params : List Json) (c : Client τ) :
    Except Fault Outcome × Client τ :=
  let message := ({ id := c.nextId, method, params } : Call).toJson
  let (reply, c) := post t Reply.reader message { c with nextId := c.nextId + 1 }
  (reply.map Reply.outcome, c)

def number (method : String) (nextId : UInt64) : List (List Json) → List Call × UInt64
  | [] => ([], nextId)
  | params :: rest =>
    let (calls, last) := number method (nextId + 1) rest
    ({ id := nextId, method, params } :: calls, last)

/-- The result of each outcome; refused calls have none. -/
def results (outcomes : List Outcome) : List (Option Json) :=
  outcomes.map fun
    | .found v => some v
    | .absent => none
    | .failed _ => none

def sendChunk (calls : List Call) (c : Client τ) : Except Fault (List (Option Json)) × Client τ :=
  let (replies, c) := post t (Json.Reader.list Reply.reader) (.ofList Call.toJson calls) c
  (replies.map fun rs => results (takeAll rs (calls.map Call.id)), c)

/-- Sends batches of calls.  All of them are sent, whether one fails or not. -/
def sendChunks : List (List Call) → Client τ → List (Except Fault (List (Option Json))) × Client τ
  | [], c => ([], c)
  | calls :: rest, c =>
    let (r, c) := sendChunk t calls c
    let (rs, c) := sendChunks rest c
    (r :: rs, c)

/-- Calls a method once for each list of parameters, at most `batchSize` at a time. -/
def callBatch (batchSize : Nat) (method : String) (params : List (List Json)) (c : Client τ) :
    Except Fault (List (Option Json)) × Client τ :=
  let (calls, nextId) := number method c.nextId params
  let (replies, c) := sendChunks t (chunks batchSize calls) { c with nextId }
  ((replies.mapM id).map List.flatten, c)

end

/-! ## Decoding results -/

/-- The fault of a result that is not what it should be. -/
def malformed (what : String) (v : Json) : Fault := .rpc ("malformed " ++ what ++ ": " ++ v.compact)

/-- Decodes a result, if there is one. -/
def decodeOptional {α : Type} (what : String) (decode? : Json → Option α) :
    Option Json → Except Fault (Option α)
  | none => .ok none
  | some v =>
    match decode? v with
    | some a => .ok (some a)
    | none => .error (malformed what v)

/-- Decodes the number of the newest block. -/
def decodeHead (v : Json) : Except Fault UInt64 :=
  match v.str? >>= Quantity.parse? with
  | some n => .ok n
  | none => .error (malformed "block number" v)

/-- Decodes logs; each of them has to be well-formed. -/
def decodeLogs (v : Json) : Except Fault (List Log) :=
  match v.arr? with
  | none => .error (malformed "logs response" v)
  | some items => items.mapM fun item =>
    match Log.decode? item with
    | some l => .ok l
    | none => .error (malformed "log" item)

/-- Decodes call frames, and leaves out what is none. -/
def decodeTraces (v : Json) : Except Fault (List Trace) :=
  match v.arr? with
  | none => .error (malformed "traces response" v)
  | some items => .ok (items.filterMap Trace.decode?)

/-! ## Parameters -/

def rangeFields (first last : UInt64) : List (String × Json) :=
  [("fromBlock", .str (Quantity.format first)), ("toBlock", .str (Quantity.format last))]

/-- The filter of a search for logs.  An empty list of addresses or topics is left out. -/
def logFilter (addresses topics : List String) (first last : UInt64) : Json :=
  .ofFields (rangeFields first last ++
    (if addresses.isEmpty then [] else [("address", .ofStrings addresses)]) ++
    (if topics.isEmpty then [] else [("topics", .arr [.ofStrings topics])]))

/-- The filter of a search for call frames. -/
def traceFilter (recipients : List String) (first last : UInt64) : Json :=
  .ofFields (rangeFields first last ++ [("toAddress", .ofStrings recipients)])

/-- The parameters of a look-up of a block, without its transactions. -/
def blockParams (hash : String) : List Json := [.str hash, .bool false]

/-- The parameters of a look-up of a transaction or a receipt. -/
def hashParams (hash : String) : List Json := [.str hash]

/-! ## The node -/

def blockMethod : String := "eth_getBlockByHash"

def transactionMethod : String := "eth_getTransactionByHash"

def receiptMethod : String := "eth_getTransactionReceipt"

/-- The node behind a transport, which takes at most `batchSize` calls at a time. -/
def node {τ : Type} (t : Transport τ) (batchSize : Nat) : Node (Client τ) where
  answer
    | .head, c =>
      let (o, c) := call t "eth_blockNumber" [] c
      ((o >>= Outcome.required "eth_blockNumber") >>= decodeHead, c)
    | .block hash, c =>
      let (o, c) := call t blockMethod (blockParams hash) c
      ((o >>= Outcome.optional blockMethod) >>= decodeOptional "block" Block.decode?, c)
    | .transaction hash, c =>
      let (o, c) := call t transactionMethod (hashParams hash) c
      ((o >>= Outcome.optional transactionMethod) >>=
        decodeOptional "transaction" Transaction.decode?, c)
    | .receipt hash, c =>
      let (o, c) := call t receiptMethod (hashParams hash) c
      ((o >>= Outcome.optional receiptMethod) >>= decodeOptional "receipt" Receipt.decode?, c)
    | .logs addresses topics first last, c =>
      let (o, c) := call t "eth_getLogs" [logFilter addresses topics first last] c
      ((o >>= Outcome.required "eth_getLogs") >>= decodeLogs, c)
    | .traces recipients first last, c =>
      let (o, c) := call t "trace_filter" [traceFilter recipients first last] c
      ((o >>= Outcome.required "trace_filter") >>= decodeTraces, c)
    | .blocks hashes, c =>
      let (vs, c) := callBatch t batchSize blockMethod (hashes.map blockParams) c
      (vs >>= fun vs => vs.mapM (decodeOptional "block" Block.decode?), c)
    | .transactions hashes, c =>
      let (vs, c) := callBatch t batchSize transactionMethod (hashes.map hashParams) c
      (vs >>= fun vs => vs.mapM (decodeOptional "transaction" Transaction.decode?), c)
    | .receipts hashes, c =>
      let (vs, c) := callBatch t batchSize receiptMethod (hashes.map hashParams) c
      (vs >>= fun vs => vs.mapM (decodeOptional "receipt" Receipt.decode?), c)

end ChainIndex.Rpc
