import ChainIndex.Fault
import ChainIndex.Json.Record
import ChainIndex.Text.Decimal

/-!
# Remote calls

A `Call` is sent to the node under a number, and the node's `Reply` names that number.  All that matters of a
reply is its `Outcome`: a result, none, or a refusal.  The replies of a batch are matched to their calls by
number; of several replies to one call the last counts, and none is used twice.
-/

namespace ChainIndex.Rpc

open Json

/-- A call of a method of the node. -/
structure Call where
  id : UInt64
  method : String
  params : List Json

def Call.toJson (c : Call) : Json := .obj [
  ("jsonrpc", .str "2.0"), ("id", ofUInt64 c.id), ("method", .str c.method),
  ("params", .arr c.params)]

/-- Why the node refused a call. -/
structure Refusal where
  code : Int64
  message : String
  data : Option Json

def Refusal.description (r : Refusal) : String :=
  "code " ++ toString r.code.toInt ++ ": " ++ r.message

def Refusal.reader : Reader Refusal := .record do
  let code ← .required "code" .int64
  let message ← .required "message" .text
  let data ← .defaulted "data" none (Reader.nullable .json)
  return { code, message, data }

/-- What a call came to. -/
inductive Outcome where
  | found (v : Json)
  /-- There is no result, or no reply at all. -/
  | absent
  | failed (r : Refusal)

namespace Outcome

/-- The result, if there is one; a refusal is a fault. -/
def optional (method : String) : Outcome → Except Fault (Option Json)
  | found v => .ok (some v)
  | absent => .ok none
  | failed r => .error (.rpc (method ++ ": " ++ r.description))

/-- The result of a method that always has one. -/
def required (method : String) (o : Outcome) : Except Fault Json := do
  match ← o.optional method with
  | some v => return v
  | none => throw (.rpc (method ++ ": empty result"))

end Outcome

structure Reply where
  id : Json
  result : Json
  error : Option Refusal

namespace Reply

/-- Reads a reply, of which any field may be missing. -/
def reader : Reader Reply := .record do
  let id ← .defaulted "id" .null .json
  let result ← .defaulted "result" .null .json
  let error ← .defaulted "error" none (Reader.nullable Refusal.reader)
  return { id, result, error }

/-- The number of the call that the reply is for, which may be spelled as a text. -/
def id? (r : Reply) : Option UInt64 :=
  match r.id with
  | .num n => n.toUInt64?
  | .str s => Text.word? s
  | _ => none

/-- What the call came to.  A refusal counts before a result. -/
def outcome (r : Reply) : Outcome :=
  match r.error, r.result with
  | some refusal, _ => .failed refusal
  | none, .null => .absent
  | none, v => .found v

end Reply

/-- What the call of a number came to, and the replies that are left for other calls. -/
def take (replies : List Reply) (id : UInt64) : Outcome × List Reply :=
  let own := replies.filter fun r => r.id? = some id
  ((own.getLast?.map Reply.outcome).getD .absent, replies.filter fun r => r.id? ≠ some id)

/-- What the calls of some numbers came to, taken one after the other. -/
def takeAll (replies : List Reply) : List UInt64 → List Outcome
  | [] => []
  | id :: ids =>
    let (outcome, rest) := take replies id
    outcome :: takeAll rest ids

end ChainIndex.Rpc
