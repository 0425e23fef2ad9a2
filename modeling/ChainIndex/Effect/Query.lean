import ChainIndex.Chain.Basic
import ChainIndex.Fault

/-!
# Questions to a node

A `Query` is a question to a node and `Query.Reply` the type of its answer.  A node that knows nothing
of what it is asked for answers `none`; it fails only when it cannot be reached or understood.

A `Node` answers questions out of a state of its own.  `Node.sequential` answers a question about many
hashes by asking for one after the other.
-/

namespace ChainIndex

/-- A question to a node.  Ranges of blocks include both ends. -/
inductive Query where
  /-- The number of the newest block. -/
  | head
  | block (hash : String)
  | transaction (hash : String)
  | receipt (hash : String)
  /-- The logs of some addresses whose first topic is one of some topics; no addresses mean any
  address, no topics any topic. -/
  | logs (addresses topics : List String) (first last : UInt64)
  /-- The call frames that go to some addresses. -/
  | traces (recipients : List String) (first last : UInt64)
  | blocks (hashes : List String)
  | transactions (hashes : List String)
  | receipts (hashes : List String)
  deriving DecidableEq

/-- The answer to a question; for many hashes one entry for each, in their order. -/
abbrev Query.Reply : Query → Type
  | head => UInt64
  | block _ => Option Chain.Block
  | transaction _ => Option Chain.Transaction
  | receipt _ => Option Chain.Receipt
  | logs .. => List Chain.Log
  | traces .. => List Chain.Trace
  | blocks _ => List (Option Chain.Block)
  | transactions _ => List (Option Chain.Transaction)
  | receipts _ => List (Option Chain.Receipt)

/-- A node, whose answers may depend on a state. -/
structure Node (ν : Type) where
  answer : (q : Query) → ν → Except Fault q.Reply × ν

namespace Node

variable {ν : Type}

/-- Asks for one hash after the other, up to the first failure. -/
def each {α : Type} (ask : String → ν → Except Fault α × ν) :
    List String → ν → Except Fault (List α) × ν
  | [], s => (.ok [], s)
  | hash :: rest, s =>
    match ask hash s with
    | (.error e, s) => (.error e, s)
    | (.ok a, s) =>
      match each ask rest s with
      | (.error e, s) => (.error e, s)
      | (.ok as, s) => (.ok (a :: as), s)

/-- The node that looks many hashes up one by one. -/
def sequential (n : Node ν) : Node ν where
  answer
    | .blocks hashes, s => each (fun h => n.answer (.block h)) hashes s
    | .transactions hashes, s => each (fun h => n.answer (.transaction h)) hashes s
    | .receipts hashes, s => each (fun h => n.answer (.receipt h)) hashes s
    | .head, s => n.answer .head s
    | .block hash, s => n.answer (.block hash) s
    | .transaction hash, s => n.answer (.transaction hash) s
    | .receipt hash, s => n.answer (.receipt hash) s
    | .logs addresses topics first last, s => n.answer (.logs addresses topics first last) s
    | .traces recipients first last, s => n.answer (.traces recipients first last) s

end Node

end ChainIndex
