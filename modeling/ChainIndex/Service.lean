import ChainIndex.Indexer.Events
import ChainIndex.Indexer.Frames
import ChainIndex.Indexer.Reindex
import ChainIndex.Json.Record

/-!
# The service

What an index service is set up with: when blocks are final, which kind of network it follows, and how
many blocks it replays at a time.
-/

namespace ChainIndex

inductive Network where
  /-- Nodes report call frames. -/
  | l1
  /-- Call frames are not to be had; the contracts emit an event for each change. -/
  | l2
  deriving DecidableEq

namespace Network

def name : Network → String
  | l1 => "l1"
  | l2 => "l2"

/-- Reads a name or an alias, in letters of either case. -/
def parse (s : String) : Except Fault Network :=
  let s := Text.lower s
  if s = "l1" ∨ s = "traces" then .ok l1
  else if s = "l2" ∨ s = "events" then .ok l2
  else .error (.config ("unknown network mode '" ++ s ++ "'"))

def toJson (n : Network) : Json := .str n.name

/-- Reads a kind of network by its name. -/
def reader : Json.Reader Network :=
  .enumeration
    (fun s => if s = "l1" then some l1 else if s = "l2" then some l2 else none) fun _ => none

end Network

/-- The set-up of an index service. -/
structure Service where
  policy : ConfirmationPolicy
  network : Network
  chunkSize : UInt64
  deriving DecidableEq

namespace Service

def indexer (s : Service) : Indexer Bool :=
  match s.network with
  | .l1 => .frames s.policy
  | .l2 => .events s.policy

/-- Replays a range of blocks through the indexer for the network, by default in windows of the
service's size. -/
def reindex (s : Service) (fromBlock : UInt64) (toBlock chunkSize : Option UInt64)
    (addresses : Option (List String)) : Attempt Report :=
  let request : Request :=
    { fromBlock, toBlock, chunkSize := chunkSize.getD s.chunkSize, addresses }
  ExceptT.mk (Prod.fst <$> (s.indexer.replay request).start false)

end Service

end ChainIndex
