import ChainIndex.Proofs.Resolve.Snapshot
import ChainIndex.Proofs.Store.Simulation
import ChainIndex.Reprocess
import ChainIndex.Service

/-!
# Operations on a service and its store

An `Operation` is something that is done with an index service and its store as a whole, be it through the
engine or, for what refers to no other row, through the store itself.  `Storage.Reachable` are the stores
that operations lead to from an empty one, whether they succeed or fail, whatever the node answers.
-/

namespace ChainIndex

/-- Whether an access is open to everybody: it writes no transaction that is linked to a block, and
neither internal transactions nor markers for them. -/
def Access.isFree : Access → Bool
  | .createTransaction .. => false
  | .linkTransaction .. => false
  | .insertInternal .. => false
  | _ => true

/-- Something that is done with a service and its store. -/
inductive Operation where
  | block (hash : String)
  | transaction (hash : String)
  | transactions (hashes : List String)
  | confirmBlocks
  /-- Stores elements through the indexer of a kind of network. -/
  | process (network : Network) (exact : Bool) (elements : List Chain.Element)
  /-- Replays a range of blocks through the indexer of a kind of network. -/
  | replay (network : Network) (exact : Bool) (request : Request)
  | reindex (fromBlock : UInt64) (toBlock chunkSize : Option UInt64) (addresses : Option (List String))
  | reprocess (addresses : List String)
  | reprocessAll
  | access (a : Access) (free : a.isFree = true)

namespace Operation

/-- What an operation answers. -/
abbrev Reply : Operation → Type
  | block _ => Ledger.Block
  | transaction _ => Ledger.Transaction
  | transactions _ => List Ledger.Transaction
  | confirmBlocks => Nat
  | process .. => Nat
  | replay .. => Report
  | reindex .. => Report
  | reprocess _ => Derived.Summary
  | reprocessAll => Derived.Summary
  | access a _ => a.Reply

/-- What an operation does. -/
def attempt (s : Service) : (o : Operation) → Attempt o.Reply
  | block hash => Resolve.block s.policy hash
  | transaction hash => Resolve.transaction s.policy hash
  | transactions hashes => Resolve.transactions s.policy hashes
  | confirmBlocks => Resolve.confirmBlocks s.policy
  | process network exact elements =>
    ExceptT.mk (Prod.fst <$> ({ s with network }.indexer.process elements).start exact)
  | replay network exact request =>
    ExceptT.mk (Prod.fst <$> ({ s with network }.indexer.replay request).start exact)
  | reindex fromBlock toBlock chunkSize addresses => s.reindex fromBlock toBlock chunkSize addresses
  | reprocess addresses => Reprocess.addresses addresses
  | reprocessAll => Reprocess.all
  | access a _ => a.perform

variable {ν : Type}

/-- The answer to an operation on a store, with the states that it leaves behind. -/
def run (o : Operation) (s : Service) (node : Node ν) (w : Routine.World ν Storage) :
    Except Fault o.Reply × Routine.World ν Storage :=
  (o.attempt s).run.run node Storage.store w

/-- What happens in an operation. -/
def history (o : Operation) (s : Service) (node : Node ν) (w : Routine.World ν Storage) : List Event :=
  (o.attempt s).run.history node Storage.store w

/-- What the node answers in an operation. -/
def heard (o : Operation) (s : Service) (node : Node ν) (w : Routine.World ν Storage) : Answers :=
  (o.attempt s).run.heard node Storage.store w

end Operation

namespace Storage

/-- What an open store answers to an access. -/
def answer (s : Storage) (a : Access) : Except Fault a.Reply := (store.perform (.access a) s).1

/-- An open store after an access. -/
def after (s : Storage) (a : Access) : Storage := (store.perform (.access a) s).2

/-- The derived tables of an open store. -/
def derived : Storage → Derived.Tables
  | .memory s => s.live.derived
  | .database _ s => s.live.derived

/-- The stores that operations lead to from an empty one. -/
inductive Reachable : Storage → Prop
  | memory : Reachable .inMemory
  | database (path? : Option String) : Reachable (.database path? { live := {} })
  | step {s : Storage} (h : Reachable s) (service : Service) (o : Operation) {ν : Type} (node : Node ν)
    (n : ν) : Reachable (o.run service node ⟨n, s⟩).2.store
  /-- A database that is closed is opened again. -/
  | reopen {path? : Option String} {s : Session Relational} (h : Reachable (.database path? s)) :
    Reachable (.database path? { live := s.live })

theorem derived_eq {s : Storage} {t : Session Memory} (h : s.Represents t) :
    s.derived = t.live.derived := by
  cases s with
  | memory s => exact congrArg Memory.derived h.live
  | database path? s => exact h.live.derived

/-- Looking up a transaction always works, and finds what the tables hold that the store stands for. -/
theorem answer_getTransaction {s : Storage} {t : Session Memory} (h : s.Represents t) (hash : String) :
    s.answer (.getTransaction hash) = .ok (t.live.transactions.get? hash) := by
  cases s with
  | memory s => exact congrArg (fun m => Except.ok (m.transactions.get? hash)) h.live
  | database path? s => exact h.live.getTransaction hash

theorem answer_getBlock {s : Storage} {t : Session Memory} (h : s.Represents t) (hash : String) :
    s.answer (.getBlock hash) = .ok (t.live.blocks.get? hash) := by
  cases s with
  | memory s => exact congrArg (fun m => Except.ok (m.blocks.get? hash)) h.live
  | database path? s => exact congrArg Except.ok (h.live.getBlock hash)

end Storage

/-! ## A small chain -/

/-- The node that reports the same transaction and receipt for every hash, and the same block under every
hash. -/
def Node.steady (head : UInt64) (b : Chain.Block) (t : Chain.Transaction) (r : Chain.Receipt) :
    Node Unit where
  answer
    | .head, s => (.ok head, s)
    | .block hash, s => (.ok (some { b with hash }), s)
    | .transaction _, s => (.ok (some t), s)
    | .receipt _, s => (.ok (some r), s)
    | .logs .., s => (.ok [], s)
    | .traces .., s => (.ok [], s)
    | .blocks hashes, s => (.ok (hashes.map fun hash => some { b with hash }), s)
    | .transactions hashes, s => (.ok (hashes.map fun _ => some t), s)
    | .receipts hashes, s => (.ok (hashes.map fun _ => some r), s)

namespace Node

variable {head : UInt64} {b : Chain.Block} {t : Chain.Transaction} {r : Chain.Receipt} {hash : String}

theorem eq_of_tellsBlock_steady {c : Chain.Block}
    (h : (steady head b t r).answers.TellsBlock hash c) : c = { b with hash } := by
  rcases h with ⟨_, h⟩ | ⟨hashes, replies, ⟨_, h⟩, hmem⟩
  · cases h
    rfl
  · cases h
    exact Option.some.inj (Resolve.eq_of_mem_entries_map hmem)

theorem eq_of_tellsTransaction_steady {t' : Chain.Transaction}
    (h : (steady head b t r).answers.TellsTransaction hash t') : t' = t := by
  rcases h with ⟨_, h⟩ | ⟨hashes, replies, ⟨_, h⟩, hmem⟩
  · cases h
    rfl
  · cases h
    exact Option.some.inj (Resolve.eq_of_mem_entries_map hmem)

theorem eq_of_tellsReceipt_steady {r' : Chain.Receipt}
    (h : (steady head b t r).answers.TellsReceipt hash r') : r' = r := by
  rcases h with ⟨_, h⟩ | ⟨hashes, replies, ⟨_, h⟩, hmem⟩
  · cases h
    rfl
  · cases h
    exact Option.some.inj (Resolve.eq_of_mem_entries_map hmem)

theorem namesBlocks_steady (head : UInt64) (b : Chain.Block) (t : Chain.Transaction)
    (r : Chain.Receipt) : (steady head b t r).answers.NamesBlocks := by
  intro hash c hc
  rw [eq_of_tellsBlock_steady hc]

end Node

namespace Sample

/-- A block of a small chain. -/
def block : Chain.Block where
  number := 7
  hash := "0xb7"
  parentHash := "0xb6"
  timestamp := 1700000000

/-- The transaction in the block. -/
def transaction : Chain.Transaction where
  hash := "0xaa"
  blockHash := some "0xb7"
  blockNumber := some 7
  transactionIndex := some 3
  sender := "0x01"
  recipient := some "0x02"
  value := "5"
  gas := 30000
  gasPrice := some "2"
  nonce := 9
  input := "0x"

/-- The receipt of the transaction. -/
def receipt : Chain.Receipt where
  transactionHash := "0xaa"
  blockHash := some "0xb7"
  blockNumber := some 7
  gasUsed := 21000
  effectiveGasPrice := some "1"
  status := some 1
  logs := []

/-- A receipt of the transaction from another block. -/
def forkedReceipt : Chain.Receipt :=
  { receipt with blockHash := some "0xb6", blockNumber := some 6 }

/-- The row that the transaction is stored as. -/
def row : Ledger.Transaction := .mined transaction receipt (.ofChain block true)

/-- A node that reports the chain. -/
def node : Node Unit := .steady 20 block transaction receipt

/-- What a node that knows nothing else reports. -/
def snapshot : Snapshot where
  head := .ok 20
  block hash := .ok (if hash = "0xb7" then some block else none)
  transaction hash := .ok (if hash = "0xaa" then some transaction else none)
  receipt hash := .ok (if hash = "0xaa" then some receipt else none)

/-- A service that follows the chain. -/
def service : Service where
  policy := ⟨10⟩
  network := .l2
  chunkSize := 100

/-- An event of the transaction, reported with a blank before the hash. -/
def log : Chain.Log where
  address := "0x05"
  topics := ["0x66"]
  data := "0x"
  blockNumber := 7
  blockHash := "0xb7"
  txHash := " 0xaa"
  logIndex := 0
  removed := false

/-- A store in which the event was stored. -/
def processed : Storage :=
  ((Operation.process .l2 false [.log log]).run service node ⟨(), .inMemory⟩).2.store

end Sample

end ChainIndex
