/-!
# What a node reports

Blocks, transactions, receipts, logs and call frames as a node answers them, and the elements (frames
or logs) that indexers look for.
-/

namespace ChainIndex.Chain

structure Block where
  number : UInt64
  hash : String
  parentHash : String
  /-- Seconds since the epoch. -/
  timestamp : Int64
  deriving DecidableEq

/-- A transaction.  Its place in a block is absent while it is pending. -/
structure Transaction where
  hash : String
  blockHash : Option String
  blockNumber : Option UInt64
  transactionIndex : Option UInt32
  sender : String
  /-- Absent when the transaction creates a contract. -/
  recipient : Option String
  /-- An amount of wei, in decimal. -/
  value : String
  gas : UInt64
  gasPrice : Option String
  nonce : UInt64
  input : String
  deriving DecidableEq

structure Log where
  address : String
  topics : List String
  data : String
  blockNumber : UInt64
  blockHash : String
  txHash : String
  logIndex : UInt32
  /-- A reorganisation took the log back. -/
  removed : Bool
  deriving DecidableEq

/-- The first topic of a log, which names its event. -/
def Log.topic0 (l : Log) : Option String := l.topics.head?

structure Receipt where
  transactionHash : String
  blockHash : Option String
  blockNumber : Option UInt64
  gasUsed : UInt64
  effectiveGasPrice : Option String
  status : Option UInt64
  logs : List Log
  deriving DecidableEq

/-- Whether the receipt names a block by hash and number. -/
def Receipt.isMined (r : Receipt) : Bool := r.blockHash.isSome && r.blockNumber.isSome

/-- The hash of the block that a mined receipt names. -/
def Receipt.minedIn? (r : Receipt) : Option String :=
  if r.blockNumber.isSome then r.blockHash else none

theorem Receipt.isSome_minedIn? (r : Receipt) : r.minedIn?.isSome = r.isMined := by
  unfold minedIn? isMined
  split <;> simp_all

/-- A call frame of a transaction. -/
structure Trace where
  txHash : String
  blockNumber : UInt64
  /-- The position in the call tree, such as `0,1,2`; empty for the outermost frame. -/
  traceAddress : String
  callType : Option String
  sender : String
  recipient : Option String
  value : String
  input : String
  error : Option String
  deriving DecidableEq

/-- One piece of chain data that an indexer can process. -/
inductive Element where
  | trace (t : Trace)
  | log (l : Log)
  deriving DecidableEq

namespace Element

/-- The transaction that the element belongs to. -/
def txHash : Element → String
  | .trace t => t.txHash
  | .log l => l.txHash

def blockNumber : Element → UInt64
  | .trace t => t.blockNumber
  | .log l => l.blockNumber

def trace? : Element → Option Trace
  | .trace t => some t
  | .log _ => none

def log? : Element → Option Log
  | .log l => some l
  | .trace _ => none

end Element

end ChainIndex.Chain
