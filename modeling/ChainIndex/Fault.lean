/-!
# Faults

What can go wrong while indexing, and the text that reports it.
-/

namespace ChainIndex

/-- The causes of a failed operation. -/
inductive Fault where
  /-- The node has no record of the transaction or of its receipt, even when asked again. -/
  | transactionNotFound (hash : String)
  /-- The transaction exists but is in no block yet. -/
  | transactionWithoutBlock (hash : String)
  /-- A block could not be found. -/
  | blockNotFound (hash : String)
  /-- The store has a row for the transaction already. -/
  | duplicateTransaction (hash : String)
  /-- A range of blocks that ends where it begins, or before. -/
  | invalidBlockRange (start stop : UInt64)
  /-- Windows of no blocks. -/
  | invalidChunkSize
  | rpc (text : String)
  | storage (text : String)
  | config (text : String)
  | other (text : String)
  deriving DecidableEq

namespace Fault

def message : Fault → String
  | transactionNotFound hash => "Cannot find transaction with tx-hash=" ++ hash
  | transactionWithoutBlock hash => "Cannot find block for transaction with tx-hash=" ++ hash
  | blockNotFound hash => "Block with hash=" ++ hash ++ " was not found"
  | duplicateTransaction hash => "Transaction with tx-hash=" ++ hash ++ " already exists"
  | invalidBlockRange start stop =>
    "Invalid block range: to_block " ++ toString stop.toNat ++ " must be greater than from_block " ++
      toString start.toNat
  | invalidChunkSize => "Chunk size must be greater than zero"
  | rpc text => "RPC error: " ++ text
  | storage text => "Storage error: " ++ text
  | config text => "Configuration error: " ++ text
  | other text => text

/-- Whether a row of the same key stood in the way. -/
def isDuplicate : Fault → Bool
  | duplicateTransaction _ => true
  | _ => false

/-- Whether the transaction is known and still pending, so that trying again later may help. -/
def isPending : Fault → Bool
  | transactionWithoutBlock _ => true
  | _ => false

/-- Whether the request was refused before any work began. -/
def isPrecondition : Fault → Bool
  | invalidBlockRange .. => true
  | invalidChunkSize => true
  | _ => false

end Fault

end ChainIndex
