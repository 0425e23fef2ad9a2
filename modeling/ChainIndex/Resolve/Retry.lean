import ChainIndex.Effect.Routine

/-!
# Asking once more

A node may lag behind: what it does not know yet, or reports without a block, is asked for once more.
Each function takes the first answer and settles on it, on the second answer, or on a fault.
-/

namespace ChainIndex.Resolve

open Chain

/-- A receipt with the hash of the block that it names, if it is mined. -/
def minedReceipt? (r : Receipt) : Option (Receipt × String) := r.minedIn?.map (r, ·)

/-- A transaction with the hash of the block that it names, if it names one. -/
def minedTransaction? (t : Transaction) : Option (Transaction × String) := t.blockHash.map (t, ·)

/-- Settles on the mined receipt of a transaction. -/
def settleReceipt (hash : String) (first : Option Receipt) : Attempt (Receipt × String) :=
  match first.bind minedReceipt? with
  | some found => pure found
  | none => do
    match ← (Query.receipt hash).send with
    | none => throw (.transactionNotFound hash)
    | some r =>
      match minedReceipt? r with
      | some found => pure found
      | none => throw (.transactionWithoutBlock hash)

/-- Settles on a transaction that names its block. -/
def settleTransaction (hash : String) (first : Option Transaction) : Attempt (Transaction × String) :=
  match first.bind minedTransaction? with
  | some found => pure found
  | none => do
    match ← (Query.transaction hash).send with
    | none => throw (.transactionNotFound hash)
    | some t =>
      match minedTransaction? t with
      | some found => pure found
      | none => throw (.transactionWithoutBlock hash)

def settleBlock (hash : String) (first : Option Block) : Attempt Block :=
  match first with
  | some b => pure b
  | none => do
    match ← (Query.block hash).send with
    | some b => pure b
    | none => throw (.blockNotFound hash)

end ChainIndex.Resolve
