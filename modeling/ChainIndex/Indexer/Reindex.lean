import ChainIndex.Indexer.Basic
import ChainIndex.Json.Value

/-!
# Replaying a range of blocks

A range of blocks is replayed window by window through an indexer.  The windows lie side by side from the
first block on; the last one may reach beyond the end of the range.
-/

namespace ChainIndex

/-- How many blocks a window has unless somebody says otherwise. -/
def defaultChunkSize : UInt64 := 100

/-- A range of blocks to replay. -/
structure Request where
  fromBlock : UInt64
  /-- Where to stop; the head of the chain if absent or lower. -/
  toBlock : Option UInt64 := none
  chunkSize : UInt64 := defaultChunkSize
  /-- The addresses to look at; those that the indexer tracks if absent or empty. -/
  addresses : Option (List String) := none
  deriving DecidableEq

/-- What a replay did. -/
structure Report where
  indexer : String
  addresses : Nat
  chunks : Nat := 0
  elementsFound : Nat := 0
  elementsProcessed : Nat := 0
  stopBlock : UInt64 := 0
  deriving DecidableEq

/-- The record of what a replay did. -/
def Report.toJson (r : Report) : Json := .obj [
  ("indexer", .str r.indexer), ("addresses", .ofNat r.addresses), ("chunks", .ofNat r.chunks),
  ("elements_found", .ofNat r.elementsFound), ("elements_processed", .ofNat r.elementsProcessed),
  ("stop_block", .ofUInt64 r.stopBlock)]

namespace Request

/-- The size of the windows, if the request can make progress: the range must not end where it begins,
and the windows must not be empty. -/
def validate (r : Request) : Except Fault { size : UInt64 // 0 < size } := do
  if let some stop := r.toBlock then
    if stop ≤ r.fromBlock then
      throw (.invalidBlockRange r.fromBlock stop)
  if h : 0 < r.chunkSize then return ⟨r.chunkSize, h⟩
  throw .invalidChunkSize

/-- The addresses that the request names, if it names any. -/
def explicit? (r : Request) : Option (List String) := r.addresses.filter fun list => !list.isEmpty

/-- Where to stop when the chain has the given head. -/
def stopAt (r : Request) (head : UInt64) : UInt64 :=
  match r.toBlock with
  | none => head
  | some stop => min stop head

end Request

namespace Indexer

variable {ι : Type}

/-- The block one window further, or the last number there is. -/
def advance (cursor size : UInt64) : UInt64 :=
  if cursor.toNat + size.toNat < UInt64.size then cursor + size else UInt64.ofNat (UInt64.size - 1)

theorem toNat_advance (cursor size : UInt64) :
    (advance cursor size).toNat = min (cursor.toNat + size.toNat) (UInt64.size - 1) := by
  unfold advance
  split
  · rename_i h
    rw [UInt64.toNat_add, Nat.mod_eq_of_lt h]
    omega
  · have hlast : (UInt64.ofNat (UInt64.size - 1)).toNat = UInt64.size - 1 := rfl
    rw [hlast]
    omega

/-- Finds and stores the elements window by window until the cursor reaches the end. -/
def sweep (ix : Indexer ι) (addresses : List String) (stop : UInt64)
    (size : { size : UInt64 // 0 < size }) (cursor : UInt64) (report : Report) :
    StateAttempt ι Report :=
  if cursor < stop then do
    let next := advance cursor size
    let elements ← ix.find addresses cursor next
    let processed ← ix.process elements
    sweep ix addresses stop size next
      { report with
        chunks := report.chunks + 1
        elementsFound := report.elementsFound + elements.length
        elementsProcessed := report.elementsProcessed + processed }
  else
    pure report
termination_by stop.toNat - cursor.toNat
decreasing_by
  have hstop : stop.toNat < UInt64.size := stop.toNat_lt
  have hcursor : cursor.toNat < stop.toNat := ‹cursor < stop›
  have hsize : 0 < size.val.toNat := size.property
  simp only [toNat_advance]
  omega

/-- The addresses to look at; explicit ones put the indexer into exact mode. -/
def chooseAddresses (ix : Indexer ι) (r : Request) : StateAttempt ι (List String) := do
  match r.explicit? with
  | some list =>
    modifyThe ι (ix.setExact true)
    return list
  | none =>
    modifyThe ι (ix.setExact false)
    ix.tracked

/-- Replays a range of blocks.  Without addresses there is nothing to do. -/
def replay (ix : Indexer ι) (r : Request) : StateAttempt ι Report := do
  let size ← ExceptT.mk (pure r.validate)
  let addresses ← ix.chooseAddresses r
  let report : Report := { indexer := ix.name, addresses := addresses.length }
  if addresses.isEmpty then return report
  let head ← Query.head.send
  let stop := r.stopAt head
  ix.sweep addresses stop size r.fromBlock { report with stopBlock := stop }

end Indexer

end ChainIndex
