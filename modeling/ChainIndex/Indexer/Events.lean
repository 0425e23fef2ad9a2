import ChainIndex.Indexer.Basic

/-!
# The indexer of events

Looks for the events of safes.  Outside of exact mode it takes the events of any address, so that safes
not known yet are found too.  An event becomes an internal transaction from and to the address that
emitted it, with a marker that holds its first topic; events taken back by a reorganisation are left out.
-/

namespace ChainIndex.Indexer

open Chain (Element Log)
open Derived

/-- The first topics of the events worth decoding. -/
def eventTopics : List String := [
  -- SafeMultiSigTransaction
  "0x66753cd2356569ee081232e3be8909b950e0a76c1f8460c3a5e3c2be32b11bed",
  -- SafeModuleTransaction
  "0xb648d3644f584ed1c2232d53c46d87e693586486ad0d1175f8656013110b714e",
  -- SafeSetup
  "0x141df868a6331af528e38c83b7aa03edc19be66e37ae67f9285bf4f8e3c6a1a8",
  -- ExecutionSuccess
  "0x442e715f626346e8c54381002da614f62bee8d27386535b2521ec8540898556e",
  -- ExecutionFailure
  "0x23428b18acfb3ea64b08dc0c1d296ea9c09702c09083ca5272e64d115b687d23",
  -- AddedOwner
  "0x9465fa0c962cc76958e6373a993326400c1c94f8be2fe3a952adfa7f60b2ea26",
  -- RemovedOwner
  "0xf8d49fc529812e9a7c5c50e69c20f0dccc0db8fa95c98bc58cc9a4f1c1299eaf",
  -- ChangedThreshold
  "0x610f7ff2b304ae8903c3de74c60c6ab1f7d6226b3f52c5161905bb5ad4039c93"]

/-- The key of an event, which no frame has. -/
def eventKey (l : Log) : FrameKey := ⟨l.txHash, "log:" ++ toString l.logIndex.toNat⟩

def eventRow (l : Log) : InternalTx where
  key := eventKey l
  blockNumber := l.blockNumber
  sender := l.address
  recipient := some l.address
  value := "0"
  callType := some "event"
  data := l.data

def eventMarker? (l : Log) : Option Marker :=
  l.topic0.map fun topic => { key := eventKey l, selector := Text.lower topic, processed := false }

/-- What some elements are stored as; only logs are, unless they were taken back. -/
def eventRows (elements : List Element) : Rows :=
  let logs := (elements.filterMap Element.log?).filter fun l => !l.removed
  { rows := logs.map eventRow, markers := logs.filterMap eventMarker? }

/-- The indexer of events, whose state is whether it is in exact mode. -/
def events (policy : ConfirmationPolicy) : Indexer Bool where
  name := "safe-events"
  exact := id
  setExact := fun exact _ => exact
  find addresses first stop := do
    match bounds? first stop with
    | none => return []
    | some (first, last) =>
      let exact ← getThe Bool
      let logs ← (Query.logs (if exact then addresses else []) eventTopics first last).send
      return logs.map .log
  process elements := Attempt.keeping (store policy (eventRows elements))
  tracked := Attempt.keeping Access.safeContracts.perform

end ChainIndex.Indexer
