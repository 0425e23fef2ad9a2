import ChainIndex.Indexer.Basic

/-!
# The indexer of call frames

Looks for the calls that go to master copies.  A frame becomes an internal transaction; a delegated call
that succeeded also gets a marker with the first four bytes of its input.
-/

namespace ChainIndex.Indexer

open Chain (Element Trace)
open Derived

/-- The characters that make up the first `n` bytes of a text, if that many bytes end with a
character. -/
def takeBytes? : Nat → List Char → Option (List Char)
  | 0, _ => some []
  | _ + 1, [] => none
  | n + 1, c :: cs =>
    if c.utf8Size ≤ n + 1 then (takeBytes? (n + 1 - c.utf8Size) cs).map (c :: ·) else none
termination_by _ cs => cs.length

/-- The length of four bytes in hexadecimal digits with the mark in front. -/
def selectorLength : Nat := 10

/-- The first four bytes of a frame's input, in small letters. -/
def selector? (input : String) : Option String :=
  (takeBytes? selectorLength input.toList).map fun cs => Text.lower (String.ofList cs)

def frameKey (t : Trace) : FrameKey := ⟨t.txHash, t.traceAddress⟩

def frameRow (t : Trace) : InternalTx where
  key := frameKey t
  blockNumber := t.blockNumber
  sender := t.sender
  recipient := t.recipient
  value := t.value
  callType := t.callType
  data := t.input

/-- The marker of a frame, if it is a delegated call that succeeded. -/
def frameMarker? (t : Trace) : Option Marker :=
  if t.callType = some "delegatecall" && t.error.isNone then
    (selector? t.input).map fun selector => { key := frameKey t, selector, processed := false }
  else none

/-- What some elements are stored as; only frames are. -/
def frameRows (elements : List Element) : Rows :=
  let traces := elements.filterMap Element.trace?
  { rows := traces.map frameRow, markers := traces.filterMap frameMarker? }

/-- The indexer of call frames.  A search is always for the given addresses, so it is in exact mode
whatever is asked of it. -/
def frames (policy : ConfirmationPolicy) : Indexer Bool where
  name := "internal-txs"
  exact := fun _ => true
  setExact := fun _ s => s
  find addresses first stop :=
    match bounds? first stop with
    | none => pure []
    | some (first, last) => do
      let traces ← (Query.traces addresses first last).send
      return traces.map .trace
  process elements := Attempt.keeping (store policy (frameRows elements))
  tracked := Attempt.keeping Access.masterCopies.perform

end ChainIndex.Indexer
