import ChainIndex.Chain.Basic
import ChainIndex.Text.Ascii

/-!
# What a search selects

A search for logs or call frames names a range of blocks, both ends included, and addresses, which are
compared without regard to the case of letters.
-/

namespace ChainIndex.Chain

def isAmong (addresses : List String) (address : String) : Bool :=
  addresses.any fun a => Text.eqIgnoringCase a address

/-- Whether a number lies in a range that includes both ends. -/
def inRange (first last n : UInt64) : Bool := first ≤ n && n ≤ last

/-- Whether a search selects a log.  An empty list of addresses or topics selects any. -/
def Log.isSelected (addresses topics : List String) (first last : UInt64) (l : Log) : Bool :=
  inRange first last l.blockNumber && (addresses.isEmpty || isAmong addresses l.address) &&
    (topics.isEmpty || l.topic0.any topics.contains)

/-- Whether a search selects a call frame: one that goes to one of the addresses. -/
def Trace.isSelected (recipients : List String) (first last : UInt64) (t : Trace) : Bool :=
  inRange first last t.blockNumber && t.recipient.any (isAmong recipients)

end ChainIndex.Chain
