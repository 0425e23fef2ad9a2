import ChainIndex.Json.Document

/-!
# Reading records

A `Reader` reads a document as a value of some type, within a limit of nesting.  `record` reads a
structure field by field, either from an object or from an array of its fields in their order.  In an
object a known field may stand only once, unknown fields are passed over unread, and an optional field
may be missing; in an array only fields with a default may be missing, at the end, and nothing may
follow the last field.
-/

namespace ChainIndex.Json

/-- A way to read documents nested at most so deep. -/
abbrev Reader (α : Type) := Nat → Document → Option α

namespace Reader

def text : Reader String
  | _, .str s => s
  | _, _ => none

/-- A truth value. -/
def bool : Reader Bool
  | _, .bool b => some b
  | _, _ => none

/-- An integer literal between `0` and `2^64 - 1`. -/
def uint64 : Reader UInt64
  | _, .num (some n) => n.toUInt64?
  | _, _ => none

/-- An integer literal between `0` and `2^32 - 1`. -/
def uint32 : Reader UInt32
  | _, .num (some n) => n.toUInt32?
  | _, _ => none

/-- An integer literal between `-2^63` and `2^63 - 1`. -/
def int64 : Reader Int64
  | _, .num (some n) => n.toInt64?
  | _, _ => none

/-- A count, written as an integer literal below `2^64`. -/
def count : Reader Nat := fun depth d => (uint64 depth d).map UInt64.toNat

/-- Any value. -/
def json : Reader Json := Document.value?

/-- What `r` reads, or `null`. -/
def nullable {α : Type} (r : Reader α) : Reader (Option α)
  | _, .null => some none
  | depth, d => (r depth d).map some

/-- An array of what `r` reads. -/
def list {α : Type} (r : Reader α) : Reader (List α)
  | depth + 1, .arr items => items.mapM (r depth)
  | _, _ => none

/-- The fields of an object, if all their names can be read. -/
def names? (fields : List (Option String × Document)) : Option (List (String × Document)) :=
  fields.mapM fun (name, d) => name.map (·, d)

/-- A map from texts to texts; of equal names the last one counts. -/
def textMap : Reader (List (String × String))
  | depth + 1, .obj fields => do
    let fields ← names? fields
    fields.mapM fun (name, d) => (text depth d).map (name, ·)
  | _, _ => none

/-- An enumeration: a name for a case without data (as a string, or as the only field of an object
with the value `null`), or an object whose only field names a case with data. -/
def enumeration {α : Type} (plain : String → Option α) (carrying : String → Option (Reader α)) :
    Reader α
  | _, .str (some name) => plain name
  | depth + 1, .obj [(some name, d)] =>
    match plain name, d with
    | some a, .null => some a
    | some _, _ => none
    | none, d => do
      let r ← carrying name
      r depth d
  | _, _ => none

end Reader

/-! ## Records -/

inductive FieldSource where
  | named (fields : List (String × Document))
  | listed (items : List Document)

/-- What is left to read of a record, and how deep its fields may be nested. -/
structure RecordState where
  depth : Nat
  source : FieldSource

/-- Reading the fields of a record one after the other. -/
abbrev RecordM := StateT RecordState Option

namespace RecordM

def occurrences (name : String) (fields : List (String × Document)) : List Document :=
  (fields.filter fun f => f.1 == name).map Prod.snd

/-- The next field.  `absent` is its value when an object lacks it, `missing` when an array ends
before it. -/
def field {α : Type} (name : String) (absent missing : Option α) (r : Reader α) : RecordM α :=
  fun s =>
    match s.source with
    | .named fields =>
      match occurrences name fields with
      | [] => absent.map (·, s)
      | [d] => (r s.depth d).map (·, s)
      | _ => none
    | .listed [] => missing.map (·, s)
    | .listed (d :: rest) => (r s.depth d).map (·, { s with source := .listed rest })

/-- A field that has to be there. -/
def required {α : Type} (name : String) (r : Reader α) : RecordM α := field name none none r

/-- A field that may be `null`, and that an object may lack. -/
def optional {α : Type} (name : String) (r : Reader α) : RecordM (Option α) :=
  field name (some none) none r.nullable

/-- A field with a value for when it is missing. -/
def defaulted {α : Type} (name : String) (value : α) (r : Reader α) : RecordM α :=
  field name (some value) (some value) r

end RecordM

/-- A record from an object or from an array of its fields. -/
def Reader.record {α : Type} (body : RecordM α) : Reader α
  | depth + 1, .obj fields => do
    let fields ← names? fields
    let (a, _) ← body ⟨depth, .named fields⟩
    return a
  | depth + 1, .arr items => do
    let (a, s) ← body ⟨depth, .listed items⟩
    match s.source with
    | .listed [] => some a
    | _ => none
  | _, _ => none

def Reader.ofText? {α : Type} (r : Reader α) (text : String) : Option α := do
  let d ← Document.parse text
  r nestingLimit d

mutual

/-- How deep a value is nested. -/
def depth : Json → Nat
  | .arr items => depthOfItems items + 1
  | .obj fields => depthOfFields fields + 1
  | _ => 0

/-- How deep the items of an array are nested. -/
def depthOfItems : List Json → Nat
  | [] => 0
  | v :: rest => max (depth v) (depthOfItems rest)

/-- How deep the fields of an object are nested. -/
def depthOfFields : List (String × Json) → Nat
  | [] => 0
  | (_, v) :: rest => max (depth v) (depthOfFields rest)

end

/-- Reads a value. -/
def Reader.ofJson? {α : Type} (r : Reader α) (v : Json) : Option α :=
  r v.depth (Document.ofJson v)

end ChainIndex.Json
