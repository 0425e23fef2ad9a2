import ChainIndex.Json.Number

/-!
# JSON values

`Json` is a value: an object is a list of fields.  `ofFields` brings the fields of a text into their
canonical form, sorted by name with the last of equal names kept; `get` looks a field up and answers
`null` for whatever is not there, so that lookups can be chained.
-/

namespace ChainIndex

inductive Json where
  | null
  | bool (b : Bool)
  | num (n : Json.Number)
  | str (s : String)
  | arr (items : List Json)
  | obj (fields : List (String × Json))

namespace Json

instance : Inhabited Json := ⟨.null⟩

/-- The field of the given name in a list of fields, `null` if there is none. -/
def lookup (name : String) : List (String × Json) → Json
  | [] => .null
  | (key, v) :: rest => if key = name then v else lookup name rest

/-- The field of an object; `null` for a missing field and for what is no object. -/
def get (v : Json) (name : String) : Json :=
  match v with
  | .obj fields => lookup name fields
  | _ => .null

def str? : Json → Option String
  | .str s => some s
  | _ => none

/-- The truth value of a boolean. -/
def bool? : Json → Option Bool
  | .bool b => some b
  | _ => none

/-- The items of an array. -/
def arr? : Json → Option (List Json)
  | .arr items => some items
  | _ => none

/-- The value of a number that is an unsigned 64-bit integer. -/
def uint64? : Json → Option UInt64
  | .num n => n.toUInt64?
  | _ => none

def isNull : Json → Bool
  | .null => true
  | _ => false

/-- Puts a field into a list of fields sorted by name, in place of one of the same name. -/
def putField (name : String) (v : Json) : List (String × Json) → List (String × Json)
  | [] => [(name, v)]
  | (key, w) :: rest =>
    match compare name key with
    | .lt => (name, v) :: (key, w) :: rest
    | .eq => (name, v) :: rest
    | .gt => (key, w) :: putField name v rest

/-- The object with the given fields, sorted by name; of equal names the last one counts. -/
def ofFields (fields : List (String × Json)) : Json :=
  .obj (fields.foldl (fun acc f => putField f.1 f.2 acc) [])

/-! ## Values of other types -/

/-- An unsigned integer as a value. -/
def ofNat (n : Nat) : Json := .num (.int n)

/-- A 64-bit word as a value. -/
def ofUInt64 (n : UInt64) : Json := ofNat n.toNat

/-- A 32-bit word as a value. -/
def ofUInt32 (n : UInt32) : Json := ofNat n.toNat

/-- A signed 64-bit integer as a value. -/
def ofInt64 (n : Int64) : Json := .num (.int n.toInt)

/-- An optional value, `null` when absent. -/
def ofOption {α : Type} (f : α → Json) : Option α → Json
  | none => .null
  | some a => f a

def ofList {α : Type} (f : α → Json) (xs : List α) : Json := .arr (xs.map f)

def ofStrings (xs : List String) : Json := ofList .str xs

end Json

end ChainIndex
