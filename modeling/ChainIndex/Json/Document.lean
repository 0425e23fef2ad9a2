import ChainIndex.Json.Value

/-!
# JSON documents

A `Document` is a JSON text as it was written: fields in their order, equal names included, strings
whose escapes name no character and numbers beyond the doubles kept as holes.  Only the parts that
somebody reads have to be readable: `Document.value?` reads all of it, within a limit of nesting, and
makes a canonical value.

`Document.parse` reads a text by the grammar of JSON, `Document.ofJson` takes a value for its own
document.
-/

namespace ChainIndex.Json

/-- A JSON text as written. -/
inductive Document where
  | null
  | bool (b : Bool)
  /-- A numeral, `none` if it is beyond the largest double. -/
  | num (n : Option Number)
  /-- A string, `none` if an escape names half of a surrogate pair. -/
  | str (s : Option String)
  | arr (items : List Document)
  | obj (fields : List (Option String × Document))

namespace Document

instance : Inhabited Document := ⟨.null⟩

/-! ## Reading all of a document -/

mutual

/-- The value of a document nested at most `depth` deep. -/
def value? : Nat → Document → Option Json
  | _, .null => some .null
  | _, .bool b => some (.bool b)
  | _, .num n => n.map .num
  | _, .str s => s.map .str
  | 0, .arr _ => none
  | depth + 1, .arr items => (items? depth items).map .arr
  | 0, .obj _ => none
  | depth + 1, .obj fields => (fields? depth fields).map ofFields

/-- The values of the items of an array. -/
def items? : Nat → List Document → Option (List Json)
  | _, [] => some []
  | depth, d :: rest => do
    let v ← value? depth d
    let vs ← items? depth rest
    return v :: vs

/-- The values of the fields of an object. -/
def fields? : Nat → List (Option String × Document) → Option (List (String × Json))
  | _, [] => some []
  | depth, (name, d) :: rest => do
    let name ← name
    let v ← value? depth d
    let vs ← fields? depth rest
    return (name, v) :: vs

end

mutual

/-- The document that says a given value. -/
def ofJson : Json → Document
  | .null => .null
  | .bool b => .bool b
  | .num n => .num (some n)
  | .str s => .str (some s)
  | .arr items => .arr (ofItems items)
  | .obj fields => .obj (ofFields fields)

def ofItems : List Json → List Document
  | [] => []
  | v :: rest => ofJson v :: ofItems rest

def ofFields : List (String × Json) → List (Option String × Document)
  | [] => []
  | (name, v) :: rest => (some name, ofJson v) :: ofFields rest

end

/-! ## Parsing -/

/-- The blanks of JSON. -/
def isSpace (c : Char) : Bool := c == ' ' || c == '\n' || c == '\t' || c == '\r'

/-- The rest of a text after its blanks. -/
def skipSpace (cs : List Char) : List Char := cs.dropWhile isSpace

def digit? (c : Char) : Option Nat :=
  if '0' ≤ c ∧ c ≤ '9' then some (c.toNat - '0'.toNat) else none

/-- The digits at the start of a text, and the rest. -/
def takeDigits : List Char → List Nat × List Char
  | [] => ([], [])
  | c :: cs =>
    match digit? c with
    | some d => let (ds, rest) := takeDigits cs; (d :: ds, rest)
    | none => ([], c :: cs)

/-- The digits before the point: a single zero, or digits that do not start with zero. -/
def takeWhole (cs : List Char) : Option (List Nat × List Char) :=
  match takeDigits cs with
  | ([], _) => none
  | ([0], rest) => some ([0], rest)
  | (0 :: _, _) => none
  | (ds, rest) => some (ds, rest)

/-- The fraction, if the text goes on with a point. -/
def takeFraction (d : Decimal) : List Char → Option (Decimal × List Char)
  | '.' :: cs =>
    match takeDigits cs with
    | ([], _) => none
    | (ds, rest) => some ({ d.addFraction ds with exact := false }, rest)
  | cs => some (d, cs)

/-- The value of decimal digits. -/
def ofDigits (ds : List Nat) : Nat := ds.foldl (fun n d => n * 10 + d) 0

/-- The power of ten, if the text goes on with one. -/
def takeExponent (d : Decimal) : List Char → Option (Decimal × List Char)
  | c :: cs =>
    if c = 'e' ∨ c = 'E' then
      let (sign, cs) := match cs with
        | '+' :: cs => (1, cs)
        | '-' :: cs => (-1, cs)
        | cs => ((1 : Int), cs)
      match takeDigits cs with
      | ([], _) => none
      | (ds, rest) => some ({ d with exponent := d.exponent + sign * ofDigits ds, exact := false }, rest)
    else some (d, c :: cs)
  | [] => some (d, [])

/-- A numeral without its minus sign. -/
def takeNumber (negative : Bool) (cs : List Char) : Option (Document × List Char) := do
  let (whole, cs) ← takeWhole cs
  let (d, cs) ← takeFraction (Decimal.addWhole { negative := negative } whole) cs
  let (d, cs) ← takeExponent d cs
  return (.num d.toNumber?, cs)

/-- A hexadecimal digit of either case. -/
def hexDigit? (c : Char) : Option Nat :=
  if '0' ≤ c ∧ c ≤ '9' then some (c.toNat - '0'.toNat)
  else if 'a' ≤ c ∧ c ≤ 'f' then some (c.toNat - 'a'.toNat + 10)
  else if 'A' ≤ c ∧ c ≤ 'F' then some (c.toNat - 'A'.toNat + 10)
  else none

/-- The four hexadecimal digits of an escape. -/
def takeHex4 : List Char → Option (Nat × List Char)
  | a :: b :: c :: d :: rest => do
    let a ← hexDigit? a
    let b ← hexDigit? b
    let c ← hexDigit? c
    let d ← hexDigit? d
    return (((a * 16 + b) * 16 + c) * 16 + d, rest)
  | _ => none

/-- A piece of a string literal: the character it names, a hole, or half of a surrogate pair that
awaits its other half. -/
inductive Piece where
  | char (c : Char)
  | high (unit : Nat)
  | hole

/-- What an escape by number stands for on its own. -/
def pieceOfUnit (n : Nat) : Piece :=
  if 0xD800 ≤ n ∧ n ≤ 0xDBFF then .high n
  else if 0xDC00 ≤ n ∧ n ≤ 0xDFFF then .hole
  else .char (Char.ofNat n)

/-- The character after a backslash. -/
def simpleEscape? (c : Char) : Option Char :=
  if c = '"' then some '"'
  else if c = '\\' then some '\\'
  else if c = '/' then some '/'
  else if c = 'b' then some (Char.ofNat 8)
  else if c = 'f' then some (Char.ofNat 12)
  else if c = 'n' then some '\n'
  else if c = 'r' then some '\r'
  else if c = 't' then some '\t'
  else none

/-- The rest of a string literal: its characters (`none` once there was a hole) up to the closing
quote.  `high` is the first half of a surrogate pair that was just read. -/
def takeString (high : Option Nat) : Nat → List Char → Option (Option (List Char) × List Char)
  | 0, _ => none
  | _, [] => none
  | fuel + 1, c :: cs =>
    if c = '\\' then
      match cs with
      | 'u' :: cs => do
        let (n, cs) ← takeHex4 cs
        match high with
        | some h =>
          let (text, rest) ← takeString none fuel cs
          if 0xDC00 ≤ n ∧ n ≤ 0xDFFF then
            let c := Char.ofNat (0x10000 + (h - 0xD800) * 0x400 + (n - 0xDC00))
            return (text.map (c :: ·), rest)
          else
            return (none, rest)
        | none =>
          match pieceOfUnit n with
          | .high h =>
            let (text, rest) ← takeString (some h) fuel cs
            return (text, rest)
          | .hole =>
            let (_, rest) ← takeString none fuel cs
            return (none, rest)
          | .char c =>
            let (text, rest) ← takeString none fuel cs
            return (text.map (c :: ·), rest)
      | e :: cs => do
        let c ← simpleEscape? e
        let (text, rest) ← takeString none fuel cs
        return (if high.isSome then none else text.map (c :: ·), rest)
      | [] => none
    else if c = '"' then
      some (if high.isSome then none else some [], cs)
    else if c.toNat < 0x20 then
      none
    else do
      let (text, rest) ← takeString none fuel cs
      return (if high.isSome then none else text.map (c :: ·), rest)

/-- A string literal after its opening quote. -/
def takeText (cs : List Char) : Option (Option String × List Char) := do
  let (text, rest) ← takeString none (cs.length + 1) cs
  return (text.map String.ofList, rest)

/-- The rest of a text that starts with the given word. -/
def dropWord : List Char → List Char → Option (List Char)
  | [], cs => some cs
  | w :: ws, c :: cs => if w = c then dropWord ws cs else none
  | _ :: _, [] => none

mutual

/-- A document at the start of a text, and the rest.  Each step uses up a character, so the length
of the text is fuel enough. -/
def takeDocument : Nat → List Char → Option (Document × List Char)
  | 0, _ => none
  | fuel + 1, cs =>
    match skipSpace cs with
    | 'n' :: cs => (dropWord ['u', 'l', 'l'] cs).map (.null, ·)
    | 't' :: cs => (dropWord ['r', 'u', 'e'] cs).map (.bool true, ·)
    | 'f' :: cs => (dropWord ['a', 'l', 's', 'e'] cs).map (.bool false, ·)
    | '"' :: cs => (takeText cs).map fun (s, rest) => (.str s, rest)
    | '-' :: cs => takeNumber true cs
    | '[' :: cs =>
      match skipSpace cs with
      | ']' :: rest => some (.arr [], rest)
      | cs => (takeItems fuel cs).map fun (items, rest) => (.arr items, rest)
    | '\x7b' :: cs =>
      match skipSpace cs with
      | '\x7d' :: rest => some (.obj [], rest)
      | cs => (takeFields fuel cs).map fun (fields, rest) => (.obj fields, rest)
    | cs => takeNumber false cs

/-- The items of an array up to its closing bracket. -/
def takeItems : Nat → List Char → Option (List Document × List Char)
  | 0, _ => none
  | fuel + 1, cs => do
    let (d, cs) ← takeDocument fuel cs
    match skipSpace cs with
    | ',' :: cs =>
      let (ds, rest) ← takeItems fuel cs
      return (d :: ds, rest)
    | ']' :: rest => return ([d], rest)
    | _ => none

/-- The fields of an object up to its closing brace. -/
def takeFields : Nat → List Char → Option (List (Option String × Document) × List Char)
  | 0, _ => none
  | fuel + 1, cs => do
    let .cons '"' cs := skipSpace cs | none
    let (name, cs) ← takeText cs
    let .cons ':' cs := skipSpace cs | none
    let (d, cs) ← takeDocument fuel cs
    match skipSpace cs with
    | ',' :: cs =>
      let (fs, rest) ← takeFields fuel cs
      return ((name, d) :: fs, rest)
    | '\x7d' :: rest => return ([(name, d)], rest)
    | _ => none

end

/-- The document that a text is, blanks around it apart. -/
def parse (text : String) : Option Document := do
  let cs := text.toList
  let (d, rest) ← takeDocument (2 * cs.length + 2) cs
  if (skipSpace rest).isEmpty then some d else none

end Document

/-- How deep a text may be nested where it is read. -/
def nestingLimit : Nat := 127

/-- The value that a text is. -/
def parse (text : String) : Option Json := do
  let d ← Document.parse text
  d.value? nestingLimit

end ChainIndex.Json
