/-!
# Hexadecimal quantities

Nodes write integers as hexadecimal numerals with an optional `0x` in front.  `parse?` reads one that
fits 64 bits, `toDecimal` rewrites one of up to 128 bits in decimal and leaves every other text as it
is, and `format` writes the numeral that is sent to a node.  One plus sign may stand in front of the
digits.
-/

namespace ChainIndex.Quantity

/-- The value of a hexadecimal digit of either case. -/
def digit? (c : Char) : Option Nat :=
  if '0' ≤ c ∧ c ≤ '9' then some (c.toNat - '0'.toNat)
  else if 'a' ≤ c ∧ c ≤ 'f' then some (c.toNat - 'a'.toNat + 10)
  else if 'A' ≤ c ∧ c ≤ 'F' then some (c.toNat - 'A'.toNat + 10)
  else none

/-- The digits without one leading `0x`. -/
def dropMark : List Char → List Char
  | '0' :: 'x' :: cs => cs
  | cs => cs

/-- The digits without one leading plus sign. -/
def dropPlus : List Char → List Char
  | '+' :: cs => cs
  | cs => cs

/-- The value of hexadecimal digits after a value already read, as long as it is below `limit`. -/
def foldDigits? (limit : Nat) : Nat → List Char → Option Nat
  | n, [] => some n
  | n, c :: cs =>
    match digit? c with
    | none => none
    | some d => if n * 16 + d < limit then foldDigits? limit (n * 16 + d) cs else none

/-- The value of one or more digits after an optional plus sign, if it is below `limit`. -/
def value? (limit : Nat) (cs : List Char) : Option Nat :=
  match dropPlus cs with
  | [] => none
  | ds => foldDigits? limit 0 ds

/-- The 64-bit word that a quantity names. -/
def parse? (s : String) : Option UInt64 := (value? UInt64.size (dropMark s.toList)).map UInt64.ofNat

/-- A quantity of up to 128 bits in decimal.  A lone mark stands for zero; what is no quantity, or
too large, stays as it is. -/
def toDecimal (s : String) : String :=
  match dropMark s.toList with
  | [] => "0"
  | cs =>
    match value? (1 <<< 128) cs with
    | some n => toString n
    | none => s

/-- The quantity that is sent to a node: small digits, no leading zeros, with the mark. -/
def format (n : UInt64) : String := String.ofList ('0' :: 'x' :: Nat.toDigits 16 n.toNat)

end ChainIndex.Quantity
