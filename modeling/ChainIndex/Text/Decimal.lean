/-!
# Decimal words

Reads an unsigned 64-bit integer in decimal: one or more digits after an optional plus sign.
-/

namespace ChainIndex.Text

def decimalDigit? (c : Char) : Option Nat :=
  if '0' ≤ c ∧ c ≤ '9' then some (c.toNat - '0'.toNat) else none

/-- The value of decimal digits after a value already read, as long as it is below `limit`. -/
def foldDecimal? (limit : Nat) : Nat → List Char → Option Nat
  | n, [] => some n
  | n, c :: cs => do
    let d ← decimalDigit? c
    if n * 10 + d < limit then foldDecimal? limit (n * 10 + d) cs else none

/-- The digits without one leading plus sign. -/
def dropSign : List Char → List Char
  | '+' :: cs => cs
  | cs => cs

/-- The unsigned 64-bit integer that a text is. -/
def word? (s : String) : Option UInt64 :=
  match dropSign s.toList with
  | [] => none
  | cs => (foldDecimal? UInt64.size 0 cs).map UInt64.ofNat

end ChainIndex.Text
