/-!
# Numbers of JSON texts

A number is an integer between `-2^63` and `2^64 - 1`, or else a double, kept as its bits.  `Decimal`
holds what a numeral says (sign, significand, power of ten) and `Decimal.toNumber?` reads it: the
significand is a 64-bit word whose excess digits are dropped, and a fraction, an exponent or an
excess digit makes the number a double.  `Double.text` writes a double with the fewest digits that
read back.
-/

namespace ChainIndex.Json

/-- A number: a machine integer, or a double given by its bits. -/
inductive Number where
  | int (n : Int)
  | double (bits : UInt64)
  deriving DecidableEq

/-- One more than the largest unsigned 64-bit integer. -/
def wordLimit : Nat := UInt64.size

namespace Number

/-- The number as an unsigned 64-bit integer, if it is one. -/
def toUInt64? : Number → Option UInt64
  | .int n => if 0 ≤ n ∧ n < wordLimit then some (UInt64.ofNat n.toNat) else none
  | .double _ => none

/-- The number as an unsigned 32-bit integer, if it is one. -/
def toUInt32? : Number → Option UInt32
  | .int n => if 0 ≤ n ∧ n < UInt32.size then some (UInt32.ofNat n.toNat) else none
  | .double _ => none

/-- The number as a signed 64-bit integer, if it is one. -/
def toInt64? : Number → Option Int64
  | .int n => if Int64.minValue.toInt ≤ n ∧ n ≤ Int64.maxValue.toInt then some (Int64.ofInt n) else none
  | .double _ => none

end Number

/-! ## Reading a numeral -/

/-- What a numeral says: `(-1)^negative * significand * 10^exponent`.  `exact` tells that it had
neither a fraction, an exponent nor a dropped digit. -/
structure Decimal where
  negative : Bool := false
  significand : Nat := 0
  exponent : Int := 0
  exact : Bool := true

namespace Decimal

/-- Whether one more digit still fits the significand's word. -/
def fits (significand digit : Nat) : Bool := significand * 10 + digit < wordLimit

/-- The digits before the point.  From the first digit that does not fit on, digits only raise the
exponent. -/
def addWhole (d : Decimal) : List Nat → Decimal
  | [] => d
  | n :: ns =>
    if d.exact && fits d.significand n then
      addWhole { d with significand := d.significand * 10 + n } ns
    else
      addWhole { d with exponent := d.exponent + 1, exact := false } ns

/-- The digits after the point, up to the first that does not fit. -/
def addFraction (d : Decimal) : List Nat → Decimal
  | [] => d
  | n :: ns =>
    if fits d.significand n then
      addFraction { d with significand := d.significand * 10 + n, exponent := d.exponent - 1 } ns
    else
      d

def powerOfTen (n : Nat) : Float := Float.ofScientific 1 false n

/-- `f * 10^exponent`, by one multiplication or division; exponents below `-308` are worked off in
steps.  There is no result beyond the largest double. -/
def scale? (f : Float) (exponent : Int) : Option Float :=
  if exponent.natAbs ≤ 308 then
    if 0 ≤ exponent then
      let g := f * powerOfTen exponent.natAbs
      if g.isInf then none else some g
    else
      some (f / powerOfTen exponent.natAbs)
  else if f == 0 then
    some f
  else if 0 ≤ exponent then
    none
  else
    scale? (f / powerOfTen 308) (exponent + 308)
termination_by exponent.natAbs

/-- The number that a numeral stands for; `none` beyond the largest double. -/
def toNumber? (d : Decimal) : Option Number :=
  let integer : Int := if d.negative then -d.significand else d.significand
  if d.exact && (if d.negative then integer < 0 && Int64.minValue.toInt ≤ integer else true) then
    some (.int integer)
  else
    (scale? (UInt64.ofNat d.significand).toFloat d.exponent).map fun f =>
      .double (if d.negative then -f else f).toBits

end Decimal

/-! ## Writing a double -/

/-- The fewest decimal digits of a double: it is near `0.d₁d₂… * 10^point`. -/
structure Digits where
  digits : List Nat
  point : Int

namespace Double

def isNegative (bits : UInt64) : Bool := bits >>> 63 == 1

/-- The 52 bits of the fraction. -/
def fractionField (bits : UInt64) : Nat := bits.toNat % (1 <<< 52)

/-- The 11 bits of the exponent. -/
def exponentField (bits : UInt64) : Nat := (bits.toNat >>> 52) % (1 <<< 11)

/-- The double without its sign is `mantissa * 2^power`. -/
def mantissa (bits : UInt64) : Nat :=
  if exponentField bits = 0 then fractionField bits else 1 <<< 52 + fractionField bits

/-- The power of two of `mantissa`. -/
def power (bits : UInt64) : Int :=
  let e := exponentField bits
  if e = 0 then -1074 else (e : Int) - 1075

/-- A fraction of naturals, with the bounds of the interval of numbers that read as the double.
The bounds themselves read as it when `closed`. -/
structure Interval where
  low : Nat
  value : Nat
  high : Nat
  denominator : Nat
  closed : Bool

/-- The interval of the double with the given bits: half a unit to either side, a quarter below a
power of two. -/
def interval (bits : UInt64) : Interval :=
  let m := mantissa bits
  let q := power bits - 2
  let below := if fractionField bits = 0 && exponentField bits > 1 then 1 else 2
  let up := 1 <<< q.toNat
  { low := (4 * m - below) * up, value := 4 * m * up, high := (4 * m + 2) * up
    denominator := 1 <<< (-q).toNat, closed := m % 2 == 0 }

/-- The least `point` with `value < 10^point`, searched upwards from a lower bound. -/
def findPoint (value denominator : Nat) : Nat → Int → Int
  | 0, k => k
  | fuel + 1, k =>
    if value * Nat.pow 10 (-k).toNat < denominator * Nat.pow 10 k.toNat then k
    else findPoint value denominator fuel (k + 1)

/-- Whether `d * 10^unit` reads as the double. -/
def Interval.contains (i : Interval) (d : Nat) (unit : Int) : Bool :=
  let scaled := d * Nat.pow 10 unit.toNat * i.denominator
  let by10 := Nat.pow 10 (-unit).toNat
  if i.closed then i.low * by10 ≤ scaled && scaled ≤ i.high * by10
  else i.low * by10 < scaled && scaled < i.high * by10

/-- The better of the two neighbours of the value among the multiples of `10^unit`, if one reads
as the double; of two equally near ones the even one. -/
def Interval.nearest? (i : Interval) (unit : Int) : Option Nat :=
  let numerator := i.value * Nat.pow 10 (-unit).toNat
  let denominator := i.denominator * Nat.pow 10 unit.toNat
  let d := numerator / denominator
  let rest := 2 * (numerator % denominator)
  let downFirst := rest < denominator || (rest == denominator && d % 2 == 0)
  let (first, second) := if downFirst then (d, d + 1) else (d + 1, d)
  if i.contains first unit then some first
  else if i.contains second unit then some second
  else none

/-- The shortest digits of the double, trying one digit, then two, up to seventeen. -/
def shortestFrom (i : Interval) (point : Int) : Nat → Nat → Nat × Int
  | 0, n => (i.value / i.denominator, point - n)
  | fuel + 1, n =>
    match i.nearest? (point - n) with
    | some d => (d, point - n)
    | none => shortestFrom i point fuel (n + 1)

def decimalDigits (n : Nat) : List Nat := (Nat.toDigits 10 n).map fun c => c.toNat - '0'.toNat

/-- The fewest digits that read back, without zeros at the end. -/
def shortest (bits : UInt64) : Digits :=
  let i := interval bits
  let point := findPoint i.value i.denominator 700 (-330)
  let (d, unit) := shortestFrom i point 18 1
  let ds := decimalDigits d
  { digits := ((ds.reverse.dropWhile (· == 0)).reverse), point := unit + ds.length }

def digitText (ds : List Nat) : String := String.ofList (ds.map fun d => Nat.digitChar d)

def zeros (n : Nat) : String := String.ofList (List.replicate n '0')

/-- Positional notation from `10^-5` up to below `10^16`, with at least one digit after the point;
beyond, one digit before the point and a power of ten. -/
def layout (d : Digits) : String :=
  let n : Int := d.digits.length
  let k := d.point
  if n ≤ k && k ≤ 16 then digitText d.digits ++ zeros (k - n).toNat ++ ".0"
  else if 0 < k && k ≤ 16 then
    digitText (d.digits.take k.toNat) ++ "." ++ digitText (d.digits.drop k.toNat)
  else if -5 < k && k ≤ 0 then "0." ++ zeros (-k).toNat ++ digitText d.digits
  else
    let mantissa := digitText (d.digits.take 1) ++
      (if n ≤ 1 then "" else "." ++ digitText (d.digits.drop 1))
    mantissa ++ "e" ++ toString (k - 1)

def text (bits : UInt64) : String :=
  let sign := if isNegative bits then "-" else ""
  sign ++ (if mantissa bits == 0 then "0.0" else layout (shortest bits))

end Double

def Number.text : Number → String
  | .int n => toString n
  | .double bits => Double.text bits

end ChainIndex.Json
