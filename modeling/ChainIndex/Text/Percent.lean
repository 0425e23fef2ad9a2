import ChainIndex.Quantity

/-!
# Percent encoding

A byte of a path or of a query can be written as a percent sign with two hexadecimal digits.  `decode`
gives the text that the bytes spell, or says where they stop spelling one; `queryPairs` reads a query,
in which a plus sign stands for a blank.
-/

namespace ChainIndex.Text

/-- The bytes of a text, with percent signs and two digits after them read as one byte. -/
def percentBytes : List UInt8 → List UInt8
  | 0x25 :: a :: b :: rest =>
    match Quantity.digit? (Char.ofNat a.toNat), Quantity.digit? (Char.ofNat b.toNat) with
    | some x, some y => UInt8.ofNat (16 * x + y) :: percentBytes rest
    | _, _ => 0x25 :: percentBytes (a :: b :: rest)
  | b :: rest => b :: percentBytes rest
  | [] => []

/-- The length of the character that starts with a byte, with the bounds of its second byte. -/
def leadByte? (b : UInt8) : Option (Nat × UInt8 × UInt8) :=
  if b < 0x80 then some (1, 0x80, 0xBF)
  else if 0xC2 ≤ b ∧ b ≤ 0xDF then some (2, 0x80, 0xBF)
  else if b = 0xE0 then some (3, 0xA0, 0xBF)
  else if b = 0xED then some (3, 0x80, 0x9F)
  else if 0xE1 ≤ b ∧ b ≤ 0xEF then some (3, 0x80, 0xBF)
  else if b = 0xF0 then some (4, 0x90, 0xBF)
  else if 0xF1 ≤ b ∧ b ≤ 0xF3 then some (4, 0x80, 0xBF)
  else if b = 0xF4 then some (4, 0x80, 0x8F)
  else none

/-- How many of the bytes after the first belong to a character of the given length, and whether a byte
stands where the next one should be. -/
def followers (low high : UInt8) : Nat → List UInt8 → Nat × Bool
  | 0, _ => (0, false)
  | _ + 1, [] => (0, false)
  | n + 1, b :: rest =>
    if low ≤ b ∧ b ≤ high then
      let (k, wrong) := followers 0x80 0xBF n rest
      (k + 1, wrong)
    else (0, true)

/-- Where bytes stop spelling a text: the index of the first byte that does not belong, and how many
bytes are wrong, unless the bytes only end too early. -/
def utf8Fault? (index : Nat) : List UInt8 → Option (Nat × Option Nat)
  | [] => none
  | b :: rest =>
    match leadByte? b with
    | none => some (index, some 1)
    | some (size, low, high) =>
      let (k, wrong) := followers low high (size - 1) rest
      if k = size - 1 then utf8Fault? (index + size) (rest.drop (size - 1))
      else some (index, if wrong then some (k + 1) else none)
termination_by bytes => bytes.length
decreasing_by simp only [List.length_cons, List.length_drop]; omega

/-- Where bytes stop spelling a text, in words. -/
def utf8FaultText : Nat × Option Nat → String
  | (index, some n) =>
    "invalid utf-8 sequence of " ++ toString n ++ " bytes from index " ++ toString index
  | (index, none) => "incomplete utf-8 byte sequence from index " ++ toString index

/-- The text that bytes spell, or where they stop spelling one. -/
def ofBytes (bytes : List UInt8) : Except String String :=
  match String.fromUTF8? ⟨bytes.toArray⟩ with
  | some s => .ok s
  | none => .error (utf8FaultText ((utf8Fault? 0 bytes).getD (0, none)))

def bytesOf (s : String) : List UInt8 := s.toUTF8.data.toList

def percentDecode (s : String) : Except String String := ofBytes (percentBytes (bytesOf s))

/-- A part of a query; bytes that spell no text give the replacement character. -/
def queryPart (bytes : List UInt8) : String :=
  let bytes := percentBytes (bytes.map fun b => if b = 0x2B then 0x20 else b)
  match ofBytes bytes with
  | .ok s => s
  | .error _ => "\uFFFD"

/-- The names and values of a query. -/
def queryPairs (query : String) : List (String × String) :=
  let parts := (query.splitOn "&").filter fun part => !part.isEmpty
  parts.map fun part =>
    let bytes := bytesOf part
    (queryPart (bytes.takeWhile (· ≠ 0x3D)), queryPart ((bytes.dropWhile (· ≠ 0x3D)).drop 1))

end ChainIndex.Text
