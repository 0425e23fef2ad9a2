import ChainIndex.Text.Ascii

/-!
# Blanks around a hash

A hash may be given with blanks around it.  A blank is a character with the Unicode property
`White_Space`; `canonical` drops them at both ends and makes the letters small, which is the form
under which hashes are looked up and stored.
-/

namespace ChainIndex.Text

/-- The characters with the Unicode property `White_Space`. -/
def isBlank (c : Char) : Bool :=
  let n := c.toNat
  (9 ≤ n && n ≤ 13) || n == 0x20 || n == 0x85 || n == 0xA0 || n == 0x1680 ||
    (0x2000 ≤ n && n ≤ 0x200A) || n == 0x2028 || n == 0x2029 || n == 0x202F || n == 0x205F ||
    n == 0x3000

/-- The characters between the leading and the trailing blanks. -/
def trimChars (cs : List Char) : List Char :=
  ((cs.dropWhile isBlank).reverse.dropWhile isBlank).reverse

/-- The text without the blanks at its two ends. -/
def trim (s : String) : String := String.ofList (trimChars s.toList)

/-- The form under which a hash is looked up: no blanks around it, small letters. -/
def canonical (hash : String) : String := lower (trim hash)

end ChainIndex.Text
