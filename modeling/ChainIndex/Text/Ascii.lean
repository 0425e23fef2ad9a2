/-!
# ASCII letters

Hashes and addresses are compared without regard to the case of ASCII letters; every other character
stands for itself.  `lower` gives the representative that is stored, `sameLetters` compares two
texts letter by letter.
-/

namespace ChainIndex.Text

/-- The text with its ASCII capitals made small. -/
def lower (s : String) : String := s.map Char.toLower

/-- Two characters that differ at most in the case of an ASCII letter. -/
def sameLetter (c d : Char) : Bool := c == d || c.toLower == d.toLower

/-- Two lists of characters that agree letter by letter. -/
def sameLetters : List Char → List Char → Bool
  | [], [] => true
  | c :: cs, d :: ds => sameLetter c d && sameLetters cs ds
  | _, _ => false

/-- Two texts that differ at most in the case of ASCII letters. -/
def eqIgnoringCase (s t : String) : Bool := sameLetters s.toList t.toList

theorem toList_lower (s : String) : (lower s).toList = s.toList.map Char.toLower :=
  String.toList_map

theorem sameLetter_iff (c d : Char) : sameLetter c d = true ↔ c.toLower = d.toLower := by
  unfold sameLetter
  simp only [Bool.or_eq_true, beq_iff_eq]
  exact ⟨fun h => h.elim (fun e => e ▸ rfl) id, Or.inr⟩

theorem sameLetters_iff (cs ds : List Char) :
    sameLetters cs ds = true ↔ cs.map Char.toLower = ds.map Char.toLower := by
  induction cs generalizing ds with
  | nil => cases ds <;> simp [sameLetters]
  | cons c cs ih => cases ds <;> simp [sameLetters, sameLetter_iff, ih]

/-- Equality up to case is equality of the stored forms. -/
theorem eqIgnoringCase_iff (s t : String) : eqIgnoringCase s t = true ↔ lower s = lower t := by
  rw [eqIgnoringCase, sameLetters_iff, ← toList_lower, ← toList_lower, String.toList_inj]

end ChainIndex.Text
