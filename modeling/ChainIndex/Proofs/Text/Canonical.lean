import ChainIndex.Text.Blank
import Mathlib.Data.List.DropRight

/-!
# The canonical form of a hash

A canonical form is its own canonical form (`canonical_canonical`): dropping blanks leaves no blanks at
the ends, making letters small makes no blanks, and neither has anything left to do afterwards.
-/

namespace ChainIndex.Text

/-! ## Characters -/

/-- A capital letter is made small by going 32 places on, and every other character stays. -/
theorem toNat_toLower (c : Char) :
    c.toLower.toNat = if 65 ≤ c.toNat ∧ c.toNat ≤ 90 then c.toNat + 32 else c.toNat := by
  unfold Char.toLower
  split
  · rename_i h
    have hc : 65 ≤ c.toNat ∧ c.toNat ≤ 90 := h
    have hval : (c.val + ('a'.val - 'A'.val)).toNat = (c.toNat + 32) % 2 ^ 32 :=
      UInt32.toNat_add c.val 32
    rw [if_pos hc]
    exact hval.trans (Nat.mod_eq_of_lt (by omega))
  · rename_i h
    exact (if_neg h).symm

theorem toLower_toLower (c : Char) : c.toLower.toLower = c.toLower := by
  rw [← Char.toNat_inj, toNat_toLower, if_neg]
  rw [toNat_toLower]
  split <;> omega

theorem isBlank_toLower (c : Char) : isBlank c.toLower = isBlank c := by
  simp only [isBlank, toNat_toLower]
  split
  · rw [Bool.eq_iff_iff]
    simp only [Bool.or_eq_true, Bool.and_eq_true, decide_eq_true_eq, beq_iff_eq]
    omega
  · rfl

/-! ## Trimming -/

theorem trimChars_eq (cs : List Char) :
    trimChars cs = (cs.dropWhile isBlank).rdropWhile isBlank := rfl

theorem trimChars_map_toLower (cs : List Char) :
    trimChars (cs.map Char.toLower) = (trimChars cs).map Char.toLower := by
  have hb : isBlank ∘ Char.toLower = isBlank := funext isBlank_toLower
  unfold trimChars
  rw [List.dropWhile_map, hb, ← List.map_reverse, List.dropWhile_map, hb, ← List.map_reverse]

/-- What is left has no blank in front, so that a second pass finds none. -/
theorem dropWhile_trimChars (cs : List Char) :
    (trimChars cs).dropWhile isBlank = trimChars cs := by
  rw [List.dropWhile_eq_self_iff]
  intro hl
  have hp : trimChars cs <+: cs.dropWhile isBlank := List.rdropWhile_prefix _ _
  have hl' : 0 < (cs.dropWhile isBlank).length := hl.trans_le hp.length_le
  rw [hp.getElem hl]
  exact List.dropWhile_get_zero_not _ _ hl'

theorem trimChars_trimChars (cs : List Char) : trimChars (trimChars cs) = trimChars cs := by
  rw [trimChars_eq (trimChars cs), dropWhile_trimChars, trimChars_eq, List.rdropWhile_idempotent]

/-! ## Canonical forms -/

theorem toList_canonical (s : String) :
    (canonical s).toList = (trimChars s.toList).map Char.toLower := by
  rw [canonical, toList_lower, trim, String.toList_ofList]

@[simp] theorem canonical_canonical (s : String) : canonical (canonical s) = canonical s := by
  rw [← String.toList_inj, toList_canonical, toList_canonical, trimChars_map_toLower,
    trimChars_trimChars, List.map_map]
  congr 1
  exact funext toLower_toLower

theorem lower_lower (s : String) : lower (lower s) = lower s := by
  rw [← String.toList_inj, toList_lower, toList_lower, List.map_map]
  congr 1
  exact funext toLower_toLower

/-- A canonical form has small letters only. -/
@[simp] theorem lower_canonical (s : String) : lower (canonical s) = canonical s := by
  rw [← String.toList_inj, toList_lower, toList_canonical, List.map_map]
  congr 1
  exact funext toLower_toLower

end ChainIndex.Text
