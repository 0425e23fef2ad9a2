import Mathlib.Data.List.Forall2
import Mathlib.Data.Nat.Digits.Defs
import ChainIndex.Quantity

/-!
# What quantities name

`Quantity.Names s n` says that the text `s` is a quantity and `n` its value: hexadecimal digits, read in base
sixteen, with or without a mark and a plus sign in front.  A text names one number at most.

A text is read as a word of 64 bits exactly if it names a number that fits (`parse?_eq_some_iff`), and it is
rewritten in decimal if it names a number of up to 128 bits (`toDecimal_of_names`).
-/

namespace ChainIndex.Quantity

/-- The character is the hexadecimal digit of a number, of either case. -/
def IsDigit (c : Char) (d : Nat) : Prop := d < 16 ∧ c.toLower = Nat.digitChar d

/-- Digits, the highest first, and the number that they stand for. -/
def Numeral (cs : List Char) (n : Nat) : Prop :=
  cs ≠ [] ∧ ∃ ds, List.Forall₂ IsDigit cs ds ∧ Nat.ofDigits 16 ds.reverse = n

/-- The text is a quantity of the value `n`: digits with or without the mark, and one plus sign at most. -/
def Names (s : String) (n : Nat) : Prop :=
  ∃ mark ∈ ["", "0x"], ∃ sign ∈ ["", "+"], ∃ digits : String, s = mark ++ sign ++ digits ∧
    Numeral digits.toList n

/-! ## Digits -/

theorem toLower_of_not_ascii {c : Char} (h : 128 ≤ c.toNat) : c.toLower = c := by
  have hupper : ¬ ('A'.val ≤ c.val ∧ c.val ≤ 'Z'.val) := by
    rintro ⟨-, hle⟩
    have hZ : c.toNat ≤ 90 := UInt32.le_iff_toNat_le.1 hle
    omega
  exact dif_neg hupper

theorem digit?_of_not_ascii {c : Char} (h : 128 ≤ c.toNat) : digit? c = none := by
  have hbeyond (d : Char) (hd : d.toNat < 128) : ¬ c ≤ d := fun hle => by
    have hle : c.toNat ≤ d.toNat := UInt32.le_iff_toNat_le.1 (Char.le_def.1 hle)
    omega
  unfold digit?
  rw [if_neg fun hc => hbeyond '9' (by decide) hc.2, if_neg fun hc => hbeyond 'f' (by decide) hc.2,
    if_neg fun hc => hbeyond 'F' (by decide) hc.2]

theorem digit?_ascii : ∀ k < 128, ∀ d < 16,
    digit? (Char.ofNat k) = some d ↔ (Char.ofNat k).toLower = Nat.digitChar d := by
  decide +kernel

theorem digit?_lt_ascii : ∀ k < 128, ∀ d ∈ digit? (Char.ofNat k), d < 16 := by
  decide +kernel

theorem digit?_eq_some_iff {c : Char} {d : Nat} : digit? c = some d ↔ IsDigit c d := by
  by_cases hascii : c.toNat < 128
  · have hc := Char.ofNat_toNat c
    constructor
    · intro h
      have hlt : d < 16 := digit?_lt_ascii c.toNat hascii d (by rw [hc, h, Option.mem_some_iff])
      exact ⟨hlt, hc ▸ (digit?_ascii c.toNat hascii d hlt).1 (by rw [hc, h])⟩
    · rintro ⟨hlt, h⟩
      exact hc ▸ (digit?_ascii c.toNat hascii d hlt).2 (by rw [hc, h])
  · have hbeyond : 128 ≤ c.toNat := by omega
    rw [digit?_of_not_ascii hbeyond]
    constructor
    · exact nofun
    · rintro ⟨hlt, h⟩
      rw [toLower_of_not_ascii hbeyond] at h
      have hall : ∀ d < 16, (Nat.digitChar d).toNat < 128 := by decide
      exact absurd (h ▸ hall d hlt) hascii

/-! ## Numerals -/

/-- The number that stands before some more digits, and these. -/
def accumulate (n : Nat) (ds : List Nat) : Nat := ds.foldl (fun n d => n * 16 + d) n

theorem le_accumulate (n : Nat) (ds : List Nat) : n ≤ accumulate n ds := by
  induction ds generalizing n with
  | nil => exact le_rfl
  | cons d rest ih =>
    have hrest := ih (n * 16 + d)
    have hstep : accumulate n (d :: rest) = accumulate (n * 16 + d) rest := rfl
    omega

theorem accumulate_zero (ds : List Nat) : accumulate 0 ds = Nat.ofDigits 16 ds.reverse := by
  rw [Nat.ofDigits_eq_foldr, List.foldr_reverse, accumulate]
  congr 1
  funext n d
  rw [Nat.cast_id, Nat.add_comm, Nat.mul_comm]

/-- Digits are read as long as what they stand for is below the limit. -/
theorem foldDigits?_eq_some_iff {limit n m : Nat} {cs : List Char} (hn : n < limit) :
    foldDigits? limit n cs = some m ↔
      m < limit ∧ ∃ ds, List.Forall₂ IsDigit cs ds ∧ accumulate n ds = m := by
  induction cs generalizing n with
  | nil =>
    rw [foldDigits?, Option.some.injEq]
    constructor
    · rintro rfl
      exact ⟨hn, [], .nil, rfl⟩
    · rintro ⟨-, _, hds, rfl⟩
      cases hds
      rfl
  | cons c cs ih =>
    rw [foldDigits?]
    cases hc : digit? c with
    | none =>
      constructor
      · exact nofun
      · rintro ⟨-, _, hds, -⟩
        obtain ⟨d, ds, hd, -, rfl⟩ := List.forall₂_cons_left_iff.1 hds
        cases hc.symm.trans (digit?_eq_some_iff.2 hd)
    | some d =>
      dsimp only
      have hd := digit?_eq_some_iff.1 hc
      constructor
      · intro h
        split at h
        · rename_i hlt
          obtain ⟨hm, ds, hds, hsum⟩ := (ih hlt).1 h
          exact ⟨hm, d :: ds, .cons hd hds, hsum⟩
        · cases h
      · rintro ⟨hm, _, hds, hsum⟩
        obtain ⟨d', ds, hd', hrest, rfl⟩ := List.forall₂_cons_left_iff.1 hds
        obtain rfl : d = d' := Option.some.inj (hc.symm.trans (digit?_eq_some_iff.2 hd'))
        have hsum : accumulate (n * 16 + d) ds = m := hsum
        -- The number only grows, so that one below the limit was below it at every digit.
        have hle := le_accumulate (n * 16 + d) ds
        rw [if_pos (by omega)]
        exact (ih (by omega)).2 ⟨hm, ds, hrest, hsum⟩

/-- The characters that are left are read as a numeral below the limit. -/
theorem value?_eq_some_iff {limit n : Nat} {cs : List Char} (hlimit : 0 < limit) :
    value? limit cs = some n ↔ Numeral (dropPlus cs) n ∧ n < limit := by
  unfold value? Numeral
  split
  · rename_i hnil
    rw [hnil]
    exact ⟨nofun, fun h => absurd rfl h.1.1⟩
  · rename_i hsome
    rw [foldDigits?_eq_some_iff hlimit, and_comm]
    simp only [accumulate_zero]
    exact and_congr_left' (and_iff_right hsome).symm

/-! ## Texts -/

variable {s : String} {n m : Nat} {cs : List Char}

theorem Numeral.unique (h : Numeral cs n) (h' : Numeral cs m) : n = m := by
  obtain ⟨-, ds, hds, rfl⟩ := h
  obtain ⟨-, ds', hds', rfl⟩ := h'
  have heq : ds = ds' := by
    induction hds generalizing ds' with
    | nil =>
      cases hds'
      rfl
    | cons hd _ ih =>
      obtain ⟨d', rest, hd', hrest, rfl⟩ := List.forall₂_cons_left_iff.1 hds'
      have hsame := Option.some.inj ((digit?_eq_some_iff.2 hd).symm.trans (digit?_eq_some_iff.2 hd'))
      rw [hsame, ih rest hrest]
  rw [heq]

theorem dropPlus_of_numeral (h : Numeral cs n) : dropPlus cs = cs := by
  unfold dropPlus
  split
  · obtain ⟨-, _, hds, -⟩ := h
    obtain ⟨d, _, hd, -, -⟩ := List.forall₂_cons_left_iff.1 hds
    cases (digit?_eq_some_iff.2 hd : digit? '+' = some d)
  · rfl

theorem dropMark_of_numeral (h : Numeral cs n) : dropMark cs = cs := by
  unfold dropMark
  split
  · obtain ⟨-, _, hds, -⟩ := h
    obtain ⟨_, _, -, hrest, -⟩ := List.forall₂_cons_left_iff.1 hds
    obtain ⟨d, _, hd, -, -⟩ := List.forall₂_cons_left_iff.1 hrest
    cases (digit?_eq_some_iff.2 hd : digit? 'x' = some d)
  · rfl

theorem exists_mark (cs : List Char) : ∃ mark ∈ ["", "0x"], cs = mark.toList ++ dropMark cs := by
  unfold dropMark
  split
  · exact ⟨"0x", by simp, rfl⟩
  · exact ⟨"", by simp, rfl⟩

theorem exists_sign (cs : List Char) : ∃ sign ∈ ["", "+"], cs = sign.toList ++ dropPlus cs := by
  unfold dropPlus
  split
  · exact ⟨"+", by simp, rfl⟩
  · exact ⟨"", by simp, rfl⟩

/-- A text is a quantity if digits are left when the mark and the plus sign are dropped. -/
theorem names_iff : Names s n ↔ Numeral (dropPlus (dropMark s.toList)) n := by
  constructor
  · rintro ⟨mark, hmark, sign, hsign, digits, rfl, hn⟩
    rw [String.toList_append, String.toList_append]
    simp only [List.mem_cons, List.not_mem_nil, or_false] at hmark hsign
    -- Digits start neither with a mark nor with a sign, so that nothing of them is dropped.
    rcases hmark with rfl | rfl
    · rcases hsign with rfl | rfl
      · show Numeral (dropPlus (dropMark digits.toList)) n
        rwa [dropMark_of_numeral hn, dropPlus_of_numeral hn]
      · exact hn
    · rcases hsign with rfl | rfl
      · show Numeral (dropPlus digits.toList) n
        rwa [dropPlus_of_numeral hn]
      · exact hn
  · intro h
    obtain ⟨mark, hmark, hs⟩ := exists_mark s.toList
    obtain ⟨sign, hsign, hrest⟩ := exists_sign (dropMark s.toList)
    refine ⟨mark, hmark, sign, hsign, .ofList (dropPlus (dropMark s.toList)), ?_, ?_⟩
    · rw [← String.toList_inj, String.toList_append, String.toList_append, String.toList_ofList,
        List.append_assoc, ← hrest, ← hs]
    · rwa [String.toList_ofList]

theorem Names.unique (h : Names s n) (h' : Names s m) : n = m :=
  (names_iff.1 h).unique (names_iff.1 h')

/-- A text is read as a word if it names the word. -/
theorem parse?_eq_some_iff {w : UInt64} : parse? s = some w ↔ Names s w.toNat := by
  rw [parse?, Option.map_eq_some_iff, names_iff]
  constructor
  · rintro ⟨n, hn, rfl⟩
    obtain ⟨hnumeral, hlt⟩ := (value?_eq_some_iff (by decide)).1 hn
    rwa [UInt64.toNat_ofNat_of_lt' hlt]
  · intro h
    exact ⟨w.toNat, (value?_eq_some_iff (by decide)).2 ⟨h, w.toNat_lt⟩, UInt64.ofNat_toNat⟩

theorem names_of_value? {limit : Nat} (hlimit : 0 < limit) (h : value? limit (dropMark s.toList) = some n) :
    Names s n :=
  names_iff.2 ((value?_eq_some_iff hlimit).1 h).1

theorem Names.dropMark_ne_nil (h : Names s n) : dropMark s.toList ≠ [] := fun hnil => by
  rw [names_iff, hnil] at h
  exact h.1 rfl

/-- A number of up to 128 bits is rewritten in decimal. -/
theorem toDecimal_of_names (h : Names s n) (hn : n < 2 ^ 128) : toDecimal s = toString n := by
  have hvalue : value? (1 <<< 128) (dropMark s.toList) = some n :=
    (value?_eq_some_iff (by decide)).2 ⟨names_iff.1 h, hn⟩
  unfold toDecimal
  split
  · rename_i hnil
    exact absurd hnil h.dropMark_ne_nil
  · rw [hvalue]

theorem toDecimal_of_unnamed (hleft : dropMark s.toList ≠ []) (h : ∀ n < 2 ^ 128, ¬ Names s n) :
    toDecimal s = s := by
  have hnone : value? (1 <<< 128) (dropMark s.toList) = none := by
    refine Option.eq_none_iff_forall_ne_some.2 fun m hm => ?_
    obtain ⟨hnumeral, hlt⟩ := (value?_eq_some_iff (by decide)).1 hm
    exact h m hlt (names_iff.2 hnumeral)
  unfold toDecimal
  split
  · rename_i hnil
    exact absurd hnil hleft
  · rw [hnone]

theorem toDecimal_of_large (h : Names s n) (hn : 2 ^ 128 ≤ n) : toDecimal s = s := by
  refine toDecimal_of_unnamed h.dropMark_ne_nil fun m hm hnames => ?_
  rw [h.unique hnames] at hn
  exact absurd hm (Nat.not_lt.2 hn)

end ChainIndex.Quantity
