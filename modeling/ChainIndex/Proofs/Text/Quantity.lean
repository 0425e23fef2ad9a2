import Mathlib.Data.Nat.Digits.Lemmas
import ChainIndex.Proofs.Lists
import ChainIndex.Proofs.Text.Numeral

/-!
# Reading and writing quantities

A number is written as small digits behind the mark, with no zero in front that could be left out: of all the
texts that name it this is the plain one (`eq_written_iff`).

A text is read as a word exactly if it names a number of 64 bits (`map_toNat_parse?_eq_some_iff`), and what it
is rewritten as is told by the number that it names, if there is one (`toDecimal_eq_iff`).
-/

namespace ChainIndex.Quantity

variable {s t : String} {cs : List Char} {n d : Nat}

/-! ## Digits as they are written -/

/-- The digits are small, and there is no zero in front of others. -/
structure PlainDigits (cs : List Char) : Prop where
  small : cs.map Char.toLower = cs
  noZero : ∀ rest, cs = '0' :: rest → rest = []

theorem toLower_digitChar : ∀ d < 16, (Nat.digitChar d).toLower = Nat.digitChar d := by
  decide

theorem isDigit_digitChar (h : d < 16) : IsDigit (Nat.digitChar d) d := ⟨h, toLower_digitChar d h⟩

theorem eq_zero_of_digitChar : ∀ d < 16, Nat.digitChar d = '0' → d = 0 := by
  decide

/-- A number other than zero is written as its digits, the highest first. -/
theorem toDigits_eq_map_digits (hn : n ≠ 0) :
    Nat.toDigits 16 n = (Nat.digits 16 n).reverse.map Nat.digitChar := by
  induction n using Nat.strongRecOn with
  | ind n ih =>
    rcases Nat.lt_or_ge n 16 with hlt | hle
    · rw [Nat.toDigits_of_lt_base hlt, Nat.digits_of_lt 16 n hn hlt]
      rfl
    · have hdiv : n / 16 ≠ 0 := by omega
      rw [Nat.toDigits_of_base_le (by decide) hle, ih (n / 16) (by omega) hdiv,
        Nat.digits_eq_cons_digits_div (by decide) hn, List.reverse_cons, List.map_append, List.map_singleton]

theorem lt_of_mem_reverse_digits (n : Nat) : ∀ d ∈ (Nat.digits 16 n).reverse, d < 16 := by
  intro d hd
  exact Nat.digits_lt_base (by decide) (List.mem_reverse.1 hd)

theorem numeral_map_digitChar {ds : List Nat} (hne : ds ≠ []) (h : ∀ d ∈ ds, d < 16) :
    Numeral (ds.map Nat.digitChar) (Nat.ofDigits 16 ds.reverse) := by
  refine ⟨mt List.map_eq_nil_iff.1 hne, ds, ?_, rfl⟩
  rw [List.forall₂_map_left_iff, List.forall₂_same]
  intro d hd
  exact isDigit_digitChar (h d hd)

theorem numeral_toDigits (n : Nat) : Numeral (Nat.toDigits 16 n) n := by
  -- Zero is written, too, though it has no digits.
  by_cases hn : n = 0
  · subst hn
    rw [Nat.toDigits_zero]
    exact numeral_map_digitChar (List.cons_ne_nil 0 []) (by decide)
  · have hne : (Nat.digits 16 n).reverse ≠ [] :=
      mt List.reverse_eq_nil_iff.1 (Nat.digits_ne_nil_iff_ne_zero.2 hn)
    have hnumeral := numeral_map_digitChar hne (lt_of_mem_reverse_digits n)
    rwa [List.reverse_reverse, Nat.ofDigits_digits, ← toDigits_eq_map_digits hn] at hnumeral

theorem plainDigits_toDigits (n : Nat) : PlainDigits (Nat.toDigits 16 n) := by
  by_cases hn : n = 0
  · subst hn
    rw [Nat.toDigits_zero]
    exact ⟨by decide, fun rest h => (List.cons.inj h).2.symm⟩
  · rw [toDigits_eq_map_digits hn]
    constructor
    · rw [List.map_map]
      apply List.map_congr_left
      intro d hd
      exact toLower_digitChar d (lt_of_mem_reverse_digits n d hd)
    · intro rest h
      obtain ⟨d, ds, hds, hd, -⟩ := List.map_eq_cons_iff.1 h
      have hlt : d < 16 := lt_of_mem_reverse_digits n d (hds ▸ List.mem_cons_self)
      -- A zero in front would be the highest digit of the number.
      have hlast : (Nat.digits 16 n).getLast? = some d := by rw [← List.head?_reverse, hds, List.head?_cons]
      have hzero := List.getLast_of_getLast?_eq_some hlast
      exact absurd (hzero.trans (eq_zero_of_digitChar d hlt hd)) (Nat.getLast_digit_ne_zero 16 hn)

theorem eq_map_digitChar {ds : List Nat} (hsmall : cs.map Char.toLower = cs)
    (h : List.Forall₂ IsDigit cs ds) : cs = ds.map Nat.digitChar := by
  have hmap : cs.map Char.toLower = ds.map Nat.digitChar := by
    induction h with
    | nil => rfl
    | cons hd _ ih =>
      rw [List.map_cons, List.cons.injEq] at hsmall
      rw [List.map_cons, List.map_cons, hd.2, ih hsmall.2]
  rw [← hmap, hsmall]

/-- Digits with no zero in front are those that what they stand for is written as. -/
theorem toDigits_ofDigits {rest : List Nat} (hd : d ≠ 0) (hlt : ∀ e ∈ d :: rest, e < 16) :
    Nat.toDigits 16 (Nat.ofDigits 16 (d :: rest).reverse) = (d :: rest).map Nat.digitChar := by
  have hdigits : Nat.digits 16 (Nat.ofDigits 16 (d :: rest).reverse) = (d :: rest).reverse :=
    Nat.digits_ofDigits 16 (by decide) _ (fun e he => hlt e (List.mem_reverse.1 he))
      fun _ => by rwa [List.getLast_reverse, List.head_cons]
  have hn : Nat.ofDigits 16 (d :: rest).reverse ≠ 0 := by
    rw [← Nat.digits_ne_nil_iff_ne_zero (b := 16), hdigits]
    exact mt List.reverse_eq_nil_iff.1 (List.cons_ne_nil d rest)
  rw [toDigits_eq_map_digits hn, hdigits, List.reverse_reverse]

/-- Of the digits that stand for a number, the plain ones are those that it is written as. -/
theorem eq_toDigits_iff : cs = Nat.toDigits 16 n ↔ PlainDigits cs ∧ Numeral cs n := by
  constructor
  · rintro rfl
    exact ⟨plainDigits_toDigits n, numeral_toDigits n⟩
  · rintro ⟨hplain, hne, ds, hds, rfl⟩
    have hlt : ∀ d ∈ ds, d < 16 := by
      intro d hd
      obtain ⟨_, -, hdigit⟩ := exists_of_mem_right hds hd
      exact hdigit.1
    obtain rfl := eq_map_digitChar hplain.small hds
    obtain ⟨d, rest, rfl⟩ := List.exists_cons_of_ne_nil (mt List.map_eq_nil_iff.2 hne)
    by_cases hd : d = 0
    · subst hd
      obtain rfl := List.map_eq_nil_iff.1 (hplain.noZero _ rfl)
      rfl
    · exact (toDigits_ofDigits hd hlt).symm

/-! ## Quantities as they are written -/

/-- The quantity that a number of any size is written as. -/
def written (n : Nat) : String := String.ofList ('0' :: 'x' :: Nat.toDigits 16 n)

theorem format_eq_written (w : UInt64) : format w = written w.toNat := rfl

/-- The text is the mark with the plain digits of the number behind it. -/
def NamesPlainly (s : String) (n : Nat) : Prop :=
  ∃ digits : String, s = "0x" ++ digits ∧ PlainDigits digits.toList ∧ Numeral digits.toList n

theorem NamesPlainly.names (h : NamesPlainly s n) : Names s n := by
  obtain ⟨digits, rfl, -, hn⟩ := h
  exact ⟨"0x", by simp, "", by simp, digits, by rw [String.append_empty], hn⟩

theorem toList_written (n : Nat) : (written n).toList = "0x".toList ++ Nat.toDigits 16 n :=
  String.toList_ofList

/-- There is one text that names a number plainly, what it is written as. -/
theorem eq_written_iff : s = written n ↔ NamesPlainly s n := by
  constructor
  · rintro rfl
    refine ⟨.ofList (Nat.toDigits 16 n), ?_, ?_⟩
    · rw [← String.toList_inj, String.toList_append, toList_written, List.append_cancel_left_eq]
      exact String.toList_ofList.symm
    · rw [String.toList_ofList]
      exact eq_toDigits_iff.1 rfl
  · rintro ⟨digits, rfl, hdigits⟩
    rw [← String.toList_inj, String.toList_append, toList_written, eq_toDigits_iff.2 hdigits]

theorem names_written (n : Nat) : Names (written n) n := (eq_written_iff.1 rfl).names

/-! ## Reading as a word -/

/-- A text is read as the number that it names, if that has 64 bits. -/
theorem map_toNat_parse?_eq_some_iff : (parse? s).map UInt64.toNat = some n ↔ Names s n ∧ n < 2 ^ 64 := by
  rw [Option.map_eq_some_iff]
  constructor
  · rintro ⟨w, hw, rfl⟩
    exact ⟨parse?_eq_some_iff.1 hw, w.toNat_lt⟩
  · rintro ⟨h, hlt⟩
    have hw : (UInt64.ofNat n).toNat = n := UInt64.toNat_ofNat_of_lt' hlt
    exact ⟨.ofNat n, parse?_eq_some_iff.2 (hw.symm ▸ h), hw⟩

theorem parse?_eq_none_iff : parse? s = none ↔ ∀ n < 2 ^ 64, ¬ Names s n := by
  rw [← Option.map_eq_none_iff (f := UInt64.toNat), Option.eq_none_iff_forall_ne_some]
  simp only [ne_eq, map_toNat_parse?_eq_some_iff]
  exact forall_congr' fun n => not_and'

theorem parse?_format (w : UInt64) : parse? (format w) = some w :=
  parse?_eq_some_iff.2 (names_written w.toNat)

/-! ## Rewriting in decimal -/

theorem dropMark_eq_nil_iff : dropMark s.toList = [] ↔ s ∈ ["", "0x"] := by
  constructor
  · intro hnil
    obtain ⟨mark, hmark, hs⟩ := exists_mark s.toList
    rw [hnil, List.append_nil, String.toList_inj] at hs
    rwa [hs]
  · intro h
    simp only [List.mem_cons, List.not_mem_nil, or_false] at h
    rcases h with rfl | rfl
    · rfl
    · rfl

/-- What a text is rewritten as: in decimal if it names a number of up to 128 bits, as zero if nothing is left
without the mark, and as it is in every other case. -/
inductive RewrittenAs (s : String) : String → Prop where
  | decimal {n : Nat} (names : Names s n) (fits : n < 2 ^ 128) : RewrittenAs s (toString n)
  | zero (bare : s ∈ ["", "0x"]) : RewrittenAs s "0"
  | same (notBare : s ∉ ["", "0x"]) (unnamed : ∀ n < 2 ^ 128, ¬ Names s n) : RewrittenAs s s

theorem toDecimal_eq_of_rewrittenAs (h : RewrittenAs s t) : toDecimal s = t := by
  cases h with
  | decimal names fits => exact toDecimal_of_names names fits
  | zero bare =>
    rw [toDecimal, dropMark_eq_nil_iff.2 bare]
  | same notBare unnamed => exact toDecimal_of_unnamed (mt dropMark_eq_nil_iff.1 notBare) unnamed

/-- One of the cases applies to every text, and no other text than that of the case is the result. -/
theorem toDecimal_eq_iff : toDecimal s = t ↔ RewrittenAs s t := by
  refine ⟨?_, toDecimal_eq_of_rewrittenAs⟩
  have hsome : ∃ t, RewrittenAs s t := by
    by_cases hbare : s ∈ ["", "0x"]
    · exact ⟨_, .zero hbare⟩
    · by_cases hnamed : ∃ n < 2 ^ 128, Names s n
      · obtain ⟨n, fits, names⟩ := hnamed
        exact ⟨_, .decimal names fits⟩
      · exact ⟨s, .same hbare fun n fits names => hnamed ⟨n, fits, names⟩⟩
  obtain ⟨t', ht'⟩ := hsome
  rintro rfl
  rwa [toDecimal_eq_of_rewrittenAs ht']

/-- A number of up to 128 bits is rewritten in decimal from what it is written as. -/
theorem toDecimal_written (hn : n < 2 ^ 128) : toDecimal (written n) = toString n :=
  toDecimal_of_names (names_written n) hn

end ChainIndex.Quantity
