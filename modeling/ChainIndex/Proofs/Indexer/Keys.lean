import Std.Data.String.ToNat
import ChainIndex.Proofs.Chain.Reading
import ChainIndex.Proofs.Indexer.Search

/-!
# Keys of elements

An element stands at a place of its transaction (`Element.StandsAt`): a call frame at its position in the tree
of calls, an event at its index.  The text of a place tells the place (`Place.text_injective`): the commas in
the text of a position cut it into the numerals that it was made of, and the text of an index begins with a
letter.

So what different elements of a transaction are stored as never has the same key (`keys_distinguish`).  This
matters because nothing is stored under a key that is taken.
-/

namespace ChainIndex

namespace Chain

/-! ## Texts of positions -/

/-- The decimal digits of a part of a position. -/
def numeral (n : UInt64) : List Char := Nat.toDigits 10 n.toNat

theorem isDigit_of_mem_numeral {n : UInt64} {c : Char} (h : c ∈ numeral n) : c.isDigit :=
  Nat.isDigit_of_mem_toDigits (by decide) (by decide) h

theorem comma_notMem_numeral (n : UInt64) : ',' ∉ numeral n := fun h =>
  absurd (isDigit_of_mem_numeral h) (by decide)

theorem numeral_injective : Function.Injective numeral := by
  intro n m h
  have hrepr : n.toNat.repr = m.toNat.repr := by
    rw [← String.toList_inj, Nat.toList_repr, Nat.toList_repr]
    exact h
  exact UInt64.toNat_inj.1 (Nat.repr_injective hrepr)

theorem toList_traceAddressText (path : List UInt64) :
    (traceAddressText path).toList = [','].intercalate (path.map numeral) := by
  rw [traceAddressText, String.toList_intercalate, List.map_map]
  congr 1
  exact List.map_congr_left fun n _ => Nat.toList_repr

theorem toList_traceAddressText_cons (n : UInt64) (rest : List UInt64) :
    ∃ cs, (traceAddressText (n :: rest)).toList = numeral n ++ cs := by
  rw [toList_traceAddressText]
  cases rest with
  | nil => exact ⟨[], by simp⟩
  | cons m rest =>
    rw [List.map_cons, List.map_cons, List.intercalate_cons_cons, List.append_assoc]
    exact ⟨_, rfl⟩

/-- The text of a position other than the outermost one begins with a digit. -/
theorem exists_digit_traceAddressText (n : UInt64) (rest : List UInt64) :
    ∃ c cs, (traceAddressText (n :: rest)).toList = c :: cs ∧ c.isDigit := by
  obtain ⟨tail, htail⟩ := toList_traceAddressText_cons n rest
  obtain ⟨c, cs, hcs⟩ := List.exists_cons_of_ne_nil (l := numeral n) Nat.toDigits_ne_nil
  have hdigit : c.isDigit := isDigit_of_mem_numeral (hcs ▸ List.mem_cons_self)
  rw [hcs] at htail
  exact ⟨c, cs ++ tail, htail, hdigit⟩

/-- The commas cut the text of a position into its numerals, unless there are none. -/
theorem splitOn_traceAddressText {path : List UInt64} (h : path ≠ []) :
    (traceAddressText path).toList.splitOn ',' = path.map numeral := by
  rw [toList_traceAddressText]
  refine List.splitOn_intercalate ',' (fun cs hcs => ?_) (by simpa using h)
  obtain ⟨n, -, rfl⟩ := List.mem_map.1 hcs
  exact comma_notMem_numeral n

/-- A position is told by its text. -/
theorem traceAddressText_injective : Function.Injective traceAddressText := by
  intro path path' h
  match path, path' with
  | [], [] => rfl
  | [], n :: rest =>
    obtain ⟨c, cs, hcs, -⟩ := exists_digit_traceAddressText n rest
    rw [← h] at hcs
    cases hcs
  | n :: rest, [] =>
    obtain ⟨c, cs, hcs, -⟩ := exists_digit_traceAddressText n rest
    rw [h] at hcs
    cases hcs
  | n :: rest, n' :: rest' =>
    have hparts : (n :: rest).map numeral = (n' :: rest').map numeral := by
      rw [← splitOn_traceAddressText (List.cons_ne_nil n rest), h,
        splitOn_traceAddressText (List.cons_ne_nil n' rest')]
    exact List.map_injective_iff.2 numeral_injective hparts

/-! ## Places -/

/-- The place of an element in its transaction. -/
inductive Place where
  /-- The position of a call frame; the outermost one has no parts. -/
  | frame (path : List UInt64)
  | event (index : UInt32)
  deriving DecidableEq

namespace Place

/-- The text of a place in a key. -/
def text : Place → String
  | frame path => traceAddressText path
  | event index => "log:" ++ toString index.toNat

theorem text_frame_ne_text_event (path : List UInt64) (index : UInt32) :
    (frame path).text ≠ (event index).text := by
  intro h
  have hlist : (traceAddressText path).toList = 'l' :: ("og:".toList ++ (toString index.toNat).toList) := by
    rw [← List.cons_append]
    exact (congrArg String.toList h).trans String.toList_append
  cases path with
  | nil => cases hlist
  | cons n rest =>
    obtain ⟨c, cs, hcs, hdigit⟩ := exists_digit_traceAddressText n rest
    obtain ⟨rfl, -⟩ := List.cons.inj (hcs.symm.trans hlist)
    exact absurd hdigit (by decide)

theorem text_injective : Function.Injective text := by
  intro p q h
  match p, q with
  | frame path, frame path' => rw [traceAddressText_injective h]
  | frame path, event index => exact absurd h (text_frame_ne_text_event path index)
  | event index, frame path => exact absurd h.symm (text_frame_ne_text_event path index)
  | event index, event index' =>
    rw [UInt32.toNat_inj.1 (Nat.repr_injective ((String.append_right_inj "log:").1 h))]

end Place

namespace Element

/-- Where the element stands in its transaction: a frame that was read from a value at the integers of its
position, and an event at its index. -/
def StandsAt : Element → Place → Prop
  | .trace t, .frame path => ∃ v, Trace.decode? v = some t ∧ (Trace.pathItems v).mapM Json.uint64? = some path
  | .log l, .event index => l.logIndex = index
  | _, _ => False

variable {e e' : Element} {p p' : Place}

theorem StandsAt.key_eq (h : e.StandsAt p) : e.key = ⟨e.txHash, p.text⟩ := by
  match e, p with
  | .trace t, .frame path =>
    obtain ⟨v, hv, hpath⟩ := h
    have htext : t.traceAddress = traceAddressText path := by
      rw [Trace.traceAddress_of_decode hv, filterMap_eq_of_forall₂ (mapM_eq_some_iff.1 hpath)]
    exact congrArg (Derived.FrameKey.mk t.txHash) htext
  | .log l, .event index =>
    cases h
    rfl

/-- Elements have one key exactly if they stand at one place of one transaction. -/
theorem StandsAt.key_eq_iff (h : e.StandsAt p) (h' : e'.StandsAt p') :
    e.key = e'.key ↔ e.txHash = e'.txHash ∧ p = p' := by
  rw [h.key_eq, h'.key_eq, Derived.FrameKey.mk.injEq, Place.text_injective.eq_iff]

end Element

end Chain

open Chain (Element Place Trace)
open Derived (FrameKey InternalTx Marker)

/-! ## Keys of what is stored -/

/-- The keys of some rows and markers. -/
def Indexer.Rows.keys (r : Rows) : List FrameKey := r.rows.map InternalTx.key ++ r.markers.map Marker.key

namespace Network

/-- What is not stored has no marker either. -/
theorem isSome_row?_of_marker? {network : Network} {e : Element} {mk : Marker}
    (h : network.marker? e = some mk) : (network.row? e).isSome := by
  cases network <;> cases e
  · rfl
  · cases h
  · cases h
  · rw [marker?] at h
    rw [row?]
    split at h
    · cases h
    · rename_i hkept
      rw [if_neg hkept]
      rfl

/-- The keys that some elements are stored under are those of the elements that are stored. -/
theorem mem_keys_rows {network : Network} {elements : List Element} {key : FrameKey} :
    key ∈ (network.rows elements).keys ↔ ∃ e ∈ elements, (network.row? e).isSome ∧ e.key = key := by
  rw [Indexer.Rows.keys, rows_rows, rows_markers, List.mem_append, List.mem_map, List.mem_map]
  simp only [List.mem_filterMap]
  constructor
  · rintro (⟨row, ⟨e, he, hrow⟩, rfl⟩ | ⟨mk, ⟨e, he, hmk⟩, rfl⟩)
    · exact ⟨e, he, Option.isSome_of_eq_some hrow, (key_of_row? hrow).symm⟩
    · exact ⟨e, he, isSome_row?_of_marker? hmk, (key_of_marker? hmk).symm⟩
  · rintro ⟨e, he, hsome, rfl⟩
    obtain ⟨row, hrow⟩ := Option.isSome_iff_exists.1 hsome
    exact .inl ⟨row, ⟨e, he, hrow⟩, key_of_row? hrow⟩

/-- Whichever indexer they are stored by, two elements have a key in common only if they stand at the same place
of the same transaction: never a frame and an event, and otherwise at the same position, or at the same index.
And what a list of elements is stored under is what its elements are stored under, one by one. -/
theorem keys_distinguish (network network' : Network) :
    (∀ {e e' p p' key key'}, e.StandsAt p → e'.StandsAt p' → key ∈ (network.rows [e]).keys →
      key' ∈ (network'.rows [e']).keys → (key = key' ↔ e.txHash = e'.txHash ∧ p = p')) ∧
    ∀ {elements key}, key ∈ (network.rows elements).keys ↔
      ∃ e ∈ elements, key ∈ (network.rows [e]).keys := by
  constructor
  · intro e e' p p' key key' h h' hkey hkey'
    obtain ⟨_, hmem, -, rfl⟩ := mem_keys_rows.1 hkey
    obtain ⟨_, hmem', -, rfl⟩ := mem_keys_rows.1 hkey'
    rw [List.mem_singleton.1 hmem, List.mem_singleton.1 hmem']
    exact h.key_eq_iff h'
  · intro elements key
    simp only [mem_keys_rows, List.mem_singleton, exists_eq_left]

end Network

namespace Sample

/-- A call frame as a node reports it, at a position. -/
def positioned (path : List Nat) : Json := .obj [
  ("action", .obj [("from", .str "0x05")]), ("blockNumber", .ofNat 7),
  ("traceAddress", .arr (path.map .ofNat)), ("transactionHash", .str "0xaa")]

/-- What it is read as. -/
def framed (traceAddress : String) : Trace where
  txHash := "0xaa"
  blockNumber := 7
  traceAddress := traceAddress
  callType := none
  sender := "0x05"
  recipient := none
  value := "0"
  input := "0x"
  error := none

/-- An event of the same transaction. -/
def emitted (index : UInt32) : Chain.Log where
  address := "0x05"
  topics := []
  data := "0x"
  blockNumber := 7
  blockHash := "0xb7"
  txHash := "0xaa"
  logIndex := index
  removed := false

end Sample

open Sample in
theorem Network.keys_distinguish_sample :
    Element.StandsAt (.trace (framed "1,12")) (.frame [1, 12]) ∧
    Element.StandsAt (.trace (framed "11,2")) (.frame [11, 2]) ∧ Element.StandsAt (.log (emitted 1)) (.event 1) ∧
    ⟨"0xaa", "1,12"⟩ ∈ (l1.rows [.trace (framed "1,12")]).keys ∧
    ⟨"0xaa", "11,2"⟩ ∈ (l1.rows [.trace (framed "11,2")]).keys ∧
    ⟨"0xaa", "log:1"⟩ ∈ (l2.rows [.log (emitted 1)]).keys ∧
    FrameKey.mk "0xaa" "1,12" ≠ ⟨"0xaa", "11,2"⟩ ∧ FrameKey.mk "0xaa" "1,12" ≠ ⟨"0xaa", "log:1"⟩ := by
  have hframe : Element.StandsAt (.trace (framed "1,12")) (.frame [1, 12]) :=
    ⟨positioned [1, 12], by decide +kernel, by decide +kernel⟩
  have hframe' : Element.StandsAt (.trace (framed "11,2")) (.frame [11, 2]) :=
    ⟨positioned [11, 2], by decide +kernel, by decide +kernel⟩
  have hevent : Element.StandsAt (.log (emitted 1)) (.event 1) := rfl
  have hkey : ⟨"0xaa", "1,12"⟩ ∈ (l1.rows [.trace (framed "1,12")]).keys := by decide +kernel
  have hkey' : ⟨"0xaa", "11,2"⟩ ∈ (l1.rows [.trace (framed "11,2")]).keys := by decide +kernel
  have hkeyEvent : ⟨"0xaa", "log:1"⟩ ∈ (l2.rows [.log (emitted 1)]).keys := by decide +kernel
  refine ⟨hframe, hframe', hevent, hkey, hkey', hkeyEvent, fun heq => ?_, fun heq => ?_⟩
  · exact absurd (((keys_distinguish l1 l1).1 hframe hframe' hkey hkey').1 heq).2 (by decide)
  · exact absurd (((keys_distinguish l1 l2).1 hframe hevent hkey hkeyEvent).1 heq).2 (by decide)

end ChainIndex
