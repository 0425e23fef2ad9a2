import ChainIndex.Proofs.Json.Reading
import ChainIndex.Proofs.Text.Quantity
import ChainIndex.Rpc.Client

/-!
# Quantities that a client exchanges

A client sends the bounds of a search as quantities, and reads quantities from what a node answers.  Both are
exact (`quantities_exact`): a text is read as the number that it names and as nothing else, and what is sent is
read back.
-/

namespace ChainIndex.Rpc

open Quantity (Names NamesPlainly RewrittenAs written)

/-! ## Bounds of a search -/

section

variable {first last : UInt64} {others : List (String × Json)}

/-- The bounds of a filter are quantities that are read as the first and the last block of a search. -/
structure Spans (filter : Json) (first last : UInt64) : Prop where
  fromBlock : Chain.requiredQuantity? (filter.get "fromBlock") = some first
  toBlock : Chain.requiredQuantity? (filter.get "toBlock") = some last

theorem spans_ofFields (h : ∀ f ∈ others, f.1 ∉ ["fromBlock", "toBlock"]) :
    Spans (.ofFields (rangeFields first last ++ others)) first last := by
  have hget {name : String} (hname : name ∈ ["fromBlock", "toBlock"]) :
      (Json.ofFields (rangeFields first last ++ others)).get name =
        Json.lookup name (rangeFields first last).reverse := by
    rw [Json.get_ofFields, List.reverse_append, Json.lookup_append fun f hf heq => ?_]
    exact h f (List.mem_reverse.1 hf) (heq ▸ hname)
  constructor
  · rw [hget (by decide)]
    exact Quantity.parse?_format first
  · rw [hget (by decide)]
    exact Quantity.parse?_format last

theorem fst_of_mem_optional {absent : Bool} {name : String} {v : Json} {f : String × Json}
    (h : f ∈ if absent then [] else [(name, v)]) : f.1 = name := by
  cases absent with
  | true => cases h
  | false =>
    obtain rfl := List.mem_singleton.1 h
    rfl

theorem spans_logFilter (addresses topics : List String) (first last : UInt64) :
    Spans (logFilter addresses topics first last) first last := by
  rw [logFilter, List.append_assoc]
  apply spans_ofFields
  intro f hf
  rcases List.mem_append.1 hf with haddress | htopics
  · rw [fst_of_mem_optional haddress]
    decide
  · rw [fst_of_mem_optional htopics]
    decide

theorem spans_traceFilter (recipients : List String) (first last : UInt64) :
    Spans (traceFilter recipients first last) first last := by
  apply spans_ofFields
  intro f hf
  rw [List.mem_singleton.1 hf]
  show "toAddress" ∉ ["fromBlock", "toBlock"]
  decide

end

/-! ## Exact quantities -/

/-- A text is read as the number of 64 bits that it names, and refused if it names none.  One of up to 128 bits
is rewritten in decimal, the mark alone as zero, and every other text is left as it is.  What a number is written
as is the one text that names it plainly, and is read back; and so are the bounds of every search. -/
theorem quantities_exact :
    (∀ s n, (Quantity.parse? s).map UInt64.toNat = some n ↔ Names s n ∧ n < 2 ^ 64) ∧
    (∀ s, Quantity.parse? s = none ↔ ∀ n < 2 ^ 64, ¬ Names s n) ∧
    (∀ s t, Quantity.toDecimal s = t ↔ RewrittenAs s t) ∧
    (∀ s n, s = written n ↔ NamesPlainly s n) ∧
    (∀ w, Quantity.format w = written w.toNat ∧ Quantity.parse? (Quantity.format w) = some w) ∧
    (∀ n < 2 ^ 128, Quantity.toDecimal (written n) = toString n) ∧
    ∀ addresses topics recipients first last,
      Spans (logFilter addresses topics first last) first last ∧
      Spans (traceFilter recipients first last) first last := by
  refine ⟨?_, ?_, ?_, ?_, ?_, ?_, ?_⟩
  · intro s n
    exact Quantity.map_toNat_parse?_eq_some_iff
  · intro s
    exact Quantity.parse?_eq_none_iff
  · intro s t
    exact Quantity.toDecimal_eq_iff
  · intro s n
    exact Quantity.eq_written_iff
  · intro w
    exact ⟨Quantity.format_eq_written w, Quantity.parse?_format w⟩
  · intro n hn
    exact Quantity.toDecimal_written hn
  · intro addresses topics recipients first last
    exact ⟨spans_logFilter addresses topics first last, spans_traceFilter recipients first last⟩

theorem quantities_exact_sample :
    Names "0x+0000000000000000000000fF" 255 ∧
    Quantity.toDecimal "0x+0000000000000000000000fF" = "255" ∧
    (∀ n < 2 ^ 64, ¬ Names "0x10000000000000000" n) ∧
    2 ^ 128 - 1 < 2 ^ 128 ∧
    Quantity.toDecimal (written (2 ^ 128 - 1)) = "340282366920938463463374607431768211455" := by
  obtain ⟨hread, hnone, hdecimal, -, -, hwritten, -⟩ := quantities_exact
  have hnames : Names "0x+0000000000000000000000fF" 255 := ((hread _ 255).1 (by decide +kernel)).1
  refine ⟨hnames, (hdecimal _ "255").2 ?_, (hnone _).1 (by decide +kernel), by decide, ?_⟩
  · exact .decimal hnames (by decide)
  · exact (hwritten (2 ^ 128 - 1) (by decide)).trans (by decide +kernel)

end ChainIndex.Rpc
