import Mathlib.Data.List.Basic
import ChainIndex.Chain.Filter
import ChainIndex.Proofs.Indexer.Windows
import ChainIndex.Service

/-!
# Searching for elements

An `Archive` holds all the elements that a node reports, and a node `Filters` it if every answer to a
search is the part of it that the search selects, in whatever order.  `Archive.wanted` are the elements of
a range of blocks that an indexer looks for.

In one window an indexer finds the elements that it looks for there (`Answers.Filters.finds`), and in a
sweep those from the first block up to the end of the last window, each in one window
(`Indexer.Swept.perm_flatten`).
-/

namespace ChainIndex

open Chain (Element)
open Derived (FrameKey InternalTx Marker)

/-! ## What elements are stored as -/

/-- The key of the row that the element is stored as. -/
def Chain.Element.key : Element → FrameKey
  | .trace t => Indexer.frameKey t
  | .log l => Indexer.eventKey l

namespace Network

/-- What some elements are stored as. -/
def rows : Network → List Element → Indexer.Rows
  | l1, elements => Indexer.frameRows elements
  | l2, elements => Indexer.eventRows elements

/-- The row of an element, unless it was taken back. -/
def row? : Network → Element → Option InternalTx
  | l1, .trace t => some (Indexer.frameRow t)
  | l2, .log l => if l.removed then none else some (Indexer.eventRow l)
  | _, _ => none

/-- The marker of an element, if it has one. -/
def marker? : Network → Element → Option Marker
  | l1, .trace t => Indexer.frameMarker? t
  | l2, .log l => if l.removed then none else Indexer.eventMarker? l
  | _, _ => none

theorem rows_rows (network : Network) (elements : List Element) :
    (network.rows elements).rows = elements.filterMap network.row? := by
  cases network with
  | l1 =>
    show (elements.filterMap Element.trace?).map Indexer.frameRow = _
    rw [List.map_filterMap]
    exact List.filterMap_congr fun e _ => by cases e <;> rfl
  | l2 =>
    show ((elements.filterMap Element.log?).filter fun l => !l.removed).map Indexer.eventRow = _
    rw [List.filter_filterMap, List.map_filterMap]
    refine List.filterMap_congr fun e _ => ?_
    cases e with
    | trace t => rfl
    | log l => cases hl : l.removed <;> simp [Element.log?, row?, hl]

theorem rows_markers (network : Network) (elements : List Element) :
    (network.rows elements).markers = elements.filterMap network.marker? := by
  cases network with
  | l1 =>
    show (elements.filterMap Element.trace?).filterMap Indexer.frameMarker? = _
    rw [List.filterMap_filterMap]
    exact List.filterMap_congr fun e _ => by cases e <;> rfl
  | l2 =>
    show ((elements.filterMap Element.log?).filter fun l => !l.removed).filterMap
      Indexer.eventMarker? = _
    rw [List.filter_filterMap, List.filterMap_filterMap]
    refine List.filterMap_congr fun e _ => ?_
    cases e with
    | trace t => rfl
    | log l => cases hl : l.removed <;> simp [Element.log?, marker?, hl, Option.filter]

theorem key_of_row? {network : Network} {e : Element} {row : InternalTx} (h : network.row? e = some row) :
    row.key = e.key := by
  cases network <;> cases e
  · cases h
    rfl
  · cases h
  · cases h
  · rw [row?] at h
    split at h
    · cases h
    · cases h
      rfl

theorem key_of_marker? {network : Network} {e : Element} {mk : Marker} (h : network.marker? e = some mk) :
    mk.key = e.key := by
  cases network <;> cases e
  · simp only [marker?, Indexer.frameMarker?] at h
    split at h
    · obtain ⟨selector, -, rfl⟩ := Option.map_eq_some_iff.1 h
      rfl
    · cases h
  · cases h
  · cases h
  · rw [marker?] at h
    split at h
    · cases h
    · obtain ⟨topic, -, rfl⟩ := Option.map_eq_some_iff.1 h
      rfl

end Network

/-! ## Searches -/

/-- The elements in the answer to a search. -/
def Query.found? : (q : Query) → q.Reply → Option (List Element)
  | .traces .., ts => some (ts.map .trace)
  | .logs .., ls => some (ls.map .log)
  | _, _ => none

/-- The elements that a search was answered with. -/
def Event.found? : Event → Option (List Element)
  | .asked q (.ok r) => q.found? r
  | _ => none

theorem Event.found?_eq_none {e : Event} (h : e.move.isLedger = true) : e.found? = none := by
  cases e with
  | did a r => rfl
  | asked q r =>
    cases r with
    | error fault => rfl
    | ok r => cases q <;> first | rfl | cases h

namespace Network

/-- The question for the elements of some blocks. -/
def search (addresses : List String) (first last : UInt64) : Network → Query
  | l1 => .traces addresses first last
  | l2 => .logs addresses Indexer.eventTopics first last

/-- The addresses that a search names; outside of exact mode events of any address are searched for. -/
def scope (network : Network) (exact_ : Bool) (addresses : List String) : List String :=
  match network with
  | l1 => addresses
  | l2 => if exact_ then addresses else []

/-- The search for the blocks of a window was answered with some elements. -/
def Finds (N : Answers) (network : Network) (addresses : List String) (first next : UInt64)
    (elements : List Element) (es : List Event) : Prop :=
  first < next ∧ ∃ r, es = [.asked (network.search addresses first (next - 1)) r] ∧ N _ r ∧
    (Event.asked _ r).found? = some elements

end Network

theorem Service.leads_find {σ : Type} {N : Answers} {R : Conduct σ} {s : σ} (service : Service)
    (exact_ : Bool) (addresses : List String) {first next : UInt64} (h : first < next) :
    (service.indexer.find addresses first next).Leads N R exact_ s
      (fun elements i es s' =>
        service.network.Finds N (service.network.scope exact_ addresses) first next elements es ∧
          i = exact_ ∧ s' = s)
      fun e _ _ _ => N (service.network.search (service.network.scope exact_ addresses) first (next - 1))
        (.error e) := by
  have hbounds : Indexer.bounds? first next = some (first, next - 1) := if_pos h
  obtain ⟨policy, network, chunkSize⟩ := service
  cases network with
  | l1 =>
    simp only [Service.indexer, Indexer.frames, hbounds]
    refine StateAttempt.leads_bind (StateAttempt.leads_keeping (Attempt.leads_send
      (fun traces hN => StateAttempt.leads_pure ⟨⟨h, _, rfl, hN, rfl⟩, rfl, rfl⟩) fun _ hN => hN))
  | l2 =>
    simp only [Service.indexer, Indexer.events, hbounds]
    refine StateAttempt.leads_bind (StateAttempt.leads_get ?_)
    refine StateAttempt.leads_bind (StateAttempt.leads_keeping (Attempt.leads_send
      (fun logs hN => StateAttempt.leads_pure ⟨⟨h, _, rfl, hN, rfl⟩, rfl, rfl⟩) fun _ hN => hN))

/-! ## Exact answers -/

/-- All the elements that a node reports. -/
structure Archive where
  traces : List Chain.Trace
  logs : List Chain.Log

/-- Every search is answered with the elements of the archive that it selects, in whatever order. -/
structure Answers.Filters (N : Answers) (A : Archive) : Prop where
  traces : ∀ {recipients first last found}, N (.traces recipients first last) (.ok found) →
    found.Perm (A.traces.filter (Chain.Trace.isSelected recipients first last))
  logs : ∀ {addresses topics first last found}, N (.logs addresses topics first last) (.ok found) →
    found.Perm (A.logs.filter (Chain.Log.isSelected addresses topics first last))

/-- Whether an indexer that is given some addresses looks for an element: a frame that goes to one of
them, or an event worth decoding that one of them emitted, or anybody if there are none. -/
def Chain.Element.concerns (addresses : List String) : Element → Bool
  | .trace t => t.recipient.any (Chain.isAmong addresses)
  | .log l => (addresses.isEmpty || Chain.isAmong addresses l.address) &&
    l.topic0.any Indexer.eventTopics.contains

namespace Archive

variable (A : Archive)

/-- The elements that indexers of a kind of network are made for. -/
def elements : Network → List Element
  | .l1 => A.traces.map .trace
  | .l2 => A.logs.map .log

/-- The elements that an indexer looks for, from a block on and below another. -/
def wanted (network : Network) (addresses : List String) (first stop : UInt64) : List Element :=
  (A.elements network).filter fun e =>
    e.concerns addresses && (first ≤ e.blockNumber && e.blockNumber < stop)

variable {A} {network : Network} {addresses : List String} {first mid stop : UInt64} {e : Element}

theorem mem_wanted : e ∈ A.wanted network addresses first stop ↔
    e ∈ A.elements network ∧ e.concerns addresses = true ∧ first ≤ e.blockNumber ∧
      e.blockNumber < stop := by
  simp only [wanted, List.mem_filter, Bool.and_eq_true, decide_eq_true_eq]

theorem wanted_eq_nil (h : stop ≤ first) : A.wanted network addresses first stop = [] := by
  refine List.eq_nil_iff_forall_not_mem.2 fun e he => ?_
  obtain ⟨-, -, hfirst, hstop⟩ := mem_wanted.1 he
  exact absurd (UInt64.lt_of_le_of_lt (UInt64.le_trans h hfirst) hstop) (UInt64.lt_irrefl _)

/-- What is wanted from a part of a range is a part of what is wanted from the range. -/
theorem filter_wanted {P : Element → Bool} {first' stop' : UInt64}
    (h : ∀ e, P e = true ∧ first ≤ e.blockNumber ∧ e.blockNumber < stop ↔
      first' ≤ e.blockNumber ∧ e.blockNumber < stop') :
    (A.wanted network addresses first stop).filter P = A.wanted network addresses first' stop' := by
  rw [wanted, wanted, List.filter_filter]
  refine List.filter_congr fun e _ => ?_
  rw [Bool.eq_iff_iff]
  simp only [Bool.and_eq_true, decide_eq_true_eq]
  rw [← h e, and_left_comm]

/-- What is wanted from two ranges that lie side by side is wanted from both together. -/
theorem perm_wanted_append (h : first ≤ mid) (h' : mid ≤ stop) :
    (A.wanted network addresses first mid ++ A.wanted network addresses mid stop).Perm
      (A.wanted network addresses first stop) := by
  have hbelow : (A.wanted network addresses first stop).filter (fun e => decide (e.blockNumber < mid)) =
      A.wanted network addresses first mid := filter_wanted fun e => by
    rw [decide_eq_true_eq]
    exact ⟨fun ⟨hmid, hfirst, _⟩ => ⟨hfirst, hmid⟩,
      fun ⟨hfirst, hmid⟩ => ⟨hmid, hfirst, UInt64.lt_of_lt_of_le hmid h'⟩⟩
  have habove : (A.wanted network addresses first stop).filter (fun e => !decide (e.blockNumber < mid)) =
      A.wanted network addresses mid stop := filter_wanted fun e => by
    rw [Bool.not_eq_true', decide_eq_false_iff_not, UInt64.not_lt]
    exact ⟨fun ⟨hmid, _, hstop⟩ => ⟨hmid, hstop⟩,
      fun ⟨hmid, hstop⟩ => ⟨hmid, UInt64.le_trans h hmid, hstop⟩⟩
  rw [← hbelow, ← habove]
  exact List.filter_append_perm _ _

end Archive

/-- The node that answers searches from the archive, and questions about hashes like another one. -/
def Archive.node {ν : Type} (A : Archive) (node : Node ν) : Node ν where
  answer
    | .traces recipients first last, n =>
      (.ok (A.traces.filter (Chain.Trace.isSelected recipients first last)), n)
    | .logs addresses topics first last, n =>
      (.ok (A.logs.filter (Chain.Log.isSelected addresses topics first last)), n)
    | q, n => node.answer q n

theorem Archive.filters_node {ν : Type} (A : Archive) (node : Node ν) :
    (A.node node).answers.Filters A where
  traces := by
    rintro recipients first last found ⟨n, hanswer⟩
    cases hanswer
    exact .refl _
  logs := by
    rintro addresses topics first last found ⟨n, hanswer⟩
    cases hanswer
    exact .refl _

variable {N : Answers} {A : Archive} {network : Network} {addresses : List String}

theorem Chain.inRange_pred {first next : UInt64} (h : first < next) (n : UInt64) :
    inRange first (next - 1) n = (decide (first ≤ n) && decide (n < next)) := by
  have hnext : (next - 1).toNat = next.toNat - 1 :=
    UInt64.toNat_sub_of_le _ _ (UInt64.le_iff_toNat_le.2 (by
      have := UInt64.lt_iff_toNat_lt.1 h
      show 1 ≤ next.toNat
      omega))
  rw [inRange, Bool.eq_iff_iff]
  simp only [Bool.and_eq_true, decide_eq_true_eq, UInt64.le_iff_toNat_le, UInt64.lt_iff_toNat_lt, hnext]
  have := UInt64.lt_iff_toNat_lt.1 h
  omega

/-- In a window those elements are found that are wanted from it. -/
theorem Answers.Filters.finds (hN : N.Filters A) {first next : UInt64} {elements : List Element}
    {es : List Event} (hfinds : network.Finds N addresses first next elements es) :
    elements.Perm (A.wanted network addresses first next) := by
  obtain ⟨h, r, -, hr, hfound⟩ := hfinds
  cases r with
  | error fault => cases hfound
  | ok found =>
    cases network with
    | l1 =>
      cases hfound
      rw [Archive.wanted, Archive.elements, List.filter_map]
      refine ((hN.traces hr).trans (.of_eq (List.filter_congr fun t _ => ?_))).map _
      show (Chain.inRange first (next - 1) t.blockNumber && t.recipient.any _) = (_ && _)
      rw [Chain.inRange_pred h, Bool.and_comm]
      rfl
    | l2 =>
      cases hfound
      rw [Archive.wanted, Archive.elements, List.filter_map]
      refine ((hN.logs hr).trans (.of_eq (List.filter_congr fun l _ => ?_))).map _
      show (Chain.inRange first (next - 1) l.blockNumber && _ && l.topic0.any _) = (_ && _)
      rw [Chain.inRange_pred h, Bool.and_assoc, Bool.and_comm]
      rfl

namespace Indexer

variable {σ : Type} {Store : List Element → σ → Nat → List Event → σ → Prop}
  {stop size cursor : UInt64} {s s' : σ} {found : List (List Element)} {n : Nat} {es : List Event}

/-- In a sweep those elements are found that are wanted from the first block up to the end of the last
window. -/
theorem Swept.perm_flatten (hN : N.Filters A)
    (h : Swept (network.Finds N addresses) Store stop size cursor s found n es s') :
    found.flatten.Perm
      (A.wanted network addresses cursor (windowStart cursor size found.length)) := by
  induction h with
  | done h =>
    rw [Archive.wanted_eq_nil (by rw [List.length_nil, windowStart_zero]; exact UInt64.le_refl _)]
    exact .nil
  | @window cursor _ _ _ _ _ _ found _ _ _ h hfind hstore rest ih =>
    have hone : advance cursor size = windowStart cursor size 1 := by
      rw [← windowStart_advance, windowStart_zero]
    have hrest : advance cursor size ≤ windowStart cursor size (found.length + 1) :=
      hone ▸ windowStart_mono cursor size (Nat.le_add_left 1 found.length)
    rw [windowStart_advance] at ih
    exact ((hN.finds hfind).append ih).trans
      (Archive.perm_wanted_append (UInt64.le_of_lt hfind.1) hrest)

theorem Swept.existsUnique (hN : N.Filters A)
    (h : Swept (network.Finds N addresses) Store stop size cursor s found n es s') {e : Element}
    (he : e ∈ found.flatten) : ∃! i : Nat, ∃ elements, found[i]? = some elements ∧ e ∈ elements := by
  -- An element lies between the beginning of its window and that of the next one.
  have hwindow {i : Nat} (hi : ∃ elements, found[i]? = some elements ∧ e ∈ elements) :
      windowStart cursor size i ≤ e.blockNumber ∧ e.blockNumber < windowStart cursor size (i + 1) := by
    obtain ⟨elements, hi, he⟩ := hi
    obtain ⟨es, hfind⟩ := h.exists_find hi
    obtain ⟨-, -, hbounds⟩ := Archive.mem_wanted.1 ((hN.finds hfind).mem_iff.1 he)
    exact hbounds
  have hle {i j : Nat} (hi : ∃ elements, found[i]? = some elements ∧ e ∈ elements)
      (hj : ∃ elements, found[j]? = some elements ∧ e ∈ elements) : j ≤ i := by
    by_contra hlt
    have hmono := windowStart_mono cursor size (Nat.lt_of_not_le hlt)
    exact absurd (UInt64.lt_of_lt_of_le (hwindow hi).2 (UInt64.le_trans hmono (hwindow hj).1))
      (UInt64.lt_irrefl _)
  obtain ⟨elements, hmem, he⟩ := List.mem_flatten.1 he
  obtain ⟨i, hi⟩ := List.mem_iff_getElem?.1 hmem
  exact ⟨i, ⟨elements, hi, he⟩, fun j hj => Nat.le_antisymm (hle ⟨elements, hi, he⟩ hj)
    (hle hj ⟨elements, hi, he⟩)⟩

end Indexer

end ChainIndex
