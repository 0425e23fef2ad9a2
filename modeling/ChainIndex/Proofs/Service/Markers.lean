import Mathlib.Data.String.Basic
import ChainIndex.Proofs.Service.Union

/-!
# What markers describe

A frame earns a marker if it is a delegated call that succeeded, with an input of four bytes at least
(`Chain.Trace.Earns`), and a marker describes the row of the frame that it was made for.

Rows and markers are added by keys of their own, each unless there is one already.  Under a key stands
therefore the row of the first frame that had the key, and the marker of the first one that earned it.  These
are the same frame if the first one earned a marker (`Storage.Fed.marker_describes`); if a transaction was
executed once more, and only the later execution delegated, they are not.
-/

namespace ChainIndex

open Chain (Element Trace)
open Derived (FrameKey InternalTx Marker Tables)

/-! ## Selectors -/

namespace Indexer

open String (utf8Len)

/-- A text begins with so many bytes if it begins with characters that take up these. -/
theorem takeBytes?_eq_some_iff {n : Nat} {cs head : List Char} :
    takeBytes? n cs = some head ↔ ∃ rest, cs = head ++ rest ∧ utf8Len head = n := by
  fun_induction takeBytes? n cs generalizing head with
  | case1 cs =>
    constructor
    · intro h
      cases h
      exact ⟨cs, rfl, rfl⟩
    · rintro ⟨rest, rfl, hlen⟩
      rw [String.utf8Len_eq_zero.1 hlen]
  | case2 n =>
    constructor
    · exact nofun
    · rintro ⟨rest, hnil, hlen⟩
      obtain ⟨rfl, -⟩ := List.append_eq_nil_iff.1 hnil.symm
      cases hlen
  | case3 n c cs hle ih =>
    constructor
    · intro h
      obtain ⟨tail, htail, rfl⟩ := Option.map_eq_some_iff.1 h
      obtain ⟨rest, rfl, hlen⟩ := ih.1 htail
      refine ⟨rest, rfl, ?_⟩
      rw [String.utf8Len_cons]
      omega
    · rintro ⟨rest, hcs, hlen⟩
      cases head with
      | nil => cases hlen
      | cons d tail =>
        obtain ⟨rfl, rfl⟩ := List.cons.inj hcs
        rw [String.utf8Len_cons] at hlen
        rw [ih.2 ⟨rest, rfl, by omega⟩, Option.map_some]
  | case4 n c cs hlt =>
    constructor
    · exact nofun
    · rintro ⟨rest, hcs, hlen⟩
      cases head with
      | nil => cases hlen
      | cons d tail =>
        obtain ⟨rfl, rfl⟩ := List.cons.inj hcs
        rw [String.utf8Len_cons] at hlen
        omega

/-- A selector is what an input begins with, in small letters. -/
theorem selector?_eq_some_iff {input selector : String} : selector? input = some selector ↔
    ∃ head rest : String, input = head ++ rest ∧ head.utf8ByteSize = selectorLength ∧
      Text.lower head = selector := by
  rw [selector?, Option.map_eq_some_iff]
  constructor
  · rintro ⟨cs, hcs, rfl⟩
    obtain ⟨rest, hinput, hlen⟩ := takeBytes?_eq_some_iff.1 hcs
    refine ⟨.ofList cs, .ofList rest, ?_, ?_, rfl⟩
    · rw [← String.toList_inj, hinput, String.toList_append, String.toList_ofList, String.toList_ofList]
    · rw [String.utf8ByteSize_ofList, hlen]
  · rintro ⟨head, rest, rfl, hlen, rfl⟩
    refine ⟨head.toList, takeBytes?_eq_some_iff.2 ⟨rest.toList, String.toList_append, ?_⟩, ?_⟩
    · rw [← String.utf8ByteSize_ofList, String.ofList_toList, hlen]
    · rw [String.ofList_toList]

end Indexer

/-- The frame is of a delegated call that succeeded, and ten bytes of its input are whole characters that it
begins with. -/
structure Chain.Trace.Earns (t : Trace) : Prop where
  delegated : t.callType = some "delegatecall"
  succeeded : t.error = none
  begins : ∃ head rest : String, t.input = head ++ rest ∧ head.utf8ByteSize = Indexer.selectorLength

/-- The row is of a delegated call, and the selector of the marker is what its data begin with. -/
structure Derived.Marker.Describes (mk : Marker) (row : InternalTx) : Prop where
  delegated : row.callType = some "delegatecall"
  selector : ∃ head rest : String, row.data = head ++ rest ∧ head.utf8ByteSize = Indexer.selectorLength ∧
    mk.selector = Text.lower head

namespace Indexer

variable {t : Trace} {mk : Marker}

/-- A marker is made for a frame if it describes the row of the frame and the call succeeded. -/
theorem frameMarker?_eq_some_iff : frameMarker? t = some mk ↔
    t.error = none ∧ mk.key = frameKey t ∧ mk.processed = false ∧ mk.Describes (frameRow t) := by
  unfold frameMarker?
  split
  · rename_i h
    obtain ⟨hcall, herror⟩ := Bool.and_eq_true_iff.1 h
    constructor
    · intro hmk
      obtain ⟨selector, hselector, rfl⟩ := Option.map_eq_some_iff.1 hmk
      obtain ⟨head, rest, hinput, hlen, rfl⟩ := selector?_eq_some_iff.1 hselector
      exact ⟨Option.isNone_iff_eq_none.1 herror, rfl, rfl, of_decide_eq_true hcall, head, rest, hinput, hlen,
        rfl⟩
    · rintro ⟨-, hkey, hprocessed, -, head, rest, hinput, hlen, hselector⟩
      have hfound : selector? t.input = some mk.selector :=
        selector?_eq_some_iff.2 ⟨head, rest, hinput, hlen, hselector.symm⟩
      rw [hfound, Option.map_some, ← hkey, ← hprocessed]
  · rename_i h
    constructor
    · exact nofun
    · rintro ⟨herror, -, -, hcall, -⟩
      refine absurd (Bool.and_eq_true_iff.2 ⟨decide_eq_true hcall, ?_⟩) h
      rw [herror]
      rfl

theorem isSome_frameMarker? : (frameMarker? t).isSome = true ↔ t.Earns := by
  rw [Option.isSome_iff_exists]
  constructor
  · rintro ⟨mk, hmk⟩
    obtain ⟨herror, -, -, hcall, head, rest, hinput, hlen, -⟩ := frameMarker?_eq_some_iff.1 hmk
    exact ⟨hcall, herror, head, rest, hinput, hlen⟩
  · rintro ⟨hcall, herror, head, rest, hinput, hlen⟩
    exact ⟨⟨frameKey t, Text.lower head, false⟩,
      frameMarker?_eq_some_iff.2 ⟨herror, rfl, rfl, hcall, head, rest, hinput, hlen, rfl⟩⟩

theorem key_of_frameMarker? (h : frameMarker? t = some mk) : mk.key = frameKey t :=
  (frameMarker?_eq_some_iff.1 h).2.1

end Indexer

/-! ## What frames are stored as -/

namespace Storage

/-- The stores that calls of the indexer of call frames lead to from an empty one, with the frames of the
calls that succeeded, in their order. -/
inductive Fed : List Trace → Storage → Prop
  | memory : Fed [] .inMemory
  | database (path? : Option String) : Fed [] (.database path? { live := {} })
  | processed {traces s} (h : Fed traces s) (service : Service) (exact_ : Bool) (elements : List Element)
    {ν : Type} (node : Node ν) (n : ν) {count : Nat}
    (hok : ((Operation.process .l1 exact_ elements).run service node ⟨n, s⟩).1 = .ok count) :
    Fed (traces ++ elements.filterMap Element.trace?)
      ((Operation.process .l1 exact_ elements).run service node ⟨n, s⟩).2.store
  | failed {traces s} (h : Fed traces s) (service : Service) (exact_ : Bool) (elements : List Element)
    {ν : Type} (node : Node ν) (n : ν) {fault : Fault}
    (herror : ((Operation.process .l1 exact_ elements).run service node ⟨n, s⟩).1 = .error fault) :
    Fed traces ((Operation.process .l1 exact_ elements).run service node ⟨n, s⟩).2.store

end Storage

/-- A call of the indexer of call frames adds the rows and markers of its frames, or fails and adds none. -/
theorem Operation.process_frames {ν : Type} (service : Service) (exact_ : Bool) (elements : List Element)
    (node : Node ν) (w : Routine.World ν Storage) :
    let result := (Operation.process .l1 exact_ elements).run service node w
    let traces := elements.filterMap Element.trace?
    (∃ n, result.1 = .ok n ∧ w.store.derived.Gains (traces.map Indexer.frameRow)
      (traces.filterMap Indexer.frameMarker?) n result.2.store.derived) ∨
    ∃ fault, result.1 = .error fault ∧ result.2.store.derived = w.store.derived := by
  intro result traces
  have hend := (Network.processes_run .l1 exact_ elements service node w).outcome
  have hrows : (Network.l1.rows elements).rows = traces.map Indexer.frameRow := rfl
  have hmarkers : (Network.l1.rows elements).markers = traces.filterMap Indexer.frameMarker? := rfl
  rw [← Network.rows_rows, ← Network.rows_markers, hrows, hmarkers] at hend
  cases hresult : result.1 with
  | ok n =>
    rw [hresult] at hend
    exact .inl ⟨n, rfl, hend⟩
  | error fault =>
    rw [hresult] at hend
    exact .inr ⟨fault, rfl, hend⟩

namespace Storage.Fed

variable {traces : List Trace} {s : Storage}

/-- A store holds what the frames of all calls are stored as together. -/
theorem gains (h : Fed traces s) : ∃ n, Tables.Gains {} (traces.map Indexer.frameRow)
    (traces.filterMap Indexer.frameMarker?) n s.derived := by
  induction h with
  | memory => exact ⟨0, .refl {}⟩
  | database path? => exact ⟨0, .refl {}⟩
  | processed h service exact_ elements node n hok ih =>
    obtain ⟨m, hbefore⟩ := ih
    rcases Operation.process_frames service exact_ elements node ⟨n, _⟩ with ⟨k, -, hgains⟩ | ⟨_, herror, -⟩
    · rw [List.map_append, List.filterMap_append]
      exact ⟨m + k, hbefore.append hgains⟩
    · cases hok.symm.trans herror
  | failed h service exact_ elements node n herror ih =>
    obtain ⟨m, hbefore⟩ := ih
    rcases Operation.process_frames service exact_ elements node ⟨n, _⟩ with ⟨k, hok, -⟩ | ⟨_, -, hsame⟩
    · cases hok.symm.trans herror
    · rw [hsame]
      exact ⟨m, hbefore⟩

/-- Under a key stands the row of the first frame that had it. -/
theorem get?_internalTxs (h : Fed traces s) (key : FrameKey) : s.derived.internalTxs.get? key =
    (traces.find? fun t => Indexer.frameKey t = key).map Indexer.frameRow := by
  obtain ⟨n, hgains⟩ := h.gains
  rw [hgains.internalTxs, List.find?_map]
  rfl

/-- Under a key stands the marker of the first frame that earned it. -/
theorem get?_markers (h : Fed traces s) (key : FrameKey) : s.derived.markers.get? key =
    (traces.find? fun t => Indexer.frameKey t = key && (Indexer.frameMarker? t).isSome).bind
      Indexer.frameMarker? := by
  obtain ⟨n, hgains⟩ := h.gains
  have hkey (t : Trace) : ((Indexer.frameMarker? t).any fun mk => mk.key = key) =
      (Indexer.frameKey t = key && (Indexer.frameMarker? t).isSome) := by
    cases hmk : Indexer.frameMarker? t with
    | none => exact (Bool.and_false _).symm
    | some mk => rw [Option.any_some, Indexer.key_of_frameMarker? hmk, Option.isSome_some, Bool.and_true]
  rw [hgains.markers, List.find?_filterMap, funext hkey]
  rfl

theorem get?_markers_of_earns (h : Fed traces s) {key : FrameKey} {first : Trace}
    (hfirst : traces.find? (fun t => Indexer.frameKey t = key) = some first) (hearns : first.Earns) :
    s.derived.markers.get? key = Indexer.frameMarker? first := by
  obtain ⟨hkey, before, after, rfl, hbefore⟩ := List.find?_eq_some_iff_append.1 hfirst
  have hfound : (before ++ first :: after).find? (fun t => Indexer.frameKey t = key &&
      (Indexer.frameMarker? t).isSome) = some first := by
    refine List.find?_eq_some_iff_append.2 ⟨?_, before, after, rfl, fun t ht => ?_⟩
    · rw [Bool.and_eq_true_iff]
      exact ⟨hkey, Indexer.isSome_frameMarker?.2 hearns⟩
    · rw [Bool.not_and, hbefore t ht, Bool.true_or]
  rw [h.get?_markers, hfound, Option.bind_some]

theorem exists_made (h : Fed traces s) {key : FrameKey} {mk : Marker}
    (hmk : s.derived.markers.get? key = some mk) :
    ∃ t ∈ traces, Indexer.frameKey t = key ∧ Indexer.frameMarker? t = some mk := by
  obtain ⟨t, ht, hmade⟩ := Option.bind_eq_some_iff.1 ((h.get?_markers key).symm.trans hmk)
  have hkey := List.find?_some ht
  rw [Bool.and_eq_true_iff] at hkey
  exact ⟨t, List.mem_of_find?_eq_some ht, of_decide_eq_true hkey.1, hmade⟩

theorem exists_first (h : Fed traces s) {t : Trace} (ht : t ∈ traces) :
    ∃ first ∈ traces, Indexer.frameKey first = Indexer.frameKey t ∧
      traces.find? (fun t' => Indexer.frameKey t' = Indexer.frameKey t) = some first ∧
      s.derived.internalTxs.get? (Indexer.frameKey t) = some (Indexer.frameRow first) := by
  have hsome : (traces.find? fun t' => Indexer.frameKey t' = Indexer.frameKey t).isSome = true :=
    List.find?_isSome.2 ⟨t, ht, decide_eq_true rfl⟩
  obtain ⟨first, hfound⟩ := Option.isSome_iff_exists.1 hsome
  have hkey := List.find?_some hfound
  refine ⟨first, List.mem_of_find?_eq_some hfound, of_decide_eq_true hkey, hfound, ?_⟩
  rw [h.get?_internalTxs, hfound, Option.map_some]

/-- Where there is a marker, it describes a frame of its key, and if the first frame that had the key earned a
marker, then this one; its row is the one that stands there.  Where the row of a frame stands that earned a
marker, there is one.  So markers describe the rows of their keys as long as different frames have different
keys. -/
theorem marker_describes (h : Fed traces s) :
    (∀ key mk, s.derived.markers.get? key = some mk → mk.key = key ∧ mk.processed = false ∧
      ∃ first t, s.derived.internalTxs.get? key = some (Indexer.frameRow first) ∧
        traces.find? (fun t => Indexer.frameKey t = key) = some first ∧
        t ∈ traces ∧ Indexer.frameKey t = key ∧ t.Earns ∧ mk.Describes (Indexer.frameRow t) ∧
        (first.Earns → t = first)) ∧
    (∀ key t, traces.find? (fun t => Indexer.frameKey t = key) = some t → t.Earns →
      ∃ mk, s.derived.markers.get? key = some mk ∧ mk.Describes (Indexer.frameRow t)) ∧
    ((∀ t ∈ traces, ∀ t' ∈ traces, Indexer.frameKey t = Indexer.frameKey t' → t = t') →
      ∀ key mk, s.derived.markers.get? key = some mk →
        ∃ row, s.derived.internalTxs.get? key = some row ∧ mk.Describes row) := by
  refine ⟨fun key mk hmk => ?_, fun key t ht hearns => ?_, fun hdistinct key mk hmk => ?_⟩
  · obtain ⟨t, ht, rfl, hmade⟩ := h.exists_made hmk
    obtain ⟨-, hkey, hprocessed, hdescribes⟩ := Indexer.frameMarker?_eq_some_iff.1 hmade
    obtain ⟨first, hmem, hsame, hfound, hrow⟩ := h.exists_first ht
    refine ⟨hkey, hprocessed, first, ?_⟩
    -- The marker is of the first frame if that earned one, and else of whichever it was made for.
    by_cases hearns : first.Earns
    · have hfirstMade := (h.get?_markers_of_earns hfound hearns).symm.trans hmk
      obtain ⟨-, -, -, hdescribes⟩ := Indexer.frameMarker?_eq_some_iff.1 hfirstMade
      exact ⟨first, hrow, hfound, hmem, hsame, hearns, hdescribes, fun _ => rfl⟩
    · have hearned := Indexer.isSome_frameMarker?.1 (Option.isSome_iff_exists.2 ⟨mk, hmade⟩)
      exact ⟨t, hrow, hfound, ht, rfl, hearned, hdescribes, fun h => absurd h hearns⟩
  · obtain ⟨mk, hmk⟩ := Option.isSome_iff_exists.1 (Indexer.isSome_frameMarker?.2 hearns)
    obtain ⟨-, -, -, hdescribes⟩ := Indexer.frameMarker?_eq_some_iff.1 hmk
    exact ⟨mk, (h.get?_markers_of_earns ht hearns).trans hmk, hdescribes⟩
  · obtain ⟨t, ht, rfl, hmade⟩ := h.exists_made hmk
    obtain ⟨-, -, -, hdescribes⟩ := Indexer.frameMarker?_eq_some_iff.1 hmade
    obtain ⟨first, hmem, hsame, -, hrow⟩ := h.exists_first ht
    obtain rfl : first = t := hdistinct first hmem t ht hsame
    exact ⟨_, hrow, hdescribes⟩

end Storage.Fed

/-! ## On a small chain -/

namespace Sample

/-- A delegated call within the transaction. -/
def delegated : Trace where
  txHash := "0xaa"
  blockNumber := 7
  traceAddress := "0"
  callType := some "delegatecall"
  sender := "0x05"
  recipient := some "0x06"
  value := "0"
  input := "0x6A761202ffff"
  error := none

/-- Another execution of the transaction, which does not delegate. -/
def direct : Trace := { delegated with callType := some "call", input := "0x12345678" }

/-- What storing a frame in a call of its own answers, and what it leads to. -/
def feed (t : Trace) (s : Storage) : Except Fault Nat × Routine.World Unit Storage :=
  (Operation.process .l1 true [.trace t]).run service node ⟨(), s⟩

theorem fed_feed {traces : List Trace} {s : Storage} {t : Trace} {n : Nat} (h : s.Fed traces)
    (hok : (feed t s).1 = .ok n) : (feed t s).2.store.Fed (traces ++ [t]) :=
  .processed h service true [.trace t] node () hok

end Sample

/-- The marker describes the first execution, though a second one has another input. -/
theorem Storage.Fed.marker_describes_sample :
    let s := (Sample.feed Sample.direct (Sample.feed Sample.delegated .inMemory).2.store).2.store
    s.Fed [Sample.delegated, Sample.direct] ∧
      s.derived.internalTxs.get? ⟨"0xaa", "0"⟩ = some (Indexer.frameRow Sample.delegated) ∧
      ∃ mk, s.derived.markers.get? ⟨"0xaa", "0"⟩ = some mk ∧
        mk.Describes (Indexer.frameRow Sample.delegated) := by
  intro s
  have hfed : s.Fed [Sample.delegated, Sample.direct] :=
    Sample.fed_feed (n := 0) (Sample.fed_feed (n := 1) .memory (by decide +kernel)) (by decide +kernel)
  have hearns : Sample.delegated.Earns :=
    ⟨rfl, rfl, "0x6A761202", "ffff", by decide +kernel, by decide +kernel⟩
  obtain ⟨-, hearned, -⟩ := hfed.marker_describes
  exact ⟨hfed, by decide +kernel, hearned _ _ (by decide +kernel) hearns⟩

/-- The second execution delegates, and the first one did not: the marker of the second one stands with the
row of the first one, which it does not describe. -/
theorem Storage.not_describes_of_reexecution :
    let s := (Sample.feed Sample.delegated (Sample.feed Sample.direct .inMemory).2.store).2.store
    s.Fed [Sample.direct, Sample.delegated] ∧
      ∃ mk row, s.derived.markers.get? ⟨"0xaa", "0"⟩ = some mk ∧ mk.selector = "0x6a761202" ∧
        s.derived.internalTxs.get? ⟨"0xaa", "0"⟩ = some row ∧ row.data = "0x12345678" ∧
        row.callType = some "call" ∧ ¬ mk.Describes row := by
  intro s
  have hfed : s.Fed [Sample.direct, Sample.delegated] :=
    Sample.fed_feed (n := 0) (Sample.fed_feed (n := 1) .memory (by decide +kernel)) (by decide +kernel)
  have hmarker : s.derived.markers.get? ⟨"0xaa", "0"⟩ =
      some ⟨⟨"0xaa", "0"⟩, "0x6a761202", false⟩ := by decide +kernel
  have hrow : s.derived.internalTxs.get? ⟨"0xaa", "0"⟩ = some (Indexer.frameRow Sample.direct) := by
    decide +kernel
  refine ⟨hfed, _, _, hmarker, rfl, hrow, rfl, rfl, fun hdescribes => ?_⟩
  have hcall : some "call" = some "delegatecall" := hdescribes.delegated
  exact absurd hcall (by decide)

end ChainIndex
