import ChainIndex.Proofs.Service.Replay
import ChainIndex.Proofs.Table.Selection

/-!
# Storing elements is a union

`Network.Processes` says what a call of an indexer may come to in a store in which any action may fail,
whatever a node answers.  A call that succeeds adds the rows and markers of its elements under new keys only,
the first one of each key, and counts the new rows; a call that fails adds nothing (`Processes.outcome`).

`Network.Calls` are calls one after the other, some of which may fail.  However some elements are cut into
calls that succeed, the derived tables and the sum of the counts come out the same (`Calls.unique`).
-/

namespace ChainIndex

open Chain (Element)
open Derived (InternalTx Marker Tables)

/-! ## What is new -/

/-- The new rows are those whose keys were not there. -/
theorem Derived.Tables.Gains.count_new {d d' : Tables} {rows : List InternalTx} {markers : List Marker}
    {n : Nat} (h : d.Gains rows markers n d') :
    n = d'.internalTxs.count fun key _ => !d.internalTxs.contains key := by
  have hgrows (key : Derived.FrameKey) (hkey : d.internalTxs.contains key = true) :
      d'.internalTxs.contains key = true := by
    rw [Table.contains_eq_isSome] at hkey ⊢
    rw [h.internalTxs, Option.isSome_or, hkey, Bool.true_or]
  have hold := Table.size_filter_contains hgrows
  have hall := d'.internalTxs.size_filter_add_count fun key _ => !d.internalTxs.contains key
  simp only [Bool.not_not] at hall
  have hsize := h.size
  omega

/-- Rows and markers that were there stay as they were. -/
theorem Derived.Tables.Gains.keeps {d d' : Tables} {rows : List InternalTx} {markers : List Marker} {n : Nat}
    (h : d.Gains rows markers n d') :
    (∀ key row, d.internalTxs.get? key = some row → d'.internalTxs.get? key = some row) ∧
      ∀ key mk, d.markers.get? key = some mk → d'.markers.get? key = some mk := by
  refine ⟨fun key row hrow => ?_, fun key mk hmk => ?_⟩
  · rw [h.internalTxs, hrow, Option.some_or]
  · rw [h.markers, hmk, Option.some_or]

/-! ## Calls of an indexer -/

/-- A call of the indexer of a kind of network with some elements, in a store in which any action may fail and
with a node that may answer anything, may have the result `r` and lead from `s` to `s'`. -/
def Network.Processes (network : Network) (elements : List Element) (s : Storage) (r : Except Fault Nat)
    (s' : Storage) : Prop :=
  ∃ (service : Service) (exact_ : Bool) (N : Answers) (es : List Event),
    ((Operation.process network exact_ elements).attempt service).run.Exec N Storage.Falters s es r s'

namespace Network

/-- Calls of the indexer, one after the other: the lists of elements of those that succeeded, the sum of their
counts, and the store that they lead to. -/
inductive Calls (network : Network) : Storage → List (List Element) → Nat → Storage → Prop
  | done (s) : Calls network s [] 0 s
  | succeeded {s elements n s₁ parts m s'} (h : network.Processes elements s (.ok n) s₁)
    (rest : Calls network s₁ parts m s') : Calls network s (elements :: parts) (n + m) s'
  | failed {s elements fault s₁ parts m s'} (h : network.Processes elements s (.error fault) s₁)
    (rest : Calls network s₁ parts m s') : Calls network s parts m s'

variable {network : Network} {elements : List Element} {parts parts' : List (List Element)}
  {s s₁ s₂ s' : Storage} {n m : Nat}

/-! ## One call -/

/-- What a call does when it is run with a node and a store that work, it may do. -/
theorem processes_run {ν : Type} (network : Network) (exact_ : Bool) (elements : List Element)
    (service : Service) (node : Node ν) (w : Routine.World ν Storage) :
    let result := (Operation.process network exact_ elements).run service node w
    network.Processes elements w.store result.1 result.2.store :=
  ⟨service, exact_, _, _, (Routine.exec_run node Storage.store _ w).of_conduct .inl⟩

theorem processes_disturbed {ν : Type} (network : Network) (exact_ : Bool) (elements : List Element)
    (service : Service) (node : Node ν) (k : ν) (s : Storage) {d : Disturbance} (hblind : ∀ l, d.blind l = 0)
    (hleaves : d.fault? .abandon = none) :
    let result := ((Operation.process network exact_ elements).attempt service).run.run node
      Storage.store.disturbed ⟨k, s, d⟩
    network.Processes elements s result.1 result.2.store.1 :=
  ⟨service, exact_, _, _, Routine.exec_disturbed node _ k s hblind hleaves⟩

/-- A call adds the rows and markers of its elements and counts the new rows, or fails and adds nothing. -/
theorem Processes.outcome {r : Except Fault Nat} (h : network.Processes elements s r s') :
    Outcome (fun n s' => s.derived.Gains (elements.filterMap network.row?)
      (elements.filterMap network.marker?) n s'.derived) (fun _ s' => s'.derived = s.derived) r s' := by
  obtain ⟨service, exact_, N, es, hexec⟩ := h
  have hleads : (({ service with network } : Service).indexer.process elements).Leads N Storage.Falters
      exact_ s (fun n _ _ s' => s.derived.Gains (elements.filterMap network.row?)
        (elements.filterMap network.marker?) n s'.derived) fun _ _ _ s' => s'.derived = s.derived :=
    Service.leads_process _ exact_ ((network.leads_store_faltering elements).mono
      (fun _ _ _ hstored => hstored.gains) fun _ _ _ => id)
  have hend := hleads.start es r s' hexec
  cases r with
  | ok n =>
    obtain ⟨_, hgains⟩ := hend
    exact hgains
  | error fault =>
    obtain ⟨_, hsame⟩ := hend
    exact hsame

theorem Processes.gains (h : network.Processes elements s (.ok n) s') :
    s.derived.Gains (elements.filterMap network.row?) (elements.filterMap network.marker?) n s'.derived :=
  h.outcome

theorem Processes.derived_of_error {fault : Fault} (h : network.Processes elements s (.error fault) s') :
    s'.derived = s.derived :=
  h.outcome

theorem Processes.keeps {r : Except Fault Nat} (h : network.Processes elements s r s') :
    (∀ key row, s.derived.internalTxs.get? key = some row → s'.derived.internalTxs.get? key = some row) ∧
      ∀ key mk, s.derived.markers.get? key = some mk → s'.derived.markers.get? key = some mk := by
  cases r with
  | ok n => exact h.gains.keeps
  | error fault =>
    rw [h.derived_of_error]
    exact ⟨fun _ _ => id, fun _ _ => id⟩

/-! ## Calls one after the other -/

/-- Calls add what one call with all their elements adds. -/
theorem Calls.gains (h : network.Calls s parts n s') :
    s.derived.Gains (parts.flatten.filterMap network.row?) (parts.flatten.filterMap network.marker?) n
      s'.derived := by
  induction h with
  | done s => exact .refl s.derived
  | succeeded h rest ih =>
    rw [List.flatten_cons, List.filterMap_append, List.filterMap_append]
    exact h.gains.append ih
  | failed h rest ih =>
    rw [← h.derived_of_error]
    exact ih

/-- It does not matter how elements are cut into calls. -/
theorem Calls.unique (h₁ : network.Calls s parts n s₁) (h₂ : network.Calls s parts' m s₂)
    (hcut : parts.flatten = parts'.flatten) : s₁.derived = s₂.derived ∧ n = m :=
  h₁.gains.unique (hcut ▸ h₂.gains)

/-- Two calls do what one call with the elements of both does.  A call adds the rows and markers of its
elements under new keys, the first one of each key, answers the number of new keys, and leaves what was there
as it was; one that fails leaves the tables as they were. -/
theorem process_append (network : Network) (s : Storage) :
    (∀ xs ys n m k s₁ s₂ s', network.Processes xs s (.ok n) s₁ → network.Processes ys s₁ (.ok m) s₂ →
      network.Processes (xs ++ ys) s (.ok k) s' → s₂.derived = s'.derived ∧ n + m = k) ∧
    (∀ xs n s', network.Processes xs s (.ok n) s' →
      s.derived.Gains (xs.filterMap network.row?) (xs.filterMap network.marker?) n s'.derived ∧
      n = s'.derived.internalTxs.count fun key _ => !s.derived.internalTxs.contains key) ∧
    (∀ xs r s', network.Processes xs s r s' →
      (∀ key row, s.derived.internalTxs.get? key = some row → s'.derived.internalTxs.get? key = some row) ∧
      ∀ key mk, s.derived.markers.get? key = some mk → s'.derived.markers.get? key = some mk) ∧
    ∀ xs fault s', network.Processes xs s (.error fault) s' →
      s'.derived.internalTxs = s.derived.internalTxs ∧ s'.derived.markers = s.derived.markers := by
  refine ⟨fun xs ys n m k s₁ s₂ s' h₁ h₂ h => ?_, fun xs n s' h => ⟨h.gains, h.gains.count_new⟩,
    fun xs r s' h => h.keeps, fun xs fault s' h => ?_⟩
  · have htwo : network.Calls s [xs, ys] (n + (m + 0)) s₂ := .succeeded h₁ (.succeeded h₂ (.done s₂))
    have hone : network.Calls s [xs ++ ys] (k + 0) s' := .succeeded h (.done s')
    exact htwo.unique hone (by simp only [List.flatten_cons, List.flatten_nil, List.append_nil])
  · rw [h.derived_of_error]
    exact ⟨rfl, rfl⟩

end Network

/-! ## On a small chain -/

namespace Sample

/-- The event of the transaction, at some place among its events. -/
def eventAt (index : UInt32) : Element := .log { log with logIndex := index }

/-- A store in which the decoder has processed the first event. -/
def decodedFirst : Storage := processed.after (.setProcessed ⟨" 0xaa", "log:0"⟩)

/-- What a call with some events answers, and what it leads to. -/
def storing (elements : List Element) (s : Storage) : Except Fault Nat × Routine.World Unit Storage :=
  (Operation.process .l2 false elements).run service node ⟨(), s⟩

/-- A store that has no room for internal transactions. -/
def noRoom : Disturbance where
  fault? a := match a with
    | .access (.insertInternal ..) => some (.storage "database or disk is full")
    | _ => none

/-- The same in a store that has no room. -/
def failing (elements : List Element) (s : Storage) :
    Except Fault Nat × Routine.World Unit (Storage × Disturbance) :=
  ((Operation.process .l2 false elements).attempt service).run.run node Storage.store.disturbed
    ⟨(), s, noRoom⟩

end Sample

open Sample in
/-- Three events in two calls that overlap, and in one: two of them are new, and the marker of the one that is
not stays processed.  Without room for them nothing is stored. -/
theorem Network.process_append_sample :
    let xs := [eventAt 0, eventAt 1]
    let ys := [eventAt 1, eventAt 2]
    let first := storing xs decodedFirst
    let second := storing ys first.2.store
    let joined := storing (xs ++ ys) decodedFirst
    first.1 = .ok 1 ∧ second.1 = .ok 1 ∧ joined.1 = .ok 2 ∧
      second.2.store.derived = joined.2.store.derived ∧
      joined.2.store.derived.markers.get? ⟨" 0xaa", "log:0"⟩ = some ⟨⟨" 0xaa", "log:0"⟩, "0x66", true⟩ ∧
      (failing xs decodedFirst).1 = .error (.storage "database or disk is full") ∧
      (failing xs decodedFirst).2.store.1.derived.internalTxs = decodedFirst.derived.internalTxs := by
  intro xs ys first second joined
  have hfirst : first.1 = .ok 1 := by decide +kernel
  have hsecond : second.1 = .ok 1 := by decide +kernel
  have hjoined : joined.1 = .ok 2 := by decide +kernel
  have hfails : (failing xs decodedFirst).1 = .error (.storage "database or disk is full") := by
    decide +kernel
  have hcall (elements : List Element) (s : Storage) {n : Nat} (hn : (storing elements s).1 = .ok n) :
      Network.l2.Processes elements s (.ok n) (storing elements s).2.store :=
    hn ▸ processes_run .l2 false elements service node ⟨(), s⟩
  have hfailed : Network.l2.Processes xs decodedFirst (.error (.storage "database or disk is full"))
      (failing xs decodedFirst).2.store.1 :=
    hfails ▸ processes_disturbed .l2 false xs service node () decodedFirst (fun _ => rfl) rfl
  obtain ⟨hunion, -, hkeeps, hnothing⟩ := process_append .l2 decodedFirst
  obtain ⟨htables, -⟩ := hunion xs ys 1 1 2 _ _ _ (hcall xs _ hfirst) (hcall ys _ hsecond)
    (hcall (xs ++ ys) _ hjoined)
  obtain ⟨-, hmarkers⟩ := hkeeps _ _ _ (hcall (xs ++ ys) _ hjoined)
  exact ⟨hfirst, hsecond, hjoined, htables, hmarkers _ _ (by decide +kernel), hfails,
    (hnothing _ _ _ hfailed).1⟩

end ChainIndex
