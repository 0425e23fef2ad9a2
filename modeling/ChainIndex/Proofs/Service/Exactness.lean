import ChainIndex.Proofs.Service.Replay

/-!
# A replay loses nothing and repeats nothing

If a node answers searches exactly, then a replay finds every element that it looks for in the range of
blocks, in exactly one window; it adds a row for each of them whose key is new, and counts the rows that
are new.  The last window may reach beyond the end of the range, and then the elements there are found and
stored as well.
-/

namespace ChainIndex

open Chain (Element)
open Indexer (windowStart)

/-- What a replay of a range of blocks does: `before` and `after` are the derived tables, and `es` is all
that happens.  The addresses are those that are searched for. -/
structure ReplaysExactly (A : Archive) (network : Network) (r : Request) (addresses : List String)
    (head : UInt64) (before after : Derived.Tables) (es : List Event) (report : Report) : Prop where
  stopBlock : report.stopBlock = r.stopAt head
  /-- Every window begins below the end of the range. -/
  below : ∀ i < report.chunks, windowStart r.fromBlock r.chunkSize i < r.stopAt head
  /-- The last window reaches the end of the range. -/
  reaches : r.stopAt head ≤ windowStart r.fromBlock r.chunkSize report.chunks
  chunks : (es.filterMap Event.found?).length = report.chunks
  /-- In each window the elements are found that are wanted from it. -/
  window : ∀ (i : Nat) elements, (es.filterMap Event.found?)[i]? = some elements →
    elements.Perm (A.wanted network addresses (windowStart r.fromBlock r.chunkSize i)
      (windowStart r.fromBlock r.chunkSize (i + 1)))
  /-- Altogether the elements are found that are wanted up to the end of the last window. -/
  found : (es.filterMap Event.found?).flatten.Perm
    (A.wanted network addresses r.fromBlock (windowStart r.fromBlock r.chunkSize report.chunks))
  elementsFound : report.elementsFound =
    (A.wanted network addresses r.fromBlock (windowStart r.fromBlock r.chunkSize report.chunks)).length
  /-- Each of these elements is found in exactly one window. -/
  once : ∀ e ∈ A.wanted network addresses r.fromBlock
      (windowStart r.fromBlock r.chunkSize report.chunks),
    ∃! i : Nat, ∃ elements, (es.filterMap Event.found?)[i]? = some elements ∧ e ∈ elements
  /-- The elements from the range itself are among them. -/
  covers : A.wanted network addresses r.fromBlock (r.stopAt head) ⊆
    A.wanted network addresses r.fromBlock (windowStart r.fromBlock r.chunkSize report.chunks)
  /-- Old rows stay, and under a new key stands the row of the first element that has it, unless it was
  taken back. -/
  internalTxs : ∀ key, after.internalTxs.get? key = (before.internalTxs.get? key).or
    (((es.filterMap Event.found?).flatten.filterMap network.row?).find? fun row => row.key = key)
  /-- The rows that were counted are the new ones. -/
  elementsProcessed : after.internalTxs.size = before.internalTxs.size + report.elementsProcessed

theorem Archive.wanted_subset {A : Archive} {network : Network} {addresses : List String}
    {first stop last : UInt64} (h : stop ≤ last) :
    A.wanted network addresses first stop ⊆ A.wanted network addresses first last := by
  intro e he
  obtain ⟨hmem, hconcerns, hfirst, hstop⟩ := mem_wanted.1 he
  exact mem_wanted.2 ⟨hmem, hconcerns, hfirst, UInt64.lt_of_lt_of_le hstop h⟩

/-- Whatever the request and whatever the store, a replay with some addresses to look at that succeeds has
asked for the head once it knew the addresses, and does exactly what it should. -/
theorem Operation.replay_exact {ν : Type} {service : Service} {node : Node ν} {A : Archive}
    (hnode : node.answers.Filters A) {w : Routine.World ν Storage} {network : Network} {exact_ : Bool}
    {r : Request} {report : Report}
    (hrun : ((replay network exact_ r).run service node w).1 = .ok report)
    (hsome : report.addresses ≠ 0) :
    ∃ addresses head, w.store.chosen network r = .ok addresses ∧ addresses.length = report.addresses ∧
      (∃ es es', (replay network exact_ r).history service node w =
          es ++ .asked .head (.ok head) :: es' ∧ ∀ e ∈ es, e.isQuestion = false) ∧
      ReplaysExactly A network r (network.targets r addresses) head w.store.derived
        ((replay network exact_ r).run service node w).2.store.derived
        ((replay network exact_ r).history service node w) report := by
  have hreplayed := Operation.replayed hrun
  generalize (replay network exact_ r).history service node w = es at hreplayed ⊢
  generalize ((replay network exact_ r).run service node w).2.store = s' at hreplayed ⊢
  cases hreplayed with
  | idle => exact absurd rfl hsome
  | @swept _ addresses head es es' found n s' hvalid hchosen hsome hes hhead hswept =>
    refine ⟨addresses, head, hchosen, rfl, ⟨es, es', rfl, hes⟩, ?_⟩
    obtain ⟨hbelow, hreaches⟩ := hswept.bounds
    obtain ⟨hgains, -, hfound⟩ := Stored.swept hswept
    have hperm := hswept.perm_flatten hnode
    have hall : (es ++ .asked .head (.ok head) :: es').filterMap Event.found? = found := by
      have hnone : es.filterMap Event.found? = [] := List.filterMap_eq_nil_iff.2 fun e he => by
        have hasked := hes e he
        cases e with
        | asked q a => exact absurd hasked.symm Bool.false_ne_true
        | did a reply => rfl
      rw [List.filterMap_append, hnone, List.nil_append, List.filterMap_cons_none rfl, hfound]
    exact {
      stopBlock := rfl
      below := hbelow
      reaches := hreaches
      chunks := by rw [hall]
      window := fun i elements hi => by
        rw [hall] at hi
        obtain ⟨es, hfind⟩ := hswept.exists_find hi
        exact hnode.finds hfind
      found := by rwa [hall]
      elementsFound := hperm.length_eq
      once := fun e he => by
        rw [hall]
        exact hswept.existsUnique hnode (hperm.mem_iff.2 he)
      covers := Archive.wanted_subset hreaches
      internalTxs := by
        rw [hall]
        exact hgains.internalTxs
      elementsProcessed := hgains.size }

/-! ## On a small chain -/

namespace Sample

/-- An event worth decoding. -/
def event : Chain.Log :=
  { log with topics := ["0x442e715f626346e8c54381002da614f62bee8d27386535b2521ec8540898556e"] }

/-- Some events on the small chain: the second was taken back, and the third has the key of the first. -/
def archive : Archive where
  traces := []
  logs := [{ event with blockNumber := 5 }, { event with blockNumber := 6, logIndex := 1, removed := true },
    event, { event with blockNumber := 8, logIndex := 2 }]

/-- A request whose second window reaches beyond the end of the range. -/
def request : Request where
  fromBlock := 5
  toBlock := some 8
  chunkSize := 2

end Sample

/-- In two windows of two blocks four events are found, one of them beyond the end of the range, and two of
them are stored. -/
theorem Operation.replay_exact_sample :
    let o := replay .l2 false { Sample.request with addresses := some ["0x05"] }
    let node := Sample.archive.node Sample.snapshot.node
    let report : Report :=
      { indexer := "safe-events", addresses := 1, chunks := 2, elementsFound := 4, elementsProcessed := 2,
        stopBlock := 8 }
    (o.run Sample.service node ⟨(), .inMemory⟩).1 = .ok report ∧
      ((o.history Sample.service node ⟨(), .inMemory⟩).filterMap Event.found?).flatten.Perm
        (Sample.archive.wanted .l2 ["0x05"] 5 9) ∧
      (o.run Sample.service node ⟨(), .inMemory⟩).2.store.derived.internalTxs.size = 0 + 2 := by
  intro o node report
  have hrun : (o.run Sample.service node ⟨(), .inMemory⟩).1 = .ok report := by decide +kernel
  obtain ⟨addresses, head, -, -, -, hexact⟩ := Operation.replay_exact
    (Sample.archive.filters_node Sample.snapshot.node) hrun Nat.one_ne_zero
  exact ⟨hrun, hexact.found, hexact.elementsProcessed⟩

end ChainIndex
