import ChainIndex.Proofs.Service.Exactness

/-!
# The size of the windows does not matter

Where no two elements share a key, what a replay stores of an element in the range of blocks depends on
the store that it starts from, on the addresses and on the element only (`Replayed.get?_key`).  So two
replays with windows of different sizes, whose last windows reach beyond the end of the range by different
numbers of blocks, differ in nothing but elements at or beyond the end.
-/

namespace ChainIndex

open Chain (Element)
open Derived (FrameKey)

/-- Among things made of elements that do not share keys, the one of a key is made of its element. -/
theorem find?_filterMap_key {β : Type} {f : Element → Option β} {key : β → FrameKey} {e : Element}
    {elements : List Element} (hf : ∀ {e b}, f e = some b → key b = e.key)
    (hkeys : ∀ e' ∈ elements, e'.key = e.key → e' = e) :
    (elements.filterMap f).find? (fun b => key b = e.key) = if e ∈ elements then f e else none := by
  induction elements with
  | nil => rfl
  | cons e' rest ih =>
    replace ih := ih fun e'' he'' => hkeys e'' (List.mem_cons_of_mem _ he'')
    by_cases heq : e' = e
    · subst heq
      rw [if_pos List.mem_cons_self]
      cases hb : f e' with
      | none => rw [List.filterMap_cons_none hb, ih, hb, ite_self]
      | some b => rw [List.filterMap_cons_some hb, List.find?_cons, decide_eq_true (hf hb)]
    · have hmem : e ∈ e' :: rest ↔ e ∈ rest :=
        ⟨fun he => (List.mem_cons.1 he).resolve_left (Ne.symm heq), List.mem_cons_of_mem _⟩
      have hkey : e'.key ≠ e.key := fun hkey => heq (hkeys e' List.mem_cons_self hkey)
      simp only [hmem]
      rw [← ih]
      cases hb : f e' with
      | none => rw [List.filterMap_cons_none hb]
      | some b =>
        have hne : key b ≠ e.key := (hf hb).symm ▸ hkey
        rw [List.filterMap_cons_some hb, List.find?_cons, decide_eq_false hne]

/-- What is there for a key that was not there before is made of an element with that key. -/
theorem exists_key_of_or_ne {β : Type} {f : Element → Option β} {key : β → FrameKey} {k : FrameKey}
    {elements : List Element} {old : Option β} (hf : ∀ {e b}, f e = some b → key b = e.key)
    (hne : old.or ((elements.filterMap f).find? fun b => key b = k) ≠ old) :
    ∃ e ∈ elements, e.key = k := by
  cases hfind : (elements.filterMap f).find? fun b => key b = k with
  | none =>
    rw [hfind, Option.or_none] at hne
    exact absurd rfl hne
  | some b =>
    obtain ⟨e, he, hb⟩ := List.mem_filterMap.1 (List.mem_of_find?_eq_some hfind)
    exact ⟨e, he, (hf hb).symm.trans (of_decide_eq_true (List.find?_some hfind :))⟩

variable {N : Answers} {A : Archive} {network : Network} {name : String} {r : Request} {s s' : Storage}
  {report : Report} {es : List Event} {head : UInt64} {addresses : List String}

theorem Replayed.exists_chosen {Store : List Element → Storage → Nat → List Event → Storage → Prop}
    (h : Replayed N Store network name r s report es s') :
    ∃ addresses, s.chosen network r = .ok addresses := by
  cases h with
  | idle hvalid hchosen => exact ⟨_, hchosen⟩
  | swept hvalid hchosen => exact ⟨_, hchosen⟩

/-- After a replay that looks at some addresses, an element of the range is stored exactly if it concerns
them, unless something is stored under its key already. -/
theorem Replayed.get?_key (hN : N.Filters A) (hhead : ∀ h, N .head (.ok h) → h = head)
    (hkeys : ∀ e ∈ A.elements network, ∀ e' ∈ A.elements network, e.key = e'.key → e = e')
    (h : Replayed N (Stored network) network name r s report es s')
    (hchosen : s.chosen network r = .ok addresses) {e : Element} (he : e ∈ A.elements network)
    (hfrom : r.fromBlock ≤ e.blockNumber) (hstop : e.blockNumber < r.stopAt head) :
    let stored := addresses ≠ [] ∧ e.concerns (network.targets r addresses) = true
    s'.derived.internalTxs.get? e.key =
        (s.derived.internalTxs.get? e.key).or (if stored then network.row? e else none) ∧
      s'.derived.markers.get? e.key =
        (s.derived.markers.get? e.key).or (if stored then network.marker? e else none) := by
  intro stored
  cases h with
  | idle hvalid hnone hes =>
    have hnil : addresses = [] := Except.ok.inj (hchosen.symm.trans hnone)
    rw [if_neg fun hstored => hstored.1 hnil, if_neg fun hstored => hstored.1 hnil, Option.or_none,
      Option.or_none]
    exact ⟨rfl, rfl⟩
  | @swept _ addresses' head' _ _ found n _ hvalid hchosen' hsome hes hhead' hswept =>
    obtain rfl : addresses' = addresses := Except.ok.inj (hchosen'.symm.trans hchosen)
    obtain rfl := hhead head' hhead'
    obtain ⟨-, hreaches⟩ := hswept.bounds
    obtain ⟨hgains, -, -⟩ := Stored.swept hswept
    have hperm := hswept.perm_flatten hN
    have hmem : e ∈ found.flatten ↔ stored := by
      rw [hperm.mem_iff, Archive.mem_wanted]
      exact ⟨fun hwanted => ⟨hsome, hwanted.2.1⟩,
        fun hstored => ⟨he, hstored.2, hfrom, UInt64.lt_of_lt_of_le hstop hreaches⟩⟩
    have hunique : ∀ e' ∈ found.flatten, e'.key = e.key → e' = e := fun e' he' =>
      hkeys e' (Archive.mem_wanted.1 (hperm.mem_iff.1 he')).1 e he
    constructor
    · rw [hgains.internalTxs, find?_filterMap_key Network.key_of_row? hunique]
      simp only [hmem]
    · rw [hgains.markers, find?_filterMap_key Network.key_of_marker? hunique]
      simp only [hmem]

/-- What a replay changes belongs to an element from the first block on. -/
theorem Replayed.exists_element (hN : N.Filters A)
    (h : Replayed N (Stored network) network name r s report es s') {key : FrameKey}
    (hkey : s'.derived.internalTxs.get? key ≠ s.derived.internalTxs.get? key ∨
      s'.derived.markers.get? key ≠ s.derived.markers.get? key) :
    ∃ e ∈ A.elements network, e.key = key ∧ r.fromBlock ≤ e.blockNumber := by
  cases h with
  | idle hvalid hnone hes => exact absurd hkey (by simp)
  | @swept _ _ _ _ _ found n _ hvalid hchosen hsome hes hhead hswept =>
    obtain ⟨hgains, -, -⟩ := Stored.swept hswept
    obtain ⟨e, he, hekey⟩ : ∃ e ∈ found.flatten, e.key = key := by
      rcases hkey with hkey | hkey
      · rw [hgains.internalTxs] at hkey
        exact exists_key_of_or_ne Network.key_of_row? hkey
      · rw [hgains.markers] at hkey
        exact exists_key_of_or_ne Network.key_of_marker? hkey
    obtain ⟨hmem, -, hfrom, -⟩ := Archive.mem_wanted.1 ((hswept.perm_flatten hN).mem_iff.1 he)
    exact ⟨e, hmem, hekey, hfrom⟩

/-- Two replays that differ in nothing but the size of their windows, with a node that answers searches
exactly and does not change its head: what they store under the key of an element of the range is the
same, and wherever they differ it is about an element at or beyond the end of the range. -/
theorem Operation.replay_chunk_size {ν : Type} {service : Service} {node : Node ν} {A : Archive}
    {head : UInt64} (hnode : node.answers.Filters A) (hhead : ∀ h, node.answers .head (.ok h) → h = head)
    {network : Network} (hkeys : ∀ e ∈ A.elements network, ∀ e' ∈ A.elements network,
      e.key = e'.key → e = e') {s : Storage} {n₁ n₂ : ν} {exact_ : Bool} {r : Request} {k₁ k₂ : UInt64}
    {report₁ report₂ : Report}
    (h₁ : ((replay network exact_ { r with chunkSize := k₁ }).run service node ⟨n₁, s⟩).1 = .ok report₁)
    (h₂ : ((replay network exact_ { r with chunkSize := k₂ }).run service node ⟨n₂, s⟩).1 = .ok report₂) :
    let after₁ :=
      ((replay network exact_ { r with chunkSize := k₁ }).run service node ⟨n₁, s⟩).2.store.derived
    let after₂ :=
      ((replay network exact_ { r with chunkSize := k₂ }).run service node ⟨n₂, s⟩).2.store.derived
    (∀ e ∈ A.elements network, r.fromBlock ≤ e.blockNumber → e.blockNumber < r.stopAt head →
      after₁.internalTxs.get? e.key = after₂.internalTxs.get? e.key ∧
      after₁.markers.get? e.key = after₂.markers.get? e.key) ∧
    ∀ key, after₁.internalTxs.get? key ≠ after₂.internalTxs.get? key ∨
        after₁.markers.get? key ≠ after₂.markers.get? key →
      ∃ e ∈ A.elements network, e.key = key ∧ r.stopAt head ≤ e.blockNumber := by
  intro after₁ after₂
  have hreplayed₁ := Operation.replayed h₁
  have hreplayed₂ := Operation.replayed h₂
  obtain ⟨addresses, hchosen⟩ : ∃ addresses, s.chosen network r = .ok addresses :=
    hreplayed₁.exists_chosen
  have hsame : ∀ e ∈ A.elements network, r.fromBlock ≤ e.blockNumber → e.blockNumber < r.stopAt head →
      after₁.internalTxs.get? e.key = after₂.internalTxs.get? e.key ∧
        after₁.markers.get? e.key = after₂.markers.get? e.key := fun e he hfrom hstop => by
    obtain ⟨hrow₁, hmk₁⟩ := hreplayed₁.get?_key hnode hhead hkeys hchosen he hfrom hstop
    obtain ⟨hrow₂, hmk₂⟩ := hreplayed₂.get?_key hnode hhead hkeys hchosen he hfrom hstop
    exact ⟨hrow₁.trans hrow₂.symm, hmk₁.trans hmk₂.symm⟩
  refine ⟨hsame, fun key hdiffer => ?_⟩
  -- Where the two differ, one of them differs from the store that both started from.
  obtain ⟨e, he, hkey, hfrom⟩ : ∃ e ∈ A.elements network, e.key = key ∧ r.fromBlock ≤ e.blockNumber := by
    by_cases hchanged : after₁.internalTxs.get? key ≠ s.derived.internalTxs.get? key ∨
        after₁.markers.get? key ≠ s.derived.markers.get? key
    · exact hreplayed₁.exists_element hnode hchanged
    · rw [not_or, not_not, not_not] at hchanged
      rw [hchanged.1, hchanged.2] at hdiffer
      exact hreplayed₂.exists_element hnode (hdiffer.imp Ne.symm Ne.symm)
  refine ⟨e, he, hkey, UInt64.not_lt.1 fun hstop => ?_⟩
  obtain ⟨hrow, hmk⟩ := hsame e he hfrom hstop
  subst hkey
  exact hdiffer.elim (absurd hrow) (absurd hmk)

/-! ## On a small chain -/

/-- Some events on the small chain, none of which share a key; one of them was taken back. -/
def Sample.distinctArchive : Archive where
  traces := []
  logs := [{ event with blockNumber := 5 }, { event with blockNumber := 6, logIndex := 1, removed := true },
    { event with logIndex := 2 }, { event with blockNumber := 8, logIndex := 3 }]

/-- Windows of two blocks reach the event beyond the end of the range, and a window of three does not; the
event at the beginning of the range is stored all the same. -/
theorem Operation.replay_chunk_size_sample :
    let node := Sample.distinctArchive.node Sample.snapshot.node
    let r : Request := { Sample.request with addresses := some ["0x05"] }
    let after (k : UInt64) := ((replay .l2 false { r with chunkSize := k }).run Sample.service node
      ⟨(), .inMemory⟩).2.store.derived
    let first := Element.log { Sample.event with blockNumber := 5 }
    let beyond := Element.log { Sample.event with blockNumber := 8, logIndex := 3 }
    (after 2).internalTxs.get? first.key = (after 3).internalTxs.get? first.key ∧
      (after 2).internalTxs.get? beyond.key ≠ (after 3).internalTxs.get? beyond.key ∧
      ∃ e ∈ Sample.distinctArchive.elements .l2, e.key = beyond.key ∧ 8 ≤ e.blockNumber := by
  intro node r after first beyond
  have hhead : ∀ h, node.answers .head (.ok h) → h = 20 := by
    rintro h ⟨n, heq⟩
    exact (Except.ok.inj heq).symm
  have hkeys : ∀ e ∈ Sample.distinctArchive.elements .l2, ∀ e' ∈ Sample.distinctArchive.elements .l2,
      e.key = e'.key → e = e' := by decide +kernel
  have hrun₂ : ((replay .l2 false { r with chunkSize := 2 }).run Sample.service node ⟨(), .inMemory⟩).1 =
      .ok { indexer := "safe-events", addresses := 1, chunks := 2, elementsFound := 4,
            elementsProcessed := 3, stopBlock := 8 } := by decide +kernel
  have hrun₃ : ((replay .l2 false { r with chunkSize := 3 }).run Sample.service node ⟨(), .inMemory⟩).1 =
      .ok { indexer := "safe-events", addresses := 1, chunks := 1, elementsFound := 3,
            elementsProcessed := 2, stopBlock := 8 } := by decide +kernel
  obtain ⟨hsame, hbeyond⟩ := Operation.replay_chunk_size (Sample.distinctArchive.filters_node _) hhead hkeys
    hrun₂ hrun₃
  have hdiffer : (after 2).internalTxs.get? beyond.key ≠ (after 3).internalTxs.get? beyond.key := by
    decide +kernel
  exact ⟨(hsame first (by decide +kernel) (by decide +kernel) (by decide +kernel)).1, hdiffer,
    hbeyond beyond.key (.inl hdiffer)⟩

end ChainIndex
