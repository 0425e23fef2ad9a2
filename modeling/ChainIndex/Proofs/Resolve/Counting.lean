import ChainIndex.Proofs.Resolve.Batch
import ChainIndex.Proofs.Store.Ledger
import ChainIndex.Proofs.Text.Canonical
import Mathlib.Data.List.Perm.Subperm
import Mathlib.Data.List.Nodup

/-!
# What is fetched is what was missing

A node may report a transaction under another hash than it was asked for.  An answer to a question about
many hashes needs a row for every missing hash, and no more rows were fetched than hashes were missing.
The hashes that were told are therefore the missing ones in some order (`Answered.perm_missing`): no row
was overwritten by another one of the batch, nor was a row that had been known.
-/

namespace ChainIndex.Resolve

open Text (canonical canonical_canonical)

/-! ## Distinct hashes -/

theorem nodup_eraseDups : (xs : List String) → xs.eraseDups.Nodup
  | [] => List.nodup_nil
  | x :: xs => by
    rw [List.eraseDups_cons, List.nodup_cons, List.mem_eraseDups, List.mem_filter]
    exact ⟨by simp, nodup_eraseDups _⟩
termination_by xs => xs.length
decreasing_by exact Nat.lt_succ_of_le (List.length_filter_le _ _)

theorem nodup_distinct (hashes : List String) : (distinct hashes).Nodup := nodup_eraseDups _

theorem mem_distinct {hash : String} {hashes : List String} :
    hash ∈ distinct hashes ↔ ∃ h ∈ hashes, canonical h = hash := by
  rw [distinct, List.mem_eraseDups, List.mem_map]

theorem canonical_of_mem_distinct {hash : String} {hashes : List String} (h : hash ∈ distinct hashes) :
    canonical hash = hash := by
  obtain ⟨asked, -, rfl⟩ := mem_distinct.1 h
  exact canonical_canonical asked

theorem distinct_eq_singleton {hash : String} {hashes : List String} (hne : hashes ≠ [])
    (h : ∀ asked ∈ hashes, canonical asked = hash) : distinct hashes = [hash] := by
  obtain ⟨first, rest, rfl⟩ := List.exists_cons_of_ne_nil hne
  have hothers : (rest.map canonical).filter (fun asked => !asked == hash) = [] := by
    refine List.filter_eq_nil_iff.2 fun asked hmem => ?_
    obtain ⟨spelling, hspelling, rfl⟩ := List.mem_map.1 hmem
    rw [h spelling (List.mem_cons_of_mem _ hspelling), beq_self_eq_true]
    exact Bool.false_ne_true
  rw [distinct, List.map_cons, h first List.mem_cons_self, List.eraseDups_cons, hothers]
  rfl

/-! ## Rows of hashes -/

section

variable {rows known fetched : List Ledger.Transaction} {hash : String} {row : Ledger.Transaction}

theorem mem_of_rowOf? (h : rowOf? rows hash = some row) :
    row ∈ rows ∧ canonical row.txHash = hash := by
  rw [rowOf?] at h
  have hbeq := List.find?_some h
  exact ⟨List.mem_reverse.1 (List.mem_of_find?_eq_some h), eq_of_beq hbeq⟩

theorem rowOf?_append :
    rowOf? (known ++ fetched) hash = (rowOf? fetched hash).or (rowOf? known hash) := by
  rw [rowOf?, List.reverse_append, List.find?_append]
  rfl

theorem rowOf?_eq_none (h : ∀ row ∈ rows, canonical row.txHash ≠ hash) : rowOf? rows hash = none := by
  rw [rowOf?, List.find?_eq_none]
  intro row hrow heq
  exact h row (List.mem_reverse.1 hrow) (eq_of_beq heq)

/-- The row of a hash is the one that is stored under it, if all rows stand under canonical hashes. -/
theorem rowOf?_eq_some {m : Memory} (hrows : ∀ row ∈ rows, canonical row.txHash = row.txHash ∧
    m.transactions.get? row.txHash = some row) (hrow : row ∈ rows) :
    rowOf? rows row.txHash = some row := by
  cases hfound : rowOf? rows row.txHash with
  | none =>
    rw [rowOf?, List.find?_eq_none] at hfound
    exact absurd (beq_iff_eq.2 (hrows row hrow).1) (hfound row (List.mem_reverse.2 hrow))
  | some row' =>
    obtain ⟨hrow', hcanon⟩ := mem_of_rowOf? hfound
    obtain ⟨hspelled, hget⟩ := hrows row' hrow'
    rw [← hspelled, hcanon, (hrows row hrow).2] at hget
    exact hget.symm

/-- Among the known rows of some hashes, the row of one of them is the stored one if that is linked. -/
theorem rowOf?_known {m : Memory} (hm : m.Keyed) {hashes : List String}
    (hknown : ∀ row, row ∈ known ↔ row ∈ m.getMined (distinct hashes))
    (hmem : hash ∈ distinct hashes) :
    rowOf? known hash = (m.transactions.get? hash).filter Ledger.Transaction.isMined := by
  have hrows : ∀ row ∈ known, row.isMined = true ∧ canonical row.txHash = row.txHash ∧
      m.transactions.get? row.txHash = some row := by
    intro row hrow
    obtain ⟨hmined, hash', hdistinct, hget⟩ := Memory.mem_getMined.1 ((hknown row).1 hrow)
    obtain rfl : row.txHash = hash' := hm hget
    exact ⟨hmined, canonical_of_mem_distinct hdistinct, hget⟩
  cases hstored : (m.transactions.get? hash).filter Ledger.Transaction.isMined with
  | some row =>
    obtain ⟨hget, hmined⟩ := Option.filter_eq_some_iff.1 hstored
    have hhash : row.txHash = hash := hm hget
    rw [← hhash]
    exact rowOf?_eq_some (fun row hrow => (hrows row hrow).2)
      ((hknown row).2 (Memory.mem_getMined.2 ⟨hmined, hash, hmem, hget⟩))
  | none =>
    refine rowOf?_eq_none fun row hrow hcanon => ?_
    obtain ⟨hmined, hspelled, hget⟩ := hrows row hrow
    rw [← hspelled, hcanon] at hget
    have hsome := Option.filter_eq_some_iff.2 ⟨hget, hmined⟩
    rw [hstored] at hsome
    cases hsome

theorem mem_missing {hashes : List String} :
    hash ∈ missing known hashes ↔ hash ∈ distinct hashes ∧ rowOf? known hash = none := by
  rw [missing, List.mem_filter, Option.isNone_iff_eq_none]

theorem not_linked_of_mem_missing {m : Memory} (hm : m.Keyed) {hashes : List String}
    (hknown : ∀ row, row ∈ known ↔ row ∈ m.getMined (distinct hashes))
    (hmem : hash ∈ missing known hashes) : ¬ m.Linked hash := by
  obtain ⟨hdistinct, hnone⟩ := mem_missing.1 hmem
  rw [rowOf?_known hm hknown hdistinct, Option.filter_eq_none_iff] at hnone
  rintro ⟨row, hrow, hmined⟩
  exact hnone row hrow hmined

theorem rowsOf_eq_pure {hashes : List String}
    (h : List.Forall₂ (fun hash row => rowOf? known hash = some row) hashes rows) :
    rowsOf known hashes = pure rows := by
  induction h with
  | nil => rfl
  | @cons hash row rest rows hrow _ ih =>
    rw [rowsOf] at ih
    rw [rowsOf, List.mapM_cons, hrow, ih]
    rfl

end

/-! ## Counting -/

section

variable {known fetched rows : List Ledger.Transaction} {hashes : List String}

/-- If no more rows were fetched than hashes were missing, and every hash has its row, then the hashes of the
fetched rows are the missing ones in some order. -/
theorem perm_missing (hrows : List.Forall₂ (fun hash row => rowOf? (known ++ fetched) hash = some row)
    (distinct hashes) rows) (hlength : fetched.length = (missing known hashes).length) :
    (missing known hashes).Perm (fetched.map fun row => canonical row.txHash) := by
  have hsubset : missing known hashes ⊆ fetched.map fun row => canonical row.txHash := by
    intro hash hmem
    obtain ⟨hdistinct, hnone⟩ := mem_missing.1 hmem
    obtain ⟨row, -, hrow⟩ := exists_of_mem_left hrows hdistinct
    rw [rowOf?_append, hnone, Option.or_none] at hrow
    obtain ⟨hfetched, hcanon⟩ := mem_of_rowOf? hrow
    exact List.mem_map.2 ⟨row, hfetched, hcanon⟩
  have hnodup : (missing known hashes).Nodup := (nodup_distinct hashes).filter _
  exact (List.subperm_of_subset hnodup hsubset).perm_of_length_le (by rw [List.length_map, hlength])

theorem fetched_subset (hrows : List.Forall₂ (fun hash row => rowOf? (known ++ fetched) hash = some row)
    (distinct hashes) rows) (hlength : fetched.length = (missing known hashes).length) :
    fetched ⊆ rows := by
  intro row hrow
  have hperm := perm_missing hrows hlength
  have hmissing : canonical row.txHash ∈ missing known hashes :=
    hperm.mem_iff.2 (List.mem_map.2 ⟨row, hrow, rfl⟩)
  obtain ⟨hdistinct, hnone⟩ := mem_missing.1 hmissing
  obtain ⟨row', hrow', hfound⟩ := exists_of_mem_left hrows hdistinct
  rw [rowOf?_append, hnone, Option.or_none] at hfound
  obtain ⟨hfetched, hcanon⟩ := mem_of_rowOf? hfound
  have hnodup : (fetched.map fun row => canonical row.txHash).Nodup :=
    hperm.nodup_iff.1 ((nodup_distinct hashes).filter _)
  obtain rfl := List.inj_on_of_nodup_map hnodup hfetched hrow hcanon
  exact hrow'

end

namespace Answered

variable {N : Answers} {s s' : Session Memory} {hashes : List String}
  {known fetched rows : List Ledger.Transaction} {found : List Found} {row : Ledger.Transaction}

theorem of_mem_known (hs : s.Sound) (h : Answered N s hashes known found fetched rows s')
    (hrow : row ∈ known) :
    row.isMined = true ∧ row.txHash ∈ distinct hashes ∧
      s.live.transactions.get? row.txHash = some row := by
  rw [h.mem_known, Memory.mem_getMined] at hrow
  obtain ⟨hmined, hash, hmem, hrow⟩ := hrow
  obtain rfl := hs.live.txHash hrow
  exact ⟨hmined, hmem, hrow⟩

/-- The hashes of the fetched rows are the missing hashes in some order. -/
theorem perm_missing (h : Answered N s hashes known found fetched rows s') :
    (missing known hashes).Perm (fetched.map fun row => canonical row.txHash) :=
  Resolve.perm_missing h.rowOf (h.linked.forall₂_rows.length_eq.symm.trans h.foundFor.length_eq.symm)

theorem map_hash (h : Answered N s hashes known found fetched rows s') :
    found.map (·.transaction.hash) = fetched.map (·.txHash) := by
  rw [← List.forall₂_eq_eq_eq, List.forall₂_map_left_iff, List.forall₂_map_right_iff]
  exact h.linked.forall₂_rows.imp fun _ _ hrow => hrow.1.symm

theorem nodup_hash (h : Answered N s hashes known found fetched rows s') :
    (found.map (·.transaction.hash)).Nodup := by
  have hnodup : (fetched.map fun row => canonical row.txHash).Nodup :=
    h.perm_missing.nodup_iff.1 ((nodup_distinct hashes).filter _)
  rw [h.map_hash]
  exact List.Nodup.of_map canonical (by rwa [List.map_map])

theorem canonical_hash_mem (h : Answered N s hashes known found fetched rows s') {f : Found}
    (hf : f ∈ found) : canonical f.transaction.hash ∈ missing known hashes := by
  rw [h.perm_missing.mem_iff]
  have hmem : f.transaction.hash ∈ fetched.map (·.txHash) := by
    rw [← h.map_hash]
    exact List.mem_map_of_mem hf
  obtain ⟨row, hrow, heq⟩ := List.mem_map.1 hmem
  exact List.mem_map.2 ⟨row, hrow, congrArg canonical heq⟩

theorem get?_of_mem_fetched (h : Answered N s hashes known found fetched rows s')
    (hrow : row ∈ fetched) : s'.live.transactions.get? row.txHash = some row :=
  h.linked.get?_txHash h.nodup_hash hrow

theorem get?_of_mem_known (hs : s.Sound) (h : Answered N s hashes known found fetched rows s')
    (hrow : row ∈ known) : s'.live.transactions.get? row.txHash = some row := by
  obtain ⟨hmined, hmem, hget⟩ := h.of_mem_known hs hrow
  rw [h.linked.get?_eq fun f hf heq => ?_, hget]
  have hmissing := h.canonical_hash_mem hf
  rw [heq, canonical_of_mem_distinct hmem] at hmissing
  exact not_linked_of_mem_missing hs.live.txHash h.mem_known hmissing ⟨row, hget, hmined⟩

theorem of_rowOf? (hs : s.Sound) (h : Answered N s hashes known found fetched rows s') {hash : String}
    (hrow : rowOf? (known ++ fetched) hash = some row) :
    canonical row.txHash = hash ∧ row.isMined = true ∧
      s'.live.transactions.get? row.txHash = some row := by
  obtain ⟨hmem, hcanon⟩ := mem_of_rowOf? hrow
  rcases List.mem_append.1 hmem with hmem | hmem
  · exact ⟨hcanon, (h.of_mem_known hs hmem).1, h.get?_of_mem_known hs hmem⟩
  · obtain ⟨f, -, -, hmined⟩ := exists_of_mem_right h.linked.forall₂_rows hmem
    exact ⟨hcanon, hmined, h.get?_of_mem_fetched hmem⟩

theorem eq_of_isMined (hs : s.Sound) (h : Answered N s hashes known found fetched rows s')
    {hash : String} (hmem : hash ∈ distinct hashes) (hrow : rowOf? (known ++ fetched) hash = some row)
    {old : Ledger.Transaction} (hold : s.live.transactions.get? hash = some old)
    (hmined : old.isMined = true) : row = old := by
  have hknown : rowOf? known hash = some old := by
    rw [rowOf?_known hs.live.txHash h.mem_known hmem]
    exact Option.filter_eq_some_iff.2 ⟨hold, hmined⟩
  -- No fetched row has the hash, which is not missing.
  have hfetched : rowOf? fetched hash = none := by
    refine rowOf?_eq_none fun row hrow heq => ?_
    have hmissing : hash ∈ missing known hashes := by
      rw [h.perm_missing.mem_iff]
      exact List.mem_map.2 ⟨row, hrow, heq⟩
    rw [(mem_missing.1 hmissing).2] at hknown
    cases hknown
  rw [rowOf?_append, hfetched, Option.none_or, hknown] at hrow
  exact (Option.some.inj hrow).symm

/-- Every hash has its row, in the order of the hashes: a linked one, as it is stored in the end, and the
same as before if it was linked before. -/
theorem forall₂_rows (hs : s.Sound) (h : Answered N s hashes known found fetched rows s') :
    List.Forall₂ (fun hash row => canonical row.txHash = hash ∧ row.isMined = true ∧
      s'.live.transactions.get? row.txHash = some row ∧
      ∀ old, s.live.transactions.get? hash = some old → old.isMined = true → row = old)
      (distinct hashes) rows := by
  have hmem : List.Forall₂ (fun hash row => hash ∈ distinct hashes ∧
      rowOf? (known ++ fetched) hash = some row) (distinct hashes) rows :=
    (List.forall₂_and_left _ _).2 ⟨fun _ hash => hash, h.rowOf⟩
  refine hmem.imp fun hash row hrow => ?_
  obtain ⟨hcanon, hmined, hget⟩ := h.of_rowOf? hs hrow.2
  exact ⟨hcanon, hmined, hget, fun old hold => h.eq_of_isMined hs hrow.1 hrow.2 hold⟩

theorem hasMined (hs : s.Sound) (h : Answered N s hashes known found fetched rows s') {hash : String}
    (hmem : hash ∈ hashes) : s'.live.HasMined hash := by
  have hdistinct : canonical hash ∈ distinct hashes := mem_distinct.2 ⟨hash, hmem, rfl⟩
  obtain ⟨row, -, hcanon, hmined, hget, -⟩ := exists_of_mem_left (h.forall₂_rows hs) hdistinct
  exact ⟨row, hget, hmined, hcanon⟩

end Answered

end ChainIndex.Resolve
