import ChainIndex.Proofs.Resolve.Refinement

/-!
# What resolving many hashes comes to

When the answers are those of a coherent snapshot, resolving many hashes at once comes to what the snapshot
says, and fails exactly if the snapshot does not provide what it takes (`ensures_transactions_resolves`): what
was found about a missing hash
`Matches` what is reported, storing it leaves the tables `Settled`, and together with what was known each
hash is answered (`Fetched.resolvesTo`).
-/

namespace ChainIndex.Resolve

open Attempt
open Snapshot
open Text (canonical)

variable {S : Snapshot} {policy : ConfirmationPolicy} {s s' s₁ : Session Memory} {hash : String}
  {X : Fault → Session Memory → Prop}

/-! ## What was found -/

/-- What was found about a hash is what is reported about it. -/
structure Matches (g : Gathered) (f : Mined) (found : Found) : Prop where
  transaction : f.transaction = found.transaction
  receipt : f.receipt = found.receipt
  hash_eq : f.block.hash = found.blockHash
  block : g.blocks.lookup found.blockHash = some f.block

theorem FoundFor.exists_matches {g : Gathered} {found : Found} (hS : S.Coherent)
    (hcanon : canonical hash = hash) (hblocks : ∀ p ∈ g.blocks, S.answers.TellsBlock p.1 p.2)
    (hcovered : found.blockHash ∈ g.blocks.map Prod.fst) (h : FoundFor S.answers hash found) :
    ∃ f, S.Reports hash f ∧ Matches g f found := by
  have hmined : found.receipt.isMined = true := by
    rw [← found.receipt.isSome_minedIn?, h.mined]
  obtain ⟨f, hf, hreceipt⟩ := hS.exists_reports hcanon (receipt_of_tells h.receipt) hmined
  have htransaction : f.transaction = found.transaction := Option.some.inj (Except.ok.inj
    (hf.transaction.symm.trans (transaction_of_tells h.transaction)))
  have hhash : f.block.hash = found.blockHash := by
    have hnamed := hf.named
    rw [htransaction, h.block] at hnamed
    exact (Option.some.inj hnamed).symm
  obtain ⟨p, hp, heq⟩ := List.mem_map.1 hcovered
  obtain ⟨b, hb⟩ := Option.isSome_iff_exists.1
    (List.lookup_isSome_iff.2 ⟨p, hp, beq_iff_eq.2 heq.symm⟩)
  have htold := block_of_tells (hblocks _ (mem_of_lookup hb))
  rw [← hhash, hf.block] at htold
  refine ⟨f, hf, htransaction, hreceipt, hhash, ?_⟩
  rw [hb, Option.some.inj (Except.ok.inj htold)]

theorem exists_matches {g : Gathered} {hashes : List String} {found : List Found} (hS : S.Coherent)
    (hcanon : ∀ hash ∈ hashes, canonical hash = hash)
    (hblocks : ∀ p ∈ g.blocks, S.answers.TellsBlock p.1 p.2)
    (hcovered : ∀ f ∈ found, f.blockHash ∈ g.blocks.map Prod.fst)
    (h : List.Forall₂ (FoundFor S.answers) hashes found) :
    ∃ fs, List.Forall₂ S.Reports hashes fs ∧ List.Forall₂ (Matches g) fs found := by
  induction h with
  | nil => exact ⟨[], .nil, .nil⟩
  | cons hfor _ ih =>
    obtain ⟨f, hf, hmatch⟩ := hfor.exists_matches hS (hcanon _ List.mem_cons_self) hblocks
      (hcovered _ List.mem_cons_self)
    obtain ⟨fs, hfs, hmatches⟩ := ih (fun hash hmem => hcanon hash (List.mem_cons_of_mem _ hmem))
      fun f hmem => hcovered f (List.mem_cons_of_mem _ hmem)
    exact ⟨f :: fs, .cons hf hfs, .cons hmatch hmatches⟩

/-! ## Storing it -/

/-- Some mined transactions were stored with their blocks, and each has its row in the end. -/
structure Settled (s : Session Memory) (fs : List Mined) (rows : List Ledger.Transaction)
    (s' : Session Memory) : Prop where
  sound : s'.Sound
  alike : (fs.foldl Memory.settle s.live).Alike s'.live
  rows : List.Forall₂ (fun f row => s'.live.transactions.get? f.transaction.hash = some row ∧
    row.isMined = true) fs rows

theorem Settled.nil (hs : s.Sound) : Settled s [] [] s := ⟨hs, .refl _, .nil⟩

theorem Settled.cons {f : Mined} {fs : List Mined} {b : Ledger.Block} {rows : List Ledger.Transaction}
    (hb : BlockSettled s f.block b s₁) (hnew : f.transaction.hash ∉ fs.map (·.transaction.hash))
    (h : Settled (s₁.put (s₁.live.linkedRow f.transaction f.receipt b)) fs rows s') :
    Settled s (f :: fs) (s₁.live.linkedRow f.transaction f.receipt b :: rows) s' := by
  obtain ⟨-, -, halike⟩ := hb.put f.transaction f.receipt
  refine ⟨h.sound, (halike.foldl_settle fs).trans h.alike, .cons ⟨?_, rfl⟩ h.rows⟩
  rw [← h.alike.transactions, Memory.get?_foldl_settle hnew, Session.get?_put,
    hb.sound.live.txHash_linkedRow, if_pos rfl]

/-- Storing what was found settles it.  The blocks stored so far stand under the names that they were asked
for, so that a transaction is linked to the same block whether or not its block was stored before. -/
theorem ensures_storeFound_settled {g : Gathered} {stored : List (String × Ledger.Block)}
    {found : List Found} {fs : List Mined} {Q : List Ledger.Transaction → Session Memory → Prop}
    (hs : s.Sound)
    (hstored : ∀ p ∈ stored, (s.live.blocks.get? p.1).map Ledger.Block.bare = some p.2.bare)
    (hmatches : List.Forall₂ (Matches g) fs found) (hnodup : (fs.map (·.transaction.hash)).Nodup)
    (hQ : ∀ rows s', Settled s fs rows s' → Q rows s') :
    (storeFound policy g stored found).Ensures S.answers Session.Effect (fun _ _ _ => True) s Q X := by
  induction hmatches generalizing s stored Q with
  | nil => exact ensures_pure (hQ [] s (.nil hs))
  | @cons f found fs rest hmatch _ ih =>
    obtain ⟨hnew, hnodup⟩ := List.nodup_cons.1 hnodup
    obtain ⟨htransaction, hreceipt, hhash, hblock⟩ := hmatch
    -- Once the block is settled, the transaction is stored and then the others are.
    have hnext {stored' b s₁} (hb : BlockSettled s f.block b s₁)
        (hstored' : ∀ p ∈ stored', (s₁.live.blocks.get? p.1).map Ledger.Block.bare = some p.2.bare) :
        Ensures S.answers Session.Effect (fun _ _ _ => True) (do
          let row ← createOrLink found.transaction found.receipt b
          let rows ← storeFound policy g stored' rest
          return row :: rows) s₁ Q X := by
      rw [← htransaction, ← hreceipt]
      obtain ⟨hsound, -, -⟩ := hb.put f.transaction f.receipt
      refine ensures_bind (ensures_createOrLink hb.sound hb.holds (fun _ _ => trivial) (ensures_bind ?_))
      exact ih hsound hstored' hnodup fun rows s' hrows =>
        ensures_pure (hQ _ s' (.cons hb hnew hrows))
    rw [storeFound]
    split
    · rename_i b hb
      refine hnext (.of_get? hs ?_) hstored
      rw [hhash]
      exact hstored _ (mem_of_lookup hb)
    · rw [hblock]
      refine ensures_bind (ensures_access fun r m he => ⟨trivial, ?_⟩)
      cases he
      have hb := BlockSettled.of_createBlock hs f.block (policy.isConfirmed f.block.number g.head)
      refine hnext hb fun p hp => ?_
      rcases List.mem_cons.1 hp with rfl | hp
      · rw [← hhash]
        exact hb.get?_self
      · exact hb.get?_mono (hstored p hp)

/-! ## Answering -/

/-- The hashes without a known row are those that are not linked. -/
theorem missing_eq {m : Memory} (hm : m.Keyed) {hashes : List String} {known : List Ledger.Transaction}
    (hknown : ∀ row, row ∈ known ↔ row ∈ m.getMined (distinct hashes)) :
    missing known hashes = (distinct hashes).filter fun hash => !m.isLinked hash := by
  refine List.filter_congr fun hash hmem => ?_
  rw [rowOf?_known hm hknown hmem, Memory.isLinked]
  cases m.transactions.get? hash with
  | none => rfl
  | some row => cases hmined : row.isMined <;> simp [Option.filter, hmined]

theorem mem_missing_iff {m : Memory} (hm : m.Keyed) {hashes : List String}
    {known : List Ledger.Transaction} (hknown : ∀ row, row ∈ known ↔ row ∈ m.getMined (distinct hashes)) :
    hash ∈ missing known hashes ↔ hash ∈ distinct hashes ∧ m.isLinked hash = false := by
  rw [missing_eq hm hknown, List.mem_filter, Bool.not_eq_true']

theorem isLinked_of_not_mem_missing {m : Memory} (hm : m.Keyed) {hashes : List String}
    {known : List Ledger.Transaction} (hknown : ∀ row, row ∈ known ↔ row ∈ m.getMined (distinct hashes))
    (hmem : hash ∈ distinct hashes) (h : hash ∉ missing known hashes) : m.isLinked hash = true := by
  by_contra hfree
  exact h ((mem_missing_iff hm hknown).2 ⟨hmem, Bool.eq_false_iff.2 hfree⟩)

/-- To resolve all hashes is to look the missing ones up and to store what was found. -/
theorem resolveAll?_distinct {m : Memory} (hm : m.Keyed) (hS : S.Coherent) {hashes : List String}
    {known : List Ledger.Transaction} (hknown : ∀ row, row ∈ known ↔ row ∈ m.getMined (distinct hashes)) :
    S.resolveAll? m (distinct hashes) =
      ((missing known hashes).mapM S.mined?).map (·.foldl Memory.settle m) := by
  rw [hS.resolveAll?_eq (fun _ => canonical_of_mem_distinct) (nodup_distinct hashes), ← missing_eq hm hknown]

/-- If what is missing is not told, then not all is provided. -/
theorem Untold.not_provides {m : Memory} (hm : m.Keyed) (hS : S.Coherent) {hashes : List String}
    {known : List Ledger.Transaction} (hknown : ∀ row, row ∈ known ↔ row ∈ m.getMined (distinct hashes))
    (hsome : missing known hashes ≠ []) {fault : Fault}
    (h : Untold S.answers (missing known hashes) fault) : ¬ S.Provides m (distinct hashes) := by
  have hcanon : ∀ hash ∈ missing known hashes, canonical hash = hash :=
    fun hash hmem => canonical_of_mem_distinct (mem_missing.1 hmem).1
  rcases h.mined?_or_head hS hcanon with hnone | hhead
  · refine fun hprovides => hprovides.resolves ?_
    rw [resolveAll?_distinct hm hS hknown, mapM_eq_none_iff.2 hnone]
    rfl
  · obtain ⟨hash, hmem⟩ := List.exists_mem_of_ne_nil _ hsome
    obtain ⟨hdistinct, hfree⟩ := (mem_missing_iff hm hknown).1 hmem
    exact not_provides_of_head hhead hdistinct hfree

/-- What was missing among some hashes was reported and stored. -/
structure Fetched (S : Snapshot) (s : Session Memory) (hashes : List String)
    (known : List Ledger.Transaction) (fs : List Mined) (fetched : List Ledger.Transaction)
    (s' : Session Memory) : Prop extends Settled s fs fetched s' where
  keyed : s.live.Keyed
  mem_known : ∀ row, row ∈ known ↔ row ∈ s.live.getMined (distinct hashes)
  reports : List.Forall₂ S.Reports (missing known hashes) fs

namespace Fetched

variable {hashes : List String} {known fetched : List Ledger.Transaction} {fs : List Mined}
  {row : Ledger.Transaction}

theorem of_mem_known (h : Fetched S s hashes known fs fetched s') (hrow : row ∈ known) :
    row.isMined = true ∧ row.txHash ∈ distinct hashes ∧
      s'.live.transactions.get? row.txHash = some row := by
  obtain ⟨hmined, hash, hmem, hget⟩ := Memory.mem_getMined.1 ((h.mem_known row).1 hrow)
  obtain rfl : row.txHash = hash := h.keyed hget
  refine ⟨hmined, hmem, ?_⟩
  rw [← h.alike.transactions, Memory.get?_foldl_settle, hget]
  rw [map_hash_of_reports h.reports]
  exact fun hmissing => not_linked_of_mem_missing h.keyed h.mem_known hmissing ⟨row, hget, hmined⟩

theorem of_mem_fetched (h : Fetched S s hashes known fs fetched s') (hrow : row ∈ fetched) :
    row.isMined = true ∧ row.txHash ∈ distinct hashes ∧
      s'.live.transactions.get? row.txHash = some row := by
  obtain ⟨f, hf, hget, hmined⟩ := exists_of_mem_right h.rows hrow
  have hhash : row.txHash = f.transaction.hash := h.sound.live.txHash hget
  have hmem : f.transaction.hash ∈ missing known hashes := by
    rw [← map_hash_of_reports h.reports]
    exact List.mem_map_of_mem hf
  rw [hhash]
  exact ⟨hmined, (mem_missing.1 hmem).1, hget⟩

theorem of_mem (h : Fetched S s hashes known fs fetched s') (hrow : row ∈ known ++ fetched) :
    row.isMined = true ∧ row.txHash ∈ distinct hashes ∧
      s'.live.transactions.get? row.txHash = some row :=
  (List.mem_append.1 hrow).elim h.of_mem_known h.of_mem_fetched

theorem exists_row (h : Fetched S s hashes known fs fetched s') {hash : String}
    (hmem : hash ∈ distinct hashes) : ∃ row ∈ known ++ fetched, row.txHash = hash := by
  by_cases hmissing : hash ∈ missing known hashes
  · rw [← map_hash_of_reports h.reports] at hmissing
    obtain ⟨f, hf, rfl⟩ := List.mem_map.1 hmissing
    obtain ⟨row, hrow, hget, -⟩ := exists_of_mem_left h.rows hf
    exact ⟨row, List.mem_append_right _ hrow, h.sound.live.txHash hget⟩
  · obtain ⟨row, hget, hmined⟩ := Memory.isLinked_iff.1
      (isLinked_of_not_mem_missing h.keyed h.mem_known hmem hmissing)
    have hknown : row ∈ known :=
      (h.mem_known row).2 (Memory.mem_getMined.2 ⟨hmined, hash, hmem, hget⟩)
    exact ⟨row, List.mem_append_left _ hknown, h.keyed hget⟩

theorem exists_rowOf? (h : Fetched S s hashes known fs fetched s') {hash : String}
    (hmem : hash ∈ distinct hashes) : ∃ row, rowOf? (known ++ fetched) hash = some row ∧
      s'.live.transactions.get? hash = some row ∧ row.isMined = true := by
  obtain ⟨row, hrow, rfl⟩ := h.exists_row hmem
  obtain ⟨hmined, -, hget⟩ := h.of_mem hrow
  have hspelled : ∀ row ∈ known ++ fetched, canonical row.txHash = row.txHash ∧
      s'.live.transactions.get? row.txHash = some row := by
    intro row hrow
    obtain ⟨-, hmem, hget⟩ := h.of_mem hrow
    exact ⟨canonical_of_mem_distinct hmem, hget⟩
  exact ⟨row, rowOf?_eq_some hspelled hrow, hget, hmined⟩

/-- Together with what was known, each hash is answered, and all are resolved. -/
theorem resolvesTo (h : Fetched S s hashes known fs fetched s') (hS : S.Coherent) :
    ∃ rows, List.Forall₂ (fun hash row => rowOf? (known ++ fetched) hash = some row)
      (distinct hashes) rows ∧ ResolvesTo S s (distinct hashes) rows s' := by
  obtain ⟨rows, hrows⟩ := exists_forall₂ fun _ hmem => h.exists_rowOf? hmem
  refine ⟨rows, hrows.imp fun _ _ hrow => hrow.1, h.sound, ⟨_, ?_, h.alike⟩,
    hrows.imp fun _ _ hrow => hrow.2⟩
  rw [resolveAll?_distinct h.keyed hS h.mem_known,
    mapM_eq_some_iff.2 (h.reports.imp fun _ _ hf => hf.mined?_eq)]
  rfl

end Fetched

/-- Resolving many hashes at once comes to what the snapshot says, and succeeds exactly if all that it takes is
provided. -/
theorem ensures_transactions_resolves (hs : s.Sound) (hS : S.Coherent) (hashes : List String) :
    (transactions policy hashes).Ensures S.answers Session.Effect (fun _ _ _ => True) s
      (fun rows s' => ResolvesTo S s (distinct hashes) rows s' ∧ S.Provides s.live (distinct hashes))
      fun _ _ => ¬ S.Provides s.live (distinct hashes) := by
  have hkeyed : s.live.Keyed := hs.live.txHash
  rw [transactions_eq]
  split
  · rename_i hnone
    rw [List.isEmpty_iff.1 hnone]
    have hresolves : ResolvesTo S s [] [] s := ⟨hs, ⟨s.live, rfl, .refl _⟩, .nil⟩
    exact ensures_pure ⟨hresolves, hresolves.ne_none, .inr fun hash hmem => absurd hmem List.not_mem_nil⟩
  · refine ensures_bind (ensures_access fun r m he => ⟨trivial, ?_⟩)
    obtain ⟨known, rfl, hknown, rfl⟩ := he
    show Ensures _ _ _ (if (missing known hashes).isEmpty then _ else _) s _ _
    have hcanon : ∀ hash ∈ missing known hashes, canonical hash = hash :=
      fun hash hmem => canonical_of_mem_distinct (mem_missing.1 hmem).1
    split
    · rename_i hnone
      have hreports : List.Forall₂ S.Reports (missing known hashes) [] := by
        rw [List.isEmpty_iff.1 hnone]
        exact .nil
      obtain ⟨rows, hrows, hresolves⟩ :=
        Fetched.resolvesTo ⟨Settled.nil hs, hkeyed, hknown, hreports⟩ hS
      rw [List.append_nil] at hrows
      rw [rowsOf_eq_pure hrows]
      refine ensures_pure ⟨hresolves, hresolves.ne_none, .inr fun hash hmem => ?_⟩
      refine isLinked_of_not_mem_missing hkeyed hknown hmem ?_
      rw [List.isEmpty_iff.1 hnone]
      exact List.not_mem_nil
    · rename_i hsome
      refine ensures_bind (ensures_bind (ensures_gather (fun g hg => ?_) fun e he => ?_))
      · obtain ⟨fs, hreports, hmatches⟩ := exists_matches hS hcanon hg.blocks hg.covered hg.found
        have hnodup : (fs.map (·.transaction.hash)).Nodup := by
          rw [map_hash_of_reports hreports]
          exact (nodup_distinct hashes).filter _
        refine ensures_storeFound_settled hs (fun p hp => absurd hp List.not_mem_nil) hmatches hnodup
          fun fetched s' hsettled => ?_
        obtain ⟨rows, hrows, hresolves⟩ := Fetched.resolvesTo ⟨hsettled, hkeyed, hknown, hreports⟩ hS
        rw [rowsOf_eq_pure hrows]
        exact ensures_pure ⟨hresolves, hresolves.ne_none, .inl ⟨g.head, Eq.symm hg.head⟩⟩
      · exact he.not_provides hkeyed hS hknown (mt List.isEmpty_iff.2 hsome)

end ChainIndex.Resolve
