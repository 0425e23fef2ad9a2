import ChainIndex.Proofs.Resolve.Counting
import ChainIndex.Proofs.Service.Atomic
import ChainIndex.Proofs.Service.Shared

/-!
# Resolving hashes in a shared store

One law for each way to resolve something in a store that others write to as well: one's own accesses stay
in order, a block is linked to as it is stored, and a transaction that was stored by somebody else is linked
in place.  Nothing fails but for a reason that the node gives (`Answers.Explains`).
-/

namespace ChainIndex

open Text (canonical)

/-- A fault has its reason in what the node answers: the node failed to answer a question or to settle it, or
it told a transaction under another hash than it was asked for. -/
inductive Answers.Explains (N : Answers) : Fault → Prop
  | failed {q : Query} {fault : Fault} (h : N.Fails q fault) : N.Explains fault
  | renamed {hash : String} {t : Chain.Transaction} (ht : N.TellsTransaction hash t)
    (hne : canonical t.hash ≠ hash) : N.Explains (.transactionNotFound hash)

/-- Every execution in a shared store ends as it should. -/
abbrev Attempt.EnsuresShared {α : Type} (N : Answers) (t : Attempt α) (s : Shared Storage)
    (Q : α → Shared Storage → Prop) (X : Fault → Shared Storage → Prop) : Prop :=
  t.Ensures N Storage.store.shared.conduct (fun _ _ _ => True) s Q X

namespace Shared

variable {N : Answers} {s s₁ s' : Shared Storage} {before : Storage}

/-- A shared store later on, with nothing written that is linked. -/
structure Quiet (s s' : Shared Storage) : Prop extends s.Later s' where
  written : s'.written = s.written

theorem Step.quiet {a : Access} (h : s.Step before a s') (ha : before.written? a = none) : s.Quiet s' where
  toLater := h.later
  written := by rw [h.written, ha, Option.toList_none, List.append_nil]

/-- One's own accesses are in order, and any transaction may be the next to be stored: none that was refused
is left behind. -/
def Settled (s : Shared Storage) : Prop :=
  ∃ P, s.Orderly P ∧ ∀ t r, Ledger.Block → ∃ b, P (.createTransaction t r b)

theorem Orderly.settled (h : s.Orderly fun _ => True) : s.Settled := ⟨_, h, fun _ _ b => ⟨b, trivial⟩⟩

/-- A resolution failed for a reason that the node gave. -/
structure Failed (N : Answers) (fault : Fault) (s' : Shared Storage) : Prop where
  explains : N.Explains fault
  settled : s'.Settled

/-- A block is stored, and is what the next access links to. -/
structure Prepared (s : Shared Storage) (b : Ledger.Block) (s' : Shared Storage) : Prop
    extends s.Quiet s' where
  orderly : s'.Orderly fun a => a.block? = some b
  keeps : s'.state.Keeps b

theorem Prepared.of_quiet {b : Ledger.Block} (h : s₁.Prepared b s') (hquiet : s.Quiet s₁) :
    s.Prepared b s' :=
  { h with
    toLater := hquiet.toLater.trans h.toLater
    written := h.written.trans hquiet.written }

theorem Prepared.settled {b : Ledger.Block} (h : s.Prepared b s') : s'.Settled :=
  ⟨_, h.orderly, fun _ _ _ => ⟨b, rfl⟩⟩

/-- The transaction of a hash was written as a linked row, which was then in the store. -/
structure Merged (s : Shared Storage) (hash : String) (row : Ledger.Transaction) (s' : Shared Storage) :
    Prop extends s.Later s' where
  orderly : s'.Orderly fun _ => True
  txHash : row.txHash = hash
  written : s'.written = s.written ++ [row]
  shown : s'.Shown row

theorem Merged.of_quiet {hash : String} {row : Ledger.Transaction} (h : s₁.Merged hash row s')
    (hquiet : s.Quiet s₁) : s.Merged hash row s' :=
  { h with
    toLater := hquiet.toLater.trans h.toLater
    written := by rw [h.written, hquiet.written] }

/-- Found transactions were written one after the other. -/
structure MergedAll (s : Shared Storage) (found : List Resolve.Found) (rows : List Ledger.Transaction)
    (s' : Shared Storage) : Prop extends s.Later s' where
  orderly : s'.Orderly fun _ => True
  txHash : List.Forall₂ (fun f row => row.txHash = f.transaction.hash) found rows
  written : s'.written = s.written ++ rows
  shown : ∀ row ∈ rows, s'.Shown row

/-- Some rows are returned: they were in the store, and whatever was written is among them. -/
structure Returned (rows : List Ledger.Transaction) (s' : Shared Storage) : Prop where
  orderly : s'.Orderly fun _ => True
  shown : ∀ row ∈ rows, s'.Shown row
  written : s'.written ⊆ rows

theorem Merged.returned {hash : String} {row : Ledger.Transaction} (h : s.Merged hash row s')
    (hs : s.written = []) : Returned [row] s' where
  orderly := h.orderly
  shown row' hrow := List.mem_singleton.1 hrow ▸ h.shown
  written := by rw [h.written, hs, List.nil_append]; exact fun _ => id

end Shared

namespace Resolve

open Answers (fails_of_error)
open Attempt
open Shared

variable {N : Answers} {s : Shared Storage} {P : Access → Prop} {X : Fault → Shared Storage → Prop}
  {policy : ConfirmationPolicy} {hash : String}

/-- An access of one's own that is in order, in whatever state it meets the store. -/
theorem ensuresShared_perform {a : Access} {Q : a.Reply → Shared Storage → Prop} (h : s.Orderly P) (ha : P a)
    (hb : ∀ b, a.block? = some b → s.state.Keeps b)
    (hQ : ∀ before s', s.Step before a s' →
      (∀ {P'}, (∀ a', P' a' → before.Demands a a') → s'.Orderly P') → Outcome Q X (before.answer a) s') :
    a.perform.EnsuresShared N s Q X := by
  refine ensures_perform (a := .access a) fun r s' hR => ⟨Event.obeys_true _, ?_⟩
  obtain ⟨before, hstep, rfl⟩ := exists_step h.tidy hR
  exact hQ before s' hstep fun hP' => h.step hstep ha hb hP'

/-! ## Blocks -/

/-- A block that somebody else stored first is what counts. -/
theorem ensuresShared_storeBlock {c : Chain.Block} {head : UInt64} {Q : Ledger.Block → Shared Storage → Prop}
    (h : s.Orderly fun _ => True) (hQ : ∀ b s', s.Prepared b s' → Q b s') :
    (storeBlock policy head c).EnsuresShared N s Q X := by
  refine ensuresShared_perform h trivial nofun fun before s' hstep horderly => ?_
  obtain ⟨b, hanswer, hhash, hget, -⟩ :=
    hstep.tidy.answer_createBlock c (policy.isConfirmed c.number head)
  rw [hanswer]
  refine hQ b s' ⟨hstep.quiet rfl, horderly fun a ha b' hb' => ?_, b, ?_, .refl b⟩
  · obtain rfl := Except.ok.inj (hanswer.symm.trans hb')
    exact ha
  · rw [hhash, hstep.state]
    exact hget

theorem ensuresShared_block {Q : Ledger.Block → Shared Storage → Prop} (h : s.Orderly fun _ => True)
    (hQ : ∀ b s', s.Prepared b s' → Q b s') (hX : ∀ e s', Failed N e s' → s.Quiet s' → X e s') :
    (block policy hash).EnsuresShared N s Q X := by
  refine ensures_bind (ensuresShared_perform h trivial nofun fun before s₁ hstep horderly => ?_)
  obtain ⟨found, hanswer, hfound⟩ := hstep.tidy.answer_getBlock (canonical hash)
  have hquiet : s.Quiet s₁ := hstep.quiet rfl
  rw [hanswer]
  show EnsuresShared N _ s₁ Q X
  cases found with
  | some b =>
    refine ensures_pure (hQ b s₁ ⟨hquiet, horderly fun _ _ => trivial, ?_⟩)
    rw [hstep.state]
    exact (hfound b rfl).2.mono (hstep.tidy.after _).1
  | none =>
    have h₁ : s₁.Orderly fun _ => True := horderly fun _ _ => trivial
    have hfail {q : Query} {e : Fault} (he : N.Fails q e) : X e s₁ :=
      hX e s₁ ⟨.failed he, h₁.settled⟩ hquiet
    refine ensures_bind (ensures_send (fun head _ => ?_) fun e he => hfail (fails_of_error he))
    refine ensures_bind (ensures_send (fun first hN => ?_) fun e he => hfail (fails_of_error he))
    refine ensures_bind (ensures_settleBlock (fun c hc => .inl (hc ▸ hN)) (fun c _ => ?_) fun e => hfail)
    exact ensuresShared_storeBlock h₁ fun b s' hb => hQ b s' (hb.of_quiet hquiet)

theorem ensuresShared_receiptAndBlock {Q : Chain.Receipt × Ledger.Block → Shared Storage → Prop}
    (h : s.Orderly fun _ => True) (hQ : ∀ r b s', s.Prepared b s' → Q (r, b) s')
    (hX : ∀ e s', Failed N e s' → s.Quiet s' → X e s') :
    (receiptAndBlock policy hash).EnsuresShared N s Q X := by
  have hfail {q : Query} {e : Fault} (he : N.Fails q e) : X e s :=
    hX e s ⟨.failed he, h.settled⟩ ⟨.refl s, rfl⟩
  refine ensures_bind (ensures_send (fun first hN => ?_) fun e he => hfail (fails_of_error he))
  refine ensures_bind (ensures_settleReceipt (fun r hr => .inl (hr ▸ hN)) (fun r name _ _ => ?_)
    fun e => hfail)
  exact ensures_bind (ensuresShared_block h (fun b s' hb => ensures_pure (hQ r b s' hb)) hX)

/-! ## Transactions -/

/-- A transaction that is there is linked in place, and still as it was stored. -/
theorem ensuresShared_linkTransaction {b : Ledger.Block} {r : Chain.Receipt} {old : Ledger.Transaction}
    {Q : Ledger.Transaction → Shared Storage → Prop} (h : s.Orderly P)
    (ha : P (.linkTransaction hash b r)) (hb : s.state.Keeps b)
    (hold : s.state.answer (.getTransaction hash) = .ok (some old))
    (hQ : ∀ row s', s.Merged hash row s' → Q row s') :
    (Access.linkTransaction hash b r).perform.EnsuresShared N s Q X := by
  refine ensuresShared_perform h ha (fun b' hb' => Option.some.inj hb' ▸ hb)
    fun before s' hstep horderly => ?_
  obtain ⟨row, hrow, -⟩ := hstep.grows.transaction hold
  obtain ⟨hanswer, hget⟩ := hstep.tidy.answer_linkTransaction r (hb.mono hstep.grows) hrow
  have hhash : row.txHash = hash := hstep.tidy.txHash hrow
  have hwritten : before.written? (.linkTransaction hash b r) = some (row.link b r) := by
    rw [Storage.written?, hanswer]
    rfl
  rw [hanswer]
  refine hQ _ s' ⟨hstep.later, horderly fun _ _ => trivial, hhash, ?_, rfl, _, hstep.mem_moments,
    (hget _).trans (if_pos hhash)⟩
  rw [hstep.written, hwritten, Option.toList_some]

/-- A transaction is stored linked, or linked in place if somebody else stored it first. -/
theorem ensuresShared_createOrLink {t : Chain.Transaction} {r : Chain.Receipt} {b : Ledger.Block}
    {Q : Ledger.Transaction → Shared Storage → Prop} (h : s.Orderly fun a => a.block? = some b)
    (hb : s.state.Keeps b) (hQ : ∀ row s', s.Merged t.hash row s' → Q row s') :
    (createOrLink t r b).EnsuresShared N s Q X := by
  refine ensures_tryCatch (ensuresShared_perform h rfl (fun b' hb' => Option.some.inj hb' ▸ hb)
    fun before s₁ hstep horderly => ?_)
  have hkeeps := hb.mono hstep.grows
  rcases hstep.tidy.answer_createTransaction t r hkeeps with
    ⟨⟨old, hold⟩, hanswer, hsame⟩ | ⟨-, hanswer, hget⟩
  · -- Somebody was faster.
    have hquiet : s.Quiet s₁ := hstep.quiet (by rw [Storage.written?, hanswer]; rfl)
    have h₁ : s₁.Orderly (· = .linkTransaction t.hash b r) := horderly fun a ha _ _ => ha
    have hold₁ : s₁.state.answer (.getTransaction t.hash) = .ok (some old) := by
      rw [hstep.state, hsame, hold]
    rw [hanswer]
    exact ensuresShared_linkTransaction h₁ rfl (hb.mono hstep.later.grows) hold₁ fun row s' hrow =>
      hQ row s' (hrow.of_quiet hquiet)
  · have hwritten : before.written? (.createTransaction t r b) = some (.mined t r b) := by
      rw [Storage.written?, hanswer]
      rfl
    rw [hanswer]
    refine hQ _ s₁ ⟨hstep.later, horderly fun a _ fault he => ?_, rfl, ?_, rfl, _, hstep.mem_moments, hget⟩
    · cases hanswer.symm.trans he
    · rw [hstep.written, hwritten, Option.toList_some]

theorem ensuresShared_transaction {Q : Ledger.Transaction → Shared Storage → Prop}
    (h : s.Orderly fun _ => True) (hs : s.written = []) (hQ : ∀ row s', Returned [row] s' → Q row s')
    (hX : ∀ e s', Failed N e s' → X e s') : (transaction policy hash).EnsuresShared N s Q X := by
  refine ensures_bind (ensuresShared_perform h trivial nofun fun before s₁ hstep horderly => ?_)
  obtain ⟨stored, hanswer, hstored⟩ := hstep.tidy.answer_getTransaction (canonical hash)
  have hquiet : s.Quiet s₁ := hstep.quiet rfl
  have h₁ : s₁.Orderly fun _ => True := horderly fun _ _ => trivial
  have hsame : before.after (.getTransaction (canonical hash)) = before :=
    Storage.perform_of_isLookup (a := .access _) rfl before
  rw [hanswer]
  show EnsuresShared N _ s₁ Q X
  cases stored with
  | some row =>
    cases hmined : row.isMined with
    | true =>
      simp only [hmined, if_true]
      refine ensures_pure (hQ row s₁ ⟨h₁, fun row' hrow' => ?_, ?_⟩)
      · obtain rfl := List.mem_singleton.1 hrow'
        refine ⟨hmined, _, hstep.mem_moments, ?_⟩
        rw [hsame, hstored _ rfl, hanswer]
      · rw [hquiet.written, hs]
        exact List.nil_subset _
    | false =>
      simp only [hmined]
      refine ensures_bind (ensuresShared_receiptAndBlock h₁ (fun r b s₂ hb => ?_) fun e s' he _ => hX e s' he)
      obtain ⟨row', hrow', -⟩ := hb.grows.transaction
        (show s₁.state.answer (.getTransaction (canonical hash)) = .ok (some row) by
          rw [hstep.state, hsame, hanswer])
      exact ensuresShared_linkTransaction hb.orderly rfl hb.keeps hrow' fun row s' hrow =>
        hQ row s' (hrow.returned (by rw [hb.written, hquiet.written, hs]))
  | none =>
    refine ensures_bind (ensuresShared_receiptAndBlock h₁ (fun r b s₂ hb => ?_) fun e s' he _ => hX e s' he)
    have hfail {q : Query} {e : Fault} (he : N.Fails q e) : X e s₂ := hX e s₂ ⟨.failed he, hb.settled⟩
    refine ensures_bind (ensures_send (fun first hN => ?_) fun e he => hfail (fails_of_error he))
    refine ensures_bind (ensures_settleTransaction (fun t ht => .inl (ht ▸ hN)) (fun t name _ _ => ?_)
      fun e => hfail)
    exact ensuresShared_createOrLink hb.orderly hb.keeps fun row s' hrow =>
      hQ row s' (hrow.returned (by rw [hb.written, hquiet.written, hs]))

/-! ## Many transactions -/

/-- Whatever was found is written: no block that it needs is missing. -/
theorem ensuresShared_storeFound {g : Gathered} {stored : List (String × Ledger.Block)}
    {found : List Found} {Q : List Ledger.Transaction → Shared Storage → Prop}
    (h : s.Orderly fun _ => True) (hstored : ∀ p ∈ stored, s.state.Keeps p.2)
    (hcovered : ∀ f ∈ found, f.blockHash ∈ g.blocks.map Prod.fst)
    (hQ : ∀ rows s', s.MergedAll found rows s' → Q rows s') :
    (storeFound policy g stored found).EnsuresShared N s Q X := by
  induction found generalizing s stored Q with
  | nil =>
    exact ensures_pure (hQ [] s ⟨.refl s, h, .nil, (List.append_nil _).symm,
      fun row hrow => absurd hrow List.not_mem_nil⟩)
  | cons f rest ih =>
    -- Once the block is there, the transaction is written and then the others are.
    have hnext {stored' b s₁} (hb : s.Prepared b s₁) (hstored' : ∀ p ∈ stored', s₁.state.Keeps p.2) :
        EnsuresShared N (do
          let row ← createOrLink f.transaction f.receipt b
          let rows ← storeFound policy g stored' rest
          return row :: rows) s₁ Q X := by
      refine ensures_bind (ensuresShared_createOrLink hb.orderly hb.keeps fun row s₂ hrow => ensures_bind ?_)
      refine ih hrow.orderly (fun p hp => (hstored' p hp).mono hrow.grows)
        (fun f' hf' => hcovered f' (List.mem_cons_of_mem _ hf')) fun rows s' hrows => ?_
      refine ensures_pure (hQ _ s' {
        toLater := (hb.toLater.trans hrow.toLater).trans hrows.toLater
        orderly := hrows.orderly
        txHash := .cons hrow.txHash hrows.txHash
        written := ?_
        shown := fun row' hrow' => ?_ })
      · rw [hrows.written, hrow.written, hb.written, List.append_assoc, List.singleton_append]
      · rcases List.mem_cons.1 hrow' with rfl | hrow'
        · exact hrow.shown.mono hrows.toLater
        · exact hrows.shown row' hrow'
    rw [storeFound]
    split
    · rename_i b hb
      exact hnext ⟨⟨.refl s, rfl⟩, h.mono fun _ _ => trivial, hstored _ (mem_of_lookup hb)⟩ hstored
    · split
      · rename_i hnone
        obtain ⟨p, hp, heq⟩ := List.mem_map.1 (hcovered f List.mem_cons_self)
        exact absurd heq.symm (bne_iff_ne.1 (List.lookup_eq_none_iff.1 hnone p hp))
      · refine ensures_bind (ensuresShared_storeBlock h fun b s₁ hb => hnext hb fun p hp => ?_)
        rcases List.mem_cons.1 hp with rfl | hp
        · exact hb.keeps
        · exact (hstored p hp).mono hb.grows

theorem ensuresShared_transactions {hashes : List String}
    {Q : List Ledger.Transaction → Shared Storage → Prop} (h : s.Orderly fun _ => True)
    (hs : s.written = []) (hQ : ∀ rows s', Returned rows s' → Q rows s')
    (hX : ∀ e s', Failed N e s' → X e s') : (transactions policy hashes).EnsuresShared N s Q X := by
  rw [transactions_eq]
  split
  · exact ensures_pure (hQ [] s ⟨h, nofun, by rw [hs]; exact List.nil_subset _⟩)
  · refine ensures_bind (ensuresShared_perform h trivial nofun fun before s₁ hstep horderly => ?_)
    obtain ⟨known, hanswer, hknown⟩ := hstep.tidy.answer_getMined (distinct hashes)
    have hquiet : s.Quiet s₁ := hstep.quiet rfl
    have h₁ : s₁.Orderly fun _ => True := horderly fun _ _ => trivial
    have hsame : before.after (.getMined (distinct hashes)) = before :=
      Storage.perform_of_isLookup (a := .access _) rfl before
    have hshown : ∀ row ∈ known, s₁.Shown row := fun row hrow => by
      refine ⟨(hknown row hrow).1, _, hstep.mem_moments, ?_⟩
      rw [hsame]
      exact (hknown row hrow).2
    rw [hanswer]
    dsimp only [Outcome]
    split
    · rename_i hnone
      refine ensures_rowsOf (fun rows hrows => ?_) fun hash hmem hmissing => ?_
      · refine hQ rows s₁ ⟨h₁, fun row hrow => ?_, by rw [hquiet.written, hs]; exact List.nil_subset _⟩
        obtain ⟨hash, -, hfound⟩ := exists_of_mem_right hrows hrow
        exact hshown row (mem_of_rowOf? hfound).1
      · exact absurd (mem_missing.2 ⟨hmem, hmissing⟩)
          (List.isEmpty_iff.1 hnone ▸ List.not_mem_nil)
    · refine ensures_bind (ensures_bind (ensures_gather (fun g hg => ?_) fun e he => ?_))
      · refine ensuresShared_storeFound h₁ (fun p hp => absurd hp List.not_mem_nil) hg.covered
          fun fetched s' hfetched => ?_
        refine ensures_rowsOf (fun rows hrows => ?_) fun hash hmem hnone => ?_
        · -- As many rows were fetched as hashes were missing, and so they are all returned.
          have hlength : fetched.length = (missing known hashes).length :=
            hfetched.txHash.length_eq.symm.trans hg.found.length_eq.symm
          refine hQ rows s' ⟨hfetched.orderly, fun row hrow => ?_, ?_⟩
          · obtain ⟨hash, -, hfound⟩ := exists_of_mem_right hrows hrow
            rcases List.mem_append.1 (mem_of_rowOf? hfound).1 with hrow | hrow
            · exact (hshown row hrow).mono hfetched.toLater
            · exact hfetched.shown row hrow
          · rw [hfetched.written, hquiet.written, hs, List.nil_append]
            exact fetched_subset hrows hlength
        · -- The node told the transaction under another hash.
          rw [rowOf?_append, Option.or_eq_none_iff] at hnone
          obtain ⟨f, hf, hfor⟩ := exists_of_mem_left hg.found (mem_missing.2 ⟨hmem, hnone.2⟩)
          obtain ⟨row, hrow, hhash⟩ := exists_of_mem_left hfetched.txHash hf
          refine hX _ s' ⟨.renamed hfor.transaction fun heq => ?_, hfetched.orderly.settled⟩
          rw [rowOf?, List.find?_eq_none] at hnone
          exact hnone.1 row (List.mem_reverse.2 hrow) (beq_iff_eq.2 (by rw [hhash, heq]))
      · have hfail {q : Query} (hq : N.Fails q e) : X e s₁ := hX e s₁ ⟨.failed hq, h₁.settled⟩
        cases he with
        | receipts hr => obtain hr | ⟨_, _, hr⟩ := hr <;> exact hfail hr
        | transactions ht => obtain ht | ⟨_, _, ht⟩ := ht <;> exact hfail ht
        | blocks _ hb => obtain hb | ⟨_, _, hb⟩ := hb <;> exact hfail hb
        | head hh => exact hfail hh

end Resolve

end ChainIndex
