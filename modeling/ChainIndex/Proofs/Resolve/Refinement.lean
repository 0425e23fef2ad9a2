import ChainIndex.Proofs.Resolve.Reference

/-!
# What resolving a hash comes to

When the answers are those of a coherent snapshot, resolving a hash comes to what the snapshot says, and
does not fail if the snapshot provides what it takes (`ensures_transaction_resolves`).  So does resolving one
hash after the other (`ResolvesTo.append`), and any two ways to resolve the same hashes agree
(`ResolvesTo.agree`).
-/

namespace ChainIndex

open Text (canonical)

namespace Snapshot

variable {S : Snapshot} {hash : String} {hashes : List String} {fault : Fault}

/-! ## Answers that fail -/

theorem bind_told?_eq_none {α β : Type} {r : Except Fault (Option α)} {f : α → Option β}
    (h : ∀ a, r = .ok (some a) → f a = none) : (told? r).bind f = none := by
  rw [Option.bind_eq_none_iff]
  exact fun a ha => h a (told?_eq_some.1 ha)

theorem receipt?_eq_none_of_error (h : S.receipt hash = .error fault) : S.receipt? hash = none :=
  bind_told?_eq_none fun _ hr => absurd (h.symm.trans hr) nofun

theorem transaction?_eq_none_of_error (h : S.transaction hash = .error fault) :
    S.transaction? hash = none :=
  bind_told?_eq_none fun _ ht => absurd (h.symm.trans ht) nofun

theorem receipt?_eq_none_of_fails (h : S.answers.Fails (.receipt hash) fault) :
    S.receipt? hash = none := by
  obtain ⟨_, rfl, hfault⟩ := h
  refine bind_told?_eq_none fun r hr => Resolve.minedReceipt?_eq_none.2 ?_
  rw [hr] at hfault
  by_contra hmined
  exact absurd ((if_pos (Bool.not_eq_false _ ▸ hmined)).symm.trans hfault) nofun

theorem transaction?_eq_none_of_fails (h : S.answers.Fails (.transaction hash) fault) :
    S.transaction? hash = none := by
  obtain ⟨_, rfl, hfault⟩ := h
  refine bind_told?_eq_none fun t ht => Resolve.minedTransaction?_eq_none.2 ?_
  rw [ht] at hfault
  by_contra hnamed
  exact absurd ((if_pos (Bool.not_eq_false _ ▸ hnamed)).symm.trans hfault) nofun

theorem exists_of_fails_receipts (h : S.answers.Fails (.receipts hashes) fault) :
    ∃ hash ∈ hashes, S.receipt? hash = none := by
  obtain ⟨r, hr, hfault⟩ := h
  cases r with
  | ok replies => cases hfault
  | error e =>
    obtain ⟨hash, hmem, fault, herror⟩ := hr
    exact ⟨hash, hmem, receipt?_eq_none_of_error herror⟩

theorem exists_of_fails_transactions (h : S.answers.Fails (.transactions hashes) fault) :
    ∃ hash ∈ hashes, S.transaction? hash = none := by
  obtain ⟨r, hr, hfault⟩ := h
  cases r with
  | ok replies => cases hfault
  | error e =>
    obtain ⟨hash, hmem, fault, herror⟩ := hr
    exact ⟨hash, hmem, transaction?_eq_none_of_error herror⟩

theorem not_fails_block {b : Chain.Block} (hb : S.block hash = .ok (some b)) :
    ¬ S.answers.Fails (.block hash) fault := by
  rintro ⟨r, hr, hfault⟩
  replace hr : r = S.block hash := hr
  subst hr
  rw [hb] at hfault
  cases hfault

theorem not_fails_blocks (hb : ∀ hash ∈ hashes, ∃ b, S.block hash = .ok (some b)) :
    ¬ S.answers.Fails (.blocks hashes) fault := by
  rintro ⟨r, hr, hfault⟩
  cases r with
  | ok replies => cases hfault
  | error e =>
    obtain ⟨hash, hmem, e', herror⟩ := hr
    obtain ⟨b, hb⟩ := hb hash hmem
    rw [hb] at herror
    cases herror

theorem head_of_fails (h : S.answers.Fails .head fault) : S.head = .error fault := by
  obtain ⟨r, hr, hfault⟩ := h
  replace hr : r = S.head := hr
  cases r with
  | ok head => cases hfault
  | error e => rw [← hr, Option.some.inj hfault]

end Snapshot

namespace Resolve

open Attempt
open Snapshot

variable {S : Snapshot} {policy : ConfirmationPolicy} {s s' s₁ : Session Memory} {hash : String}
  {X : Fault → Session Memory → Prop}

/-- A snapshot that does not settle some hashes does not report all about one of them, or has no head. -/
theorem Untold.mined?_or_head {hashes : List String} {fault : Fault} (hS : S.Coherent)
    (hcanon : ∀ hash ∈ hashes, canonical hash = hash) (h : Untold S.answers hashes fault) :
    (∃ hash ∈ hashes, S.mined? hash = none) ∨ S.head = .error fault := by
  cases h with
  | receipts h =>
    have hnone : ∃ hash ∈ hashes, S.receipt? hash = none := by
      rcases h with h | ⟨hash, hmem, h⟩
      · exact exists_of_fails_receipts h
      · exact ⟨hash, hmem, receipt?_eq_none_of_fails h⟩
    obtain ⟨hash, hmem, hnone⟩ := hnone
    exact .inl ⟨hash, hmem, mined?_eq_none_of_receipt hnone⟩
  | transactions h =>
    have hnone : ∃ hash ∈ hashes, S.transaction? hash = none := by
      rcases h with h | ⟨hash, hmem, h⟩
      · exact exists_of_fails_transactions h
      · exact ⟨hash, hmem, transaction?_eq_none_of_fails h⟩
    obtain ⟨hash, hmem, hnone⟩ := hnone
    exact .inl ⟨hash, hmem, mined?_eq_none_of_transaction hnone⟩
  | @blocks names hnames h =>
    refine .inl ?_
    by_contra hall
    have hblock : ∀ name ∈ names, ∃ b, S.block name = .ok (some b) := by
      intro name hname
      obtain ⟨hash, hmem, t, ht, hnamed⟩ := hnames name hname
      obtain ⟨f, hf⟩ := Option.ne_none_iff_exists'.1 fun hnone => hall ⟨hash, hmem, hnone⟩
      have hreports := hS.reports (hcanon hash hmem) hf
      have heq : f.transaction = t :=
        Option.some.inj (Except.ok.inj (hreports.transaction.symm.trans (transaction_of_tells ht)))
      rw [← heq, hreports.named] at hnamed
      exact ⟨f.block, Option.some.inj hnamed ▸ hreports.block⟩
    rcases h with h | ⟨name, hname, h⟩
    · exact not_fails_blocks hblock h
    · obtain ⟨b, hb⟩ := hblock name hname
      exact not_fails_block hb h
  | head h => exact .inr (head_of_fails h)

/-! ## Blocks -/

/-- A block was stored, or was there before, and nothing else has happened. -/
structure BlockSettled (s : Session Memory) (c : Chain.Block) (b : Ledger.Block) (s' : Session Memory) :
    Prop where
  sound : s'.Sound
  holds : s'.live.Holds b
  bare_eq : (s.live.createBlock c false).1.bare = b.bare
  alike : (s.live.createBlock c false).2.Alike s'.live

namespace BlockSettled

variable {c : Chain.Block} {b b' : Ledger.Block}

theorem of_get? (hs : s.Sound) (hb : (s.live.blocks.get? c.hash).map Ledger.Block.bare = some b.bare) :
    BlockSettled s c b s := by
  obtain ⟨b₀, hb₀, hbare⟩ := Option.map_eq_some_iff.1 hb
  have hhash : b₀.bare.blockHash = b.bare.blockHash := congrArg Ledger.Block.blockHash hbare
  have hnumber : b₀.bare.number = b.bare.number := congrArg Ledger.Block.number hbare
  change b₀.blockHash = b.blockHash at hhash
  refine ⟨hs, ⟨b₀, ?_, hnumber⟩, ?_, .createBlock_self hb₀ false⟩
  · rw [← hhash, hs.live.blockHash hb₀, hb₀]
  · rw [Memory.bare_createBlock, hb, Option.getD_some]

theorem of_createBlock (hs : s.Sound) (c : Chain.Block) (confirmed : Bool) :
    BlockSettled s c (s.live.createBlock c confirmed).1
      { s with live := (s.live.createBlock c confirmed).2 } := by
  obtain ⟨⟨hsound, -⟩, -, hholds⟩ := hs.live.createBlock c confirmed
  exact ⟨⟨hsound, hs.staged⟩, hholds, (Memory.Alike.refl _).bare_createBlock c false confirmed,
    (Memory.Alike.refl _).createBlock c false confirmed⟩

theorem get?_self (h : BlockSettled s c b s') :
    (s'.live.blocks.get? c.hash).map Ledger.Block.bare = some b.bare := by
  rw [← h.alike.blocks, Memory.get?_createBlock, if_pos rfl, Option.map_some, h.bare_eq]

theorem get?_mono (h : BlockSettled s c b s') {name : String}
    (hb : (s.live.blocks.get? name).map Ledger.Block.bare = some b'.bare) :
    (s'.live.blocks.get? name).map Ledger.Block.bare = some b'.bare := by
  rw [← h.alike.blocks, Memory.get?_createBlock]
  by_cases heq : name = c.hash
  · rw [if_pos heq, Option.map_some, Memory.bare_createBlock, ← heq, hb, Option.getD_some]
  · rw [if_neg heq, hb]

/-- The transaction that is stored next is linked to the block. -/
theorem put (h : BlockSettled s c b s') (t : Chain.Transaction) (r : Chain.Receipt) :
    (s'.put (s'.live.linkedRow t r b)).Sound ∧
      s'.live.linkedRow t r b = s.live.settledRow ⟨t, r, c⟩ ∧
      (s.live.settle ⟨t, r, c⟩).Alike (s'.put (s'.live.linkedRow t r b)).live := by
  have hrow : s'.live.linkedRow t r b = s.live.settledRow ⟨t, r, c⟩ := by
    have htransactions : s.live.transactions = s'.live.transactions := h.alike.transactions
    rw [Memory.settledRow, Memory.linkedRow, Memory.linkedRow, htransactions,
      ← Ledger.Transaction.link_bare _ (s.live.createBlock c false).1, h.bare_eq,
      Ledger.Transaction.link_bare]
  refine ⟨(h.sound.put_link h.holds _ _).1, hrow, ?_⟩
  have hput := h.alike.insert t.hash (s.live.settledRow ⟨t, r, c⟩)
  rw [Session.put, h.sound.live.txHash_linkedRow, hrow]
  exact hput

end BlockSettled

/-- A block that is reported is settled, unless it is not stored and the head cannot be read. -/
theorem ensures_block_settled {c : Chain.Block} {Q : Ledger.Block → Session Memory → Prop} (hs : s.Sound)
    (hc : S.block (canonical hash) = .ok (some c)) (hhash : c.hash = canonical hash)
    (hQ : ∀ b s', BlockSettled s c b s' → Q b s') (hX : ∀ e, S.head = .error e → X e s) :
    (block policy hash).Ensures S.answers Session.Effect (fun _ _ _ => True) s Q X := by
  refine ensures_bind (ensures_access fun r m he => ⟨trivial, ?_⟩)
  cases he
  show Ensures _ Session.Effect _ _ s Q X
  cases hb : s.live.blocks.get? (canonical hash) with
  | some b =>
    refine ensures_pure (hQ b s (.of_get? hs ?_))
    rw [hhash, hb, Option.map_some]
  | none =>
    refine ensures_bind (ensures_send (fun head _ => ?_) fun e he => ?_)
    · refine ensures_bind (ensures_send (fun first hfirst => ?_) fun e he => ?_)
      · refine ensures_bind (ensures_settleBlock (fun c' hc' => .inl (hc' ▸ hfirst)) (fun c' hc' => ?_)
          fun e he => absurd he (not_fails_block hc))
        obtain rfl : c' = c :=
          Option.some.inj (Except.ok.inj ((block_of_tells hc').symm.trans hc))
        refine ensures_access fun r m he => ⟨trivial, ?_⟩
        cases he
        exact hQ _ _ (.of_createBlock hs c' _)
      · exact absurd (Answers.fails_of_error he) (not_fails_block hc)
    · exact hX e (Eq.symm he)

/-! ## One hash after the other -/

/-- Some hashes were resolved as `Snapshot.resolveAll?` says, and each has its row in the end. -/
structure ResolvesTo (S : Snapshot) (s : Session Memory) (hashes : List String)
    (rows : List Ledger.Transaction) (s' : Session Memory) : Prop where
  sound : s'.Sound
  tables : ∃ m, S.resolveAll? s.live hashes = some m ∧ m.Alike s'.live
  rows : List.Forall₂ (fun hash row => s'.live.transactions.get? hash = some row ∧
    row.isMined = true) hashes rows

theorem ResolvesTo.ne_none {hashes : List String} {rows : List Ledger.Transaction}
    (h : ResolvesTo S s hashes rows s') : S.resolveAll? s.live hashes ≠ none := by
  obtain ⟨m, hm, -⟩ := h.tables
  rw [hm]
  exact Option.some_ne_none m

/-- A hash that is not linked is resolved by settling its block and storing its transaction. -/
theorem resolvesTo_of_settled {f : Mined} {b : Ledger.Block} (hf : S.Reports hash f)
    (hfree : s.live.isLinked hash = false) (hb : BlockSettled s f.block b s₁) :
    ResolvesTo S s [hash] [s₁.live.linkedRow f.transaction f.receipt b]
      (s₁.put (s₁.live.linkedRow f.transaction f.receipt b)) := by
  obtain ⟨hsound, -, halike⟩ := hb.put f.transaction f.receipt
  refine ⟨hsound, ⟨s.live.settle f, ?_, halike⟩, .cons ⟨?_, rfl⟩ .nil⟩
  · rw [resolveAll?_cons, resolve?_of_not_linked hfree, hf.mined?_eq]
    rfl
  · rw [Session.get?_put, hb.sound.live.txHash_linkedRow, if_pos hf.hash_eq.symm]

theorem ensures_receiptAndBlock_settled {Q : Chain.Receipt × Ledger.Block → Session Memory → Prop}
    (hs : s.Sound) (hS : S.Coherent) (hcanon : canonical hash = hash)
    (hQ : ∀ f b s', S.Reports hash f → BlockSettled s f.block b s' → Q (f.receipt, b) s')
    (hX : ∀ e, S.mined? hash = none ∨ S.head = .error e → X e s) :
    (receiptAndBlock policy hash).Ensures S.answers Session.Effect (fun _ _ _ => True) s Q X := by
  have hfails {e : Fault} (he : S.answers.Fails (.receipt hash) e) : X e s :=
    hX e (.inl (mined?_eq_none_of_receipt (receipt?_eq_none_of_fails he)))
  refine ensures_bind (ensures_send (fun first hfirst => ?_) fun e he =>
    hfails (Answers.fails_of_error he))
  refine ensures_bind (ensures_settleReceipt (fun r hr => .inl (hr ▸ hfirst)) (fun r name hr hname => ?_)
    fun e he => hfails he)
  have hmined : r.isMined = true := by
    rw [← r.isSome_minedIn?, hname]
    rfl
  obtain ⟨f, hf, rfl⟩ := hS.exists_reports hcanon (receipt_of_tells hr) hmined
  have hblock : canonical name = f.block.hash := by
    have hminedIn := hf.minedIn
    rw [hname] at hminedIn
    exact Option.some.inj hminedIn
  have hc : S.block (canonical name) = .ok (some f.block) := hblock ▸ hf.block
  exact ensures_bind (ensures_block_settled hs hc hblock.symm
    (fun b s' hb => ensures_pure (hQ f b s' hf hb)) fun e he => hX e (.inr he))

theorem ensures_linkStored_resolves {row : Ledger.Transaction} (hs : s.Sound) (hS : S.Coherent)
    (hcanon : canonical hash = hash) (hrow : s.live.transactions.get? hash = some row)
    (hmined : row.isMined = false) :
    Ensures S.answers Session.Effect (fun _ _ _ => True) (do
      let (receipt, b) ← receiptAndBlock policy hash
      (Access.linkTransaction hash b receipt).perform) s (fun row => ResolvesTo S s [hash] [row])
      fun _ _ => ¬ S.Provides s.live [hash] := by
  have hfree : s.live.isLinked hash = false := by
    rw [Memory.isLinked, hrow, Option.any_some, hmined]
  refine ensures_bind (ensures_receiptAndBlock_settled hs hS hcanon (fun f b s₁ hf hb => ?_)
    fun e he => not_provides_of_not_linked hfree he)
  have hrow₁ : s₁.live.transactions.get? hash = some row := by
    rw [← hrow]
    exact congrArg (·.get? hash) hb.alike.transactions.symm
  refine ensures_linkTransaction hb.sound hb.holds hrow₁ (fun _ _ => trivial) ?_
  have hresolves := resolvesTo_of_settled hf hfree hb
  rw [Memory.linkedRow, hf.hash_eq, hrow₁] at hresolves
  exact hresolves

theorem ensures_createMissing_resolves (hs : s.Sound) (hS : S.Coherent) (hcanon : canonical hash = hash)
    (hrow : s.live.transactions.get? hash = none) :
    Ensures S.answers Session.Effect (fun _ _ _ => True) (do
      let (receipt, b) ← receiptAndBlock policy hash
      let first ← (Query.transaction hash).send
      let (found, _) ← settleTransaction hash first
      createOrLink found receipt b) s (fun row => ResolvesTo S s [hash] [row])
      fun _ _ => ¬ S.Provides s.live [hash] := by
  have hfree : s.live.isLinked hash = false := by
    rw [Memory.isLinked, hrow]
    rfl
  refine ensures_bind (ensures_receiptAndBlock_settled hs hS hcanon (fun f b s₁ hf hb => ?_)
    fun e he => not_provides_of_not_linked hfree he)
  have hfails {e : Fault} (he : S.answers.Fails (.transaction hash) e) : ¬ S.Provides s.live [hash] := by
    have hnone := mined?_eq_none_of_transaction (transaction?_eq_none_of_fails he)
    exact not_provides_of_not_linked hfree (.inl hnone : _ ∨ S.head = .error e)
  refine ensures_bind (ensures_send (fun first hfirst => ?_) fun e he =>
    hfails (Answers.fails_of_error he))
  refine ensures_bind (ensures_settleTransaction (fun t ht => .inl (ht ▸ hfirst))
    (fun t name ht hname => ?_) fun e he => hfails he)
  obtain rfl : f.transaction = t :=
    Option.some.inj (Except.ok.inj (hf.transaction.symm.trans (transaction_of_tells ht)))
  exact ensures_createOrLink hb.sound hb.holds (fun _ _ => trivial)
    (resolvesTo_of_settled hf hfree hb)

/-- A hash is resolved as the snapshot says. -/
theorem ensures_transaction_resolves (hs : s.Sound) (hS : S.Coherent) (hcanon : canonical hash = hash) :
    (transaction policy hash).Ensures S.answers Session.Effect (fun _ _ _ => True) s
      (fun row => ResolvesTo S s [hash] [row]) fun _ _ => ¬ S.Provides s.live [hash] := by
  unfold transaction
  rw [hcanon]
  refine ensures_bind (ensures_access fun r m he => ⟨trivial, ?_⟩)
  cases he
  show Ensures S.answers Session.Effect _ _ s _ _
  cases hrow : s.live.transactions.get? hash with
  | some row =>
    cases hmined : row.isMined with
    | true =>
      have hlinked : s.live.isLinked hash = true := Memory.isLinked_iff.2 ⟨row, hrow, hmined⟩
      simp only [hmined, if_true]
      refine ensures_pure ⟨hs, ⟨s.live, ?_, .refl _⟩, .cons ⟨hrow, hmined⟩ .nil⟩
      rw [resolveAll?_cons, resolve?_of_linked hlinked]
      rfl
    | false =>
      simp only [hmined]
      exact ensures_linkStored_resolves hs hS hcanon hrow hmined
  | none => exact ensures_createMissing_resolves hs hS hcanon hrow

/-- What was resolved before stays as it is while other hashes are resolved. -/
theorem ResolvesTo.append (hS : S.Coherent) {hashes hashes' : List String}
    {rows rows' : List Ledger.Transaction} (hcanon : ∀ hash ∈ hashes', canonical hash = hash)
    (h : ResolvesTo S s hashes rows s₁) (h' : ResolvesTo S s₁ hashes' rows' s') :
    ResolvesTo S s (hashes ++ hashes') (rows ++ rows') s' := by
  obtain ⟨m, hm, halike⟩ := h.tables
  obtain ⟨m', hm', halike'⟩ := h'.tables
  have hrel := S.rel_resolveAll? halike hashes'
  rw [hm'] at hrel
  cases hm₂ : S.resolveAll? m hashes' with
  | none =>
    rw [hm₂] at hrel
    cases hrel
  | some m₂ =>
    rw [hm₂] at hrel
    have hkept : List.Forall₂ (fun hash row => s'.live.transactions.get? hash = some row ∧
        row.isMined = true) hashes rows := h.rows.imp fun hash row hrow => by
      have hget := hS.get?_resolveAll? hcanon hm' hrow.1 hrow.2
      rw [halike'.transactions] at hget
      exact ⟨hget, hrow.2⟩
    refine ⟨h'.sound, ⟨m₂, ?_, ?_⟩, List.rel_append hkept h'.rows⟩
    · rw [resolveAll?_append, hm]
      exact hm₂
    · cases hrel with
      | some hrel => exact hrel.trans halike'

/-- If some of the hashes cannot be resolved afterwards, they could not be resolved before. -/
theorem ResolvesTo.append_eq_none {hashes hashes' : List String} {rows : List Ledger.Transaction}
    (h : ResolvesTo S s hashes rows s₁) (hnone : S.resolveAll? s₁.live hashes' = none) :
    S.resolveAll? s.live (hashes ++ hashes') = none := by
  obtain ⟨m, hm, halike⟩ := h.tables
  have hrel := S.rel_resolveAll? halike hashes'
  rw [hnone] at hrel
  rw [resolveAll?_append, hm, Option.bind_some]
  cases hm' : S.resolveAll? m hashes' with
  | none => rfl
  | some m' =>
    rw [hm'] at hrel
    cases hrel

/-- What was provided for more hashes is provided for the rest of them afterwards. -/
theorem ResolvesTo.provides (hS : S.Coherent) {hashes hashes' : List String} {rows : List Ledger.Transaction}
    (hcanon : ∀ hash ∈ hashes, canonical hash = hash) (h : ResolvesTo S s hashes rows s₁)
    (hprovides : S.Provides s.live (hashes ++ hashes')) : S.Provides s₁.live hashes' := by
  refine ⟨fun hnone => hprovides.resolves (h.append_eq_none hnone),
    hprovides.head.imp_right fun hlinked hash hmem => ?_⟩
  obtain ⟨row, hrow, hmined⟩ := Memory.isLinked_iff.1 (hlinked hash (List.mem_append_right _ hmem))
  obtain ⟨m, hm, halike⟩ := h.tables
  refine Memory.isLinked_iff.2 ⟨row, ?_, hmined⟩
  rw [← halike.transactions]
  exact hS.get?_resolveAll? hcanon hm hrow hmined

/-- Two ways to resolve the same hashes return the same rows and leave tables that are alike. -/
theorem ResolvesTo.agree {s₂ : Session Memory} {hashes : List String}
    {rows rows' : List Ledger.Transaction} (h : ResolvesTo S s hashes rows s₁)
    (h' : ResolvesTo S s hashes rows' s₂) : rows = rows' ∧ s₁.live.Alike s₂.live := by
  obtain ⟨m, hm, halike₁⟩ := h.tables
  obtain ⟨m', hm', halike₂⟩ := h'.tables
  obtain rfl : m = m' := Option.some.inj (hm.symm.trans hm')
  have halike : s₁.live.Alike s₂.live := halike₁.symm.trans halike₂
  refine ⟨?_, halike⟩
  have hrows := mapM_eq_some_iff.2 (h.rows.imp fun _ _ hrow => hrow.1)
  rw [halike.transactions, mapM_eq_some_iff.2 (h'.rows.imp fun _ _ hrow => hrow.1)] at hrows
  exact (Option.some.inj hrows).symm

end Resolve

end ChainIndex
