import ChainIndex.Proofs.Lists
import ChainIndex.Proofs.Resolve.Single

/-!
# How many hashes are resolved

`Told` is what is gathered from a node about some hashes, `Linked` is what storing it does to a session,
and `Answered` is how a question about many hashes ends.
-/

namespace ChainIndex.Resolve

open Attempt
open Answers (fails_of_error)
open Text (canonical)

/-! ## Entries -/

theorem map_fst_entries {α : Type} (hashes : List String) (replies : List (Option α)) :
    (entries hashes replies).map Prod.fst = hashes := by
  induction hashes generalizing replies with
  | nil => cases replies <;> rfl
  | cons hash rest ih => cases replies <;> simp [entries, ih]

theorem fst_mem_of_mem_entries {α : Type} {hashes : List String} {replies : List (Option α)}
    {e : String × Option α} (h : e ∈ entries hashes replies) : e.1 ∈ hashes := by
  rw [← map_fst_entries hashes replies]
  exact List.mem_map_of_mem h

/-- In a reply to each hash on its own, the entry of a hash is the reply to it. -/
theorem eq_of_mem_entries_map {α : Type} {f : String → Option α} {hashes : List String} {hash : String}
    {a : Option α} (h : (hash, a) ∈ entries hashes (hashes.map f)) : a = f hash := by
  induction hashes with
  | nil => cases h
  | cons _ rest ih =>
    rcases List.mem_cons.1 h with heq | h
    · cases heq
      rfl
    · exact ih h

theorem forall₂_of_entries {α β : Type} {P : String → β → Prop} {hashes : List String}
    {replies : List (Option α)} {bs : List β}
    (h : List.Forall₂ (fun e b => P e.1 b) (entries hashes replies) bs) : List.Forall₂ P hashes bs := by
  rw [← map_fst_entries hashes replies]
  exact List.forall₂_map_left_iff.2 h

/-! ## Gathering -/

/-- Everything found about a hash was told for it; the block is the one that the transaction names. -/
structure FoundFor (N : Answers) (hash : String) (f : Found) : Prop where
  receipt : N.TellsReceipt hash f.receipt
  mined : f.receipt.minedIn?.isSome = true
  transaction : N.TellsTransaction hash f.transaction
  block : f.transaction.blockHash.map canonical = some f.blockHash

/-- Everything that was gathered was told, and nothing that was found lacks its block. -/
structure Told (N : Answers) (hashes : List String) (g : Gathered) : Prop where
  found : List.Forall₂ (FoundFor N) hashes g.found
  blocks : ∀ p ∈ g.blocks, N.TellsBlock p.1 p.2
  covered : ∀ f ∈ g.found, f.blockHash ∈ g.blocks.map Prod.fst
  head : N .head (.ok g.head)

/-- A transaction that was told for one of the hashes is in the block of a name. -/
def NamedFor (N : Answers) (hashes : List String) (name : String) : Prop :=
  ∃ hash ∈ hashes, ∃ t, N.TellsTransaction hash t ∧ t.blockHash.map canonical = some name

/-- The ways in which something about some hashes is not told. -/
inductive Untold (N : Answers) (hashes : List String) (fault : Fault) : Prop
  | receipts (h : N.Fails (.receipts hashes) fault ∨ ∃ hash ∈ hashes, N.Fails (.receipt hash) fault)
  | transactions
    (h : N.Fails (.transactions hashes) fault ∨ ∃ hash ∈ hashes, N.Fails (.transaction hash) fault)
  | blocks {names : List String} (hnames : ∀ name ∈ names, NamedFor N hashes name)
    (h : N.Fails (.blocks names) fault ∨ ∃ name ∈ names, N.Fails (.block name) fault)
  | head (h : N.Fails .head fault)

section

variable {σ : Type} {N : Answers} {R : Conduct σ} {E : LinkRule} {s : σ} {X : Fault → σ → Prop}
  {hashes : List String}

theorem ensures_gatherReceipts {Q : List Chain.Receipt → σ → Prop}
    (hQ : ∀ rs, List.Forall₂ (fun hash r => N.TellsReceipt hash r ∧ r.minedIn?.isSome = true) hashes rs →
      Q rs s)
    (hX : ∀ e, N.Fails (.receipts hashes) e ∨ (∃ hash ∈ hashes, N.Fails (.receipt hash) e) → X e s) :
    Ensures N R E (gatherReceipts hashes) s Q X := by
  refine ensures_bind (ensures_send (fun replies hN => ?_) fun e hN => hX e (.inl (fails_of_error hN)))
  refine ensures_mapM (fun e he Q hQ => ?_) fun rs hrs => hQ rs (forall₂_of_entries hrs)
  refine ensures_bind (ensures_settleReceipt (fun r hr => ?_) (fun r b hr hb => ?_) fun fault hfails => ?_)
  · exact .inr ⟨hashes, replies, hN, hr ▸ he⟩
  · exact ensures_pure (hQ r ⟨hr, Option.isSome_of_eq_some hb⟩)
  · exact hX fault (.inr ⟨e.1, fst_mem_of_mem_entries he, hfails⟩)

theorem ensures_gatherTransactions {Q : List (Chain.Transaction × String) → σ → Prop}
    (hQ : ∀ ts, List.Forall₂ (fun hash t => N.TellsTransaction hash t.1 ∧
      t.1.blockHash.map canonical = some t.2) hashes ts → Q ts s)
    (hX : ∀ e, N.Fails (.transactions hashes) e ∨ (∃ hash ∈ hashes, N.Fails (.transaction hash) e) →
      X e s) : Ensures N R E (gatherTransactions hashes) s Q X := by
  refine ensures_bind (ensures_send (fun replies hN => ?_) fun e hN => hX e (.inl (fails_of_error hN)))
  refine ensures_mapM (fun e he Q hQ => ?_) fun ts hts => hQ ts (forall₂_of_entries hts)
  refine ensures_bind (ensures_settleTransaction (fun t ht => ?_) (fun t b ht hb => ?_)
    fun fault hfails => ?_)
  · exact .inr ⟨hashes, replies, hN, ht ▸ he⟩
  · exact ensures_pure (hQ _ ⟨ht, congrArg (Option.map canonical) hb⟩)
  · exact hX fault (.inr ⟨e.1, fst_mem_of_mem_entries he, hfails⟩)

theorem ensures_gatherBlocks {Q : List (String × Chain.Block) → σ → Prop}
    (hQ : ∀ bs, List.Forall₂ (fun hash p => hash = p.1 ∧ N.TellsBlock p.1 p.2) hashes bs → Q bs s)
    (hX : ∀ e, N.Fails (.blocks hashes) e ∨ (∃ hash ∈ hashes, N.Fails (.block hash) e) → X e s) :
    Ensures N R E (gatherBlocks hashes) s Q X := by
  refine ensures_bind (ensures_send (fun replies hN => ?_) fun e hN => hX e (.inl (fails_of_error hN)))
  refine ensures_mapM (fun e he Q hQ => ?_) fun bs hbs => hQ bs (forall₂_of_entries hbs)
  refine ensures_bind (ensures_settleBlock (fun b hb => ?_) (fun b hb => ?_) fun fault hfails => ?_)
  · exact .inr ⟨hashes, replies, hN, hb ▸ he⟩
  · exact ensures_pure (hQ (e.1, b) ⟨rfl, hb⟩)
  · exact hX fault (.inr ⟨e.1, fst_mem_of_mem_entries he, hfails⟩)

/-- Transactions and receipts that belong to the same hashes are found together. -/
theorem forall₂_found {ts : List (Chain.Transaction × String)} {rs : List Chain.Receipt}
    (hts : List.Forall₂ (fun hash t => N.TellsTransaction hash t.1 ∧
      t.1.blockHash.map canonical = some t.2) hashes ts)
    (hrs : List.Forall₂ (fun hash r => N.TellsReceipt hash r ∧ r.minedIn?.isSome = true) hashes rs) :
    List.Forall₂ (FoundFor N) hashes (List.zipWith
      (fun (t, blockHash) receipt => { transaction := t, receipt, blockHash }) ts rs) := by
  induction hts generalizing rs with
  | nil => exact List.Forall₂.nil
  | cons ht hts ih =>
    cases hrs with
    | cons hr hrs => exact .cons ⟨hr.1, hr.2, ht.1, ht.2⟩ (ih hrs)

theorem blockHash_mem_of_mem_found {ts : List (Chain.Transaction × String)} {rs : List Chain.Receipt}
    {f : Found} (hf : f ∈ List.zipWith
      (fun (t, blockHash) receipt => { transaction := t, receipt, blockHash : Found }) ts rs) :
    f.blockHash ∈ ts.map Prod.snd := by
  rw [← List.map_uncurry_zip_eq_zipWith] at hf
  obtain ⟨⟨t, r⟩, hmem, rfl⟩ := List.mem_map.1 hf
  exact List.mem_map_of_mem (List.of_mem_zip hmem).1

theorem ensures_gather {Q : Gathered → σ → Prop} (hQ : ∀ g, Told N hashes g → Q g s)
    (hX : ∀ e, Untold N hashes e → X e s) : Ensures N R E (gather hashes) s Q X := by
  refine ensures_bind (ensures_gatherReceipts (fun rs hrs => ?_) fun e he => hX e (.receipts he))
  refine ensures_bind (ensures_gatherTransactions (fun ts hts => ?_) fun e he => hX e (.transactions he))
  have hnames : ∀ name ∈ (ts.map Prod.snd).eraseDups, NamedFor N hashes name := by
    intro name hname
    rw [List.mem_eraseDups] at hname
    obtain ⟨t, ht, rfl⟩ := List.mem_map.1 hname
    obtain ⟨hash, hmem, htold, hblock⟩ := exists_of_mem_right hts ht
    exact ⟨hash, hmem, t.1, htold, hblock⟩
  refine ensures_bind (ensures_gatherBlocks (fun bs hbs => ?_) fun e he => hX e (.blocks hnames he))
  refine ensures_bind (ensures_send (fun head hhead => ?_) fun e he => hX e (.head (fails_of_error he)))
  refine ensures_pure (hQ _ ⟨forall₂_found hts hrs, fun p hp => ?_, fun f hf => ?_, hhead⟩)
  · obtain ⟨-, -, -, htold⟩ := exists_of_mem_right hbs hp
    exact htold
  · have hname : f.blockHash ∈ (ts.map Prod.snd).eraseDups := by
      rw [List.mem_eraseDups]
      exact blockHash_mem_of_mem_found hf
    obtain ⟨p, hp, heq, -⟩ := exists_of_mem_left hbs hname
    exact List.mem_map.2 ⟨p, hp, heq.symm⟩

end

/-! ## Storing -/

/-- Found transactions are stored one after the other, each after the block that it is linked to. -/
inductive Linked (N : Answers) : Session Memory → List Found → List Ledger.Transaction →
    Session Memory → Prop
  | nil {s} (hs : s.Sound) : Linked N s [] [] s
  | cons {s s₁ s' f b rest rows} (hnamed : N.Names f.blockHash b)
    (hb : BlockResolved N s f.blockHash b s₁)
    (hrest : Linked N (s₁.put (s₁.live.linkedRow f.transaction f.receipt b)) rest rows s') :
    Linked N s (f :: rest) (s₁.live.linkedRow f.transaction f.receipt b :: rows) s'

section

variable {N : Answers} {E : LinkRule} {s : Session Memory} {X : Fault → Session Memory → Prop}
  {policy : ConfirmationPolicy}

/-- A block that was stored before goes by the hash that it was told for, and is still held. -/
def Remembers (N : Answers) (s : Session Memory) (stored : List (String × Ledger.Block)) : Prop :=
  ∀ p ∈ stored, N.Names p.1 p.2 ∧ s.live.Holds p.2

theorem Remembers.mono {s s' : Session Memory} {stored : List (String × Ledger.Block)}
    (h : Remembers N s stored) (hgrows : s.live.Extends s'.live) : Remembers N s' stored :=
  fun p hp => (h p hp).imp_right (Memory.Holds.mono hgrows)

theorem mem_of_lookup {α : Type} {hash : String} {a : α} {l : List (String × α)}
    (h : l.lookup hash = some a) : (hash, a) ∈ l := by
  obtain ⟨l₁, l₂, rfl, -⟩ := List.lookup_eq_some_iff.1 h
  exact List.mem_append_right _ List.mem_cons_self

theorem ensures_storeFound {g : Gathered} {stored : List (String × Ledger.Block)} {found : List Found}
    {Q : List Ledger.Transaction → Session Memory → Prop} (hs : s.Sound)
    (hg : ∀ p ∈ g.blocks, N.TellsBlock p.1 p.2) (hstored : Remembers N s stored)
    (hE : ∀ f ∈ found, ∀ {b reply}, N.Names f.blockHash b →
      LinkRule.permittedFor f.transaction.hash f.receipt b reply → E f.receipt b reply)
    (hQ : ∀ rows s', Linked N s found rows s' → Q rows s') (hX : ∀ e s', s'.Sound → X e s') :
    Ensures N Session.Effect E (storeFound policy g stored found) s Q X := by
  induction found generalizing s stored Q with
  | nil => exact ensures_pure (hQ [] s (.nil hs))
  | cons f rest ih =>
    -- Once the block is resolved, the transaction is stored and then the others are.
    have hnext {stored' b s₁} (hnamed : N.Names f.blockHash b)
        (hb : BlockResolved N s f.blockHash b s₁) (hstored' : Remembers N s₁ stored') :
        Ensures N Session.Effect E (do
          let row ← createOrLink f.transaction f.receipt b
          let rows ← storeFound policy g stored' rest
          return row :: rows) s₁ Q X := by
      obtain ⟨hsound, hgrows⟩ := hb.sound.put_link hb.holds
        ((s₁.live.transactions.get? f.transaction.hash).getD (.pending f.transaction)) f.receipt
      refine ensures_bind (ensures_createOrLink hb.sound hb.holds
        (fun _ => hE f List.mem_cons_self hnamed) (ensures_bind ?_))
      refine ih hsound (hstored'.mono hgrows) (fun f' hf' => hE f' (List.mem_cons_of_mem _ hf'))
        fun rows s' hrows => ?_
      exact ensures_pure (hQ _ s' (.cons hnamed hb hrows))
    rw [storeFound]
    split
    · rename_i b hb
      obtain ⟨hnamed, hholds⟩ := hstored _ (mem_of_lookup hb)
      exact hnext hnamed ⟨.refl hs, .inr hnamed, hholds⟩ hstored
    · split
      · exact ensures_throw (hX _ s hs)
      · rename_i c hc
        refine ensures_bind (ensures_storeBlock hs (hg _ (mem_of_lookup hc)) fun b s₁ hnamed hb => ?_)
        refine hnext hnamed hb fun p hp => ?_
        rcases List.mem_cons.1 hp with rfl | hp
        · exact ⟨hnamed, hb.holds⟩
        · exact hstored.mono hb.grows p hp

namespace Linked

variable {s' : Session Memory} {found : List Found} {rows : List Ledger.Transaction}

theorem sound (h : Linked N s found rows s') : s'.Sound ∧ s.live.Extends s'.live := by
  induction h with
  | nil hs => exact ⟨hs, .refl _⟩
  | cons _ hb _ ih =>
    obtain ⟨-, hgrows⟩ := hb.sound.put_link hb.holds _ _
    exact ⟨ih.1, (hb.grows.trans hgrows).trans ih.2⟩

/-- Each row has the hash that was told for its transaction, and is linked. -/
theorem forall₂_rows (h : Linked N s found rows s') :
    List.Forall₂ (fun f row => row.txHash = f.transaction.hash ∧ row.isMined = true) found rows := by
  induction h with
  | nil hs => exact .nil
  | cons _ hb _ ih => exact .cons ⟨hb.sound.live.txHash_linkedRow _ _ _, rfl⟩ ih

theorem get?_eq (h : Linked N s found rows s') {hash : String}
    (hne : ∀ f ∈ found, f.transaction.hash ≠ hash) :
    s'.live.transactions.get? hash = s.live.transactions.get? hash := by
  induction h with
  | nil hs => rfl
  | cons _ hb _ ih =>
    have hhash := hne _ List.mem_cons_self
    rw [ih fun f hf => hne f (List.mem_cons_of_mem _ hf), Session.get?_put,
      hb.sound.live.txHash_linkedRow, if_neg hhash.symm, hb.transactions]

/-- If the hashes that were told are distinct, every row is left under its hash. -/
theorem get?_txHash (h : Linked N s found rows s') (hn : (found.map (·.transaction.hash)).Nodup)
    {row : Ledger.Transaction} (hrow : row ∈ rows) :
    s'.live.transactions.get? row.txHash = some row := by
  induction h with
  | nil hs => cases hrow
  | cons _ hb hrest ih =>
    obtain ⟨hhash, hn⟩ := List.nodup_cons.1 hn
    rcases List.mem_cons.1 hrow with rfl | hrow
    · rw [hrest.get?_eq, Session.get?_put, if_pos rfl]
      intro f hf heq
      rw [hb.sound.live.txHash_linkedRow] at heq
      exact hhash (List.mem_map.2 ⟨f, hf, heq⟩)
    · exact ih hn hrow

/-- If the hashes that were told are distinct, what was found about one is stored as its linked row. -/
theorem get?_of_mem (h : Linked N s found rows s') (hn : (found.map (·.transaction.hash)).Nodup)
    {f : Found} (hf : f ∈ found) :
    ∃ b, N.Names f.blockHash b ∧ Session.NumberFrom N s b.blockHash b.number ∧
      s'.live.transactions.get? f.transaction.hash =
        some (s.live.linkedRow f.transaction f.receipt b) := by
  induction h with
  | nil hs => cases hf
  | @cons s s₁ s' f₀ b rest rows hnamed hb hrest ih =>
    obtain ⟨hhash, hn⟩ := List.nodup_cons.1 hn
    rcases List.mem_cons.1 hf with rfl | hf
    · refine ⟨b, hnamed, hb.numberFrom, ?_⟩
      have hne : ∀ f' ∈ rest, f'.transaction.hash ≠ f.transaction.hash := fun f' hf' heq =>
        hhash (List.mem_map.2 ⟨f', hf', heq⟩)
      rw [hrest.get?_eq hne, Session.get?_put, hb.sound.live.txHash_linkedRow, if_pos rfl, Memory.linkedRow,
        hb.transactions]
      rfl
    · have hne : f.transaction.hash ≠ f₀.transaction.hash := fun heq =>
        hhash (List.mem_map.2 ⟨f, hf, heq⟩)
      obtain ⟨b', hnamed, hnumber, hget⟩ := ih hn hf
      have hnumber : Session.NumberFrom N s₁ b'.blockHash b'.number := hnumber
      refine ⟨b', hnamed, hnumber.of_gainsBlocks hb.toGainsBlocks, ?_⟩
      rw [hget, Memory.linkedRow, Session.get?_put, hb.sound.live.txHash_linkedRow, if_neg hne,
        hb.transactions]
      rfl

end Linked

/-! ## Answers -/

/-- The hashes that are asked for, each once in its canonical form. -/
def distinct (hashes : List String) : List String := (hashes.map canonical).eraseDups

/-- The hashes without a row among the known ones. -/
def missing (known : List Ledger.Transaction) (hashes : List String) : List String :=
  (distinct hashes).filter fun hash => (rowOf? known hash).isNone

theorem transactions_eq (policy : ConfirmationPolicy) (hashes : List String) :
    transactions policy hashes = if (distinct hashes).isEmpty then pure [] else
      (Access.getMined (distinct hashes)).perform >>= fun known =>
        if (missing known hashes).isEmpty then rowsOf known (distinct hashes)
        else fetch policy (missing known hashes) >>= fun fetched =>
          rowsOf (known ++ fetched) (distinct hashes) :=
  rfl

/-- A question about many hashes is answered from the linked rows that were stored before and those of
what was found about the others. -/
structure Answered (N : Answers) (s : Session Memory) (hashes : List String)
    (known : List Ledger.Transaction) (found : List Found) (fetched rows : List Ledger.Transaction)
    (s' : Session Memory) : Prop where
  mem_known : ∀ row, row ∈ known ↔ row ∈ s.live.getMined (distinct hashes)
  foundFor : List.Forall₂ (FoundFor N) (missing known hashes) found
  linked : Linked N s found fetched s'
  rowOf : List.Forall₂ (fun hash row => rowOf? (known ++ fetched) hash = some row) (distinct hashes) rows

/-- Rows are listed for some hashes unless one of them has none. -/
theorem ensures_rowsOf {σ : Type} {R : Conduct σ} {s : σ} {X : Fault → σ → Prop}
    {known : List Ledger.Transaction} {hashes : List String} {Q : List Ledger.Transaction → σ → Prop}
    (hQ : ∀ rows, List.Forall₂ (fun hash row => rowOf? known hash = some row) hashes rows → Q rows s)
    (hX : ∀ hash ∈ hashes, rowOf? known hash = none → X (.transactionNotFound hash) s) :
    Ensures N R E (rowsOf known hashes) s Q X := by
  refine ensures_mapM (fun hash hmem Q hQ => ?_) fun rows hrows => hQ rows hrows
  split
  · rename_i row hrow
    exact ensures_pure (hQ row hrow)
  · rename_i hnone
    exact ensures_throw (hX hash hmem hnone)

theorem ensures_fetch {hashes : List String} {Q : List Ledger.Transaction → Session Memory → Prop}
    (hs : s.Sound)
    (hE : ∀ {hash f b reply}, FoundFor N hash f → N.Names f.blockHash b →
      LinkRule.permittedFor f.transaction.hash f.receipt b reply → E f.receipt b reply)
    (hQ : ∀ found rows s', List.Forall₂ (FoundFor N) hashes found → Linked N s found rows s' → Q rows s')
    (hX : ∀ e s', s'.Sound → X e s') : Ensures N Session.Effect E (fetch policy hashes) s Q X := by
  refine ensures_bind (ensures_gather (fun g hg => ?_) fun e _ => hX e s hs)
  refine ensures_storeFound hs hg.blocks (fun p hp => absurd hp List.not_mem_nil) (fun f hf => ?_)
    (fun rows s' hrows => hQ _ rows s' hg.found hrows) hX
  obtain ⟨hash, -, hfor⟩ := exists_of_mem_right hg.found hf
  exact hE hfor

theorem ensures_transactions {hashes : List String}
    {Q : List Ledger.Transaction → Session Memory → Prop} (hs : s.Sound)
    (hE : ∀ {hash f b reply}, FoundFor N hash f → N.Names f.blockHash b →
      LinkRule.permittedFor f.transaction.hash f.receipt b reply → E f.receipt b reply)
    (hQ : ∀ known found fetched rows s', Answered N s hashes known found fetched rows s' → Q rows s')
    (hX : ∀ e s', s'.Sound → X e s') :
    Ensures N Session.Effect E (transactions policy hashes) s Q X := by
  show Ensures N Session.Effect E (if (distinct hashes).isEmpty then pure [] else _) s Q X
  split
  · rename_i hnone
    have hnil := List.isEmpty_iff.1 hnone
    refine ensures_pure (hQ [] [] [] [] s ⟨?_, ?_, .nil hs, ?_⟩)
    · simp [hnil, Memory.getMined]
    · simp [missing, hnil]
    · rw [hnil]
      exact .nil
  · refine ensures_bind (ensures_access fun r m he => ⟨trivial, ?_⟩)
    obtain ⟨known, rfl, hknown, rfl⟩ := he
    show Ensures N Session.Effect E (if (missing known hashes).isEmpty then _ else _) s Q X
    split
    · rename_i hnone
      refine ensures_rowsOf (fun rows hrows => ?_) fun _ _ _ => hX _ s hs
      refine hQ known [] [] rows s ⟨hknown, ?_, .nil hs, ?_⟩
      · rw [List.isEmpty_iff.1 hnone]
        exact .nil
      · rw [List.append_nil]
        exact hrows
    · refine ensures_bind (ensures_fetch hs hE (fun found fetched s' hfound hlinked => ?_) hX)
      refine ensures_rowsOf (fun rows hrows => ?_) fun _ _ _ => hX _ s' hlinked.sound.1
      exact hQ known found fetched rows s' ⟨hknown, hfound, hlinked, hrows⟩

end

end ChainIndex.Resolve
