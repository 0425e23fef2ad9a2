import ChainIndex.Proofs.Resolve.Retry
import ChainIndex.Proofs.Store.Integrity

/-!
# How a hash is resolved

One law for each way to resolve something: what an execution from a sound session ends with, and in which
state it leaves the store.  `GainsBlocks` is what happens to the store when blocks are resolved, `put` is
what happens when a transaction is written, and `Resolved` lists the ways in which a transaction is
resolved.
-/

namespace ChainIndex

open Text (canonical)

namespace Memory

/-- The row that a transaction is stored as: the row of its hash, or else a new one, linked. -/
def linkedRow (m : Memory) (t : Chain.Transaction) (r : Chain.Receipt) (b : Ledger.Block) :
    Ledger.Transaction :=
  ((m.transactions.get? t.hash).getD (.pending t)).link b r

theorem Sound.txHash_linkedRow {m : Memory} (h : m.Sound) (t : Chain.Transaction) (r : Chain.Receipt)
    (b : Ledger.Block) : (m.linkedRow t r b).txHash = t.hash := by
  unfold linkedRow
  cases ht : m.transactions.get? t.hash with
  | none => rfl
  | some t₀ =>
    have hhash := h.txHash ht
    exact hhash

end Memory

namespace Session

/-- The session after a transaction was written. -/
def put (s : Session Memory) (t : Ledger.Transaction) : Session Memory :=
  { s with live := { s.live with transactions := s.live.transactions.insert t.txHash t } }

variable {N : Answers} {s s₁ s₂ : Session Memory}

@[simp] theorem get?_put (s : Session Memory) (t : Ledger.Transaction) (hash : String) :
    (s.put t).live.transactions.get? hash =
      if hash = t.txHash then some t else s.live.transactions.get? hash :=
  Table.get?_insert _ _ _ _

/-- Writing a transaction that is linked to a held block keeps a session sound. -/
theorem Sound.put_link (h : s.Sound) {b : Ledger.Block} (hb : s.live.Holds b) (t : Ledger.Transaction)
    (r : Chain.Receipt) : (s.put (t.link b r)).Sound ∧ s.live.Extends (s.put (t.link b r)).live := by
  obtain ⟨hsound, hgrows⟩ :=
    h.live.setTransaction (t := t.link b r) (Memory.Sound.link_refers hb t r) fun _ _ => rfl
  exact ⟨⟨hsound, h.staged⟩, hgrows⟩

/-! ## Blocks -/

/-- A number that the block of a hash may get: the stored one, or else one that was told. -/
def NumberFrom (N : Answers) (s : Session Memory) (hash : String) (n : UInt64) : Prop :=
  (∃ b, s.live.blocks.get? hash = some b ∧ b.number = n) ∨
    s.live.blocks.get? hash = none ∧ ∃ asked c, N.TellsBlock asked c ∧ c.hash = hash ∧ c.number = n

/-- From one session to the other, nothing happens but that blocks are stored as they were told. -/
structure GainsBlocks (N : Answers) (s s' : Session Memory) : Prop where
  sound : s'.Sound
  transactions : s'.live.transactions = s.live.transactions
  grows : s.live.Extends s'.live
  number : ∀ {hash b}, s'.live.blocks.get? hash = some b → NumberFrom N s hash b.number

theorem GainsBlocks.refl (h : s.Sound) : GainsBlocks N s s :=
  ⟨h, rfl, .refl _, fun hb => .inl ⟨_, hb, rfl⟩⟩

/-- A number that a block may get later is one that it may get now. -/
theorem NumberFrom.of_gainsBlocks {hash : String} {n : UInt64} (hn : NumberFrom N s₁ hash n)
    (h : GainsBlocks N s s₁) : NumberFrom N s hash n := by
  rcases hn with ⟨b, hb, rfl⟩ | ⟨hnone, htold⟩
  · exact h.number hb
  · refine .inr ⟨?_, htold⟩
    by_contra hsome
    obtain ⟨b, hb⟩ := Option.ne_none_iff_exists'.1 hsome
    obtain ⟨b', hb', -⟩ := h.grows.blocks hb
    exact absurd (hnone.symm.trans hb') nofun

theorem Sound.gainsBlock (h : s.Sound) {asked : String} {c : Chain.Block} (hc : N.TellsBlock asked c)
    (confirmed : Bool) : GainsBlocks N s { s with live := (s.live.createBlock c confirmed).2 } := by
  obtain ⟨⟨hsound, hgrows⟩, -, -⟩ := h.live.createBlock c confirmed
  refine ⟨⟨hsound, h.staged⟩, rfl, hgrows, fun {hash b} hb => ?_⟩
  replace hb := (s.live.get?_createBlock c confirmed hash).symm.trans hb
  by_cases heq : hash = c.hash
  · subst heq
    obtain rfl := Option.some.inj ((if_pos rfl).symm.trans hb)
    rw [Memory.number_createBlock]
    cases hold : s.live.blocks.get? c.hash with
    | none => exact .inr ⟨hold, asked, c, hc, rfl, rfl⟩
    | some b₀ => exact .inl ⟨b₀, hold, rfl⟩
  · exact .inl ⟨b, (if_neg heq).symm.trans hb, rfl⟩

end Session

/-- What writing the linked transaction of a hash may be answered: its row, linked to the block with the
receipt, or another fault than that the block is missing. -/
def LinkRule.permittedFor (hash : String) : LinkRule
  | r, b, .ok row => row.txHash = hash ∧ ∃ t : Ledger.Transaction, row = t.link b r
  | _, _, .error e => e ≠ Relational.foreignKeyFault

/-- What writing any linked transaction may be answered. -/
def LinkRule.permitted : LinkRule := fun r b reply => ∃ hash, permittedFor hash r b reply

namespace Resolve

open Attempt

/-- A block is resolved: it is held, and it is the one that was stored under the hash, or goes by the
hash of one that was told for it. -/
structure BlockResolved (N : Answers) (s : Session Memory) (hash : String) (b : Ledger.Block)
    (s' : Session Memory) : Prop extends Session.GainsBlocks N s s' where
  named : s.live.blocks.get? hash = some b ∨ N.Names hash b
  holds : s'.live.Holds b

namespace BlockResolved

variable {N : Answers} {s s' : Session Memory} {hash : String} {b : Ledger.Block}

theorem numberFrom (h : BlockResolved N s hash b s') : Session.NumberFrom N s b.blockHash b.number := by
  obtain ⟨c, hc, hn⟩ := h.holds
  exact hn ▸ h.number hc

/-- If blocks are told under their names, the resolved one has the hash. -/
theorem blockHash_eq (h : BlockResolved N s hash b s') (hs : s.Sound) (hN : N.NamesBlocks) :
    b.blockHash = hash := by
  rcases h.named with hstored | hnamed
  · exact hs.live.blockHash hstored
  · exact hN.eq_of_names hnamed

end BlockResolved

section

variable {N : Answers} {E : LinkRule} {s : Session Memory} {X : Fault → Session Memory → Prop}
  {policy : ConfirmationPolicy} {hash : String}

/-- An access ensures whatever holds of each effect that it can have. -/
theorem ensures_access {a : Access} {Q : a.Reply → Session Memory → Prop}
    (h : ∀ r m, a.Effect s.live r m →
      (Event.did (.access a) r).Obeys E ∧ Outcome Q X r { s with live := m }) :
    Ensures N Session.Effect E a.perform s Q X := by
  refine ensures_perform (a := .access a) fun r s' hR => ?_
  obtain ⟨m, he, rfl⟩ := hR
  exact h r m he

theorem ensures_storeBlock {c : Chain.Block} {head : UInt64} {Q : Ledger.Block → Session Memory → Prop}
    (hs : s.Sound) (hc : N.TellsBlock hash c)
    (hQ : ∀ b s', N.Names hash b → BlockResolved N s hash b s' → Q b s') :
    Ensures N Session.Effect E (storeBlock policy head c) s Q X := by
  refine ensures_access fun r m he => ⟨trivial, ?_⟩
  cases he
  obtain ⟨-, hhash, hholds⟩ := hs.live.createBlock c (policy.isConfirmed c.number head)
  have hnamed : N.Names hash (s.live.createBlock c (policy.isConfirmed c.number head)).1 :=
    ⟨c, hc, hhash⟩
  exact hQ _ _ hnamed ⟨hs.gainsBlock hc _, .inr hnamed, hholds⟩

theorem ensures_block {Q : Ledger.Block → Session Memory → Prop} (hs : s.Sound)
    (hQ : ∀ b s', BlockResolved N s (canonical hash) b s' → Q b s')
    (hX : ∀ e s', s'.Sound → X e s') : Ensures N Session.Effect E (block policy hash) s Q X := by
  refine ensures_bind (ensures_access fun r m he => ⟨trivial, ?_⟩)
  cases he
  show Ensures N Session.Effect E _ s Q X
  cases hb : s.live.blocks.get? (canonical hash) with
  | some b =>
    have hhash := hs.live.blockHash hb
    exact ensures_pure (hQ b s ⟨.refl hs, .inl hb, b, hhash ▸ hb, rfl⟩)
  | none =>
    refine ensures_bind (ensures_send (fun head _ => ?_) fun e _ => hX e s hs)
    refine ensures_bind (ensures_send (fun first hN => ?_) fun e _ => hX e s hs)
    refine ensures_bind (ensures_settleBlock (fun c hc => .inl (hc ▸ hN)) (fun c hc => ?_)
      fun e _ => hX e s hs)
    exact ensures_storeBlock hs hc fun b s' _ hb => hQ b s' hb

/-! ## Transactions -/

/-- The row of a hash is linked in place. -/
theorem ensures_linkTransaction {t : Ledger.Transaction} {r : Chain.Receipt} {b : Ledger.Block}
    {Q : Ledger.Transaction → Session Memory → Prop} (hs : s.Sound) (hb : s.live.Holds b)
    (ht : s.live.transactions.get? hash = some t)
    (hE : ∀ reply, LinkRule.permittedFor hash r b reply → E r b reply)
    (hQ : Q (t.link b r) (s.put (t.link b r))) :
    Ensures N Session.Effect E (Access.linkTransaction hash b r).perform s Q X := by
  refine ensures_access fun reply m he => ?_
  rcases he with he | ⟨hnone, -, -⟩
  · rcases Memory.linkTransaction_cases he with ⟨hnone, -, -⟩ | ⟨t₁, ht₁, rfl, rfl⟩
    · exact absurd (ht.symm.trans hnone) nofun
    · obtain rfl := Option.some.inj (ht.symm.trans ht₁)
      obtain rfl : t.txHash = hash := hs.live.txHash ht
      exact ⟨hE _ ⟨rfl, t, rfl⟩, hQ⟩
  · exact absurd hnone (Access.ne_none_of_holds hb)

/-- A transaction is stored as its linked row, whether or not there is a row of its hash already. -/
theorem ensures_createOrLink {t : Chain.Transaction} {r : Chain.Receipt} {b : Ledger.Block}
    {Q : Ledger.Transaction → Session Memory → Prop} (hs : s.Sound) (hb : s.live.Holds b)
    (hE : ∀ reply, LinkRule.permittedFor t.hash r b reply → E r b reply)
    (hQ : Q (s.live.linkedRow t r b) (s.put (s.live.linkedRow t r b))) :
    Ensures N Session.Effect E (createOrLink t r b) s Q X := by
  refine ensures_tryCatch (ensures_access fun reply m he => ?_)
  rcases he with he | ⟨hnone, -, -⟩
  · rcases Memory.addTransaction_cases he with ⟨t₀, ht₀, rfl, rfl⟩ | ⟨hnone, rfl, rfl⟩
    · -- The row of that hash is in the way, and is linked in place.
      replace ht₀ : s.live.transactions.get? t.hash = some t₀ := ht₀
      refine ⟨hE _ nofun, ensures_linkTransaction hs hb ht₀ hE ?_⟩
      rw [Memory.linkedRow, ht₀] at hQ
      exact hQ
    · replace hnone : s.live.transactions.get? t.hash = none := hnone
      rw [Memory.linkedRow, hnone] at hQ
      exact ⟨hE _ ⟨rfl, .pending t, rfl⟩, hQ⟩
  · exact absurd hnone (Access.ne_none_of_holds hb)

/-- A mined receipt was told for a hash, and the block that it names is resolved. -/
structure Receipted (N : Answers) (s : Session Memory) (hash : String) (r : Chain.Receipt)
    (b : Ledger.Block) (s' : Session Memory) : Prop where
  told : N.TellsReceipt hash r
  block : ∃ name, r.minedIn? = some name ∧ BlockResolved N s (canonical name) b s'

theorem ensures_receiptAndBlock {Q : Chain.Receipt × Ledger.Block → Session Memory → Prop} (hs : s.Sound)
    (hQ : ∀ r b s', Receipted N s hash r b s' → Q (r, b) s') (hX : ∀ e s', s'.Sound → X e s') :
    Ensures N Session.Effect E (receiptAndBlock policy hash) s Q X := by
  refine ensures_bind (ensures_send (fun first hN => ?_) fun e _ => hX e s hs)
  refine ensures_bind (ensures_settleReceipt (fun r hr => .inl (hr ▸ hN)) (fun r name hr hname => ?_)
    fun e _ => hX e s hs)
  refine ensures_bind (ensures_block hs (fun b s' hb => ?_) hX)
  exact ensures_pure (hQ r b s' ⟨hr, name, hname, hb⟩)

/-- The ways in which the transaction of a hash is resolved. -/
inductive Resolved (N : Answers) (hash : String) (s : Session Memory) :
    Ledger.Transaction → Session Memory → Prop
  | stored {row} (hrow : s.live.transactions.get? hash = some row) (hmined : row.isMined = true) :
    Resolved N hash s row s
  | linked {row r b s₁} (hrow : s.live.transactions.get? hash = some row) (hmined : row.isMined = false)
    (hblock : Receipted N s hash r b s₁) : Resolved N hash s (row.link b r) (s₁.put (row.link b r))
  | created {t r b s₁} (hnone : s.live.transactions.get? hash = none)
    (hblock : Receipted N s hash r b s₁) (ht : N.TellsTransaction hash t)
    (hnamed : t.blockHash.isSome = true) :
    Resolved N hash s (s₁.live.linkedRow t r b) (s₁.put (s₁.live.linkedRow t r b))

theorem Resolved.sound {row : Ledger.Transaction} {s' : Session Memory} (h : Resolved N hash s row s')
    (hs : s.Sound) : s'.Sound := by
  cases h with
  | stored hrow hmined => exact hs
  | linked hrow hmined hblock =>
    obtain ⟨name, -, hb⟩ := hblock.block
    exact (hb.sound.put_link hb.holds _ _).1
  | created hnone hblock ht hnamed =>
    obtain ⟨name, -, hb⟩ := hblock.block
    exact (hb.sound.put_link hb.holds _ _).1

theorem ensures_transaction {Q : Ledger.Transaction → Session Memory → Prop} (hs : s.Sound)
    (hE : ∀ {r b s₁ told reply}, Receipted N s (canonical hash) r b s₁ →
      LinkRule.permittedFor told r b reply → E r b reply)
    (hQ : ∀ row s', Resolved N (canonical hash) s row s' → Q row s') (hX : ∀ e s', s'.Sound → X e s') :
    Ensures N Session.Effect E (transaction policy hash) s Q X := by
  refine ensures_bind (ensures_access fun r m he => ⟨trivial, ?_⟩)
  cases he
  show Ensures N Session.Effect E _ s Q X
  cases hrow : s.live.transactions.get? (canonical hash) with
  | some row =>
    cases hmined : row.isMined with
    | true =>
      simp only [hmined, if_true]
      exact ensures_pure (hQ row s (.stored hrow hmined))
    | false =>
      simp only [hmined]
      refine ensures_bind (ensures_receiptAndBlock hs (fun r b s₁ hblock => ?_) hX)
      obtain ⟨name, -, hb⟩ := hblock.block
      have hrow₁ : s₁.live.transactions.get? (canonical hash) = some row := by
        rw [hb.transactions]
        exact hrow
      exact ensures_linkTransaction hb.sound hb.holds hrow₁ (fun _ => hE hblock)
        (hQ _ _ (.linked hrow hmined hblock))
  | none =>
    refine ensures_bind (ensures_receiptAndBlock hs (fun r b s₁ hblock => ?_) hX)
    obtain ⟨name, -, hb⟩ := hblock.block
    refine ensures_bind (ensures_send (fun first hN => ?_) fun e _ => hX e s₁ hb.sound)
    refine ensures_bind (ensures_settleTransaction (fun t ht => .inl (ht ▸ hN)) (fun t name ht hname => ?_)
      fun e _ => hX e s₁ hb.sound)
    refine ensures_createOrLink hb.sound hb.holds (fun _ => hE hblock)
      (hQ _ _ (.created hrow hblock ht ?_))
    rw [hname]
    rfl

end

end Resolve

end ChainIndex
