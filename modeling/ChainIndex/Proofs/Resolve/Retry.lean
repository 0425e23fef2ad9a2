import ChainIndex.Proofs.Effect.Ensures
import ChainIndex.Proofs.Effect.Order
import ChainIndex.Resolve.Batch

/-!
# What a node tells

`Answers.TellsReceipt`, `TellsTransaction` and `TellsBlock` say what a node may report for a hash, be it
asked for that one or for many, and `Answers.Fails` says with which fault it may fail to answer.  Whatever
is settled on was told, what is not was failed to be answered, and settling leaves the store alone.
-/

namespace ChainIndex

namespace Answers

variable (N : Answers) (hash : String)

/-- The node may report a receipt for a hash. -/
def TellsReceipt (r : Chain.Receipt) : Prop :=
  N (.receipt hash) (.ok (some r)) ∨ ∃ hashes replies, N (.receipts hashes) (.ok replies) ∧
    (hash, some r) ∈ Resolve.entries hashes replies

/-- The node may report a transaction for a hash. -/
def TellsTransaction (t : Chain.Transaction) : Prop :=
  N (.transaction hash) (.ok (some t)) ∨ ∃ hashes replies, N (.transactions hashes) (.ok replies) ∧
    (hash, some t) ∈ Resolve.entries hashes replies

/-- The node may report a block for a hash. -/
def TellsBlock (b : Chain.Block) : Prop :=
  N (.block hash) (.ok (some b)) ∨ ∃ hashes replies, N (.blocks hashes) (.ok replies) ∧
    (hash, some b) ∈ Resolve.entries hashes replies

/-- The node may fail to answer a question, or to settle it, which leads to a fault. -/
def Fails (q : Query) (fault : Fault) : Prop := ∃ r, N q r ∧ (Event.asked q r).fault? = some fault

variable {N hash} {N' : Answers}

theorem fails_of_error {q : Query} {fault : Fault} (h : N q (.error fault)) : N.Fails q fault :=
  ⟨.error fault, h, rfl⟩

theorem TellsReceipt.mono (h : ∀ q r, N q r → N' q r) {r : Chain.Receipt} (hr : N.TellsReceipt hash r) :
    N'.TellsReceipt hash r :=
  hr.imp (h _ _) fun ⟨hashes, replies, hN, hmem⟩ => ⟨hashes, replies, h _ _ hN, hmem⟩

theorem TellsTransaction.mono (h : ∀ q r, N q r → N' q r) {t : Chain.Transaction}
    (ht : N.TellsTransaction hash t) : N'.TellsTransaction hash t :=
  ht.imp (h _ _) fun ⟨hashes, replies, hN, hmem⟩ => ⟨hashes, replies, h _ _ hN, hmem⟩

theorem TellsBlock.mono (h : ∀ q r, N q r → N' q r) {b : Chain.Block} (hb : N.TellsBlock hash b) :
    N'.TellsBlock hash b :=
  hb.imp (h _ _) fun ⟨hashes, replies, hN, hmem⟩ => ⟨hashes, replies, h _ _ hN, hmem⟩

/-- Whatever the node reports as the block of a hash has this hash. -/
def NamesBlocks (N : Answers) : Prop := ∀ ⦃hash b⦄, N.TellsBlock hash b → b.hash = hash

/-- A block has the hash of one that was told for a hash. -/
def Names (N : Answers) (hash : String) (b : Ledger.Block) : Prop :=
  ∃ c, N.TellsBlock hash c ∧ b.blockHash = c.hash

theorem NamesBlocks.eq_of_names (h : N.NamesBlocks) {b : Ledger.Block} (hb : N.Names hash b) :
    b.blockHash = hash := by
  obtain ⟨c, hc, hb⟩ := hb
  rw [hb, h hc]

end Answers

theorem Chain.Receipt.blockHash_of_minedIn? {r : Chain.Receipt} {name : String}
    (h : r.minedIn? = some name) : r.blockHash = some name := by
  unfold minedIn? at h
  split at h
  · exact h
  · cases h

namespace Resolve

open Attempt

theorem minedReceipt?_eq_none {r : Chain.Receipt} : minedReceipt? r = none ↔ r.isMined = false := by
  rw [minedReceipt?, Option.map_eq_none_iff, ← r.isSome_minedIn?, Option.isSome_eq_false_iff,
    Option.isNone_iff_eq_none]

theorem minedTransaction?_eq_none {t : Chain.Transaction} :
    minedTransaction? t = none ↔ t.blockHash.isSome = false := by
  rw [minedTransaction?, Option.map_eq_none_iff, Option.isSome_eq_false_iff, Option.isNone_iff_eq_none]

section

variable {σ : Type} {N : Answers} {R : Conduct σ} {E : LinkRule} {s : σ} {X : Fault → σ → Prop}
  {hash : String}

/-- A receipt that is settled on was told and is mined. -/
theorem ensures_settleReceipt {first : Option Chain.Receipt} {Q : Chain.Receipt × String → σ → Prop}
    (hfirst : ∀ r, first = some r → N.TellsReceipt hash r)
    (hQ : ∀ r b, N.TellsReceipt hash r → r.minedIn? = some b → Q (r, b) s)
    (hX : ∀ e, N.Fails (.receipt hash) e → X e s) :
    Ensures N R E (settleReceipt hash first) s Q X := by
  have hmined {r : Chain.Receipt} {found} (hr : N.TellsReceipt hash r)
      (h : minedReceipt? r = some found) : Q found s := by
    obtain ⟨b, hb, rfl⟩ := Option.map_eq_some_iff.1 h
    exact hQ r b hr hb
  unfold settleReceipt
  split
  · rename_i found hfound
    obtain ⟨r, hr, hfound⟩ := Option.bind_eq_some_iff.1 hfound
    exact ensures_pure (hmined (hfirst r hr) hfound)
  · refine ensures_bind (ensures_send (fun reply hN => ?_) fun e hN => hX e (Answers.fails_of_error hN))
    cases reply with
    | none => exact ensures_throw (hX _ ⟨_, hN, rfl⟩)
    | some r =>
      cases hr : minedReceipt? r with
      | none =>
        have hmined : r.isMined = false := minedReceipt?_eq_none.1 hr
        have hfails : N.Fails (.receipt hash) (.transactionWithoutBlock hash) :=
          ⟨_, hN, if_neg (Bool.eq_false_iff.1 hmined)⟩
        simpa only [hr] using ensures_throw (hX _ hfails)
      | some found => simpa only [hr] using ensures_pure (hmined (.inl hN) hr)

theorem ensures_settleTransaction {first : Option Chain.Transaction}
    {Q : Chain.Transaction × String → σ → Prop}
    (hfirst : ∀ t, first = some t → N.TellsTransaction hash t)
    (hQ : ∀ t b, N.TellsTransaction hash t → t.blockHash = some b → Q (t, b) s)
    (hX : ∀ e, N.Fails (.transaction hash) e → X e s) :
    Ensures N R E (settleTransaction hash first) s Q X := by
  have hmined {t : Chain.Transaction} {found} (ht : N.TellsTransaction hash t)
      (h : minedTransaction? t = some found) : Q found s := by
    obtain ⟨b, hb, rfl⟩ := Option.map_eq_some_iff.1 h
    exact hQ t b ht hb
  unfold settleTransaction
  split
  · rename_i found hfound
    obtain ⟨t, ht, hfound⟩ := Option.bind_eq_some_iff.1 hfound
    exact ensures_pure (hmined (hfirst t ht) hfound)
  · refine ensures_bind (ensures_send (fun reply hN => ?_) fun e hN => hX e (Answers.fails_of_error hN))
    cases reply with
    | none => exact ensures_throw (hX _ ⟨_, hN, rfl⟩)
    | some t =>
      cases ht : minedTransaction? t with
      | none =>
        have hpending : t.blockHash.isSome = false := minedTransaction?_eq_none.1 ht
        have hfails : N.Fails (.transaction hash) (.transactionWithoutBlock hash) :=
          ⟨_, hN, if_neg (Bool.eq_false_iff.1 hpending)⟩
        simpa only [ht] using ensures_throw (hX _ hfails)
      | some found => simpa only [ht] using ensures_pure (hmined (.inl hN) ht)

theorem ensures_settleBlock {first : Option Chain.Block} {Q : Chain.Block → σ → Prop}
    (hfirst : ∀ b, first = some b → N.TellsBlock hash b) (hQ : ∀ b, N.TellsBlock hash b → Q b s)
    (hX : ∀ e, N.Fails (.block hash) e → X e s) : Ensures N R E (settleBlock hash first) s Q X := by
  unfold settleBlock
  split
  · exact ensures_pure (hQ _ (hfirst _ rfl))
  · refine ensures_bind (ensures_send (fun reply hN => ?_) fun e hN => hX e (Answers.fails_of_error hN))
    cases reply with
    | none => exact ensures_throw (hX _ ⟨_, hN, rfl⟩)
    | some b => exact ensures_pure (hQ b (.inl hN))

end

end Resolve

end ChainIndex
