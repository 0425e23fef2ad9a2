import ChainIndex.Proofs.Store.Keys
import ChainIndex.Proofs.Store.Ledger

/-!
# Tables only grow

No access deletes a block or a transaction, and none changes what a transaction was stored with: a row of a
transaction is only ever linked (`Ledger.Transaction.LinksTo`), as a row of a block is only ever confirmed.
Tables whose rows stand under their own hashes (`Memory.Tidy`) therefore grow (`Memory.Grows`) whoever
accesses them, permitted or not.
-/

namespace ChainIndex

/-! ## Transactions that become linked -/

/-- A row of a transaction becomes another by nothing but being linked. -/
structure Ledger.Transaction.LinksTo (t t' : Transaction) : Prop where
  same : t' = { t with
    blockHash := t'.blockHash
    blockNumber := t'.blockNumber
    gasPrice := t'.gasPrice
    gasUsed := t'.gasUsed
    status := t'.status
    logs := t'.logs }
  mined : t.isMined = true → t'.isMined = true

namespace Ledger.Transaction.LinksTo

theorem refl (t : Transaction) : t.LinksTo t := ⟨rfl, id⟩

theorem trans {t₁ t₂ t₃ : Transaction} (h : t₁.LinksTo t₂) (h' : t₂.LinksTo t₃) : t₁.LinksTo t₃ := by
  refine ⟨?_, fun hmined => h'.mined (h.mined hmined)⟩
  have hsame := h'.same
  rw [h.same] at hsame
  exact hsame

theorem link (t : Transaction) (b : Block) (r : Chain.Receipt) : t.LinksTo (t.link b r) :=
  ⟨rfl, fun _ => rfl⟩

end Ledger.Transaction.LinksTo

/-! ## Tables -/

namespace Memory

/-- Blocks and transactions stand under their own hashes. -/
structure Tidy (m : Memory) : Prop where
  blockHash : ∀ {hash b}, m.blocks.get? hash = some b → b.blockHash = hash
  txHash : m.Keyed

theorem Sound.tidy {m : Memory} (h : m.Sound) : m.Tidy := ⟨h.blockHash, h.txHash⟩

/-- Blocks and transactions stay, but for being confirmed and linked. -/
structure Grows (m m' : Memory) : Prop where
  block : ∀ {hash b}, m.blocks.get? hash = some b → ∃ b', m'.blocks.get? hash = some b' ∧ b.RisesTo b'
  transaction : ∀ {hash t}, m.transactions.get? hash = some t →
    ∃ t', m'.transactions.get? hash = some t' ∧ t.LinksTo t'

end Memory

namespace Access.Effect

variable {m m' : Memory} {a : Access} {r : Except Fault a.Reply}

theorem grows (he : a.Effect m r m') : m.Grows m' where
  block := he.block
  transaction {hash t} ht := by
    rcases he.transaction hash with hsame | ⟨hnone, -⟩ | ⟨b, receipt, t₀, -, ht₀, ht'⟩
    · exact ⟨t, hsame.trans ht, .refl t⟩
    · rw [hnone] at ht
      cases ht
    · obtain rfl := Option.some.inj (ht.symm.trans ht₀)
      exact ⟨_, ht', .link t b receipt⟩

theorem newBlock (he : a.Effect m r m') {hash : String} {b : Ledger.Block}
    (hnone : m.blocks.get? hash = none) (hb : m'.blocks.get? hash = some b) :
    ∃ c confirmed, a = .createBlock c confirmed ∧ c.hash = hash ∧ b = .ofChain c confirmed := by
  have hnew : m'.has (.block hash) = true := by rw [Memory.has_block, hb, Option.isSome_some]
  rcases he.has hnew with hold | hadds
  · rw [Memory.has_block, hnone] at hold
    cases hold
  · cases a with
    | createBlock c confirmed =>
      obtain rfl : hash = c.hash := Key.block.inj hadds
      cases he
      have hrow := (m.get?_createBlock c confirmed c.hash).trans (if_pos rfl)
      refine ⟨c, confirmed, rfl, rfl, (Option.some.inj (hrow.symm.trans hb)).symm.trans ?_⟩
      simp [Memory.createBlock, hnone, Ledger.Block.ofChain]
    | createTransaction t receipt b => cases hadds
    | createPending t => cases hadds
    | insertInternal rows markers =>
      obtain ⟨row, -, heq⟩ := hadds
      cases heq
    | _ => exact hadds.elim

theorem blockHash (he : a.Effect m r m') {hash : String} {b : Ledger.Block}
    (hnone : m.blocks.get? hash = none) (hb : m'.blocks.get? hash = some b) : b.blockHash = hash := by
  obtain ⟨c, confirmed, -, rfl, rfl⟩ := he.newBlock hnone hb
  rfl

theorem tidy (he : a.Effect m r m') (h : m.Tidy) : m'.Tidy where
  blockHash {hash b} hb := by
    cases hold : m.blocks.get? hash with
    | none => exact he.blockHash hold hb
    | some b₀ =>
      obtain ⟨b', hb', hrise⟩ := he.block hold
      obtain rfl := Option.some.inj (hb.symm.trans hb')
      have hhash := h.blockHash hold
      rw [hrise.same]
      exact hhash
  txHash := he.keyed h.txHash

/-- A transaction stays as it is if no row is to be stored under its hash and none is to be linked there. -/
theorem get?_transaction (he : a.Effect m r m') {hash : String} (hadds : ¬ a.Adds (.transaction hash))
    (hlink : ∀ b receipt, a ≠ .linkTransaction hash b receipt) :
    m'.transactions.get? hash = m.transactions.get? hash := by
  rcases he.transaction hash with hsame | ⟨hnone, t, ht, -⟩ | ⟨b, receipt, t, rfl, -, -⟩
  · exact hsame
  · have hnew : m'.has (.transaction hash) = true := by rw [Memory.has_transaction, ht, Option.isSome_some]
    rcases he.has hnew with hold | hnew
    · rw [Memory.has_transaction, hnone] at hold
      cases hold
    · exact absurd hnew hadds
  · exact absurd rfl (hlink b receipt)

end Access.Effect

/-! ## Sessions -/

/-- Blocks and transactions stand under their own hashes, also in the copy that a unit of work changes. -/
structure Session.Tidy (s : Session Memory) : Prop where
  live : s.live.Tidy
  staged : ∀ m, s.staged = some m → m.Tidy

theorem Session.Tidy.step {s s' : Session Memory} {a : Action} {r : Except Fault a.Reply} (h : s.Tidy)
    (he : Session.Effect a s r s') : s'.Tidy := by
  cases a with
  | access b =>
    obtain ⟨m, he, rfl⟩ := he
    exact ⟨he.tidy h.live, h.staged⟩
  | beginUnit =>
    obtain ⟨-, rfl⟩ := he
    exact ⟨h.live, fun m hm => Option.some.inj hm ▸ h.live⟩
  | invalidate step scope =>
    rcases he with ⟨-, -, rfl⟩ | ⟨m, n, d, hm, -, -, rfl⟩
    · exact h
    · have htidy := h.staged m hm
      exact ⟨h.live, fun m' hm' => Option.some.inj hm' ▸ ⟨htidy.blockHash, htidy.txHash⟩⟩
  | commit =>
    rcases he with ⟨-, -, rfl⟩ | ⟨m, hm, -, rfl⟩
    · exact h
    · exact ⟨h.staged m hm, nofun⟩
  | rollback | abandon =>
    obtain ⟨-, rfl⟩ := he
    exact ⟨h.live, nofun⟩

end ChainIndex
