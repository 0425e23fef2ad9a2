import ChainIndex.Proofs.Store.Integrity

/-!
# What actions do to the ledger

Whatever an access is, it adds a transaction where there was none, links the one of the hash that it was
given, or leaves it alone (`Access.Effect.transaction`), and a stored block stays but for its confirmation,
which can only rise (`Access.Effect.block`).  A `Calm` session has no unit of work open, or one that has
not touched the ledger; accesses between units keep it so.
-/

namespace ChainIndex

/-! ## Blocks that become confirmed -/

/-- A row of a block becomes another by nothing but being confirmed. -/
structure Ledger.Block.RisesTo (b b' : Block) : Prop where
  same : b' = { b with confirmed := b'.confirmed }
  confirmed : b.confirmed = true → b'.confirmed = true

namespace Ledger.Block.RisesTo

theorem refl (b : Block) : b.RisesTo b := ⟨rfl, id⟩

theorem trans {b₁ b₂ b₃ : Block} (h : b₁.RisesTo b₂) (h' : b₂.RisesTo b₃) : b₁.RisesTo b₃ := by
  refine ⟨?_, fun hb => h'.confirmed (h.confirmed hb)⟩
  have hsame := h'.same
  rw [h.same] at hsame
  exact hsame

theorem raise (b : Block) (confirmed : Bool) :
    b.RisesTo { b with confirmed := b.confirmed || confirmed } :=
  ⟨rfl, fun hb => by rw [hb, Bool.true_or]⟩

/-- A confirmed row does not change any more. -/
theorem eq_of_confirmed {b b' : Block} (h : b.RisesTo b') (hb : b.confirmed = true) : b' = b := by
  have hsame := h.same
  rw [h.confirmed hb, ← hb] at hsame
  exact hsame

end Ledger.Block.RisesTo

/-! ## Accesses -/

namespace Memory

/-- Transactions stand under their own hashes. -/
def Keyed (m : Memory) : Prop := ∀ {hash t}, m.transactions.get? hash = some t → t.txHash = hash

/-- The transaction of a hash is stored and linked to a block. -/
def Linked (m : Memory) (hash : String) : Prop :=
  ∃ t, m.transactions.get? hash = some t ∧ t.isMined = true

theorem createBlock_eq (m : Memory) (c : Chain.Block) (confirmed : Bool) {b : Ledger.Block}
    (hb : m.blocks.get? c.hash = some b) :
    (m.createBlock c confirmed).1 = { b with confirmed := b.confirmed || confirmed } := by
  rw [createBlock, hb]
  rfl

/-- Storing a block leaves the rows of blocks but for their confirmation. -/
theorem risesTo_createBlock (m : Memory) (c : Chain.Block) (confirmed : Bool) {hash : String}
    {b : Ledger.Block} (hb : m.blocks.get? hash = some b) :
    ∃ b', (m.createBlock c confirmed).2.blocks.get? hash = some b' ∧ b.RisesTo b' := by
  rw [get?_createBlock]
  by_cases heq : hash = c.hash
  · subst heq
    rw [if_pos rfl, m.createBlock_eq c confirmed hb]
    exact ⟨_, rfl, .raise b confirmed⟩
  · rw [if_neg heq]
    exact ⟨b, hb, .refl b⟩

end Memory

namespace Access.Effect

variable {m m' : Memory} {a : Access} {r : Except Fault a.Reply}

/-- The transaction of a hash stays, or is stored where there was none, or is linked. -/
theorem transaction (he : a.Effect m r m') (hash : String) :
    m'.transactions.get? hash = m.transactions.get? hash ∨
      (m.transactions.get? hash = none ∧
        ∃ t, m'.transactions.get? hash = some t ∧ t.txHash = hash) ∨
      ∃ b receipt t, a = .linkTransaction hash b receipt ∧ m.transactions.get? hash = some t ∧
        m'.transactions.get? hash = some (t.link b receipt) := by
  have hadd {t : Ledger.Transaction} {reply : Except Fault Ledger.Transaction}
      (he : m.addTransaction t = (reply, m')) :
      m'.transactions.get? hash = m.transactions.get? hash ∨ m.transactions.get? hash = none ∧
        ∃ t, m'.transactions.get? hash = some t ∧ t.txHash = hash := by
    rcases Memory.addTransaction_cases he with ⟨t₀, -, -, rfl⟩ | ⟨hnone, -, rfl⟩
    · exact .inl rfl
    · by_cases heq : hash = t.txHash
      · subst heq
        exact .inr ⟨hnone, t, by rw [Table.get?_insert, if_pos rfl], rfl⟩
      · exact .inl (by rw [Table.get?_insert, if_neg heq])
  cases a with
  | createTransaction t receipt b =>
    rcases he with he | ⟨-, -, rfl⟩
    · exact (hadd he).imp_right .inl
    · exact .inl rfl
  | createPending t => exact (hadd he).imp_right .inl
  | linkTransaction key b receipt =>
    rcases he with he | ⟨-, -, rfl⟩
    · rcases Memory.linkTransaction_cases he with ⟨-, -, rfl⟩ | ⟨t, ht, -, rfl⟩
      · exact .inl rfl
      · by_cases heq : hash = key
        · subst heq
          exact .inr (.inr ⟨b, receipt, t, rfl, ht, by rw [Table.get?_insert, if_pos rfl]⟩)
        · exact .inl (by rw [Table.get?_insert, if_neg heq])
    · exact .inl rfl
  | confirmBlocks upTo =>
    obtain ⟨n, final, -, rfl⟩ := he
    exact .inl rfl
  | getMined hashes =>
    obtain ⟨rows, -, -, rfl⟩ := he
    exact .inl rfl
  | _ =>
    cases he
    exact .inl rfl

theorem keyed (he : a.Effect m r m') (h : m.Keyed) : m'.Keyed := by
  intro hash t ht
  rcases he.transaction hash with heq | ⟨-, t', ht', hhash⟩ | ⟨b, receipt, t₀, -, ht₀, ht'⟩
  · exact h (heq ▸ ht)
  · rw [ht] at ht'
    rw [Option.some.inj ht']
    exact hhash
  · rw [ht] at ht'
    have hhash : t₀.txHash = hash := h ht₀
    rw [Option.some.inj ht']
    exact hhash

theorem block (he : a.Effect m r m') {hash : String} {b : Ledger.Block}
    (hb : m.blocks.get? hash = some b) : ∃ b', m'.blocks.get? hash = some b' ∧ b.RisesTo b' := by
  have hsame (heq : m'.blocks = m.blocks) : ∃ b', m'.blocks.get? hash = some b' ∧ b.RisesTo b' :=
    ⟨b, heq ▸ hb, .refl b⟩
  have hadd {t : Ledger.Transaction} {reply : Except Fault Ledger.Transaction}
      (he : m.addTransaction t = (reply, m')) : m'.blocks = m.blocks := by
    rcases Memory.addTransaction_cases he with ⟨-, -, -, rfl⟩ | ⟨-, -, rfl⟩ <;> rfl
  cases a with
  | createBlock c confirmed =>
    cases he
    exact m.risesTo_createBlock c confirmed hb
  | confirmBlocks upTo =>
    obtain ⟨n, final, -, rfl⟩ := he
    rw [Table.get?_map, hb]
    refine ⟨_, rfl, ?_⟩
    dsimp only
    split
    · exact ⟨rfl, fun _ => rfl⟩
    · exact .refl b
  | createTransaction t receipt b' =>
    rcases he with he | ⟨-, -, rfl⟩
    · exact hsame (hadd he)
    · exact hsame rfl
  | createPending t => exact hsame (hadd he)
  | linkTransaction key b' receipt =>
    rcases he with he | ⟨-, -, rfl⟩
    · rcases Memory.linkTransaction_cases he with ⟨-, -, rfl⟩ | ⟨t, -, -, rfl⟩ <;> exact hsame rfl
    · exact hsame rfl
  | getMined hashes =>
    obtain ⟨rows, -, -, rfl⟩ := he
    exact hsame rfl
  | _ =>
    cases he
    exact hsame rfl

end Access.Effect

/-! ## Units of work -/

namespace Session

/-- An open unit of work has not touched the ledger. -/
def Calm (s : Session Memory) : Prop :=
  ∀ m, s.staged = some m → m.blocks = s.live.blocks ∧ m.transactions = s.live.transactions

variable {s s' : Session Memory} {a : Action} {r : Except Fault a.Reply}

theorem calm_of_none (h : s.staged = none) : s.Calm := by
  intro m hm
  rw [h] at hm
  cases hm

/-- A calm session stays calm if accesses wait until no unit is open, and then nothing but an access
touches the ledger. -/
theorem Calm.step (h : s.Calm) (ha : ∀ b, a = .access b → s.staged = none) (he : Effect a s r s') :
    s'.Calm ∧ ((∃ b, a = .access b) ∨
      s'.live.blocks = s.live.blocks ∧ s'.live.transactions = s.live.transactions) := by
  cases a with
  | access b =>
    obtain ⟨m, -, rfl⟩ := he
    exact ⟨calm_of_none (ha b rfl), .inl ⟨b, rfl⟩⟩
  | beginUnit =>
    obtain ⟨-, rfl⟩ := he
    exact ⟨fun m hm => Option.some.inj hm ▸ ⟨rfl, rfl⟩, .inr ⟨rfl, rfl⟩⟩
  | invalidate step scope =>
    rcases he with ⟨-, -, rfl⟩ | ⟨m, n, d, hm, -, -, rfl⟩
    · exact ⟨h, .inr ⟨rfl, rfl⟩⟩
    · exact ⟨fun m' hm' => Option.some.inj hm' ▸ h m hm, .inr ⟨rfl, rfl⟩⟩
  | commit =>
    rcases he with ⟨-, -, rfl⟩ | ⟨m, hm, -, rfl⟩
    · exact ⟨h, .inr ⟨rfl, rfl⟩⟩
    · exact ⟨calm_of_none rfl, .inr (h m hm)⟩
  | rollback | abandon =>
    obtain ⟨-, rfl⟩ := he
    exact ⟨calm_of_none rfl, .inr ⟨rfl, rfl⟩⟩

end Session

end ChainIndex
