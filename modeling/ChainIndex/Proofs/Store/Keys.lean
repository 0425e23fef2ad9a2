import ChainIndex.Proofs.Store.Integrity
import ChainIndex.Proofs.Store.Simulation

/-!
# The keys of a store

A `Key` is a key of the blocks, the transactions or the internal transactions.  A store gains a key only
by an access that adds a row under it (`Access.Effect.has`, `Session.Effect.has`).
-/

namespace ChainIndex

/-- A key of one of the tables that hold what is known of the chain. -/
inductive Key where
  | block (hash : String)
  | transaction (hash : String)
  | internalTx (key : Derived.FrameKey)
  deriving DecidableEq

/-- The hash in a key. -/
def Key.hash : Key → String
  | block hash => hash
  | transaction hash => hash
  | internalTx key => key.txHash

/-- Whether there is a row under a key. -/
def Memory.has (m : Memory) : Key → Bool
  | .block hash => m.blocks.contains hash
  | .transaction hash => m.transactions.contains hash
  | .internalTx key => m.derived.internalTxs.contains key

def Relational.has (d : Relational) : Key → Bool
  | .block hash => d.blocks.contains hash
  | .transaction hash => d.transactions.contains hash
  | .internalTx key => d.derived.internalTxs.contains key

def Storage.has : Storage → Key → Bool
  | .memory s => s.live.has
  | .database _ s => s.live.has

/-- An access may add a row under a key. -/
def Access.Adds : Access → Key → Prop
  | .createBlock b _, key => key = .block b.hash
  | .createTransaction t _ _, key => key = .transaction t.hash
  | .createPending t, key => key = .transaction t.hash
  | .insertInternal rows _, key => ∃ row ∈ rows, key = .internalTx row.key
  | _, _ => False

variable {m m' : Memory} {key : Key}

/-! ## Accesses -/

theorem Memory.has_congr (hblocks : m'.blocks = m.blocks) (htransactions : m'.transactions = m.transactions)
    (hinternal : m'.derived.internalTxs = m.derived.internalTxs) : m'.has key = m.has key := by
  unfold has
  rw [hblocks, htransactions, hinternal]

theorem Memory.has_block (m : Memory) (hash : String) :
    m.has (.block hash) = (m.blocks.get? hash).isSome := rfl

theorem Memory.has_transaction (m : Memory) (hash : String) :
    m.has (.transaction hash) = (m.transactions.get? hash).isSome := rfl

theorem Memory.has_internalTx (m : Memory) (key : Derived.FrameKey) :
    m.has (.internalTx key) = (m.derived.internalTxs.get? key).isSome := rfl

theorem Memory.has_createBlock {b : Chain.Block} {confirmed : Bool}
    (h : (m.createBlock b confirmed).2.has key = true) : m.has key = true ∨ key = .block b.hash := by
  cases key with
  | block hash =>
    rw [has_block, get?_createBlock] at h
    by_cases heq : hash = b.hash
    · exact .inr (congrArg Key.block heq)
    · rw [if_neg heq] at h
      exact .inl h
  | transaction hash => exact .inl h
  | internalTx key => exact .inl h

theorem Memory.has_insert {hash : String} {row : Ledger.Transaction}
    (h : Memory.has { m with transactions := m.transactions.insert hash row } key = true) :
    m.has key = true ∨ key = .transaction hash := by
  cases key with
  | transaction hash' =>
    rw [has_transaction, Table.get?_insert] at h
    by_cases heq : hash' = hash
    · exact .inr (congrArg Key.transaction heq)
    · rw [if_neg heq] at h
      exact .inl h
  | block hash' => exact .inl h
  | internalTx key => exact .inl h

theorem Memory.has_addTransaction {t : Ledger.Transaction} {reply : Except Fault Ledger.Transaction}
    (he : m.addTransaction t = (reply, m')) (h : m'.has key = true) :
    m.has key = true ∨ key = .transaction t.txHash := by
  rcases addTransaction_cases he with ⟨t₀, -, -, rfl⟩ | ⟨-, -, rfl⟩
  · exact .inl h
  · exact has_insert h

theorem Memory.has_linkTransaction {hash : String} {b : Ledger.Block} {r : Chain.Receipt}
    {reply : Except Fault Ledger.Transaction} (he : m.linkTransaction hash b r = (reply, m'))
    (h : m'.has key = true) : m.has key = true := by
  rcases linkTransaction_cases he with ⟨-, -, rfl⟩ | ⟨t, ht, -, rfl⟩
  · exact h
  · rcases has_insert h with h | rfl
    · exact h
    · rw [has_transaction, ht, Option.isSome_some]

theorem Memory.has_insertInternal {rows : List Derived.InternalTx} {markers : List Derived.Marker}
    (h : Memory.has { m with derived := (m.derived.insertInternal rows markers).2 } key = true) :
    m.has key = true ∨ ∃ row ∈ rows, key = .internalTx row.key := by
  cases key with
  | internalTx key =>
    have h : ((Derived.Tables.addInternalTxs m.derived.internalTxs rows).2.get? key).isSome = true := h
    rw [Derived.Tables.get?_addInternalTxs, Option.isSome_or, Bool.or_eq_true] at h
    rw [has_internalTx]
    refine h.imp_right fun hfind => ?_
    rw [List.find?_isSome] at hfind
    obtain ⟨row, hmem, heq⟩ := hfind
    exact ⟨row, hmem, congrArg Key.internalTx (of_decide_eq_true heq).symm⟩
  | block hash => exact .inl h
  | transaction hash => exact .inl h

/-- A key that was not there before an access was added by it. -/
theorem Access.Effect.has {a : Access} {r : Except Fault a.Reply} (he : a.Effect m r m')
    (h : m'.has key = true) : m.has key = true ∨ a.Adds key := by
  cases a with
  | createBlock b confirmed =>
    cases he
    exact Memory.has_createBlock h
  | confirmBlocks upTo =>
    obtain ⟨n, final, -, rfl⟩ := he
    left
    cases key with
    | block hash =>
      rw [Memory.has_block, Table.get?_map, Option.isSome_map] at h
      exact h
    | transaction hash => exact h
    | internalTx key => exact h
  | getMined hashes =>
    obtain ⟨rows, -, -, rfl⟩ := he
    exact .inl h
  | createTransaction t receipt b =>
    rcases he with he | ⟨-, -, rfl⟩
    · exact Memory.has_addTransaction he h
    · exact .inl h
  | createPending t => exact Memory.has_addTransaction he h
  | linkTransaction hash b receipt =>
    rcases he with he | ⟨-, -, rfl⟩
    · exact .inl (Memory.has_linkTransaction he h)
    · exact .inl h
  | insertInternal rows markers =>
    cases he
    exact Memory.has_insertInternal h
  | _ =>
    cases he
    exact .inl (Memory.has_congr rfl rfl rfl ▸ h)

/-! ## Sessions -/

/-- There is a row under the key, be it in the tables or in the copy that a unit of work changes. -/
def Session.Holds (s : Session Memory) (key : Key) : Prop :=
  s.live.has key = true ∨ ∃ m, s.staged = some m ∧ m.has key = true

/-- No step of a unit of work adds a key. -/
theorem Session.Effect.holds {a : Action} {s s' : Session Memory} {r : Except Fault a.Reply}
    (he : Session.Effect a s r s') (h : s'.Holds key) : s.Holds key ∨ ∃ b, a = .access b ∧ b.Adds key := by
  cases a with
  | access b =>
    obtain ⟨m, he, rfl⟩ := he
    rcases h with h | h
    · exact (he.has h).imp .inl fun hadds => ⟨b, rfl, hadds⟩
    · exact .inl (.inr h)
  | beginUnit =>
    obtain ⟨-, rfl⟩ := he
    rcases h with h | ⟨m, hm, h⟩
    · exact .inl (.inl h)
    · cases hm
      exact .inl (.inl h)
  | invalidate step scope =>
    rcases he with ⟨-, -, rfl⟩ | ⟨m, n, d, hm, -, hsame, rfl⟩
    · exact .inl h
    · rcases h with h | ⟨m', hm', h⟩
      · exact .inl (.inl h)
      · cases hm'
        have heq : Memory.has { m with derived := d } key = m.has key :=
          Memory.has_congr rfl rfl hsame.internalTxs
        exact .inl (.inr ⟨m, hm, heq ▸ h⟩)
  | commit =>
    rcases he with ⟨-, -, rfl⟩ | ⟨m, hm, -, rfl⟩
    · exact .inl h
    · rcases h with h | ⟨m', hm', -⟩
      · exact .inl (.inr ⟨m, hm, h⟩)
      · cases hm'
  | rollback | abandon =>
    obtain ⟨-, rfl⟩ := he
    rcases h with h | ⟨m, hm, -⟩
    · exact .inl (.inl h)
    · cases hm

theorem Relational.Represents.has {d : Relational} (h : d.Represents m) : d.has key = m.has key := by
  cases key with
  | block hash =>
    show (d.blocks.get? hash).isSome = (m.blocks.get? hash).isSome
    rw [← h.blocks, Table.get?_mapValues, Option.isSome_map]
  | transaction hash =>
    show (d.transactions.get? hash).isSome = (m.transactions.get? hash).isSome
    rw [h.transactions, Table.get?_mapValues, Option.isSome_map]
  | internalTx key =>
    show (d.derived.internalTxs.get? key).isSome = (m.derived.internalTxs.get? key).isSome
    rw [h.derived]

theorem Storage.Represents.has {s : Storage} {t : Session Memory} (h : s.Represents t) :
    s.has key = t.live.has key := by
  cases s with
  | memory s => exact congrArg (Memory.has · key) h.live
  | database path? s => exact h.live.has

end ChainIndex
