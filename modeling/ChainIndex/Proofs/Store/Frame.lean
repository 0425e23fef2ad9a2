import ChainIndex.Proofs.Store.Keys

/-!
# The rows that an access writes

An access leaves every row alone but those under the keys that it writes (`Memory.sameRow_access`,
`Relational.sameRow_access`), in any state of the tables.
-/

namespace ChainIndex

/-- An access may add or change the row under a key. -/
def Access.Writes : Access → Key → Prop
  | .confirmBlocks _, .block _ => True
  | .linkTransaction hash _ _, key => key = .transaction hash
  | a, key => a.Adds key

variable {a : Access} {key : Key}

/-- The same row is under a key, or none in both. -/
def Memory.SameRow (m m' : Memory) : Key → Prop
  | .block hash => m'.blocks.get? hash = m.blocks.get? hash
  | .transaction hash => m'.transactions.get? hash = m.transactions.get? hash
  | .internalTx key => m'.derived.internalTxs.get? key = m.derived.internalTxs.get? key

def Relational.SameRow (d d' : Relational) : Key → Prop
  | .block hash => d'.blocks.get? hash = d.blocks.get? hash
  | .transaction hash => d'.transactions.get? hash = d.transactions.get? hash
  | .internalTx key => d'.derived.internalTxs.get? key = d.derived.internalTxs.get? key

theorem Derived.Tables.get?_insertInternal_of_not_mem {d : Tables} {rows : List InternalTx}
    {markers : List Marker} {key : FrameKey} (h : ¬ ∃ row ∈ rows, key = row.key) :
    (d.insertInternal rows markers).2.internalTxs.get? key = d.internalTxs.get? key := by
  have hnone : (rows.find? fun row => row.key = key) = none := by
    rw [List.find?_eq_none]
    intro row hrow heq
    exact h ⟨row, hrow, (of_decide_eq_true heq).symm⟩
  rw [(d.gains_insertInternal rows markers).internalTxs, hnone, Option.or_none]

namespace Memory

variable {m : Memory}

theorem SameRow.refl (m : Memory) (key : Key) : m.SameRow m key := by
  cases key <;> rfl

theorem sameRow_insert {hash : String} {row : Ledger.Transaction} (h : key ≠ .transaction hash) :
    m.SameRow { m with transactions := m.transactions.insert hash row } key := by
  cases key with
  | transaction hash' =>
    have hne : hash' ≠ hash := fun heq => h (congrArg Key.transaction heq)
    exact (Table.get?_insert _ _ _ _).trans (if_neg hne)
  | block hash' => rfl
  | internalTx key => rfl

theorem sameRow_addTransaction {t : Ledger.Transaction} (h : key ≠ .transaction t.txHash) :
    m.SameRow (m.addTransaction t).2 key := by
  unfold addTransaction
  split
  · exact .refl m key
  · exact sameRow_insert h

theorem sameRow_linkTransaction {hash : String} {b : Ledger.Block} {r : Chain.Receipt}
    (h : key ≠ .transaction hash) : m.SameRow (m.linkTransaction hash b r).2 key := by
  unfold linkTransaction
  split
  · exact .refl m key
  · exact sameRow_insert h

/-- An access leaves the rows alone that it does not write. -/
theorem sameRow_access (h : ¬ a.Writes key) : m.SameRow (access a m).2 key := by
  cases a with
  | createBlock b confirmed =>
    cases key with
    | block hash =>
      have hne : hash ≠ b.hash := fun heq => h (congrArg Key.block heq)
      exact (m.get?_createBlock b confirmed hash).trans (if_neg hne)
    | transaction hash => rfl
    | internalTx key => rfl
  | confirmBlocks upTo =>
    cases key with
    | block hash => exact absurd trivial h
    | transaction hash => rfl
    | internalTx key => rfl
  | createTransaction t r b => exact sameRow_addTransaction h
  | createPending t => exact sameRow_addTransaction h
  | linkTransaction hash b r => exact sameRow_linkTransaction h
  | insertInternal rows markers =>
    cases key with
    | block hash => rfl
    | transaction hash => rfl
    | internalTx key =>
      refine Derived.Tables.get?_insertInternal_of_not_mem fun ⟨row, hrow, heq⟩ => h ?_
      exact ⟨row, hrow, congrArg Key.internalTx heq⟩
  | _ => cases key <;> rfl

end Memory

namespace Relational

variable {d : Relational}

theorem SameRow.refl (d : Relational) (key : Key) : d.SameRow d key := by
  cases key <;> rfl

/-- A look-up finds what the row under the hash says. -/
theorem SameRow.getTransaction {d' : Relational} {hash : String} (h : d.SameRow d' (.transaction hash)) :
    d'.getTransaction hash = d.getTransaction hash := by
  have hrow : d'.transactions.get? hash = d.transactions.get? hash := h
  rw [Relational.getTransaction, Relational.getTransaction, hrow]

theorem sameRow_setTransactions {hash : String} {transactions : Table String TransactionRow}
    (h : key ≠ .transaction hash)
    (hother : ∀ {hash'}, hash' ≠ hash → transactions.get? hash' = d.transactions.get? hash') :
    d.SameRow { d with transactions } key := by
  cases key with
  | transaction hash' => exact hother fun heq => h (congrArg Key.transaction heq)
  | block hash' => rfl
  | internalTx key => rfl

theorem sameRow_addTransaction {t : Ledger.Transaction} (h : key ≠ .transaction t.txHash) :
    d.SameRow (d.addTransaction t).2 key := by
  unfold addTransaction
  split
  · exact .refl d key
  · split
    · exact sameRow_setTransactions h fun hne => (Table.get?_insert _ _ _ _).trans (if_neg hne)
    · exact .refl d key

theorem sameRow_linkTransaction {hash : String} {b : Ledger.Block} {r : Chain.Receipt}
    (h : key ≠ .transaction hash) : d.SameRow (d.linkTransaction hash b r).2 key := by
  unfold linkTransaction
  split
  · exact .refl d key
  · exact .refl d key
  · dsimp only
    split
    · exact sameRow_setTransactions h fun hne => (Table.get?_modify _ _ _ _).trans (if_neg hne)
    · exact .refl d key

theorem sameRow_access (h : ¬ a.Writes key) : d.SameRow (access a d).2 key := by
  cases a with
  | createBlock b confirmed =>
    cases key with
    | block hash =>
      have hne : hash ≠ b.hash := fun heq => h (congrArg Key.block heq)
      exact (Table.get?_insert _ _ _ _).trans (if_neg hne)
    | transaction hash => rfl
    | internalTx key => rfl
  | confirmBlocks upTo =>
    cases key with
    | block hash => exact absurd trivial h
    | transaction hash => rfl
    | internalTx key => rfl
  | createTransaction t r b => exact sameRow_addTransaction h
  | createPending t => exact sameRow_addTransaction h
  | linkTransaction hash b r => exact sameRow_linkTransaction h
  | insertInternal rows markers =>
    cases key with
    | block hash => rfl
    | transaction hash => rfl
    | internalTx key =>
      refine Derived.Tables.get?_insertInternal_of_not_mem fun ⟨row, hrow, heq⟩ => h ?_
      exact ⟨row, hrow, congrArg Key.internalTx heq⟩
  | _ => cases key <;> rfl

end Relational

end ChainIndex
