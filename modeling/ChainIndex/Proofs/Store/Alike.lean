import ChainIndex.Proofs.Store.Ledger

/-!
# Tables that are alike

Tables are `Alike` if they hold the same transactions, and the same blocks but for their confirmation.
What is done to blocks and transactions does not depend on which blocks are confirmed, so that tables that
are alike stay alike.
-/

namespace ChainIndex

/-- The row of a block without its confirmation. -/
def Ledger.Block.bare (b : Block) : Block := { b with confirmed := false }

/-- A link takes nothing over from the confirmation of a block. -/
theorem Ledger.Transaction.link_bare (row : Transaction) (b : Block) (r : Chain.Receipt) :
    row.link b.bare r = row.link b r :=
  rfl

namespace Memory

/-- The same transactions, and the same blocks but for their confirmation. -/
structure Alike (m m' : Memory) : Prop where
  transactions : m.transactions = m'.transactions
  blocks : ∀ hash, (m.blocks.get? hash).map Ledger.Block.bare =
    (m'.blocks.get? hash).map Ledger.Block.bare

/-- Without its confirmation, the row of a block that is stored is the one that is there, or a new one. -/
theorem bare_createBlock (m : Memory) (c : Chain.Block) (confirmed : Bool) :
    (m.createBlock c confirmed).1.bare =
      ((m.blocks.get? c.hash).map Ledger.Block.bare).getD (.ofChain c false) := by
  rw [createBlock]
  cases m.blocks.get? c.hash <;> rfl

namespace Alike

variable {m m' m'' : Memory}

theorem refl (m : Memory) : m.Alike m := ⟨rfl, fun _ => rfl⟩

theorem symm (h : m.Alike m') : m'.Alike m := ⟨h.transactions.symm, fun hash => (h.blocks hash).symm⟩

theorem trans (h : m.Alike m') (h' : m'.Alike m'') : m.Alike m'' :=
  ⟨h.transactions.trans h'.transactions, fun hash => (h.blocks hash).trans (h'.blocks hash)⟩

theorem bare_createBlock (h : m.Alike m') (c : Chain.Block) (confirmed confirmed' : Bool) :
    (m.createBlock c confirmed).1.bare = (m'.createBlock c confirmed').1.bare := by
  rw [Memory.bare_createBlock, Memory.bare_createBlock, h.blocks]

/-- Storing a block keeps tables alike, whether or not it is confirmed. -/
theorem createBlock (h : m.Alike m') (c : Chain.Block) (confirmed confirmed' : Bool) :
    (m.createBlock c confirmed).2.Alike (m'.createBlock c confirmed').2 := by
  refine ⟨h.transactions, fun hash => ?_⟩
  rw [get?_createBlock, get?_createBlock]
  by_cases heq : hash = c.hash
  · rw [if_pos heq, if_pos heq]
    exact congrArg some (h.bare_createBlock c confirmed confirmed')
  · rw [if_neg heq, if_neg heq]
    exact h.blocks hash

theorem createBlock_self {c : Chain.Block} {b : Ledger.Block} (hb : m.blocks.get? c.hash = some b)
    (confirmed : Bool) : (m.createBlock c confirmed).2.Alike m := by
  refine ⟨rfl, fun hash => ?_⟩
  rw [get?_createBlock]
  by_cases heq : hash = c.hash
  · rw [if_pos heq, heq, hb, Option.map_some, Memory.bare_createBlock, hb]
    rfl
  · rw [if_neg heq]

theorem insert (h : m.Alike m') (hash : String) (t : Ledger.Transaction) :
    Alike { m with transactions := m.transactions.insert hash t }
      { m' with transactions := m'.transactions.insert hash t } :=
  ⟨congrArg (·.insert hash t) h.transactions, h.blocks⟩

end Alike

end Memory

end ChainIndex
