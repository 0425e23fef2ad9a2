import ChainIndex.Proofs.Service.Integrity

/-!
# Receipts and the blocks that rows are linked to

A transaction that is resolved on its own is linked to the block that its receipt names.  Many
transactions that are resolved together are linked to the blocks that the transactions name, which the
node is asked for after the receipts: if a block is replaced in between, a row carries the receipt of one
block and is linked to the other.
-/

namespace ChainIndex

open Text (canonical)

/-- The row that an event writes, with the receipt that it is written with. -/
def Event.written? : Event → Option (Ledger.Transaction × Chain.Receipt)
  | .did (.access (.createTransaction _ r _)) (.ok row) => some (row, r)
  | .did (.access (.linkTransaction _ _ r)) (.ok row) => some (row, r)
  | _ => none

/-- The rows that are written in an operation, with their receipts. -/
def Operation.written {ν : Type} (o : Operation) (s : Service) (node : Node ν)
    (w : Routine.World ν Storage) : List (Ledger.Transaction × Chain.Receipt) :=
  (o.history s node w).filterMap Event.written?

/-- A row has the gas, the status and the logs of a receipt. -/
def Ledger.Transaction.Carries (row : Ledger.Transaction) (r : Chain.Receipt) : Prop :=
  row.gasUsed = some r.gasUsed ∧ row.status = r.status ∧ row.logs = r.logs

theorem Ledger.Transaction.carries_link (t : Ledger.Transaction) (b : Ledger.Block) (r : Chain.Receipt) :
    (t.link b r).Carries r := ⟨rfl, rfl, rfl⟩

theorem Event.exists_of_written {E : LinkRule} {e : Event} {row : Ledger.Transaction}
    {r : Chain.Receipt} (hw : e.written? = some (row, r)) (he : e.Obeys E) : ∃ b, E r b (.ok row) := by
  unfold written? at hw
  split at hw
  · cases hw
    exact ⟨_, he⟩
  · cases hw
    exact ⟨_, he⟩
  · cases hw

namespace Resolve

variable {N : Answers} {s : Session Memory} {policy : ConfirmationPolicy}

/-- On its own, a transaction is linked to the block that its receipt names. -/
theorem ensures_transaction_blockHash (hN : N.NamesBlocks) (hs : s.Sound) (hash : String) :
    (transaction policy hash).Ensures N Session.Effect
      (fun r _ reply => ∀ row, reply = .ok row → row.Carries r ∧
        row.blockHash = r.blockHash.map canonical) s (fun _ _ => True) fun _ _ => True := by
  refine ensures_transaction hs (fun {r b s₁ told reply} hblock hpermitted row hrow => ?_)
    (fun _ _ _ => trivial) fun _ _ _ => trivial
  subst hrow
  obtain ⟨-, t, rfl⟩ := hpermitted
  obtain ⟨name, hname, hb⟩ := hblock.block
  refine ⟨t.carries_link b r, ?_⟩
  rw [Chain.Receipt.blockHash_of_minedIn? hname, Option.map_some, ← hb.blockHash_eq hs hN]
  rfl

/-- Among many, a transaction is linked to the block that it names itself. -/
theorem ensures_transactions_blockHash (hN : N.NamesBlocks) (hs : s.Sound) (hashes : List String) :
    (transactions policy hashes).Ensures N Session.Effect
      (fun r _ reply => ∀ row, reply = .ok row → row.Carries r ∧ ∃ hash t, N.TellsReceipt hash r ∧
        N.TellsTransaction hash t ∧ row.txHash = t.hash ∧ row.blockHash = t.blockHash.map canonical)
      s (fun _ _ => True) fun _ _ => True := by
  refine ensures_transactions hs (fun {hash f b reply} hfor hnames hpermitted row hrow => ?_)
    (fun _ _ _ _ _ _ => trivial) fun _ _ _ => trivial
  subst hrow
  obtain ⟨hhash, t, rfl⟩ := hpermitted
  refine ⟨t.carries_link b f.receipt, hash, f.transaction, hfor.receipt, hfor.transaction, hhash, ?_⟩
  rw [hfor.block, ← hN.eq_of_names hnames]
  rfl

end Resolve

theorem Operation.exists_of_mem_written {ν : Type} {o : Operation} {s : Service} {node : Node ν}
    {w : Routine.World ν Storage} {E : LinkRule} (hobeys : ∀ e ∈ o.history s node w, e.Obeys E)
    {row : Ledger.Transaction} {r : Chain.Receipt} (h : (row, r) ∈ o.written s node w) :
    ∃ b, E r b (.ok row) := by
  obtain ⟨e, he, hw⟩ := List.mem_filterMap.1 h
  exact Event.exists_of_written hw (hobeys e he)

/-- Whatever row an operation on a reachable store writes with a receipt carries that receipt.  A
transaction that is resolved on its own is linked to the block that the receipt names.  One that is
resolved among others is linked to the block that the transaction itself names, which was told for the
same hash as the receipt, and so to the block of the receipt exactly if the two name the same. -/
theorem Storage.Reachable.blockHash_of_written {ν : Type} {w : Routine.World ν Storage}
    (h : w.store.Reachable) {node : Node ν} (hnode : node.answers.NamesBlocks) (service : Service) :
    (∀ hash row r, (row, r) ∈ (Operation.transaction hash).written service node w →
      row.Carries r ∧ row.blockHash = r.blockHash.map canonical) ∧
    ∀ hashes row r, (row, r) ∈ (Operation.transactions hashes).written service node w →
      row.Carries r ∧ ∃ hash t,
        ((Operation.transactions hashes).heard service node w).TellsReceipt hash r ∧
        ((Operation.transactions hashes).heard service node w).TellsTransaction hash t ∧
        row.txHash = t.hash ∧ row.blockHash = t.blockHash.map canonical ∧
        (row.blockHash = r.blockHash.map canonical ↔
          t.blockHash.map canonical = r.blockHash.map canonical) := by
  obtain ⟨t, hrep, hs⟩ := h.sound
  have hN (o : Operation) : (o.heard service node w).NamesBlocks :=
    fun _ _ hb => hnode (hb.mono fun _ _ hq => hq.2)
  refine ⟨fun hash row r hmem => ?_, fun hashes row r hmem => ?_⟩
  · obtain ⟨hobeys, -⟩ := ensures_run node w hrep
      (Resolve.ensures_transaction_blockHash (hN (.transaction hash)) hs hash)
    obtain ⟨b, hE⟩ := Operation.exists_of_mem_written hobeys hmem
    exact hE row rfl
  · obtain ⟨hobeys, -⟩ := ensures_run node w hrep
      (Resolve.ensures_transactions_blockHash (hN (.transactions hashes)) hs hashes)
    obtain ⟨b, hE⟩ := Operation.exists_of_mem_written hobeys hmem
    obtain ⟨hcarries, hash, t, hr, ht, hhash, hrow⟩ := hE row rfl
    exact ⟨hcarries, hash, t, hr, ht, hhash, hrow, by rw [hrow]⟩

/-- On a chain that does not change, the row is linked to the block of its receipt either way. -/
theorem Storage.blockHash_of_written_sample :
    (Operation.transactions ["0xaa"]).written Sample.service Sample.node ⟨(), .inMemory⟩ =
        [(Sample.row, Sample.receipt)] ∧
      Sample.row.Carries Sample.receipt ∧ ∃ hash t,
        ((Operation.transactions ["0xaa"]).heard Sample.service Sample.node
          ⟨(), .inMemory⟩).TellsReceipt hash Sample.receipt ∧
        ((Operation.transactions ["0xaa"]).heard Sample.service Sample.node
          ⟨(), .inMemory⟩).TellsTransaction hash t ∧
        Sample.row.txHash = t.hash ∧ Sample.row.blockHash = t.blockHash.map canonical ∧
        (Sample.row.blockHash = Sample.receipt.blockHash.map canonical ↔
          t.blockHash.map canonical = Sample.receipt.blockHash.map canonical) := by
  have hwritten : (Operation.transactions ["0xaa"]).written Sample.service Sample.node
      ⟨(), .inMemory⟩ = [(Sample.row, Sample.receipt)] := by decide +kernel
  have hmem : (Sample.row, Sample.receipt) ∈
      (Operation.transactions ["0xaa"]).written Sample.service Sample.node ⟨(), .inMemory⟩ := by
    rw [hwritten]
    exact List.mem_singleton_self _
  have hnode : Sample.node.answers.NamesBlocks := Node.namesBlocks_steady _ _ _ _
  have hlaw := Storage.Reachable.blockHash_of_written (w := ⟨(), .inMemory⟩) .memory hnode Sample.service
  exact ⟨hwritten, hlaw.2 _ _ _ hmem⟩

/-- A node whose block is replaced after it was asked for the receipt: the row that is stored among many
carries the receipt of the old block and is linked to the new one. -/
theorem Storage.blockHash_ne_of_fork :
    Storage.inMemory.Reachable ∧
      (Node.steady 20 Sample.block Sample.transaction Sample.forkedReceipt).answers.NamesBlocks ∧
      ¬ ∀ row r, (row, r) ∈ (Operation.transactions ["0xaa"]).written Sample.service
        (Node.steady 20 Sample.block Sample.transaction Sample.forkedReceipt) ⟨(), .inMemory⟩ →
          row.blockHash = r.blockHash.map canonical := by
  refine ⟨.memory, Node.namesBlocks_steady _ _ _ _, fun hall => ?_⟩
  have hwritten : (Operation.transactions ["0xaa"]).written Sample.service
      (Node.steady 20 Sample.block Sample.transaction Sample.forkedReceipt) ⟨(), .inMemory⟩ =
        [(.mined Sample.transaction Sample.forkedReceipt (.ofChain Sample.block true),
          Sample.forkedReceipt)] := by decide +kernel
  have hrow := hall _ _ (by rw [hwritten]; exact List.mem_singleton_self _)
  exact absurd hrow (by decide +kernel)

end ChainIndex
