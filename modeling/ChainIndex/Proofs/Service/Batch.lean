import ChainIndex.Proofs.Service.Integrity

/-!
# What a question about many hashes returns

The rows that a successful question about many hashes returns are, hash by hash, the rows that the store
holds when it returns.  Which hashes the node reported while it was asked about others makes no
difference.
-/

namespace ChainIndex

open Text (canonical)

/-- A successful question about many hashes returns one row for each hash that differs in more than case
and blanks, in the order in which the hashes first occur.  Each row has its hash up to case and blanks, is
linked to a block, and is the row that the store then holds under the row's own hash; the row of a hash
that was linked before is the row from before. -/
theorem Storage.Reachable.forall₂_transactions {ν : Type} {w : Routine.World ν Storage}
    (h : w.store.Reachable) {service : Service} {node : Node ν} {hashes : List String}
    {rows : List Ledger.Transaction}
    (hrows : ((Operation.transactions hashes).run service node w).1 = .ok rows) :
    List.Forall₂ (fun hash row => canonical row.txHash = hash ∧ row.isMined = true ∧
      ((Operation.transactions hashes).run service node w).2.store.answer
        (.getTransaction row.txHash) = .ok (some row) ∧
      ∀ old, w.store.answer (.getTransaction hash) = .ok (some old) → old.isMined = true → row = old)
      (hashes.map canonical).eraseDups rows := by
  obtain ⟨t, hrep, hs⟩ := h.sound
  have hensures {N : Answers} : (Resolve.transactions service.policy hashes).Ensures N Session.Effect
      (fun _ _ _ => True) t (fun rows t' => List.Forall₂ (fun hash row => canonical row.txHash = hash ∧
        row.isMined = true ∧ t'.live.transactions.get? row.txHash = some row ∧
        ∀ old, t.live.transactions.get? hash = some old → old.isMined = true → row = old)
        (hashes.map canonical).eraseDups rows) fun _ _ => True :=
    Resolve.ensures_transactions hs (fun _ _ _ => trivial)
      (fun _ _ _ _ _ hanswered => hanswered.forall₂_rows hs) fun _ _ _ => trivial
  obtain ⟨-, t', hrep', hend⟩ := Storage.ensures_run node w hrep hensures
  rw [show ((Resolve.transactions service.policy hashes).run.run node Storage.store w).1 = .ok rows
    from hrows] at hend
  refine hend.imp fun hash row hrow => ?_
  obtain ⟨hcanon, hmined, hget, hold⟩ := hrow
  refine ⟨hcanon, hmined, (Storage.answer_getTransaction hrep' _).trans (congrArg _ hget), ?_⟩
  intro old hget'
  rw [Storage.answer_getTransaction hrep] at hget'
  exact hold old (Except.ok.inj hget')

/-- Two spellings of one hash are one question, and are answered with one row. -/
theorem Storage.forall₂_transactions_sample :
    ((Operation.transactions ["0xaa ", " 0xaa"]).run Sample.service Sample.node ⟨(), .inMemory⟩).1 =
        .ok [Sample.row] ∧
      List.Forall₂ (fun hash row => canonical row.txHash = hash ∧ row.isMined = true ∧
        ((Operation.transactions ["0xaa ", " 0xaa"]).run Sample.service Sample.node
          ⟨(), .inMemory⟩).2.store.answer (.getTransaction row.txHash) = .ok (some row) ∧
        ∀ old, Storage.inMemory.answer (.getTransaction hash) = .ok (some old) →
          old.isMined = true → row = old)
        (["0xaa ", " 0xaa"].map canonical).eraseDups [Sample.row] := by
  have hrows : ((Operation.transactions ["0xaa ", " 0xaa"]).run Sample.service Sample.node
      ⟨(), .inMemory⟩).1 = .ok [Sample.row] := by decide +kernel
  exact ⟨hrows, Storage.Reachable.forall₂_transactions (w := ⟨(), .inMemory⟩) .memory hrows⟩

end ChainIndex
