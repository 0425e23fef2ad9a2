import ChainIndex.Proofs.Resolve.Order
import ChainIndex.Proofs.Service.Operation

/-!
# Many hashes are resolved together or not at all

A question about many hashes asks the node for everything before it writes anything.  If an answer fails,
or does not settle what it was to settle, the question fails with it and the store is as it was, wherever
in the list the hash stands.  The laws hold of every store, also of one that no operation leads to.
-/

namespace ChainIndex

open Text (canonical)

/-- A node told all that it takes to store a transaction: a mined receipt, and a transaction that names a
block, together with that block. -/
structure Answers.Settles (N : Answers) (hash : String) : Prop where
  receipt : ∃ r, N.TellsReceipt hash r ∧ r.isMined = true
  transaction : ∃ t name, N.TellsTransaction hash t ∧ t.blockHash = some name ∧
    ∃ b, N.TellsBlock (canonical name) b

theorem Storage.perform_of_isLookup {a : Action} (h : a.isLookup = true) (s : Storage) :
    (store.perform a s).2 = s := by
  cases a with
  | access a => cases s <;> cases a <;> first | rfl | cases h
  | _ => cases h

/-! ## Rules for all executions -/

theorem Event.obeys_true (e : Event) : e.Obeys fun _ _ _ => True := by
  unfold Event.Obeys
  split <;> trivial

namespace Attempt

variable {σ α : Type} {N : Answers} {R : Conduct σ} {s : σ} {Q : α → σ → Prop} {X : Fault → σ → Prop}

theorem ensures_of_forall {t : Attempt α} (hQ : ∀ a s', Q a s') (hX : ∀ e s', X e s') :
    t.Ensures N R (fun _ _ _ => True) s Q X := by
  intro es r s' _
  refine ⟨fun e _ => e.obeys_true, ?_⟩
  cases r with
  | ok a => exact hQ a s'
  | error e => exact hX e s'

end Attempt

namespace Resolve

open Attempt

variable {N : Answers} {hashes : List String}

theorem Told.settles {g : Gathered} (h : Told N hashes g) {hash : String} (hmem : hash ∈ hashes) :
    N.Settles hash := by
  obtain ⟨f, hf, hfor⟩ := exists_of_mem_left h.found hmem
  obtain ⟨name, hname, heq⟩ := Option.map_eq_some_iff.1 hfor.block
  obtain ⟨p, hp, hkey⟩ := List.mem_map.1 (h.covered f hf)
  refine ⟨⟨f.receipt, hfor.receipt, ?_⟩, f.transaction, name, hfor.transaction, hname, p.2, ?_⟩
  · rw [← f.receipt.isSome_minedIn?, hfor.mined]
  · rw [heq, ← hkey]
    exact h.blocks p hp

/-- After a question about many hashes, either all that was missing is settled, or the question failed
and left the store alone. -/
theorem ensures_transactions_settles {policy : ConfirmationPolicy} {s : Storage}
    {known : List Ledger.Transaction} (hknown : s.answer (.getMined (distinct hashes)) = .ok known) :
    (transactions policy hashes).Ensures N Storage.store.conduct (fun _ _ _ => True) s
      (fun _ _ => ∀ hash ∈ missing known hashes, N.Settles hash)
      fun _ s' => s' = s ∨ ∀ hash ∈ missing known hashes, N.Settles hash := by
  show Ensures N _ _ (if (distinct hashes).isEmpty then pure [] else _) s _ _
  split
  · rename_i hnone
    refine ensures_pure fun hash hmem => ?_
    have hdistinct := (mem_missing.1 hmem).1
    rw [List.isEmpty_iff.1 hnone] at hdistinct
    cases hdistinct
  · refine ensures_bind (ensures_perform (a := .access _) fun r s' hR => ⟨trivial, ?_⟩)
    obtain rfl : r = .ok known := (congrArg Prod.fst hR).symm.trans hknown
    obtain rfl : s = s' := (Storage.perform_of_isLookup rfl s).symm.trans (congrArg Prod.snd hR)
    show Ensures N _ _ (if (missing known hashes).isEmpty then _ else _) s _ _
    split
    · rename_i hnone
      have hsettled : ∀ hash ∈ missing known hashes, N.Settles hash := by
        rw [List.isEmpty_iff.1 hnone]
        exact fun hash hmem => absurd hmem List.not_mem_nil
      exact ensures_of_forall (fun _ _ => hsettled) fun _ _ => .inr hsettled
    · refine ensures_bind (ensures_bind (ensures_gather (fun g hg => ?_) fun e _ => .inl rfl))
      have hsettled : ∀ hash ∈ missing known hashes, N.Settles hash := fun _ hmem => hg.settles hmem
      exact ensures_of_forall (fun _ _ => ensures_of_forall (fun _ _ => hsettled)
        fun _ _ => .inr hsettled) fun _ _ => .inr hsettled

end Resolve

/-- A question about many hashes asks the node for everything before it writes anything.  If an answer
fails or does not settle what it was to settle, the question has its fault and leaves the store as it was;
so does a question with a missing hash, wherever it stands, that the answers do not settle. -/
theorem Operation.transactions_all_or_nothing {ν : Type} (service : Service) (node : Node ν)
    (w : Routine.World ν Storage) (hashes : List String) :
    (∃ asking writing, (transactions hashes).history service node w = asking ++ writing ∧
      (∀ e ∈ asking, e.isWrite = false) ∧ ∀ e ∈ writing, e.isQuestion = false) ∧
    (∀ e ∈ (transactions hashes).history service node w, ∀ fault, e.fault? = some fault →
      ((transactions hashes).run service node w).1 = .error fault ∧
      ((transactions hashes).run service node w).2.store = w.store) ∧
    ∀ known, w.store.answer (.getMined (Resolve.distinct hashes)) = .ok known →
      ∀ hash ∈ Resolve.missing known hashes,
        ¬ ((transactions hashes).heard service node w).Settles hash →
        (∃ fault, ((transactions hashes).run service node w).1 = .error fault) ∧
        ((transactions hashes).run service node w).2.store = w.store := by
  have hfirst : (Resolve.transactions service.policy hashes).AsksFirst :=
    Resolve.asksFirst_transactions hashes
  refine ⟨hfirst.exists_append w, fun e he fault hfault => ?_, fun known hknown hash hmem hsettles => ?_⟩
  · exact Routine.run_of_fault hfirst (Resolve.stopsAtFault_transactions hashes)
      (fun _ s hlookup => Storage.perform_of_isLookup hlookup s) he hfault
  · have hexec : (Resolve.transactions service.policy hashes).run.Exec
        ((transactions hashes).heard service node w) Storage.store.conduct w.store
        ((transactions hashes).history service node w) ((transactions hashes).run service node w).1
        ((transactions hashes).run service node w).2.store :=
      Routine.exec_run node Storage.store _ w
    have hend := (Resolve.ensures_transactions_settles hknown _ _ _ hexec).2
    cases hreply : ((transactions hashes).run service node w).1 with
    | ok rows =>
      rw [hreply] at hend
      exact absurd (hend hash hmem) hsettles
    | error fault =>
      rw [hreply] at hend
      exact ⟨⟨fault, rfl⟩, hend.resolve_right fun hall => hsettles (hall hash hmem)⟩

/-! ## On a small chain -/

/-- A node that reports the chain but has no receipt for one hash. -/
def Sample.behind : Node Unit where
  answer
    | .receipt hash, n => (.ok (if hash = "0xbb" then none else some receipt), n)
    | .receipts hashes, n => (.ok (hashes.map fun hash => if hash = "0xbb" then none else some receipt), n)
    | q, n => node.answer q n

/-- The second of two hashes has no receipt: the first one is not stored either. -/
theorem Operation.transactions_all_or_nothing_sample :
    ((transactions ["0xaa", "0xbb"]).history Sample.service Sample.behind
        ⟨(), .inMemory⟩).filterMap Event.fault? = [.transactionNotFound "0xbb"] ∧
      ((transactions ["0xaa", "0xbb"]).run Sample.service Sample.behind ⟨(), .inMemory⟩).1 =
        .error (.transactionNotFound "0xbb") ∧
      ((transactions ["0xaa", "0xbb"]).run Sample.service Sample.behind ⟨(), .inMemory⟩).2.store =
        .inMemory := by
  have hfaults : ((transactions ["0xaa", "0xbb"]).history Sample.service Sample.behind
      ⟨(), .inMemory⟩).filterMap Event.fault? = [.transactionNotFound "0xbb"] := by decide +kernel
  have hmem : Fault.transactionNotFound "0xbb" ∈ ((transactions ["0xaa", "0xbb"]).history
      Sample.service Sample.behind ⟨(), .inMemory⟩).filterMap Event.fault? := by
    rw [hfaults]
    exact List.mem_singleton_self _
  obtain ⟨e, he, hfault⟩ := List.mem_filterMap.1 hmem
  exact ⟨hfaults, (Operation.transactions_all_or_nothing Sample.service Sample.behind
    ⟨(), .inMemory⟩ ["0xaa", "0xbb"]).2.1 e he _ hfault⟩

end ChainIndex
