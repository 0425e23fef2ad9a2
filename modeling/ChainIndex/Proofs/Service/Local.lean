import ChainIndex.Proofs.Resolve.Grounded
import ChainIndex.Proofs.Service.Atomic

/-!
# Answers from the store alone

An operation that is local asks nothing and changes nothing.  Resolving is local if what is resolved is
stored already: a block, a linked transaction, or many linked transactions.
-/

namespace ChainIndex

open Text (canonical)

/-- The operation is answered from the store alone: it asks nothing and changes nothing. -/
def Operation.IsLocal (o : Operation) (service : Service) (s : Storage) (reply : o.Reply) : Prop :=
  ∀ (ν : Type) (node : Node ν) (n : ν), o.run service node ⟨n, s⟩ = (.ok reply, ⟨n, s⟩) ∧
    ∀ e ∈ o.history service node ⟨n, s⟩, e.isQuestion = false

namespace Storage

variable {s : Storage} {t : Session Memory} {service : Service}

theorem exists_answer_getMined (hrep : s.Represents t) (hashes : List String) :
    ∃ rows, s.answer (.getMined hashes) = .ok rows ∧
      ∀ row, row ∈ rows ↔ row ∈ t.live.getMined hashes := by
  obtain ⟨t', ⟨m, ⟨rows, hrows, hmem, -⟩, -⟩, -⟩ :=
    exists_effect hrep (a := .access (.getMined hashes)) rfl
  exact ⟨rows, hrows, hmem⟩

/-- The transaction of a hash is stored and linked to a block. -/
def Linked (s : Storage) (hash : String) : Prop :=
  ∃ t, s.answer (.getTransaction hash) = .ok (some t) ∧ t.isMined = true

theorem Represents.linked_iff (hrep : s.Represents t) (hash : String) :
    s.Linked hash ↔ t.live.Linked hash := by
  unfold Linked Memory.Linked
  rw [answer_getTransaction hrep]
  simp only [Except.ok.injEq]

/-- An operation is local that looks something up and returns something that depends on the answer. -/
theorem isLocal_of_lookup {o : Operation} {a : Access} {f : a.Reply → Attempt o.Reply}
    (ho : o.attempt service = a.perform >>= f) (ha : (Action.access a).isLookup = true) {r : a.Reply}
    (hr : s.answer a = .ok r) {reply : o.Reply} (hf : f r = pure reply) : o.IsLocal service s reply := by
  intro ν node n
  have hget : store.perform (.access a) s = (.ok r, s) := Prod.ext hr (perform_of_isLookup ha s)
  show (o.attempt service).run.run node store ⟨n, s⟩ = _ ∧
    ∀ e ∈ (o.attempt service).run.history node store ⟨n, s⟩, _
  rw [ho, Attempt.run_perform_bind hget, Attempt.history_perform_bind hget, hf]
  refine ⟨rfl, fun e he => ?_⟩
  rw [List.mem_singleton.1 he]
  rfl

theorem isLocal_block {asked : String} {b : Ledger.Block}
    (hb : s.answer (.getBlock (canonical asked)) = .ok (some b)) :
    (Operation.block asked).IsLocal service s b :=
  isLocal_of_lookup (a := .getBlock (canonical asked)) rfl rfl hb rfl

theorem isLocal_transaction {asked : String} {row : Ledger.Transaction}
    (hrow : s.answer (.getTransaction (canonical asked)) = .ok (some row)) (hmined : row.isMined = true) :
    (Operation.transaction asked).IsLocal service s row := by
  refine isLocal_of_lookup (a := .getTransaction (canonical asked)) rfl rfl hrow ?_
  simp only [hmined, if_true]

theorem isLocal_transactions (hrep : s.Represents t) (hidle : t.Idle) {hashes : List String}
    {f : String → Ledger.Transaction} (hrows : ∀ hash ∈ Resolve.distinct hashes,
      t.live.transactions.get? hash = some (f hash) ∧ (f hash).isMined = true) :
    (Operation.transactions hashes).IsLocal service s ((Resolve.distinct hashes).map f) := by
  cases hnone : (Resolve.distinct hashes).isEmpty with
  | true =>
    intro ν node n
    show (Resolve.transactions service.policy hashes).run.run node store ⟨n, s⟩ = _ ∧
      ∀ e ∈ (Resolve.transactions service.policy hashes).run.history node store ⟨n, s⟩, _
    rw [Resolve.transactions_eq, if_pos hnone, List.isEmpty_iff.1 hnone]
    exact ⟨rfl, fun e he => absurd he List.not_mem_nil⟩
  | false =>
    obtain ⟨known, hget, hknown⟩ := exists_answer_getMined hrep (Resolve.distinct hashes)
    have hrowOf : ∀ hash ∈ Resolve.distinct hashes, Resolve.rowOf? known hash = some (f hash) := by
      intro hash hmem
      obtain ⟨hget, hmined⟩ := hrows hash hmem
      rw [Resolve.rowOf?_known hidle.keyed hknown hmem, hget, Option.filter_some, if_pos hmined]
    have hmissing : Resolve.missing known hashes = [] := by
      refine List.filter_eq_nil_iff.2 fun hash hmem => ?_
      rw [hrowOf hash hmem]
      exact Bool.false_ne_true
    have hlookup : (Operation.transactions hashes).attempt service = _ :=
      (Resolve.transactions_eq service.policy hashes).trans (if_neg (Bool.eq_false_iff.1 hnone))
    refine isLocal_of_lookup (a := .getMined (Resolve.distinct hashes)) hlookup rfl hget ?_
    have hrowsOf : List.Forall₂ (fun hash row => Resolve.rowOf? known hash = some row)
        (Resolve.distinct hashes) ((Resolve.distinct hashes).map f) :=
      List.forall₂_map_right_iff.2 (List.forall₂_same.2 hrowOf)
    rw [hmissing, Resolve.rowsOf_eq_pure hrowsOf]
    rfl

end Storage

end ChainIndex
