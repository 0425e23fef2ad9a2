import ChainIndex.Proofs.Resolve.Batch

/-!
# Nodes with fixed answers

A `Snapshot` is what a node answers that never changes its answers, about its head and about each hash.  Each
of them may be a fault.  `Snapshot.answers` are the answers that it allows, where a reply about many hashes collects
those about each of them, and `Snapshot.node` is a node that gives them.
-/

namespace ChainIndex

/-- The answers of a node about its head and about each hash. -/
structure Snapshot where
  head : Except Fault UInt64
  block : String → Except Fault (Option Chain.Block)
  transaction : String → Except Fault (Option Chain.Transaction)
  receipt : String → Except Fault (Option Chain.Receipt)

namespace Snapshot

variable {α : Type} {S : Snapshot} {hash : String}

/-- A reply about many hashes holds nothing but answers about each, and fails only if one of these does. -/
def Collects (single : String → Except Fault (Option α)) (hashes : List String) :
    Except Fault (List (Option α)) → Prop
  | .ok replies => ∀ hash a, (hash, some a) ∈ Resolve.entries hashes replies →
      single hash = .ok (some a)
  | .error _ => ∃ hash ∈ hashes, ∃ fault, single hash = .error fault

/-- The answers that the snapshot allows. -/
def answers (S : Snapshot) : Answers
  | .head, r => r = S.head
  | .block hash, r => r = S.block hash
  | .transaction hash, r => r = S.transaction hash
  | .receipt hash, r => r = S.receipt hash
  | .blocks hashes, r => Collects S.block hashes r
  | .transactions hashes, r => Collects S.transaction hashes r
  | .receipts hashes, r => Collects S.receipt hashes r
  | .logs .., _ => True
  | .traces .., _ => True

/-! ## What is told -/

theorem block_of_tells {b : Chain.Block} (h : S.answers.TellsBlock hash b) :
    S.block hash = .ok (some b) := by
  rcases h with h | ⟨hashes, replies, h, hmem⟩
  · exact Eq.symm h
  · exact h hash b hmem

theorem transaction_of_tells {t : Chain.Transaction} (h : S.answers.TellsTransaction hash t) :
    S.transaction hash = .ok (some t) := by
  rcases h with h | ⟨hashes, replies, h, hmem⟩
  · exact Eq.symm h
  · exact h hash t hmem

theorem receipt_of_tells {r : Chain.Receipt} (h : S.answers.TellsReceipt hash r) :
    S.receipt hash = .ok (some r) := by
  rcases h with h | ⟨hashes, replies, h, hmem⟩
  · exact Eq.symm h
  · exact h hash r hmem

/-! ## A node with the answers -/

theorem collects_mapM (single : String → Except Fault (Option α)) (hashes : List String) :
    Collects single hashes (hashes.mapM single) := by
  induction hashes with
  | nil => exact fun hash a hmem => absurd hmem List.not_mem_nil
  | cons asked rest ih =>
    rw [List.mapM_cons]
    cases hfirst : single asked with
    | error fault => exact ⟨asked, List.mem_cons_self, fault, hfirst⟩
    | ok first =>
      cases hrest : rest.mapM single with
      | error fault =>
        rw [hrest] at ih
        obtain ⟨hash, hmem, hfault⟩ := ih
        exact ⟨hash, List.mem_cons_of_mem _ hmem, hfault⟩
      | ok replies =>
        rw [hrest] at ih
        intro hash a hmem
        rcases List.mem_cons.1 hmem with heq | hmem
        · cases heq
          exact hfirst
        · exact ih hash a hmem

/-- The node that gives the answers and has no logs and no traces. -/
def node (S : Snapshot) : Node Unit where
  answer
    | .head, n => (S.head, n)
    | .block hash, n => (S.block hash, n)
    | .transaction hash, n => (S.transaction hash, n)
    | .receipt hash, n => (S.receipt hash, n)
    | .blocks hashes, n => (hashes.mapM S.block, n)
    | .transactions hashes, n => (hashes.mapM S.transaction, n)
    | .receipts hashes, n => (hashes.mapM S.receipt, n)
    | .logs .., n => (.ok [], n)
    | .traces .., n => (.ok [], n)

theorem answers_of_node {q : Query} {r : Except Fault q.Reply} (h : S.node.answers q r) :
    S.answers q r := by
  obtain ⟨n, rfl⟩ := h
  cases q with
  | blocks hashes => exact collects_mapM _ hashes
  | transactions hashes => exact collects_mapM _ hashes
  | receipts hashes => exact collects_mapM _ hashes
  | logs | traces => trivial
  | _ => rfl

end Snapshot

end ChainIndex
