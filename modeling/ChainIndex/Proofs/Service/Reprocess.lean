import ChainIndex.Proofs.Service.Operation
import ChainIndex.Proofs.Store.Invalidation

/-!
# Reprocessing addresses

In either store, reprocessing the addresses of a scope takes back the rows of the owners in the scope and
leaves everything else as it is (`Reprocess.run_scope`).  What that does to each derived table is told by
`Derived.Tables.Invalidated`.
-/

namespace ChainIndex

open Derived (AddressScope Owners Summary Tables stepsInTurn)

/-- An open store with other derived tables and no unit of work. -/
def Storage.withDerived : Storage → Tables → Storage
  | .memory s, derived => .memory { live := { s.live with derived } }
  | .database path? s, derived => .database path? { live := { s.live with derived } }

namespace Reprocess

variable {ν : Type}

theorem run_scope_memory (scope : AddressScope) (node : Node ν) (n : ν) (s : Session Memory) :
    (Reprocess.scope scope).run.run node Storage.store ⟨n, .memory s⟩ =
      (.ok (stepsInTurn (fun step m => Memory.invalidate step scope m) s.live).1,
        ⟨n, .memory { live := (stepsInTurn (fun step m => Memory.invalidate step scope m) s.live).2 }⟩) :=
  rfl

theorem run_scope_database (scope : AddressScope) (node : Node ν) (n : ν) (path? : Option String)
    (s : Session Relational) :
    (Reprocess.scope scope).run.run node Storage.store ⟨n, .database path? s⟩ =
      (.ok (stepsInTurn (fun step r => Relational.invalidate step scope r) s.live).1,
        ⟨n, .database path?
          { live := (stepsInTurn (fun step r => Relational.invalidate step scope r) s.live).2 }⟩) :=
  rfl

/-- Reprocessing a scope takes back the rows of the owners in it, in either store. -/
theorem run_scope {scope : AddressScope} (h : scope.IsCanonical) (node : Node ν) (n : ν) (s : Storage) :
    (Reprocess.scope scope).run.run node Storage.store ⟨n, s⟩ =
      (.ok (stepsInTurn (Tables.takeBack scope.owners) s.derived).1,
        ⟨n, s.withDerived (stepsInTurn (Tables.takeBack scope.owners) s.derived).2⟩) := by
  cases s with
  | memory s =>
    rw [run_scope_memory]
    simp only [Memory.invalidate, Tables.invalidate_eq_takeBack]
    rfl
  | database path? s =>
    rw [run_scope_database]
    simp only [Relational.invalidate_eq h, Tables.invalidate_eq_takeBack]
    rfl

end Reprocess

/-! ## Two safes -/

namespace Sample

/-- The place of a frame in the transaction of the small chain. -/
def frame (traceAddress : String) : Derived.FrameKey := ⟨"0xaa", traceAddress⟩

/-- A call that a safe made. -/
def call (traceAddress sender : String) : Derived.InternalTx where
  key := frame traceAddress
  blockNumber := 7
  sender := sender
  recipient := none
  value := "0"
  callType := none
  data := "0x"

def marker (traceAddress : String) : Derived.Marker where
  key := frame traceAddress
  selector := "0x6a761202"
  processed := true

def status (traceAddress address : String) : Derived.SafeStatus where
  internalTx := frame traceAddress
  address := address
  nonce := 1
  owners := ["0x0a"]
  threshold := 1
  masterCopy := "0x0c"

/-- What was decoded for the safes `0xA1` and `0xB1`: each executed a multisig transaction that one owner
confirmed, and `0xA1` has a proposal.  One confirmation has a signature, another one is of a multisig
transaction that is not stored, and so is a marker's internal transaction. -/
def decoded : Derived.Tables :=
  let calls := [call "0" "0xA1", call "1" "0xB1"]
  let multisigTxs : List Derived.MultisigTx :=
    [⟨"0xe1", "0xA1", some "0xaa", 0⟩, ⟨"0xe2", "0xB1", some "0xaa", 0⟩, ⟨"0xe3", "0xA1", none, 1⟩]
  let confirmations : List Derived.Confirmation :=
    [⟨"0xe1", "0x0a", some "0xaa", none⟩, ⟨"0xe1", "0x0b", none, some "0x51"⟩,
      ⟨"0xe2", "0x0a", some "0xaa", none⟩, ⟨"0xe9", "0x0a", some "0xaa", none⟩]
  let statuses := [status "0" "0xa1", status "1" "0xB1"]
  let d := (Derived.Tables.insertInternal {} calls [marker "0", marker "1", marker "2"]).2
  let d := multisigTxs.foldl .putMultisigTx d
  let d := confirmations.foldl .putConfirmation d
  statuses.foldl .putSafeStatus d

end Sample

/-! ## What is taken back -/

namespace Operation

/-- Reprocessing takes back the rows of the addresses that are named, or of all, and nothing else. -/
theorem reprocess_exact {ν : Type} (service : Service) (node : Node ν) (n : ν) (s : Storage) :
    (∀ addresses, addresses ≠ [] → ∃ summary derived,
      (Operation.reprocess addresses).run service node ⟨n, s⟩ =
        (.ok summary, ⟨n, s.withDerived derived⟩) ∧
      s.derived.Invalidated (.among addresses) summary derived) ∧
    ∃ summary derived,
      Operation.reprocessAll.run service node ⟨n, s⟩ = (.ok summary, ⟨n, s.withDerived derived⟩) ∧
      s.derived.Invalidated .all summary derived := by
  constructor
  · intro addresses hne
    have hscope : (Operation.reprocess addresses).attempt service =
        Reprocess.scope (.ofAddresses addresses) := if_neg (by rwa [List.isEmpty_iff])
    refine ⟨_, _, ?_, s.derived.invalidated_takeBack _⟩
    unfold run
    rw [hscope, Reprocess.run_scope (.inr ⟨addresses, rfl⟩), AddressScope.owners_ofAddresses]
  · refine ⟨_, _, ?_, s.derived.invalidated_takeBack _⟩
    exact Reprocess.run_scope (.inl rfl) node n s

theorem reprocess_exact_sample : ["0xa1", "0xA1"] ≠ [] ∧ ∃ summary derived,
    (Operation.reprocess ["0xa1", "0xA1"]).run Sample.service Sample.node
        ⟨(), .memory { live := { derived := Sample.decoded } }⟩ =
      (.ok summary, ⟨(), .memory { live := { derived } }⟩) ∧
    Sample.decoded.Invalidated (.among ["0xa1", "0xA1"]) summary derived :=
  ⟨by decide, (reprocess_exact Sample.service Sample.node ()
    (.memory { live := { derived := Sample.decoded } })).1 _ (by decide)⟩

example : ((Operation.reprocess ["0xA1"]).run Sample.service Sample.node
    ⟨(), .memory { live := { derived := Sample.decoded } }⟩).1 = .ok
      { confirmationsDeleted := 1, multisigTxsDeleted := 1, safeStatusesDeleted := 1,
        internalTxsMarked := 1 } := by
  decide +kernel

end Operation

/-! ## Both stores -/

namespace Reprocess

/-- Of the same derived tables, both stores take back the same rows and report the same numbers. -/
theorem run_scope_alike {ν : Type} {scope : AddressScope} (h : scope.IsCanonical) (node : Node ν) (n : ν)
    (m : Memory) (r : Relational) (path? : Option String) (derived : Tables) :
    ∃ summary derived',
      (Reprocess.scope scope).run.run node Storage.store
          ⟨n, .memory { live := { m with derived } }⟩ =
        (.ok summary, ⟨n, .memory { live := { m with derived := derived' } }⟩) ∧
      (Reprocess.scope scope).run.run node Storage.store
          ⟨n, .database path? { live := { r with derived } }⟩ =
        (.ok summary, ⟨n, .database path? { live := { r with derived := derived' } }⟩) :=
  ⟨_, _, run_scope h node n (.memory { live := { m with derived } }),
    run_scope h node n (.database path? { live := { r with derived } })⟩

theorem run_scope_alike_sample : (AddressScope.ofAddresses ["0xA1", "0xb1", "0xa1"]).IsCanonical ∧
    ∃ summary derived',
      (Reprocess.scope (.ofAddresses ["0xA1", "0xb1", "0xa1"])).run.run Sample.node Storage.store
          ⟨(), .memory { live := { derived := Sample.decoded } }⟩ =
        (.ok summary, ⟨(), .memory { live := { derived := derived' } }⟩) ∧
      (Reprocess.scope (.ofAddresses ["0xA1", "0xb1", "0xa1"])).run.run Sample.node Storage.store
          ⟨(), .database none { live := { derived := Sample.decoded } }⟩ =
        (.ok summary, ⟨(), .database none { live := { derived := derived' } }⟩) :=
  ⟨.inr ⟨_, rfl⟩, run_scope_alike (.inr ⟨_, rfl⟩) Sample.node () {} {} none Sample.decoded⟩

end Reprocess

end ChainIndex
