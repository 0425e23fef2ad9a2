import ChainIndex.Proofs.Service.Reprocess
import ChainIndex.Proofs.Store.Interchange

/-!
# One store in place of another

Accessed in the same way from the start, a store in memory and a database answer alike, as often as they
are accessed (`Storage.answersAs_of_admits`), faults included.  Each access is one that every kind of store
answers alike (`Access.Admissible`); the blocks that it may link transactions to are those in the answers
so far.
-/

namespace ChainIndex

namespace Storage

/-- Accesses one after the other that every kind of store answers alike, given the rows of blocks that are
known from earlier answers. -/
def Admits (s : Storage) (known : List Ledger.Block) : List Access → Prop
  | [] => True
  | a :: rest => a.Admissible known ∧ (s.after a).Admits (known ++ a.blocksIn (s.answer a)) rest

instance decidableAdmits (s : Storage) (known : List Ledger.Block) :
    (accesses : List Access) → Decidable (s.Admits known accesses)
  | [] => inferInstanceAs (Decidable True)
  | a :: rest =>
    have := decidableAdmits (s.after a) (known ++ a.blocksIn (s.answer a)) rest
    inferInstanceAs (Decidable (_ ∧ _))

/-- Two stores answer accesses alike, one after the other. -/
def AnswersAs (s s' : Storage) : List Access → Prop
  | [] => True
  | a :: rest => a.SameAnswer (s.answer a) (s'.answer a) ∧ (s.after a).AnswersAs (s'.after a) rest

/-- A database goes on answering like the tables in memory that it stands for. -/
theorem answersAs_of_matches {m : Memory} {d : Relational} {known : List Ledger.Block} (path? : Option String)
    (h : d.Matches m known) {accesses : List Access}
    (ha : Admits (.memory { live := m }) known accesses) :
    AnswersAs (.memory { live := m }) (.database path? { live := d }) accesses := by
  induction accesses generalizing m d known with
  | nil => trivial
  | cons a rest ih => exact ⟨(h.answer ha.1).1, ih (h.step ha.1) ha.2⟩

/-- Both kinds of store, empty at first, answer alike. -/
theorem answersAs_of_admits (path? : Option String) {accesses : List Access}
    (h : inMemory.Admits [] accesses) : inMemory.AnswersAs (.database path? { live := {} }) accesses :=
  answersAs_of_matches path? Relational.matches_empty h

end Storage

namespace Sample

/-- Accesses of every sort: a transaction is linked, stored once more and looked for under another hash. -/
def accesses : List Access := [
  .createBlock block false, .getTransaction "0xaa", .createPending transaction,
  .linkTransaction "0xaa" (.ofChain block false) receipt,
  .createTransaction transaction receipt (.ofChain block false),
  .linkTransaction "0xab" (.ofChain block false) receipt, .getMined ["0xab", "0xaa"], .confirmBlocks 7,
  .getBlock "0xb7", .insertInternal [call "0" "0xA1"] [marker "1", marker "0"], .setProcessed (frame "1"),
  .pendingMarkers, .addSafeContract "0xb1", .addSafeContract "0xA1", .safeContracts, .counts]

end Sample

namespace Storage

theorem answersAs_sample : inMemory.Admits [] Sample.accesses ∧
    inMemory.AnswersAs (.database none { live := {} }) Sample.accesses :=
  have h : inMemory.Admits [] Sample.accesses := by decide +kernel
  ⟨h, answersAs_of_admits none h⟩

end Storage

end ChainIndex
