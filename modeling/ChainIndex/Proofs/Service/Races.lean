import ChainIndex.Proofs.Service.Absorption
import ChainIndex.Proofs.Service.LookedUp
import ChainIndex.Proofs.Service.Served

/-!
# Races for a transaction

Operations that have a store to themselves link a transaction once, and its row never changes afterwards.
Among other writers a linked transaction stays linked, but a race may be lost: it is looked up and found
without a link, somebody else links it, and then the loser merges its own block and receipt into the row of
the winner.  No other access of an operation changes a linked row (`Storage.Reachable.linked_unless_raced`),
unless the node tells a transaction when it is asked for another one.  Both do happen (`Storage.relinked`).
-/

namespace ChainIndex

/-- Between two successive accesses of one's own somebody else linked a transaction. -/
def LinkedByOthers (hash : String) (moments : List (Storage × Access)) : Prop :=
  ∃ l₁ mo mo' l₂, moments = l₁ ++ mo :: mo' :: l₂ ∧ ¬ (mo.1.after mo.2).Linked hash ∧ mo'.1.Linked hash

/-- A transaction that was found without a link and is linked now was linked by somebody else. -/
theorem FoundUnlinked.linkedByOthers {hash : String} {moments : List (Storage × Access)} {before : Storage}
    {a : Access} (h : FoundUnlinked hash moments) (hlinked : before.Linked hash) :
    LinkedByOthers hash (moments ++ [(before, a)]) := by
  induction h generalizing before a with
  | @lookup moments s look hlook hunlinked =>
    have hsame : s.after look = s := by
      cases look with
      | getTransaction | getMined => exact Storage.perform_of_isLookup (a := .access _) rfl s
      | _ => exact hlook.elim
    refine ⟨moments, (s, look), (before, a), [], by rw [List.append_assoc]; rfl, ?_, hlinked⟩
    rw [hsame]
    exact hunlinked
  | @spared moments s own _ hspares ih =>
    by_cases hearlier : s.Linked hash
    · obtain ⟨l₁, mo, mo', l₂, heq, hmo, hmo'⟩ := ih hearlier (a := own)
      exact ⟨l₁, mo, mo', l₂ ++ [(before, a)], by rw [heq, List.append_assoc]; rfl, hmo, hmo'⟩
    · refine ⟨moments, (s, own), (before, a), [], by rw [List.append_assoc]; rfl, ?_, hlinked⟩
      rintro ⟨row, hrow, hmined⟩
      exact hearlier ⟨row, hspares ▸ hrow, hmined⟩

/-- What one's own accesses have linked in an operation was found without a link before. -/
theorem Operation.fair_runShared (o : Operation) (service : Service) {ν : Type} (node : Node ν) (n : ν)
    {s : Storage} (hs : s.AllTidy) (turns : List (List Access)) (hash : String) :
    (o.runShared service node n s turns).2.store.Fair (o.heardShared service node n s turns) hash :=
  ((o.fair service (s := { state := s, turns }) ⟨hs, .nil⟩) _ _ _
    (Routine.exec_run node Storage.store.shared _ ⟨n, { state := s, turns }⟩)).2

namespace Storage

/-- Operations lead from one store to another while others write to it as they like. -/
inductive CourseAmongOthers (s : Storage) : Storage → Prop
  | nil : CourseAmongOthers s s
  | others {s' : Storage} (h : CourseAmongOthers s s') (a : Access) : CourseAmongOthers s (s'.after a)
  | step {s' : Storage} (h : CourseAmongOthers s s') (service : Service) (o : Operation) {ν : Type}
    (node : Node ν) (n : ν) (turns : List (List Access)) :
    CourseAmongOthers s (o.runShared service node n s' turns).2.store.state

theorem CourseAmongOthers.allTidy {s s' : Storage} (h : s.CourseAmongOthers s') (hs : s.AllTidy) :
    s'.AllTidy := by
  induction h with
  | nil => exact hs
  | others h a ih => exact ih.perform (.access a)
  | step h service o node n turns ih => exact (o.fair_runShared service node n ih turns "").tidy

/-- A linked transaction stays as it is along every course of the engine, as long as what the node reports
carries the hash that it was asked for.  And wherever others write to the store, too, an access of an operation
leaves a linked transaction as it is, unless a race was lost: it links the transaction once more, which the
operation had looked up and found without a link and then left alone, and which somebody else linked in
between.  Only a node that tells the transaction when it is asked for another one does without a race. -/
theorem Reachable.linked_unless_raced {s : Storage} (h : s.Reachable) :
    (∀ {es : List Event} {s' : Storage} {hash : String} {row : Ledger.Transaction}, s.Engine es s' →
      (heardIn es).Echoes → s.answer (.getTransaction hash) = .ok (some row) → row.isMined = true →
      s'.answer (.getTransaction hash) = .ok (some row)) ∧
    ∀ {s' : Storage}, s.CourseAmongOthers s' → ∀ (service : Service) (o : Operation) {ν : Type}
      (node : Node ν) (n : ν) (turns : List (List Access)) {pre : List (Storage × Access)}
      {before : Storage} {a : Access} {hash : String} {row : Ledger.Transaction},
      pre ++ [(before, a)] <+: (o.runShared service node n s' turns).2.store.moments →
      before.answer (.getTransaction hash) = .ok (some row) → row.isMined = true →
      (before.after a).answer (.getTransaction hash) = .ok (some row) ∨
        (FoundUnlinked hash pre ∧ LinkedByOthers hash (pre ++ [(before, a)]) ∨
          (o.heardShared service node n s' turns).Renames hash) ∧
        ∃ b r, a = .linkTransaction hash b r ∧
          (before.after a).answer (.getTransaction hash) = .ok (some (row.link b r)) := by
  refine ⟨fun hcourse hN hrow hmined => (hcourse.keepsLinked h hrow hmined hN).1,
    fun hcourse service o _ node n turns pre before a hash row hpre hrow hmined => ?_⟩
  have hfair := o.fair_runShared service node n (hcourse.allTidy h.allTidy) turns hash
  obtain ⟨htidy, hlink⟩ := hfair.links.of_prefix hpre
  refine (htidy.linked_after hrow a).imp_right fun ⟨b, r, ha, hafter⟩ => ⟨?_, b, r, ha, hafter⟩
  exact (hlink b r ha).imp_left fun hfound => ⟨hfound, hfound.linkedByOthers ⟨row, hrow, hmined⟩⟩

end Storage

namespace Sample

/-- The block before the block of the small chain, where a fork has the transaction. -/
def forkedBlock : Chain.Block where
  number := 6
  hash := "0xb6"
  parentHash := "0xb5"
  timestamp := 1699999990

/-- The row that the transaction is stored as in the fork. -/
def forkedRow : Ledger.Transaction := .mined transaction forkedReceipt (.ofChain forkedBlock true)

/-- What somebody else does who stores the transaction as the fork has it, after it was looked up and its
block was stored. -/
def race : List (List Access) :=
  [[], [], [], [.createBlock forkedBlock true,
    .createTransaction transaction forkedReceipt (.ofChain forkedBlock true)]]

/-- How the question about the transaction ends that loses the race. -/
def raced : Except Fault Ledger.Transaction × Routine.World Unit (Shared Storage) :=
  (Operation.transaction "0xaa").runShared service snapshot.node () .inMemory race

end Sample

namespace Storage

/-- A linked transaction is left alone when it is resolved once more, and the one that somebody else linked in
the race was looked up before and found without a link. -/
theorem linked_unless_raced_sample :
    let first := ((Operation.transaction "0xaa").run Sample.service Sample.snapshot.node ⟨(), inMemory⟩).2.store
    let later := ((Operation.transactions ["0xaa"]).run Sample.service Sample.snapshot.node ⟨(), first⟩).2.store
    later.answer (.getTransaction "0xaa") = .ok (some Sample.row) ∧
      ∃ pre before, before.answer (.getTransaction "0xaa") = .ok (some Sample.forkedRow) ∧
        pre ++ [(before, .linkTransaction "0xaa" (.ofChain Sample.block true) Sample.receipt)] =
          Sample.raced.2.store.moments ∧
        FoundUnlinked "0xaa" pre := by
  intro first later
  have hreachable : first.Reachable := .step .memory _ _ _ _
  have hfirst : first.answer (.getTransaction "0xaa") = .ok (some Sample.row) := by decide +kernel
  have hcourse : first.Engine ([] ++ (Operation.transactions ["0xaa"]).history Sample.service
      Sample.snapshot.node ⟨(), first⟩) later := .step .nil rfl Sample.snapshot.node ()
  have hN : (heardIn ([] ++ (Operation.transactions ["0xaa"]).history Sample.service Sample.snapshot.node
      ⟨(), first⟩)).Echoes :=
    Sample.echoes_snapshot.mono fun q r hmem => Routine.answers_of_mem_history hmem
  refine ⟨(Reachable.linked_unless_raced hreachable).1 hcourse hN hfirst (by decide +kernel), ?_⟩
  have hlast : (Sample.raced.2.store.moments.getLast?.map fun mo => (mo.2, mo.1.answer (.getTransaction "0xaa"),
      (mo.1.after mo.2).answer (.getTransaction "0xaa"))) =
      some (.linkTransaction "0xaa" (.ofChain Sample.block true) Sample.receipt, .ok (some Sample.forkedRow),
        .ok (some Sample.row)) := by decide +kernel
  obtain ⟨⟨before, a⟩, hmo, heq⟩ := Option.map_eq_some_iff.1 hlast
  obtain ⟨rfl, hmo', hafter⟩ : a = _ ∧ before.answer _ = _ ∧ (before.after a).answer _ = _ := by
    simpa only [Prod.mk.injEq] using heq
  have hmoments := List.dropLast_append_getLast? _ hmo
  refine ⟨_, before, hmo', hmoments, ?_⟩
  rcases (Reachable.linked_unless_raced .memory).2 .nil Sample.service (.transaction "0xaa")
    Sample.snapshot.node () Sample.race ⟨[], (List.append_nil _).trans hmoments⟩ hmo' (by decide +kernel) with hsame | ⟨⟨hfound, -⟩ | hrenames, -⟩
  · rw [hafter] at hsame
    exact absurd hsame (by decide +kernel)
  · exact hfound
  · obtain ⟨asked, t, ht, hhash, hne⟩ := hrenames
    rw [← Sample.echoes_snapshot.transaction (ht.mono fun q r h => h.2), hhash] at hne
    exact absurd rfl hne

/-- The one who loses the race merges its own block and receipt into the row of the winner, linked as it is.
Without a race a linked transaction is linked once more if it is told by a node that was asked for another
one. -/
theorem relinked :
    let first := ((Operation.transaction "0xaa").run Sample.service Sample.snapshot.node ⟨(), inMemory⟩).2.store
    let misled := ((Operation.transaction "0xbb").run Sample.service
      (.steady 20 Sample.forkedBlock Sample.transaction Sample.forkedReceipt) ⟨(), first⟩).2.store
    inMemory.Reachable ∧ Sample.forkedRow.isMined = true ∧ Sample.row.isMined = true ∧
      (Sample.raced.2.store.moments.getLast?.map fun mo => (mo.1.answer (.getTransaction "0xaa"), mo.2)) =
        some (.ok (some Sample.forkedRow),
          .linkTransaction "0xaa" (.ofChain Sample.block true) Sample.receipt) ∧
      Sample.raced.1 = .ok Sample.row ∧
      Sample.raced.2.store.state.answer (.getTransaction "0xaa") = .ok (some Sample.row) ∧
      first.answer (.getTransaction "0xaa") = .ok (some Sample.row) ∧
      misled.answer (.getTransaction "0xaa") = .ok (some Sample.forkedRow) ∧
      Sample.row ≠ Sample.forkedRow := by
  intro first misled
  exact ⟨.memory, by decide +kernel, by decide +kernel, by decide +kernel, by decide +kernel,
    by decide +kernel, by decide +kernel, by decide +kernel, by decide +kernel⟩

end Storage

end ChainIndex
