import ChainIndex.Proofs.Service.Merging

/-!
# Other writers do no harm

A call that resolves hashes looks transactions up, stores blocks and transactions, and links what is there
already, one access after the other, and others may write to the store at any moment in between.  Whatever
they write, such a call absorbs it (`Absorbs`): it fails only for reasons that the node gives, it links a
transaction in place that somebody else stored first, and it links to a block as that is stored.
-/

namespace ChainIndex

/-! ## What a call makes of the others -/

/-- A transaction was refused that was stored as `old` by then, and is linked in place when the next access
meets the store: its row is still what it was stored as, but for links, and no other row is touched. -/
structure Storage.LinksInPlace (s : Storage) (t : Chain.Transaction) (r : Chain.Receipt) (b : Ledger.Block)
    (old row : Ledger.Transaction) : Prop where
  stored : s.answer (.getTransaction t.hash) = .ok (some row)
  links : old.LinksTo row
  answer : s.answer (.linkTransaction t.hash b r) = .ok (row.link b r)
  after : ∀ hash, (s.after (.linkTransaction t.hash b r)).answer (.getTransaction hash) =
    if hash = t.hash then .ok (some (row.link b r)) else s.answer (.getTransaction hash)

/-- How a call ends that resolves hashes in a store that others write to as well: with some rows or a fault,
when the node answers within `N`. -/
structure Absorbs (N : Answers) (result : Except Fault (List Ledger.Transaction)) (s' : Shared Storage) :
    Prop where
  /-- It fails for no reason but one that the node gives. -/
  explains : ∀ {fault}, result = .error fault → N.Explains fault
  /-- It does not fail because a transaction is there, unless the node itself says so. -/
  duplicate : ∀ {hash}, result = .error (.duplicateTransaction hash) →
    ∃ q, N q (.error (.duplicateTransaction hash))
  /-- If a transaction is there that is to be stored, nothing is stored, and the next thing is that the
  transaction is linked in place; the row is among those that are returned. -/
  merges : ∀ {l₁ l₂ before t r b old},
    s'.moments = l₁ ++ (before, .createTransaction t r b) :: l₂ →
    before.answer (.getTransaction t.hash) = .ok (some old) →
    before.answer (.createTransaction t r b) = .error (.duplicateTransaction t.hash) ∧
    (∀ hash, (before.after (.createTransaction t r b)).answer (.getTransaction hash) =
      before.answer (.getTransaction hash)) ∧
    ∃ before' l₃ row, l₂ = (before', .linkTransaction t.hash b r) :: l₃ ∧
      before'.LinksInPlace t r b old row ∧ ∀ {rows}, result = .ok rows → row.link b r ∈ rows
  /-- All rows that are returned are linked, and were in the store at some moment of the call. -/
  returned : ∀ {rows}, result = .ok rows → ∀ row ∈ rows, s'.Shown row
  /-- If a block is there that is to be stored, it stays as it is, but that it may become confirmed, and the
  next transaction is linked to it. -/
  blocks : ∀ {l₁ l₂ before c confirmed b₀}, s'.moments = l₁ ++ (before, .createBlock c confirmed) :: l₂ →
    before.answer (.getBlock c.hash) = .ok (some b₀) →
    ∃ b, before.answer (.createBlock c confirmed) = .ok b ∧ b₀.RisesTo b ∧
      (before.after (.createBlock c confirmed)).answer (.getBlock c.hash) = .ok (some b) ∧
      ∀ mo ∈ l₂.head?, mo.2.block? = some b
  /-- Every transaction is linked to a block as it is stored at that moment. -/
  links : ∀ {before a b}, (before, a) ∈ s'.moments → a.block? = some b → before.Keeps b
  /-- What the call meets stays to the end, but for links and confirmations. -/
  keeps : ∀ {before a}, (before, a) ∈ s'.moments → before.Grows s'.state

theorem Query.unsettled?_ne_duplicate {q : Query} {a : q.Reply} {hash : String} :
    q.unsettled? a ≠ some (.duplicateTransaction hash) := by
  unfold unsettled?
  split <;> (try split) <;> exact nofun

theorem Answers.Explains.duplicate {N : Answers} {hash : String}
    (h : N.Explains (.duplicateTransaction hash)) : ∃ q, N q (.error (.duplicateTransaction hash)) := by
  cases h with
  | @failed q _ h =>
    obtain ⟨r, hr, hfault⟩ := h
    cases r with
    | ok a => exact absurd hfault Query.unsettled?_ne_duplicate
    | error e =>
      obtain rfl := Option.some.inj hfault
      exact ⟨q, hr⟩

namespace Shared

variable {s' : Shared Storage} {before : Storage} {l₁ l₂ : List (Storage × Access)}

/-- What follows an access does what it demands, in a store that has grown in the meantime. -/
theorem Orderly.demands_head {P : Access → Prop} (h : s'.Orderly P) {a : Access}
    (hmoments : s'.moments = l₁ ++ (before, a) :: l₂) {mo : Storage × Access} (hmo : mo ∈ l₂.head?) :
    (before.after a).Grows mo.1 ∧ before.Demands a mo.2 := by
  obtain ⟨l₃, rfl⟩ := List.head?_eq_some_iff.1 hmo
  have hchain := h.chain
  rw [hmoments, List.isChain_append_cons_cons] at hchain
  exact hchain.2.1

/-- A transaction that was refused is linked next. -/
theorem Settled.exists_link (h : s'.Settled) {t : Chain.Transaction} {r : Chain.Receipt} {b : Ledger.Block}
    (hmoments : s'.moments = l₁ ++ (before, .createTransaction t r b) :: l₂) {fault : Fault}
    (hrefused : before.answer (.createTransaction t r b) = .error fault) :
    ∃ before' l₃, l₂ = (before', .linkTransaction t.hash b r) :: l₃ ∧
      (before.after (.createTransaction t r b)).Grows before' := by
  obtain ⟨P, horderly, hP⟩ := h
  cases l₂ with
  | nil =>
    obtain ⟨b', hb'⟩ := hP t r b
    have hlast : (before, Access.createTransaction t r b) ∈ s'.moments.getLast? := by
      rw [hmoments, List.getLast?_concat]
      rfl
    cases horderly.next _ hlast _ hb' fault hrefused
  | cons mo l₃ =>
    obtain ⟨hgrows, hdemands⟩ := horderly.demands_head hmoments (show mo ∈ (mo :: l₃).head? from rfl)
    obtain ⟨before', a⟩ := mo
    obtain rfl : a = .linkTransaction t.hash b r := hdemands fault hrefused
    exact ⟨before', l₃, rfl, hgrows⟩

/-- A call whose own accesses are in order absorbs what the others do. -/
theorem Settled.absorbs (h : s'.Settled) {N : Answers} {result : Except Fault (List Ledger.Transaction)}
    (hexplains : ∀ {fault}, result = .error fault → N.Explains fault)
    (hreturned : ∀ {rows}, result = .ok rows → Returned rows s') : Absorbs N result s' := by
  have ⟨P, horderly, _⟩ := h
  have hmem {l₁ l₂ : List (Storage × Access)} {mo} (hmoments : s'.moments = l₁ ++ mo :: l₂) :
      mo ∈ s'.moments := by
    rw [hmoments]
    exact List.mem_append_right _ List.mem_cons_self
  exact {
    explains := hexplains
    duplicate := fun he => (hexplains he).duplicate
    merges := fun {l₁ l₂ before t r b old} hmoments hold => by
      obtain ⟨htidy, hkeeps⟩ := horderly.met _ (hmem hmoments)
      rcases htidy.answer_createTransaction t r (hkeeps b rfl) with ⟨-, hrefused, hsame⟩ | ⟨hnone, -⟩
      · obtain ⟨before', l₃, rfl, hgrows⟩ := h.exists_link hmoments hrefused
        have hmem' : (before', Access.linkTransaction t.hash b r) ∈ s'.moments := by
          rw [hmoments]
          exact List.mem_append_right _ (List.mem_cons_of_mem _ List.mem_cons_self)
        obtain ⟨htidy', hkeeps'⟩ := horderly.met _ hmem'
        obtain ⟨row, hrow, hlinks⟩ := hgrows.transaction ((hsame t.hash).trans hold)
        obtain ⟨hanswer, hafter⟩ := htidy'.answer_linkTransaction r (hkeeps' b rfl) hrow
        refine ⟨hrefused, hsame, before', l₃, row, rfl, ⟨hrow, hlinks, hanswer, hafter⟩, fun hok => ?_⟩
        refine (hreturned hok).written (List.mem_filterMap.2 ⟨_, hmem', ?_⟩)
        rw [Storage.written?, hanswer]
        rfl
      · cases hnone.symm.trans hold
    returned := fun hok => (hreturned hok).shown
    blocks := fun {l₁ l₂ before c confirmed b₀} hmoments hb₀ => by
      obtain ⟨b, hanswer, -, hget, hrise⟩ := (horderly.met _ (hmem hmoments)).1.answer_createBlock c confirmed
      exact ⟨b, hanswer, hrise b₀ hb₀, hget, fun mo hmo => (horderly.demands_head hmoments hmo).2 b hanswer⟩
    links := fun hmo hb => (horderly.met _ hmo).2 _ hb
    keeps := fun {before a} hmo =>
      ((horderly.met _ hmo).1.after a).1.trans (horderly.grows _ hmo) }

theorem absorbs_of_outcome {N : Answers} {result : Except Fault (List Ledger.Transaction)}
    (h : Outcome Returned (Failed N) result s') : Absorbs N result s' := by
  cases result with
  | ok rows =>
    exact (Returned.orderly h).settled.absorbs nofun fun hok => Except.ok.inj hok ▸ h
  | error fault =>
    exact (Failed.settled h).absorbs (fun herror => Except.error.inj herror ▸ Failed.explains h) nofun

end Shared

/-! ## Calls in a shared store -/

namespace Operation

variable {ν : Type}

/-- The answer to an operation on a store that others write to as well, with what it leaves behind. -/
def runShared (o : Operation) (service : Service) (node : Node ν) (n : ν) (s : Storage)
    (turns : List (List Access)) : Except Fault o.Reply × Routine.World ν (Shared Storage) :=
  (o.attempt service).run.run node Storage.store.shared ⟨n, { state := s, turns }⟩

/-- What the node answers in such an operation. -/
def heardShared (o : Operation) (service : Service) (node : Node ν) (n : ν) (s : Storage)
    (turns : List (List Access)) : Answers :=
  (o.attempt service).run.heard node Storage.store.shared ⟨n, { state := s, turns }⟩

/-- Whatever the others do on their turns, a question about one hash and one about many absorb it. -/
theorem absorbs_others (service : Service) (node : Node ν) (n : ν) {s : Storage} (hs : s.Reachable)
    (turns : List (List Access)) :
    (∀ hash, Absorbs ((transaction hash).heardShared service node n s turns)
      (((transaction hash).runShared service node n s turns).1.map fun row => [row])
      ((transaction hash).runShared service node n s turns).2.store) ∧
    ∀ hashes, Absorbs ((transactions hashes).heardShared service node n s turns)
      ((transactions hashes).runShared service node n s turns).1
      ((transactions hashes).runShared service node n s turns).2.store := by
  have hstart : Shared.Orderly { state := s, turns } fun _ => True := .start hs.tidy rfl _
  refine ⟨fun hash => Shared.absorbs_of_outcome ?_, fun hashes => Shared.absorbs_of_outcome ?_⟩
  · exact Outcome.map ((Resolve.ensuresShared_transaction hstart rfl (fun _ _ => id) fun _ _ => id) _ _ _
      (Routine.exec_run node Storage.store.shared _ ⟨n, { state := s, turns }⟩)).2
  · exact ((Resolve.ensuresShared_transactions hstart rfl (fun _ _ => id) fun _ _ => id) _ _ _
      (Routine.exec_run node Storage.store.shared _ ⟨n, { state := s, turns }⟩)).2

/-- Somebody stores the block with another time stamp before it is stored, and then the transaction with
another sender before that is stored: it is linked in place to the block that is there. -/
theorem absorbs_others_sample :
    let block := { Sample.block with timestamp := 0 }
    let pending := { Sample.transaction with sender := "0x09" }
    let turns : List (List Access) := [[], [.createBlock block false], [.createPending pending]]
    let call := (transactions ["0xaa"]).runShared Sample.service Sample.snapshot.node () .inMemory turns
    call.1 = .ok [(Ledger.Transaction.pending pending).link (.ofChain block true) Sample.receipt] ∧
      call.2.store.moments.map Prod.snd = [.getMined ["0xaa"], .createBlock Sample.block true,
        .createTransaction Sample.transaction Sample.receipt (.ofChain block true),
        .linkTransaction "0xaa" (.ofChain block true) Sample.receipt] ∧
      Absorbs ((transactions ["0xaa"]).heardShared Sample.service Sample.snapshot.node () .inMemory turns)
        call.1 call.2.store := by
  intro block pending turns call
  exact ⟨by decide +kernel, by decide +kernel,
    (absorbs_others Sample.service Sample.snapshot.node () .memory turns).2 ["0xaa"]⟩

end Operation

end ChainIndex
