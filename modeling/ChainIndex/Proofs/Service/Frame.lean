import ChainIndex.Proofs.Resolve.Frame
import ChainIndex.Proofs.Service.LookedUp

/-!
# Which rows a request touches

A request for a block or for transactions changes no row but under a hash that is asked for or that the
node's replies to it carry (`Operation.reaches_of_changed`), whether it succeeds or fails.  The hash in a
reply is not compared with the hash that was asked for: a node that reports another transaction has the
row of that one written (`Operation.changed_by_foreign_reply`).  Where replies carry the hashes they were
asked for, only requested rows are touched (`Operation.touches_requested`).
-/

namespace ChainIndex

open Text (canonical canonical_canonical)
open Resolve (WritesOnly)

/-! ## Requests -/

namespace Operation

/-- Whether an operation resolves a block or transactions. -/
def isRequest : Operation → Bool
  | block _ | transaction _ | transactions _ => true
  | _ => false

/-- The keys that a request reaches by what the node tells: those of what was told for a requested hash or
for the block hash named by it. -/
inductive Reaches : Answers → Operation → Key → Prop
  | block {N hash c} (hc : N.TellsBlock (canonical hash) c) : Reaches N (.block hash) (.block c.hash)
  | stored {N hash} : Reaches N (.transaction hash) (.transaction (canonical hash))
  | transaction {N hash t} (ht : N.TellsTransaction (canonical hash) t) :
    Reaches N (.transaction hash) (.transaction t.hash)
  | receiptBlock {N hash r name c} (hr : N.TellsReceipt (canonical hash) r) (hname : r.blockHash = some name)
    (hc : N.TellsBlock (canonical name) c) : Reaches N (.transaction hash) (.block c.hash)
  | transactions {N hashes hash t} (hmem : hash ∈ hashes) (ht : N.TellsTransaction (canonical hash) t) :
    Reaches N (.transactions hashes) (.transaction t.hash)
  | transactionBlock {N hashes hash t name c} (hmem : hash ∈ hashes)
    (ht : N.TellsTransaction (canonical hash) t) (hname : t.blockHash = some name)
    (hc : N.TellsBlock (canonical name) c) : Reaches N (.transactions hashes) (.block c.hash)

/-- The keys that a request names, up to case and blanks: the requested hashes, and the block hashes named
by what was told for them. -/
inductive Requests : Answers → Operation → Key → Prop
  | block {N hash key} (h : canonical key = canonical hash) : Requests N (.block hash) (.block key)
  | transaction {N hash key} (h : canonical key = canonical hash) :
    Requests N (.transaction hash) (.transaction key)
  | receiptBlock {N hash r name key} (hr : N.TellsReceipt (canonical hash) r)
    (hname : r.blockHash = some name) (h : canonical key = canonical name) :
    Requests N (.transaction hash) (.block key)
  | transactions {N hashes hash key} (hmem : hash ∈ hashes) (h : canonical key = canonical hash) :
    Requests N (.transactions hashes) (.transaction key)
  | transactionBlock {N hashes hash t name key} (hmem : hash ∈ hashes)
    (ht : N.TellsTransaction (canonical hash) t) (hname : t.blockHash = some name)
    (h : canonical key = canonical name) : Requests N (.transactions hashes) (.block key)

theorem Reaches.mono {N N' : Answers} {o : Operation} {key : Key} (h : Reaches N o key)
    (hN : ∀ q r, N q r → N' q r) : Reaches N' o key := by
  cases h with
  | block hc => exact .block (hc.mono hN)
  | stored => exact .stored
  | transaction ht => exact .transaction (ht.mono hN)
  | receiptBlock hr hname hc => exact .receiptBlock (hr.mono hN) hname (hc.mono hN)
  | transactions hmem ht => exact .transactions hmem (ht.mono hN)
  | transactionBlock hmem ht hname hc => exact .transactionBlock hmem (ht.mono hN) hname (hc.mono hN)

end Operation

/-- Whatever is told for a hash carries it, up to case and blanks. -/
structure Answers.Corresponds (N : Answers) : Prop where
  block : ∀ {asked c}, N.TellsBlock asked c → canonical c.hash = canonical asked
  transaction : ∀ {asked t}, N.TellsTransaction asked t → canonical t.hash = canonical asked

/-- Where replies carry the hashes they were asked for, only requested keys are reached. -/
theorem Operation.Reaches.requests {N : Answers} {o : Operation} {key : Key} (h : Reaches N o key)
    (hN : N.Corresponds) : Requests N o key := by
  have hcanonical {hash told : String} (h : canonical told = canonical (canonical hash)) :
      canonical told = canonical hash := h.trans (canonical_canonical hash)
  cases h with
  | block hc => exact .block (hcanonical (hN.block hc))
  | stored => exact .transaction (canonical_canonical _)
  | transaction ht => exact .transaction (hcanonical (hN.transaction ht))
  | receiptBlock hr hname hc => exact .receiptBlock hr hname (hcanonical (hN.block hc))
  | transactions hmem ht => exact .transactions hmem (hcanonical (hN.transaction ht))
  | transactionBlock hmem ht hname hc =>
    exact .transactionBlock hmem ht hname (hcanonical (hN.block hc))

/-! ## What is written -/

section

variable {σ : Type} {R : Conduct σ} {es : List Event} {s : σ}

/-- A request writes rows under reached keys only. -/
theorem Operation.writesOnly (service : Service) {o : Operation} (h : o.isRequest = true) :
    WritesOnly R (fun N => Reaches N o) (o.attempt service) es s := by
  cases o with
  | block hash => exact Resolve.writesOnly_block fun es' _ c hc => .block hc
  | transaction hash =>
    exact Resolve.writesOnly_transaction (fun N r name c hr hname hc => .receiptBlock hr hname hc)
      ⟨fun N => .stored, fun N t ht => .transaction ht⟩
  | transactions hashes =>
    refine Resolve.writesOnly_transactions ⟨fun {N hash t} hmem ht => ?_,
      fun {N hash t name c} hmem ht hname hc => ?_⟩
    · obtain ⟨asked, hasked, rfl⟩ := Resolve.mem_distinct.1 hmem
      exact .transactions hasked ht
    · obtain ⟨asked, hasked, rfl⟩ := Resolve.mem_distinct.1 hmem
      obtain ⟨spelled, hspelled, rfl⟩ := Option.map_eq_some_iff.1 hname
      exact .transactionBlock hasked ht hspelled hc
  | _ => cases h

end

namespace Storage

/-- A look-up finds the same under a key in both stores. -/
def SameRow (s s' : Storage) : Key → Prop
  | .block hash => s'.answer (.getBlock hash) = s.answer (.getBlock hash)
  | .transaction hash => s'.answer (.getTransaction hash) = s.answer (.getTransaction hash)
  | .internalTx key => s'.derived.internalTxs.get? key = s.derived.internalTxs.get? key

variable {s s₁ s₂ : Storage} {key : Key}

theorem SameRow.refl (s : Storage) (key : Key) : s.SameRow s key := by
  cases key <;> rfl

theorem SameRow.trans (h : s.SameRow s₁ key) (h' : s₁.SameRow s₂ key) : s.SameRow s₂ key := by
  cases key <;> exact Eq.trans h' h

theorem sameRow_after {a : Access} (h : ¬ a.Writes key) : s.SameRow (s.after a) key := by
  cases s with
  | memory s =>
    have hsame : s.live.SameRow (Memory.access a s.live).2 key := Memory.sameRow_access h
    cases key with
    | block hash => exact congrArg Except.ok hsame
    | transaction hash => exact congrArg Except.ok hsame
    | internalTx key => exact hsame
  | database path? s =>
    have hsame : s.live.SameRow (Relational.access a s.live).2 key := Relational.sameRow_access h
    cases key with
    | block hash => exact congrArg (fun row? => Except.ok (Option.map Relational.BlockRow.decode row?)) hsame
    | transaction hash => exact hsame.getTransaction
    | internalTx key => exact hsame

end Storage

/-- Whatever a request changes is under a key that it reaches by what the node told it, and no other row is
touched, whether it succeeds or fails. -/
theorem Operation.reaches_of_changed {ν : Type} (service : Service) {o : Operation}
    (ho : o.isRequest = true) (node : Node ν) (n : ν) (s : Storage) {key : Key}
    (h : ¬ s.SameRow (o.run service node ⟨n, s⟩).2.store key) :
    Reaches (heardIn (o.history service node ⟨n, s⟩)) o key := by
  have hguarded : (o.attempt service).run.Guarded Storage.store.conduct
      (WithinReach fun N => Reaches N o) [] s fun _ _ _ => True :=
    (o.writesOnly service ho).routine
  -- Along the request, only rows under keys that are reached by then have changed.
  obtain ⟨hsame, -⟩ := hguarded.keeps
    (I := fun es s₁ => ∀ key, ¬ Reaches (heardIn es) o key → s.SameRow s₁ key)
    (fun {es s₁ q r} hI _ key hkey => hI key fun hreach =>
      hkey (hreach.mono (heardIn_mono (List.prefix_append _ _))))
    (fun {es s₁ a r s₂} hI hG hR key hkey => by
      have hbefore : ¬ Reaches (heardIn es) o key := fun hreach =>
        hkey (hreach.mono (heardIn_mono (List.prefix_append _ _)))
      cases a with
      | access a =>
        obtain rfl : s₁.after a = s₂ := congrArg Prod.snd hR
        exact (hI key hbefore).trans (Storage.sameRow_after fun hwrites => hbefore (hG key hwrites))
      | _ => exact hG.elim)
    (fun key _ => .refl s key) (Routine.exec_run node Storage.store _ ⟨n, s⟩)
  by_contra hnot
  exact h (hsame key hnot)

/-! ## What is returned -/

namespace Resolve

open Attempt

variable {N : Answers} {s : Session Memory} {policy : ConfirmationPolicy} {hash : String}

/-- What is ensured whatever is written on the way. -/
abbrev Returns (N : Answers) {α : Type} (t : Attempt α) (s : Session Memory)
    (Q : α → Session Memory → Prop) : Prop :=
  t.Ensures N Session.Effect (fun _ _ _ => True) s Q fun _ _ => True

theorem returns_access {a : Access} {Q : a.Reply → Session Memory → Prop} (hs : s.Tidy)
    (h : ∀ r m, a.Effect s.live (.ok r) m → Session.Tidy { s with live := m } → Q r { s with live := m }) :
    Returns N a.perform s Q := by
  refine ensures_access fun r m he => ⟨?_, ?_⟩
  · cases a <;> trivial
  · cases r with
    | ok r => exact h r m he (hs.step (a := .access a) (r := .ok r) ⟨m, he, rfl⟩)
    | error e => trivial

theorem returns_block (hs : s.Tidy) : Returns N (block policy hash) s
    fun b s' => s'.Tidy ∧ (b.blockHash = canonical hash ∨ N.Names (canonical hash) b) := by
  refine ensures_bind (returns_access hs fun b? m he hs₁ => ?_)
  cases he
  show Returns N _ s _
  cases hb : s.live.blocks.get? (canonical hash) with
  | some b => exact ensures_pure ⟨hs, .inl (hs.live.blockHash hb)⟩
  | none =>
    refine ensures_bind (ensures_send (fun head _ => ?_) fun _ _ => trivial)
    refine ensures_bind (ensures_send (fun first hN => ?_) fun _ _ => trivial)
    refine ensures_bind (ensures_settleBlock (fun c hc => .inl (hc ▸ hN)) (fun c hc => ?_)
      fun _ _ => trivial)
    refine returns_access hs fun b m he hs' => ⟨hs', .inr ⟨c, hc, ?_⟩⟩
    cases he
    exact Memory.blockHash_createBlock _ _ _ fun hold => hs.live.blockHash hold

theorem returns_receiptAndBlock (hs : s.Tidy) :
    Returns N (receiptAndBlock policy hash) s fun _ s' => s'.Tidy := by
  refine ensures_bind (ensures_send (fun first hN => ?_) fun _ _ => trivial)
  refine ensures_bind (ensures_settleReceipt (fun r hr => .inl (hr ▸ hN)) (fun r name _ _ => ?_)
    fun _ _ => trivial)
  exact ensures_bind ((returns_block hs).mono (fun b s' hend => ensures_pure hend.1) fun _ _ _ => trivial)

theorem returns_linkTransaction {b : Ledger.Block} {r : Chain.Receipt} (hs : s.Tidy) :
    Returns N (Access.linkTransaction hash b r).perform s fun row _ => row.txHash = hash := by
  refine returns_access hs fun row m he _ => ?_
  rcases he with he | ⟨-, herror, -⟩
  · rcases Memory.linkTransaction_cases he with ⟨-, herror, -⟩ | ⟨t, ht, heq, -⟩
    · cases herror
    · cases heq
      have hhash : t.txHash = hash := hs.live.txHash ht
      exact hhash
  · cases herror

theorem returns_createOrLink {t : Chain.Transaction} {r : Chain.Receipt} {b : Ledger.Block} (hs : s.Tidy) :
    Returns N (createOrLink t r b) s fun row _ => row.txHash = t.hash := by
  refine ensures_tryCatch (ensures_access fun reply m he => ⟨trivial, ?_⟩)
  cases reply with
  | ok row =>
    rcases he with he | ⟨-, herror, -⟩
    · rcases Memory.addTransaction_cases he with ⟨_, -, herror, -⟩ | ⟨-, heq, -⟩
      · cases herror
      · cases heq
        rfl
    · cases herror
  | error e =>
    have hs' : Session.Tidy { s with live := m } :=
      hs.step (a := .access (.createTransaction t r b)) ⟨m, he, rfl⟩
    show Returns N (if e.isDuplicate = true then _ else _) _ _
    split
    · exact returns_linkTransaction hs'
    · exact ensures_throw trivial

theorem returns_transaction (hs : s.Tidy) : Returns N (transaction policy hash) s fun row _ =>
    row.txHash = canonical hash ∨ ∃ t, N.TellsTransaction (canonical hash) t ∧ row.txHash = t.hash := by
  refine ensures_bind (returns_access hs fun row? m he hs₁ => ?_)
  cases he
  show Returns N _ s _
  cases hrow : s.live.transactions.get? (canonical hash) with
  | some row =>
    show Returns N (if row.isMined = true then _ else _) s _
    split
    · exact ensures_pure (.inl (hs.live.txHash hrow))
    · refine ensures_bind ((returns_receiptAndBlock hs).mono (fun rb s₁ hs₁ => ?_) fun _ _ _ => trivial)
      exact (returns_linkTransaction hs₁).mono (fun _ _ heq => .inl heq) fun _ _ _ => trivial
  | none =>
    refine ensures_bind ((returns_receiptAndBlock hs).mono (fun rb s₁ hs₁ => ?_) fun _ _ _ => trivial)
    refine ensures_bind (ensures_send (fun first hN => ?_) fun _ _ => trivial)
    refine ensures_bind (ensures_settleTransaction (fun t ht => .inl (ht ▸ hN)) (fun t _ ht _ => ?_)
      fun _ _ => trivial)
    exact (returns_createOrLink hs₁).mono (fun _ _ heq => .inr ⟨t, ht, heq⟩) fun _ _ _ => trivial

end Resolve

/-! ## Requested rows -/

namespace Operation

variable {ν : Type} {service : Service} {node : Node ν} {n : ν} {s : Storage} {hash : String}

theorem exists_returned {o : Operation} (hs : s.AllTidy) {a : o.Reply}
    (hrun : (o.run service node ⟨n, s⟩).1 = .ok a) {Q : o.Reply → Session Memory → Prop}
    (h : ∀ {t : Session Memory}, t.Tidy →
      Resolve.Returns (heardIn (o.history service node ⟨n, s⟩)) (o.attempt service) t Q) :
    ∃ t, Q a t := by
  obtain ⟨t, hrep, ht⟩ := hs
  have hok : ((o.attempt service).run.run node Storage.store ⟨n, s⟩).1 = .ok a := hrun
  obtain ⟨t', -, hend⟩ :=
    Storage.exists_outcome (w := (⟨n, s⟩ : Routine.World ν Storage)) (fun _ _ hN => hN.1) hrep (h ht)
  rw [hok] at hend
  exact ⟨t', hend⟩

/-- Of a node whose replies carry the hashes they were asked for, the requested block is returned. -/
theorem blockHash_of_ok (hs : s.AllTidy) {b : Ledger.Block}
    (hN : (heardIn ((block hash).history service node ⟨n, s⟩)).Corresponds)
    (hrun : ((block hash).run service node ⟨n, s⟩).1 = .ok b) : canonical b.blockHash = canonical hash := by
  obtain ⟨-, -, heq | ⟨c, hc, heq⟩⟩ := exists_returned hs hrun Resolve.returns_block
  · rw [heq, canonical_canonical]
  · rw [heq, hN.block hc, canonical_canonical]

theorem txHash_of_ok (hs : s.AllTidy) {row : Ledger.Transaction}
    (hN : (heardIn ((transaction hash).history service node ⟨n, s⟩)).Corresponds)
    (hrun : ((transaction hash).run service node ⟨n, s⟩).1 = .ok row) :
    canonical row.txHash = canonical hash := by
  obtain ⟨-, heq | ⟨t, ht, heq⟩⟩ := exists_returned hs hrun Resolve.returns_transaction
  · rw [heq, canonical_canonical]
  · rw [heq, hN.transaction ht, canonical_canonical]

/-- A request touches no row but those that it reaches by what the node told it.  If replies carry the
hashes they were asked for, these are rows that the request names, and the row that is returned for a
single hash carries that hash. -/
theorem touches_requested (service : Service) (node : Node ν) (n : ν) (s : Storage) :
    (∀ {o : Operation} {key : Key}, o.isRequest = true →
      ¬ s.SameRow (o.run service node ⟨n, s⟩).2.store key →
      Reaches (heardIn (o.history service node ⟨n, s⟩)) o key ∧
      ((heardIn (o.history service node ⟨n, s⟩)).Corresponds →
        Requests (heardIn (o.history service node ⟨n, s⟩)) o key)) ∧
    ∀ {hash : String}, s.AllTidy →
      (∀ {b}, (heardIn ((block hash).history service node ⟨n, s⟩)).Corresponds →
        ((block hash).run service node ⟨n, s⟩).1 = .ok b → canonical b.blockHash = canonical hash) ∧
      ∀ {row}, (heardIn ((transaction hash).history service node ⟨n, s⟩)).Corresponds →
        ((transaction hash).run service node ⟨n, s⟩).1 = .ok row →
        canonical row.txHash = canonical hash := by
  refine ⟨fun ho hchanged => ?_, fun hs => ⟨blockHash_of_ok hs, txHash_of_ok hs⟩⟩
  have hreach := reaches_of_changed service ho node n s hchanged
  exact ⟨hreach, hreach.requests⟩

end Operation

namespace Sample

theorem corresponds_snapshot : snapshot.node.answers.Corresponds where
  block {asked c} hc := by
    have hanswer := Snapshot.block_of_tells (hc.mono fun _ _ => Snapshot.answers_of_node)
    have hif : (if asked = "0xb7" then some block else none) = some c := Except.ok.inj hanswer
    split at hif
    · rename_i heq
      cases hif
      rw [heq]
      rfl
    · cases hif
  transaction {asked t} ht := by
    have hanswer := Snapshot.transaction_of_tells (ht.mono fun _ _ => Snapshot.answers_of_node)
    have hif : (if asked = "0xaa" then some transaction else none) = some t := Except.ok.inj hanswer
    split at hif
    · rename_i heq
      cases hif
      rw [heq]
      rfl
    · cases hif

theorem corresponds_history (o : Operation) (s : Storage) :
    (heardIn (o.history service snapshot.node ⟨(), s⟩)).Corresponds :=
  ⟨fun hc => corresponds_snapshot.block (hc.mono fun _ _ => Routine.answers_of_mem_history),
    fun ht => corresponds_snapshot.transaction (ht.mono fun _ _ => Routine.answers_of_mem_history)⟩

/-- A node that reports another transaction for every hash. -/
def foreign : Node Unit := .steady 20 block { transaction with hash := "0xbb" } receipt

end Sample

namespace Operation

/-- A request for a transaction stores it and its block, and returns it; so does a request for the block. -/
theorem touches_requested_sample :
    let o := transaction " 0xAA"
    let w := o.run Sample.service Sample.snapshot.node ⟨(), .inMemory⟩
    let N := heardIn (o.history Sample.service Sample.snapshot.node ⟨(), .inMemory⟩)
    ¬ Storage.inMemory.SameRow w.2.store (.transaction "0xaa") ∧
      ¬ Storage.inMemory.SameRow w.2.store (.block "0xb7") ∧ N.Corresponds ∧
      Requests N o (.transaction "0xaa") ∧ Requests N o (.block "0xb7") ∧ Storage.inMemory.AllTidy ∧
      w.1 = .ok Sample.row ∧ canonical Sample.row.txHash = canonical " 0xAA" ∧
      ∃ b, ((block "0xB7").run Sample.service Sample.snapshot.node ⟨(), .inMemory⟩).1 = .ok b ∧
        canonical b.blockHash = canonical "0xB7" := by
  intro o w N
  have htransaction : ¬ Storage.inMemory.SameRow w.2.store (.transaction "0xaa") := by
    intro hsame
    have hanswer : w.2.store.answer (.getTransaction "0xaa") = .ok (some Sample.row) := by decide +kernel
    cases hanswer.symm.trans hsame
  have hblock : ¬ Storage.inMemory.SameRow w.2.store (.block "0xb7") := by
    intro hsame
    have hanswer : w.2.store.answer (.getBlock "0xb7") = .ok (some (.ofChain Sample.block true)) := by
      decide +kernel
    cases hanswer.symm.trans hsame
  have hN : N.Corresponds := Sample.corresponds_history o .inMemory
  have htidy : Storage.inMemory.AllTidy := Storage.Reachable.memory.allTidy
  have hrun : w.1 = .ok Sample.row := by decide +kernel
  have hrunBlock : ((block "0xB7").run Sample.service Sample.snapshot.node ⟨(), .inMemory⟩).1 =
      .ok (.ofChain Sample.block true) := by decide +kernel
  obtain ⟨htouches, hreturns⟩ :=
    touches_requested Sample.service Sample.snapshot.node () Storage.inMemory
  exact ⟨htransaction, hblock, hN, (htouches rfl htransaction).2 hN, (htouches rfl hblock).2 hN, htidy, hrun,
    (hreturns htidy).2 hN hrun, _, hrunBlock, (hreturns htidy).1 (Sample.corresponds_history _ _) hrunBlock⟩

/-- A node that reports another transaction than it was asked for has that one stored and returned; asked for
several, the request fails, and yet the other transaction was stored. -/
theorem changed_by_foreign_reply :
    let single := (transaction "0xaa").run Sample.service Sample.foreign ⟨(), .inMemory⟩
    let several := (transactions ["0xaa"]).run Sample.service Sample.foreign ⟨(), .inMemory⟩
    ¬ Storage.inMemory.SameRow single.2.store (.transaction "0xbb") ∧
      (∀ N, ¬ Requests N (transaction "0xaa") (.transaction "0xbb")) ∧
      (∃ row, single.1 = .ok row ∧ canonical row.txHash ≠ canonical "0xaa") ∧
      several.1 = .error (.transactionNotFound "0xaa") ∧
      ¬ Storage.inMemory.SameRow several.2.store (.transaction "0xbb") ∧
      ∀ N, ¬ Requests N (transactions ["0xaa"]) (.transaction "0xbb") := by
  intro single several
  have hother : canonical "0xbb" ≠ canonical "0xaa" := by decide +kernel
  let row : Ledger.Transaction := { Sample.row with txHash := "0xbb" }
  refine ⟨fun hsame => ?_, fun N hrequests => ?_, ⟨row, by decide +kernel, hother⟩, by decide +kernel,
    fun hsame => ?_, fun N hrequests => ?_⟩
  · have hanswer : single.2.store.answer (.getTransaction "0xbb") = .ok (some row) := by decide +kernel
    cases hanswer.symm.trans hsame
  · cases hrequests with
    | transaction h => exact hother h
  · have hanswer : several.2.store.answer (.getTransaction "0xbb") = .ok (some row) := by decide +kernel
    cases hanswer.symm.trans hsame
  · cases hrequests with
    | transactions hmem h =>
      rw [List.mem_singleton.1 hmem] at h
      exact hother h

end Operation

end ChainIndex
