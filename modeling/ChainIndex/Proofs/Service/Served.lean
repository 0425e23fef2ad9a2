import ChainIndex.Proofs.Service.Course
import ChainIndex.Proofs.Service.Local

/-!
# What was resolved is served from the store

Once a transaction was resolved, its row stays as it is, and nobody asks about it any more: whoever
resolves it later, under whatever spelling of its hash, gets the row from the store.  So does who resolves
a block, but that it may have been confirmed in the meantime.  This holds as long as what the node reports
carries the hash that it was asked for, however else its answers change.
-/

namespace ChainIndex

open Text (canonical canonical_canonical)

/-! ## What resolving leaves in the store -/

namespace Resolve

open Attempt

variable {N : Answers} {s s' : Session Memory} {hash : String} {row : Ledger.Transaction}

theorem Resolved.get? (h : Resolved N hash s row s') (hs : s.Sound) (hN : N.Echoes)
    (hlower : Text.lower hash = hash) :
    s'.live.transactions.get? hash = some row ∧ row.isMined = true := by
  cases h with
  | stored hrow hmined => exact ⟨hrow, hmined⟩
  | @linked row₀ r b s₁ hrow hmined hblock =>
    have hhash : row₀.txHash = hash := hs.live.txHash hrow
    replace hhash : (row₀.link b r).txHash = hash := hhash
    exact ⟨by rw [Session.get?_put, if_pos hhash.symm], rfl⟩
  | @created t r b s₁ hnone hblock ht hnamed =>
    obtain ⟨name, -, hb⟩ := hblock.block
    have hhash : (s₁.live.linkedRow t r b).txHash = hash := by
      rw [hb.sound.live.txHash_linkedRow, hN.transaction ht, hlower]
    exact ⟨by rw [Session.get?_put, if_pos hhash.symm], rfl⟩

theorem Answered.get? {hashes : List String} {known fetched rows : List Ledger.Transaction}
    {found : List Found} (h : Answered N s hashes known found fetched rows s') (hs : s.Sound)
    (hN : ∀ ⦃hash t⦄, N.TellsTransaction hash t → t.hash = Text.lower hash)
    (hrow : rowOf? (known ++ fetched) hash = some row) :
    s'.live.transactions.get? hash = some row ∧ row.isMined = true := by
  obtain ⟨hcanon, hmined, hget⟩ := h.of_rowOf? hs hrow
  have hspelled : canonical row.txHash = row.txHash := by
    rcases List.mem_append.1 (mem_of_rowOf? hrow).1 with hmem | hmem
    · exact canonical_of_mem_distinct (h.of_mem_known hs hmem).2.1
    · obtain ⟨f, hf, hhash, -⟩ := exists_of_mem_right h.linked.forall₂_rows hmem
      obtain ⟨asked, hasked, hfor⟩ := exists_of_mem_right h.foundFor hf
      have hcanon : canonical asked = asked := canonical_of_mem_distinct (mem_missing.1 hasked).1
      rw [hhash, hN hfor.transaction, ← hcanon, Text.lower_canonical, canonical_canonical]
  rw [← hcanon, hspelled]
  exact ⟨hget, hmined⟩

theorem ensures_block_get? (policy : ConfirmationPolicy) (hN : N.Echoes) (hash : String) :
    (block policy hash).Ensures N Session.Effect (fun _ _ _ => True) s
      (fun b s' => s'.live.blocks.get? (canonical hash) = some b) fun _ _ => True := by
  refine ensures_bind (ensures_access fun r m he => ⟨trivial, ?_⟩)
  cases he
  show Ensures N Session.Effect _ _ s _ _
  cases hb : s.live.blocks.get? (canonical hash) with
  | some b => exact ensures_pure hb
  | none =>
    refine ensures_bind (ensures_send (fun head _ => ?_) fun _ _ => trivial)
    refine ensures_bind (ensures_send (fun first hfirst => ?_) fun _ _ => trivial)
    refine ensures_bind (ensures_settleBlock (fun c hc => .inl (hc ▸ hfirst)) (fun c hc => ?_)
      fun _ _ => trivial)
    refine ensures_access fun r m he => ⟨trivial, ?_⟩
    cases he
    have hhash : canonical hash = c.hash := by rw [hN.block hc, Text.lower_canonical]
    exact (s.live.get?_createBlock c _ _).trans (if_pos hhash)

end Resolve

/-! ## What operations return -/

/-- What an operation returns includes a row for a hash. -/
inductive Operation.Returns (hash : String) (row : Ledger.Transaction) : (o : Operation) → o.Reply → Prop
  | transaction {asked : String} (h : canonical asked = hash) : Returns hash row (.transaction asked) row
  | transactions {hashes : List String} {rows : List Ledger.Transaction}
    (h : (hash, row) ∈ (Resolve.distinct hashes).zip rows) : Returns hash row (.transactions hashes) rows

/-- An operation returns the row of a block for a hash. -/
inductive Operation.ReturnsBlock (hash : String) (b : Ledger.Block) : (o : Operation) → o.Reply → Prop
  | block {asked : String} (h : canonical asked = hash) : ReturnsBlock hash b (.block asked) b

namespace Storage

/-! ## Courses keep what was resolved -/

section

variable {s s' : Storage} {es : List Event} {hash : String}

/-- A course of the engine, by whatever services. -/
abbrev Engine (s : Storage) (es : List Event) (s' : Storage) : Prop :=
  Course (fun _ o => o.isCall = true) s es s'

/-- What grounded moves keep is kept along a course of the engine. -/
theorem Engine.keeps {I : List Event → Session Memory → Prop}
    (hask : ∀ {es t q r policy}, I es t → Grounded policy es t (.ask q) → I (es ++ [.asked q r]) t)
    (hact : ∀ {es t a r t' policy}, I es t → Grounded policy es t (.act a) → Session.Effect a t r t' →
      I (es ++ [.did a r]) t')
    (h : Engine s es s') {t : Session Memory} (hrep : s.Represents t) (hidle : t.Idle) (hI : I [] t) :
    ∃ t', s'.Represents t' ∧ I es t' := by
  have hsim {a : Action} {s : Storage} {r : Except Fault a.Reply} {s' : Storage} {t : Session Memory}
      (hrep : s.Represents t) (hconduct : store.conduct a s r s') :
      ∃ t', Session.Effect a t r t' ∧ s'.Represents t' :=
    exists_effect hrep hconduct
  obtain ⟨t', hrep', -, hI'⟩ := Course.keeps (G := fun es t m => ∃ policy, Grounded policy es t m) hsim
    (fun {service o} hcall {es t} ht =>
      (o.grounded service hcall ht).imp (fun hR => hR) fun hG => ⟨_, hG⟩)
    (fun hI ⟨_, hG⟩ => hask hI hG) (fun hI ⟨_, hG⟩ => hact hI hG) h hrep hidle hI
  exact ⟨t', hrep', hI'⟩

/-- A stored block stays stored, but it may become confirmed. -/
theorem Engine.risesTo (h : Engine s es s') (hs : s.Reachable) {b : Ledger.Block}
    (hb : s.answer (.getBlock hash) = .ok (some b)) :
    ∃ b', s'.answer (.getBlock hash) = .ok (some b') ∧ b.RisesTo b' := by
  obtain ⟨t, hrep, -, hidle⟩ := hs.exists_idle
  rw [answer_getBlock hrep] at hb
  have hact {es : List Event} {t : Session Memory} {a : Action} {r : Except Fault a.Reply}
      {t' : Session Memory} {policy : ConfirmationPolicy}
      (hI : t.Calm ∧ ∃ b', t.live.blocks.get? hash = some b' ∧ b.RisesTo b')
      (hG : Grounded policy es t (.act a)) (he : Session.Effect a t r t') :
      t'.Calm ∧ ∃ b', t'.live.blocks.get? hash = some b' ∧ b.RisesTo b' := by
    obtain ⟨hcalm, b', hb', hrise⟩ := hI
    obtain ⟨hcalm', haccess | ⟨hblocks, -⟩⟩ := hG.calm hcalm he
    · obtain ⟨access, rfl⟩ := haccess
      obtain ⟨m, heffect, rfl⟩ := he
      obtain ⟨b'', hb'', hrise'⟩ := heffect.block hb'
      exact ⟨hcalm', b'', hb'', hrise.trans hrise'⟩
    · exact ⟨hcalm', b', hblocks ▸ hb', hrise⟩
  obtain ⟨t', hrep', -, b', hb', hrise⟩ := Engine.keeps (fun hI _ => hI) hact h hrep hidle
    ⟨Session.calm_of_none hidle.staged, b, Except.ok.inj hb, .refl b⟩
  exact ⟨b', by rw [answer_getBlock hrep', hb'], hrise⟩

/-- What is known of a linked transaction after some events, as long as what was reported carries the
hash that was asked for: its row is as it was, and nobody asked about it. -/
def Kept (hash : String) (row : Ledger.Transaction) (es : List Event) (t : Session Memory) : Prop :=
  (heardIn es).Echoes → t.Calm ∧ t.live.transactions.get? hash = some row ∧
    ∀ q r, .asked q r ∈ es → hash ∉ q.wanted

theorem Kept.ask {row : Ledger.Transaction} {t : Session Memory} {policy : ConfirmationPolicy}
    (hmined : row.isMined = true) (h : Kept hash row es t) {q : Query}
    (hG : Grounded policy es t (.ask q)) (r : Except Fault q.Reply) :
    Kept hash row (es ++ [.asked q r]) t := by
  intro hN
  obtain ⟨hcalm, hget, hunasked⟩ := h (hN.mono (heardIn_mono (List.prefix_append _ _)))
  refine ⟨hcalm, hget, fun q' r' hmem hwanted => ?_⟩
  rcases List.mem_append.1 hmem with hmem | hmem
  · exact hunasked q' r' hmem hwanted
  · cases List.mem_singleton.1 hmem
    exact hG hash hwanted ⟨row, hget, hmined⟩

theorem Kept.act {row : Ledger.Transaction} {t t' : Session Memory} {policy : ConfirmationPolicy}
    (hmined : row.isMined = true) (h : Kept hash row es t) {a : Action} {r : Except Fault a.Reply}
    (hG : Grounded policy es t (.act a)) (he : Session.Effect a t r t') :
    Kept hash row (es ++ [.did a r]) t' := by
  intro hN
  have hbefore : (heardIn es).Echoes := hN.mono (heardIn_mono (List.prefix_append _ _))
  obtain ⟨hcalm, hget, hunasked⟩ := h hbefore
  obtain ⟨hcalm', hsame⟩ := hG.calm hcalm he
  refine ⟨hcalm', ?_, fun q' r' hmem => ?_⟩
  · rcases hsame with haccess | ⟨-, htransactions⟩
    · obtain ⟨access, rfl⟩ := haccess
      obtain ⟨m, heffect, rfl⟩ := he
      rcases heffect.transaction hash with heq | ⟨hnone, -⟩ | ⟨b, receipt, t₀, rfl, -, -⟩
      · exact heq.trans hget
      · rw [hget] at hnone
        cases hnone
      · -- The guard lets nobody link a transaction again.
        exact absurd ⟨row, hget, hmined⟩ (hG.2 hbefore)
    · exact htransactions ▸ hget
  · rcases List.mem_append.1 hmem with hmem | hmem
    · exact hunasked q' r' hmem
    · cases List.mem_singleton.1 hmem

/-- A linked transaction stays as it is, and nobody asks about it, as long as what is reported carries
the hash that was asked for. -/
theorem Engine.keepsLinked (h : Engine s es s') (hs : s.Reachable) {row : Ledger.Transaction}
    (hrow : s.answer (.getTransaction hash) = .ok (some row)) (hmined : row.isMined = true)
    (hN : (heardIn es).Echoes) : s'.answer (.getTransaction hash) = .ok (some row) ∧
      ∀ q r, .asked q r ∈ es → hash ∉ q.wanted := by
  obtain ⟨t, hrep, -, hidle⟩ := hs.exists_idle
  rw [answer_getTransaction hrep] at hrow
  have hstart : Kept hash row [] t := fun _ =>
    ⟨Session.calm_of_none hidle.staged, Except.ok.inj hrow, fun _ _ hmem => nomatch hmem⟩
  obtain ⟨t', hrep', hkept⟩ := Engine.keeps (fun hI hG => Kept.ask hmined hI hG _)
    (fun hI hG he => Kept.act hmined hI hG he) h hrep hidle hstart
  obtain ⟨-, hget, hunasked⟩ := hkept hN
  exact ⟨by rw [answer_getTransaction hrep', hget], hunasked⟩

end

/-! ## What was returned is in the store -/

section

variable {s : Storage} {ν : Type} {o : Operation} {service : Service} {node : Node ν} {n : ν}
  {reply : o.Reply} {hash : String}

theorem exists_of_ok {N : Answers} {t : Session Memory} {Q : o.Reply → Session Memory → Prop}
    (hrep : s.Represents t) (hN : ∀ q r, .asked q r ∈ o.history service node ⟨n, s⟩ → N q r)
    (h : (o.attempt service).Ensures N Session.Effect (fun _ _ _ => True) t Q fun _ _ => True)
    (hok : (o.run service node ⟨n, s⟩).1 = .ok reply) :
    ∃ t', (o.run service node ⟨n, s⟩).2.store.Represents t' ∧ Q reply t' := by
  obtain ⟨t', hrep', hend⟩ := exists_outcome (fun q r hheard => hN q r hheard.1) hrep h
  change Outcome Q _ (o.run service node ⟨n, s⟩).1 t' at hend
  rw [hok] at hend
  exact ⟨t', hrep', hend⟩

/-- A row that was returned for a hash stands under the hash, and is linked. -/
theorem Reachable.linked_of_returns (h : s.Reachable)
    (hok : (o.run service node ⟨n, s⟩).1 = .ok reply) {row : Ledger.Transaction}
    (hreturns : o.Returns hash row reply) (hN : (heardIn (o.history service node ⟨n, s⟩)).Echoes) :
    (o.run service node ⟨n, s⟩).2.store.answer (.getTransaction hash) = .ok (some row) ∧
      row.isMined = true := by
  obtain ⟨t, hrep, hs⟩ := h.sound
  cases hreturns with
  | @transaction asked hasked =>
    subst hasked
    obtain ⟨t', hrep', hget, hmined⟩ := exists_of_ok hrep (fun _ _ hq => hq)
      (Resolve.ensures_transaction hs (fun _ _ => trivial)
        (fun row t' hresolved => hresolved.get? hs hN (Text.lower_canonical asked))
        fun _ _ _ => trivial) hok
    exact ⟨by rw [answer_getTransaction hrep', hget], hmined⟩
  | @transactions hashes rows hzip =>
    obtain ⟨t', hrep', hrows⟩ := exists_of_ok (o := .transactions hashes) hrep (fun _ _ hq => hq)
      (Q := fun rows t' => List.Forall₂ (fun hash row => t'.live.transactions.get? hash = some row ∧
        row.isMined = true) (Resolve.distinct hashes) rows)
      (Resolve.ensures_transactions hs (fun _ _ _ => trivial)
        (fun _ _ _ _ _ hanswered => hanswered.rowOf.imp fun _ _ hrow => hanswered.get? hs hN.transaction hrow)
        fun _ _ _ => trivial) hok
    obtain ⟨hget, hmined⟩ := (List.forall₂_iff_zip.1 hrows).2 hzip
    exact ⟨by rw [answer_getTransaction hrep', hget], hmined⟩

/-- A block that was returned for a hash stands under the hash. -/
theorem Reachable.stored_of_returnsBlock (h : s.Reachable)
    (hok : (o.run service node ⟨n, s⟩).1 = .ok reply) {b : Ledger.Block}
    (hreturns : o.ReturnsBlock hash b reply) (hN : (heardIn (o.history service node ⟨n, s⟩)).Echoes) :
    (o.run service node ⟨n, s⟩).2.store.answer (.getBlock hash) = .ok (some b) := by
  obtain ⟨t, hrep, -⟩ := h.sound
  cases hreturns with
  | @block asked hasked =>
    subst hasked
    obtain ⟨t', hrep', hget⟩ := exists_of_ok hrep (fun _ _ hq => hq)
      (Resolve.ensures_block_get? service.policy hN asked) hok
    rw [answer_getBlock hrep', hget]

/-- A batch returns the row of a transaction that was linked before. -/
theorem Reachable.mem_zip_of_linked (h : s.Reachable) {hashes : List String}
    {rows : List Ledger.Transaction}
    (hok : ((Operation.transactions hashes).run service node ⟨n, s⟩).1 = .ok rows)
    {row : Ledger.Transaction} (hrow : s.answer (.getTransaction hash) = .ok (some row))
    (hmined : row.isMined = true) (hmem : hash ∈ Resolve.distinct hashes) :
    (hash, row) ∈ (Resolve.distinct hashes).zip rows := by
  obtain ⟨t, hrep, hs⟩ := h.sound
  rw [answer_getTransaction hrep] at hrow
  obtain ⟨-, -, hrows⟩ := exists_of_ok (N := fun _ _ => True) hrep (fun _ _ _ => trivial)
    (Q := fun rows _ => List.Forall₂ (fun hash row => ∀ old,
      t.live.transactions.get? hash = some old → old.isMined = true → row = old)
      (Resolve.distinct hashes) rows)
    (Resolve.ensures_transactions hs (fun _ _ _ => trivial)
      (fun _ _ _ _ _ hanswered => (hanswered.forall₂_rows hs).imp fun _ _ hrow => hrow.2.2.2)
      fun _ _ _ => trivial) hok
  obtain ⟨row', hzip, heq⟩ := exists_mem_zip hrows hmem
  rw [heq row (Except.ok.inj hrow) hmined] at hzip
  exact hzip

end

/-! ## Serving -/

/-- A hash is served: whoever resolves its transaction, under whatever spelling, alone or among others, gets
the row and asks nothing about it.  Nothing else changes if there is no other hash, and the row does not
change in any case. -/
structure ServesTransaction (s : Storage) (hash : String) (row : Ledger.Transaction) : Prop where
  single : ∀ service {asked}, canonical asked = hash → (Operation.transaction asked).IsLocal service s row
  alone : ∀ service {hashes}, hashes ≠ [] → (∀ asked ∈ hashes, canonical asked = hash) →
    (Operation.transactions hashes).IsLocal service s [row]
  among : ∀ service {hashes}, (∃ asked ∈ hashes, canonical asked = hash) →
    ∀ {ν : Type} (node : Node ν) (n : ν),
      (heardIn ((Operation.transactions hashes).history service node ⟨n, s⟩)).Echoes →
      (∀ rows, ((Operation.transactions hashes).run service node ⟨n, s⟩).1 = .ok rows →
        (Operation.transactions hashes).Returns hash row rows) ∧
      (∀ q r, .asked q r ∈ (Operation.transactions hashes).history service node ⟨n, s⟩ →
        hash ∉ q.wanted) ∧
      ((Operation.transactions hashes).run service node ⟨n, s⟩).2.store.answer (.getTransaction hash) =
        .ok (some row)

/-- A block is served: whoever resolves it, under whatever spelling, gets the row from the store alone. -/
def ServesBlock (s : Storage) (hash : String) (b : Ledger.Block) : Prop :=
  ∀ service {asked}, canonical asked = hash → (Operation.block asked).IsLocal service s b

theorem Reachable.servesTransaction {s : Storage} (h : s.Reachable) {hash : String}
    {row : Ledger.Transaction} (hrow : s.answer (.getTransaction hash) = .ok (some row))
    (hmined : row.isMined = true) : s.ServesTransaction hash row where
  single service asked hasked := isLocal_transaction (by rw [hasked, hrow]) hmined
  alone service hashes hne hasked := by
    obtain ⟨t, hrep, -, hidle⟩ := h.exists_idle
    have hdistinct : Resolve.distinct hashes = [hash] := Resolve.distinct_eq_singleton hne hasked
    rw [answer_getTransaction hrep] at hrow
    have hlocal : (Operation.transactions hashes).IsLocal service s
        ((Resolve.distinct hashes).map fun _ => row) := by
      refine isLocal_transactions hrep hidle fun asked hmem => ?_
      rw [hdistinct] at hmem
      rw [List.mem_singleton.1 hmem]
      exact ⟨Except.ok.inj hrow, hmined⟩
    rwa [hdistinct] at hlocal
  among service hashes hasked ν node n hN := by
    have hcourse : Engine s ([] ++ (Operation.transactions hashes).history service node ⟨n, s⟩)
        ((Operation.transactions hashes).run service node ⟨n, s⟩).2.store :=
      .step .nil rfl node n
    obtain ⟨hkept, hunasked⟩ := hcourse.keepsLinked h hrow hmined hN
    exact ⟨fun rows hok => .transactions (h.mem_zip_of_linked hok hrow hmined
      (Resolve.mem_distinct.2 hasked)), hunasked, hkept⟩

/-- What was returned for a hash by an operation on a reachable store is served after any course of the
engine, as long as all that is reported carries the hash that was asked for, and nobody asks about the
transaction on the way.  A block is served in the same way, but that it may have become confirmed. -/
theorem Reachable.served {ν : Type} {s s' : Storage} (h : s.Reachable) {o : Operation} {service : Service}
    {node : Node ν} {n : ν} {reply : o.Reply} (hok : (o.run service node ⟨n, s⟩).1 = .ok reply)
    {es : List Event} (hcourse : Engine (o.run service node ⟨n, s⟩).2.store es s')
    (hN : (heardIn (o.history service node ⟨n, s⟩ ++ es)).Echoes) :
    (∀ hash row, o.Returns hash row reply →
      s'.ServesTransaction hash row ∧ ∀ q r, .asked q r ∈ es → hash ∉ q.wanted) ∧
    ∀ hash b, o.ReturnsBlock hash b reply → ∃ b', b.RisesTo b' ∧ s'.ServesBlock hash b' := by
  have hreached : (o.run service node ⟨n, s⟩).2.store.Reachable := .step h service o node n
  have hfirst : (heardIn (o.history service node ⟨n, s⟩)).Echoes :=
    hN.mono (heardIn_mono (List.prefix_append _ _))
  have hlater : (heardIn es).Echoes := hN.mono fun _ _ hmem => List.mem_append_right _ hmem
  refine ⟨fun hash row hreturns => ?_, fun hash b hreturns => ?_⟩
  · obtain ⟨hrow, hmined⟩ := h.linked_of_returns hok hreturns hfirst
    obtain ⟨hkept, hunasked⟩ := hcourse.keepsLinked hreached hrow hmined hlater
    exact ⟨(hcourse.reachable hreached).servesTransaction hkept hmined, hunasked⟩
  · obtain ⟨b', hb', hrise⟩ := hcourse.risesTo hreached (h.stored_of_returnsBlock hok hreturns hfirst)
    exact ⟨b', hrise, fun service asked hasked => isLocal_block (by rw [hasked, hb'])⟩

end Storage

/-! ## On a small chain -/

theorem Sample.echoes_snapshot : Sample.snapshot.node.answers.Echoes where
  transaction hash t ht := by
    have ht := Except.ok.inj (Snapshot.transaction_of_tells (ht.mono fun _ _ => Snapshot.answers_of_node))
    split at ht
    · rename_i heq
      cases ht
      rw [heq]
      decide +kernel
    · cases ht
  block hash b hb := by
    have hb := Except.ok.inj (Snapshot.block_of_tells (hb.mono fun _ _ => Snapshot.answers_of_node))
    split at hb
    · rename_i heq
      cases hb
      rw [heq]
      decide +kernel
    · cases hb

/-- A node that cannot be reached. -/
def Sample.unreachable : Node Unit where
  answer _ n := (.error (.rpc "unreachable"), n)

/-- A transaction that was resolved is served after blocks were confirmed, though the node is gone. -/
theorem Storage.served_sample :
    let first := (Operation.transactions ["0xaa "]).run Sample.service Sample.snapshot.node ⟨(), .inMemory⟩
    let later := (Operation.confirmBlocks.run Sample.service Sample.snapshot.node first.2).2.store
    first.1 = .ok [Sample.row] ∧
      (Operation.transaction " 0xaa").run Sample.service Sample.unreachable ⟨(), later⟩ =
        (.ok Sample.row, ⟨(), later⟩) := by
  intro first later
  have hok : first.1 = .ok [Sample.row] := by decide +kernel
  have hcourse : Storage.Engine first.2.store
      ([] ++ Operation.confirmBlocks.history Sample.service Sample.snapshot.node first.2) later :=
    .step .nil rfl Sample.snapshot.node ()
  have hN : (heardIn ((Operation.transactions ["0xaa "]).history Sample.service Sample.snapshot.node
      ⟨(), .inMemory⟩ ++ Operation.confirmBlocks.history Sample.service Sample.snapshot.node
      first.2)).Echoes := by
    refine Sample.echoes_snapshot.mono fun q r hmem => ?_
    rcases List.mem_append.1 hmem with hmem | hmem <;> exact Routine.answers_of_mem_history hmem
  have hreturns : (Operation.transactions ["0xaa "]).Returns "0xaa" Sample.row [Sample.row] :=
    .transactions (by decide +kernel)
  obtain ⟨hserves, -⟩ := (Storage.Reachable.served .memory hok hcourse hN).1 _ _ hreturns
  exact ⟨hok, (hserves.single Sample.service (by decide +kernel) Unit Sample.unreachable ()).1⟩

end ChainIndex
