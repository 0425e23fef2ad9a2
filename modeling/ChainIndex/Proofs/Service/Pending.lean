import ChainIndex.Proofs.Resolve.Counting
import ChainIndex.Proofs.Service.Integrity

/-!
# Transactions that were seen before they were mined

A transaction may be stored while it is pending and be resolved later.  Its row is then linked in place,
and the link takes over all that the block and the receipt say, but not the index in the block, which only
the transaction tells.  That index stays absent: in every other field the row is the one that is stored
if the transaction is resolved at once.
-/

namespace ChainIndex

open Text (canonical)

/-! ## A mined transaction -/

/-- A transaction as a node reports it before it is mined. -/
def Chain.Transaction.unmined (t : Chain.Transaction) : Chain.Transaction :=
  { t with blockHash := none, blockNumber := none, transactionIndex := none }

/-- A block is the one that a transaction and its receipt name. -/
structure Chain.Block.Contains (b : Chain.Block) (t : Chain.Transaction) (r : Chain.Receipt) : Prop where
  transaction : t.blockHash.map canonical = some (canonical b.hash)
  receipt : r.blockHash.map canonical = some (canonical b.hash)

/-- Nothing else is reported about a transaction than what its block, itself and its receipt are, once
it is reported as mined. -/
structure Answers.Settled (N : Answers) (b : Chain.Block) (t : Chain.Transaction) (r : Chain.Receipt) :
    Prop where
  transaction : ∀ ⦃t'⦄, N.TellsTransaction (canonical t.hash) t' → t'.blockHash.isSome = true → t' = t
  receipt : ∀ ⦃r'⦄, N.TellsReceipt (canonical t.hash) r' → r'.minedIn?.isSome = true → r' = r
  block : ∀ ⦃asked c⦄, N.TellsBlock asked c → asked = canonical b.hash ∨ c.hash = b.hash → c = b

theorem Answers.Settled.mono {N N' : Answers} {b : Chain.Block} {t : Chain.Transaction}
    {r : Chain.Receipt} (hN : N'.Settled b t r) (h : ∀ q reply, N q reply → N' q reply) :
    N.Settled b t r where
  transaction _ ht := hN.transaction (ht.mono h)
  receipt _ hr := hN.receipt (hr.mono h)
  block _ _ hc := hN.block (hc.mono h)

/-- A link takes nothing over from a block but its hash and its number. -/
theorem Ledger.Transaction.link_congr (row : Ledger.Transaction) (r : Chain.Receipt)
    {b b' : Ledger.Block} (hhash : b.blockHash = b'.blockHash) (hnumber : b.number = b'.number) :
    row.link b r = row.link b' r := by
  rw [link, link, hhash, hnumber]

namespace Memory

/-- The row of a block: the stored one, or else a new one. -/
def blockRow (m : Memory) (b : Chain.Block) : Ledger.Block :=
  (m.blocks.get? b.hash).getD (.ofChain b false)

/-- No row is in the way of resolving a transaction, unless it is the transaction's own and pending. -/
def Awaits (m : Memory) (hash : String) : Prop :=
  ∀ row, m.transactions.get? (canonical hash) = some row → row.isMined = false ∧ canonical hash = hash

/-- No other block is taken for a block: it has a canonical hash, or none is stored under that. -/
def Admits (m : Memory) (b : Chain.Block) : Prop :=
  canonical b.hash = b.hash ∨ m.blocks.get? (canonical b.hash) = none

end Memory

/-! ## What resolving leaves behind -/

namespace Resolve

variable {N : Answers} {s s' : Session Memory} {b : Chain.Block} {t : Chain.Transaction}
  {r : Chain.Receipt}

theorem blockHash_of_names (hN : N.Settled b t r) {b' : Ledger.Block}
    (hnamed : N.Names (canonical b.hash) b') : b'.blockHash = b.hash := by
  obtain ⟨c, hc, hhash⟩ := hnamed
  rw [hhash, hN.block hc (.inl rfl)]

/-- A row is linked to whatever goes by the hash as it is to the row of the settled block. -/
theorem link_blockRow (hs : s.Sound) (hN : N.Settled b t r) {b' : Ledger.Block}
    (hhash : b'.blockHash = b.hash) (hnumber : Session.NumberFrom N s b'.blockHash b'.number)
    (row : Ledger.Transaction) : row.link b' r = row.link (s.live.blockRow b) r := by
  rw [hhash] at hnumber
  rcases hnumber with ⟨c, hc, hn⟩ | ⟨hnone, asked, c, hc, hchash, hn⟩
  · have hrow : s.live.blockRow b = c := by rw [Memory.blockRow, hc, Option.getD_some]
    rw [hrow]
    exact row.link_congr r (hhash.trans (hs.live.blockHash hc).symm) hn.symm
  · have hrow : s.live.blockRow b = .ofChain b false := by
      rw [Memory.blockRow, hnone, Option.getD_none]
    obtain rfl := hN.block hc (.inr hchash)
    rw [hrow]
    exact row.link_congr r hhash hn.symm

/-- The receipt is the settled one, and a row is linked to its block as to the settled one. -/
theorem Receipted.eq_of_settled (hs : s.Sound) (hN : N.Settled b t r) (hb : b.Contains t r)
    (hadmits : s.live.Admits b) {r' : Chain.Receipt} {b' : Ledger.Block}
    (h : Receipted N s (canonical t.hash) r' b' s') :
    r' = r ∧ s'.Sound ∧ s'.live.transactions = s.live.transactions ∧
      ∀ row : Ledger.Transaction, row.link b' r = row.link (s.live.blockRow b) r := by
  obtain ⟨name, hname, hresolved⟩ := h.block
  obtain rfl := hN.receipt h.told (Option.isSome_of_eq_some hname)
  have hnamed := hb.receipt
  rw [Chain.Receipt.blockHash_of_minedIn? hname, Option.map_some] at hnamed
  rw [Option.some.inj hnamed] at hresolved
  have hhash : b'.blockHash = b.hash := by
    rcases hresolved.named with hstored | hnamed
    · rcases hadmits with hcanon | hnone
      · rw [hs.live.blockHash hstored, hcanon]
      · rw [hnone] at hstored
        cases hstored
    · exact blockHash_of_names hN hnamed
  exact ⟨rfl, hresolved.sound, hresolved.transactions, link_blockRow hs hN hhash hresolved.numberFrom⟩

theorem Resolved.get?_eq (hs : s.Sound) (hN : N.Settled b t r) (hb : b.Contains t r)
    (hadmits : s.live.Admits b) (hawaits : s.live.Awaits t.hash) {row : Ledger.Transaction}
    (h : Resolved N (canonical t.hash) s row s') :
    s'.live.transactions.get? t.hash = some (s.live.linkedRow t r (s.live.blockRow b)) := by
  cases h with
  | stored hrow hmined =>
    have hpending := (hawaits _ hrow).1
    rw [hmined] at hpending
    cases hpending
  | @linked row r' b' s₁ hrow hmined hblock =>
    obtain ⟨rfl, -, -, hlink⟩ := hblock.eq_of_settled hs hN hb hadmits
    rw [(hawaits _ hrow).2] at hrow
    have hhash : row.txHash = t.hash := hs.live.txHash hrow
    have hput : t.hash = (row.link b' r').txHash := hhash.symm
    rw [Session.get?_put, if_pos hput, Memory.linkedRow, hrow, Option.getD_some, hlink]
  | @created t' r' b' s₁ hnone hblock ht hnamed =>
    obtain ⟨rfl, hs₁, htransactions, hlink⟩ := hblock.eq_of_settled hs hN hb hadmits
    obtain rfl := hN.transaction ht hnamed
    have hput := hs₁.live.txHash_linkedRow t' r' b'
    rw [Session.get?_put, if_pos hput.symm, Memory.linkedRow, Memory.linkedRow, htransactions, hlink]

theorem Answered.get?_eq (hs : s.Sound) (hN : N.Settled b t r) (hb : b.Contains t r)
    (hawaits : s.live.Awaits t.hash) {hashes : List String}
    {known fetched rows : List Ledger.Transaction} {found : List Found}
    (hmem : canonical t.hash ∈ distinct hashes) (h : Answered N s hashes known found fetched rows s') :
    s'.live.transactions.get? t.hash = some (s.live.linkedRow t r (s.live.blockRow b)) := by
  have hunknown : rowOf? known (canonical t.hash) = none := by
    refine rowOf?_eq_none fun row hrow heq => ?_
    obtain ⟨hmined, hdistinct, hget⟩ := h.of_mem_known hs hrow
    rw [canonical_of_mem_distinct hdistinct] at heq
    have hpending := (hawaits row (heq ▸ hget)).1
    rw [hmined] at hpending
    cases hpending
  have hmissing : canonical t.hash ∈ missing known hashes := mem_missing.2 ⟨hmem, hunknown⟩
  obtain ⟨f, hf, hfor⟩ := exists_of_mem_left h.foundFor hmissing
  obtain ⟨name, hname, hfhash⟩ := Option.map_eq_some_iff.1 hfor.block
  have ht : f.transaction = t := hN.transaction hfor.transaction (Option.isSome_of_eq_some hname)
  have hr : f.receipt = r := hN.receipt hfor.receipt hfor.mined
  have hhash : f.blockHash = canonical b.hash := by
    have hblock := hfor.block
    rw [ht, hb.transaction] at hblock
    exact (Option.some.inj hblock).symm
  obtain ⟨b', hnamed, hnumber, hget⟩ := h.linked.get?_of_mem h.nodup_hash hf
  rw [ht, hr] at hget
  rw [hhash] at hnamed
  rw [hget]
  exact congrArg some (link_blockRow hs hN (blockHash_of_names hN hnamed) hnumber _)

end Resolve

/-- An operation resolves a hash, on its own or among others. -/
inductive Operation.Resolves (hash : String) : Operation → Prop
  | transaction {asked : String} (heq : canonical asked = canonical hash) :
    Resolves hash (.transaction asked)
  | transactions {hashes : List String} {asked : String} (hmem : asked ∈ hashes)
    (heq : canonical asked = canonical hash) : Resolves hash (.transactions hashes)

/-- Resolving a settled transaction leaves its row linked to its block, whichever operation does it. -/
theorem Operation.Resolves.ensures {N : Answers} {s : Session Memory} {b : Chain.Block}
    {t : Chain.Transaction} {r : Chain.Receipt} {o : Operation} (ho : o.Resolves t.hash)
    (service : Service) (hs : s.Sound) (hN : N.Settled b t r) (hb : b.Contains t r)
    (hadmits : s.live.Admits b) (hawaits : s.live.Awaits t.hash) :
    (o.attempt service).Ensures N Session.Effect (fun _ _ _ => True) s (fun _ s' =>
      s'.live.transactions.get? t.hash = some (s.live.linkedRow t r (s.live.blockRow b)))
      fun _ _ => True := by
  cases ho with
  | @transaction asked heq =>
    refine Resolve.ensures_transaction hs (fun _ _ => trivial) (fun row s' h => ?_) fun _ _ _ => trivial
    rw [heq] at h
    exact h.get?_eq hs hN hb hadmits hawaits
  | @transactions hashes asked hmem heq =>
    refine Resolve.ensures_transactions hs (fun _ _ _ => trivial) (fun known found fetched rows s' h => ?_)
      fun _ _ _ => trivial
    exact h.get?_eq hs hN hb hawaits (Resolve.mem_distinct.2 ⟨asked, hmem, heq⟩)

namespace Storage

variable {ν ν' : Type} {s : Storage} {b : Chain.Block} {t : Chain.Transaction} {r : Chain.Receipt}
  {o o' : Operation} {service : Service} {node : Node ν} {node' : Node ν'}

theorem answer_of_resolves {w : Routine.World ν Storage} {m : Session Memory}
    (hrep : w.store.Represents m) (hs : m.Sound) (ho : o.Resolves t.hash)
    (hnode : node.answers.Settled b t r) (hb : b.Contains t r) (hadmits : m.live.Admits b)
    (hawaits : m.live.Awaits t.hash) (hok : (o.run service node w).1.isOk = true) :
    (o.run service node w).2.store.answer (.getTransaction t.hash) =
      .ok (some (m.live.linkedRow t r (m.live.blockRow b))) := by
  have hheard : (o.heard service node w).Settled b t r := hnode.mono fun _ _ hq => hq.2
  obtain ⟨-, m', hrep', hend⟩ := ensures_run node w hrep (ho.ensures service hs hheard hb hadmits hawaits)
  change Outcome _ _ (o.run service node w).1 m' at hend
  cases hreply : (o.run service node w).1 with
  | error e =>
    rw [hreply] at hok
    cases hok
  | ok reply =>
    rw [hreply] at hend
    exact (answer_getTransaction hrep' t.hash).trans (congrArg Except.ok hend)

theorem exists_represents_after {m : Session Memory} (hrep : s.Represents m) (hs : m.Sound)
    (hnew : m.live.transactions.get? t.hash = none) :
    ∃ m', (s.after (.createPending t)).Represents m' ∧ m'.Sound ∧ m'.live.blocks = m.live.blocks ∧
      ∀ hash, m'.live.transactions.get? hash =
        if hash = t.hash then some (.pending t) else m.live.transactions.get? hash := by
  obtain ⟨m', heffect, hrep'⟩ := exists_effect hrep (a := .access (.createPending t)) rfl
  have hs' : m'.Sound := hs.step (a := .access (.createPending t)) trivial heffect
  obtain ⟨live, hlive, rfl⟩ := heffect
  rcases Memory.addTransaction_cases hlive with ⟨t₀, ht₀, -, -⟩ | ⟨-, -, rfl⟩
  · have hold : m.live.transactions.get? t.hash = some t₀ := ht₀
    rw [hnew] at hold
    cases hold
  · exact ⟨_, hrep', hs', rfl, fun hash => Table.get?_insert _ _ _ _⟩

end Storage

/-- A transaction that is new to a reachable store, which does not hold its block under another spelling
of the hash, is resolved twice: at once, and after it was stored while it was pending.  Either way its row
is there in the end, and the two rows differ in nothing but the index in the block, which the transaction
stored while pending lacks.  So they are the same row exactly if the mined transaction does not tell its
index either. -/
theorem Storage.Reachable.resolved_pending {ν ν' : Type} {s : Storage} (h : s.Reachable)
    {b : Chain.Block} {t : Chain.Transaction} {r : Chain.Receipt} (hb : b.Contains t r)
    (hnew : s.answer (.getTransaction t.hash) = .ok none)
    (hnew' : s.answer (.getTransaction (canonical t.hash)) = .ok none)
    (hadmits : canonical b.hash = b.hash ∨ s.answer (.getBlock (canonical b.hash)) = .ok none)
    {o o' : Operation} (ho : o.Resolves t.hash) (ho' : o'.Resolves t.hash)
    {node : Node ν} (hnode : node.answers.Settled b t r)
    {node' : Node ν'} (hnode' : node'.answers.Settled b t r) {service : Service} {n : ν} {n' : ν'}
    (hok : (o.run service node ⟨n, s⟩).1.isOk = true)
    (hok' : (o'.run service node' ⟨n', s.after (.createPending t.unmined)⟩).1.isOk = true) :
    ∃ row row',
      (o.run service node ⟨n, s⟩).2.store.answer (.getTransaction t.hash) = .ok (some row) ∧
      (o'.run service node' ⟨n', s.after (.createPending t.unmined)⟩).2.store.answer
        (.getTransaction t.hash) = .ok (some row') ∧
      row.transactionIndex = t.transactionIndex ∧
      row' = { row with transactionIndex := none } ∧
      (row' = row ↔ t.transactionIndex = none) := by
  obtain ⟨m, hrep, hs⟩ := h.sound
  rw [answer_getTransaction hrep] at hnew hnew'
  replace hadmits : m.live.Admits b := by
    rw [answer_getBlock hrep] at hadmits
    exact hadmits.imp_right Except.ok.inj
  replace hnew := Except.ok.inj hnew
  replace hnew' := Except.ok.inj hnew'
  obtain ⟨m', hrep', hs', hblocks, htransactions⟩ :=
    exists_represents_after (t := t.unmined) hrep hs hnew
  replace htransactions : ∀ hash, m'.live.transactions.get? hash =
    if hash = t.hash then some (.pending t.unmined) else m.live.transactions.get? hash := htransactions
  have hawaits : m.live.Awaits t.hash := by
    intro row hrow
    rw [hnew'] at hrow
    cases hrow
  have hawaits' : m'.live.Awaits t.hash := by
    intro row hrow
    rw [htransactions] at hrow
    by_cases heq : canonical t.hash = t.hash
    · rw [if_pos heq] at hrow
      cases hrow
      exact ⟨rfl, heq⟩
    · rw [if_neg heq, hnew'] at hrow
      cases hrow
  have hadmits' : m'.live.Admits b := by
    rw [Memory.Admits, hblocks]
    exact hadmits
  have hrow := answer_of_resolves (w := ⟨n, s⟩) hrep hs ho hnode hb hadmits hawaits hok
  have hrow' := answer_of_resolves (w := ⟨n', _⟩) hrep' hs' ho' hnode' hb hadmits' hawaits' hok'
  have hblock : m'.live.blockRow b = m.live.blockRow b := by rw [Memory.blockRow, hblocks]; rfl
  rw [Memory.linkedRow, hnew, Option.getD_none] at hrow
  rw [Memory.linkedRow, htransactions, if_pos rfl, Option.getD_some, hblock] at hrow'
  refine ⟨_, _, hrow, hrow', rfl, rfl, fun heq => ?_, fun hnone => ?_⟩
  · exact (congrArg Ledger.Transaction.transactionIndex heq).symm
  · have hpending : Ledger.Transaction.pending t.unmined = .pending t := by
      rw [Ledger.Transaction.pending, Ledger.Transaction.pending, hnone]
      rfl
    rw [hpending]

/-! ## On a small chain -/

theorem Node.settled_steady (head : UInt64) {b : Chain.Block} (hb : canonical b.hash = b.hash)
    (t : Chain.Transaction) (r : Chain.Receipt) : (Node.steady head b t r).answers.Settled b t r where
  transaction _ ht _ := eq_of_tellsTransaction_steady ht
  receipt _ hr _ := eq_of_tellsReceipt_steady hr
  block asked c hc hasked := by
    have hsteady := eq_of_tellsBlock_steady hc
    have hhash : asked = b.hash := by
      rcases hasked with heq | heq
      · rw [heq, hb]
      · rw [hsteady] at heq
        exact heq
    rw [hsteady, hhash]

/-- The transaction at the index 3, at once and after it was pending. -/
theorem Storage.resolved_pending_sample :
    ∃ row row',
      ((Operation.transaction "0xaa").run Sample.service Sample.node ⟨(), .inMemory⟩).2.store.answer
        (.getTransaction "0xaa") = .ok (some row) ∧
      ((Operation.transactions ["0xaa"]).run Sample.service Sample.node ⟨(), Storage.inMemory.after
        (.createPending Sample.transaction.unmined)⟩).2.store.answer
        (.getTransaction "0xaa") = .ok (some row') ∧
      row.transactionIndex = some 3 ∧
      row' = { row with transactionIndex := none } ∧
      (row' = row ↔ some (3 : UInt32) = none) := by
  have hb : Sample.block.Contains Sample.transaction Sample.receipt :=
    ⟨by decide +kernel, by decide +kernel⟩
  have hcanon : canonical Sample.block.hash = Sample.block.hash := by decide +kernel
  have hnode : Sample.node.answers.Settled Sample.block Sample.transaction Sample.receipt :=
    Node.settled_steady _ hcanon _ _
  have hok : ((Operation.transaction "0xaa").run Sample.service Sample.node
      ⟨(), .inMemory⟩).1.isOk = true := by decide +kernel
  have hok' : ((Operation.transactions ["0xaa"]).run Sample.service Sample.node
      ⟨(), Storage.inMemory.after (.createPending Sample.transaction.unmined)⟩).1.isOk = true := by
    decide +kernel
  exact Storage.Reachable.resolved_pending .memory hb (by decide +kernel) (by decide +kernel)
    (.inl hcanon) (.transaction rfl) (.transactions List.mem_cons_self rfl) hnode hnode hok hok'

/-- The row of a transaction that was pending is not the row that is stored at once. -/
theorem Storage.ne_of_pending :
    Storage.inMemory.Reachable ∧ Sample.block.Contains Sample.transaction Sample.receipt ∧
      Sample.node.answers.Settled Sample.block Sample.transaction Sample.receipt ∧
      ((Operation.transaction "0xaa").run Sample.service Sample.node ⟨(), Storage.inMemory.after
        (.createPending Sample.transaction.unmined)⟩).2.store.answer (.getTransaction "0xaa") ≠
      ((Operation.transaction "0xaa").run Sample.service Sample.node ⟨(), .inMemory⟩).2.store.answer
        (.getTransaction "0xaa") :=
  ⟨.memory, ⟨by decide +kernel, by decide +kernel⟩, Node.settled_steady _ (by decide +kernel) _ _,
    by decide +kernel⟩

end ChainIndex
