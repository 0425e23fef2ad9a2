import ChainIndex.Proofs.Derived.Tables
import ChainIndex.Proofs.Store.Effect
import ChainIndex.Text.Blank

/-!
# The integrity of stored rows

Tables are `Sound` when rows stand under their own keys and what a row refers to is stored: a linked
transaction refers to a block of its number, an internal transaction to a linked transaction, and a
marker to an internal transaction.

An action that is `Permitted`, which only says that new references lead somewhere, keeps the tables of a
session sound (`Session.Sound.step`).
-/

namespace ChainIndex

open Derived (FrameKey InternalTx Marker)
open Text (canonical)

namespace Memory

/-- A block of the same hash and number is stored. -/
def Holds (m : Memory) (b : Ledger.Block) : Prop :=
  ∃ c, m.blocks.get? b.blockHash = some c ∧ c.number = b.number

/-- A transaction of the same hash, up to case and blanks, is stored and linked to a block. -/
def HasMined (m : Memory) (hash : String) : Prop :=
  ∃ t, m.transactions.get? t.txHash = some t ∧ t.isMined = true ∧ canonical t.txHash = canonical hash

/-- Rows stand under their own keys, and whatever a row refers to is stored. -/
structure Sound (m : Memory) : Prop where
  blockHash : ∀ {hash b}, m.blocks.get? hash = some b → b.blockHash = hash
  txHash : ∀ {hash t}, m.transactions.get? hash = some t → t.txHash = hash
  linked : ∀ {hash t b}, m.transactions.get? hash = some t → t.blockHash = some b →
    ∃ c, m.blocks.get? b = some c ∧ t.blockNumber = some c.number
  internal : ∀ {key row}, m.derived.internalTxs.get? key = some row →
    row.key = key ∧ m.HasMined key.txHash
  marker : ∀ {key mk}, m.derived.markers.get? key = some mk →
    mk.key = key ∧ (m.derived.internalTxs.get? key).isSome = true

/-- Blocks stay with their numbers, and linked transactions stay linked. -/
structure Extends (m m' : Memory) : Prop where
  blocks : ∀ {hash b}, m.blocks.get? hash = some b →
    ∃ b', m'.blocks.get? hash = some b' ∧ b'.number = b.number
  transactions : ∀ {hash t}, m.transactions.get? hash = some t → t.isMined = true →
    ∃ t', m'.transactions.get? hash = some t' ∧ t'.txHash = t.txHash ∧ t'.isMined = true

theorem Extends.refl (m : Memory) : m.Extends m :=
  ⟨fun h => ⟨_, h, rfl⟩, fun h hmined => ⟨_, h, rfl, hmined⟩⟩

theorem Extends.trans {m₁ m₂ m₃ : Memory} (h : m₁.Extends m₂) (h' : m₂.Extends m₃) : m₁.Extends m₃ where
  blocks hb := by
    obtain ⟨b', hb', hn⟩ := h.blocks hb
    obtain ⟨b'', hb'', hn'⟩ := h'.blocks hb'
    exact ⟨b'', hb'', hn'.trans hn⟩
  transactions ht hmined := by
    obtain ⟨t', ht', hhash, hmined'⟩ := h.transactions ht hmined
    obtain ⟨t'', ht'', hhash', hmined''⟩ := h'.transactions ht' hmined'
    exact ⟨t'', ht'', hhash'.trans hhash, hmined''⟩

variable {m m' : Memory}

theorem Holds.mono (h : m.Extends m') {b : Ledger.Block} (hb : m.Holds b) : m'.Holds b := by
  obtain ⟨c, hc, hn⟩ := hb
  obtain ⟨c', hc', hn'⟩ := h.blocks hc
  exact ⟨c', hc', hn'.trans hn⟩

theorem HasMined.mono (h : m.Extends m') {hash : String} (ht : m.HasMined hash) : m'.HasMined hash := by
  obtain ⟨t, ht, hmined, hcanon⟩ := ht
  obtain ⟨t', ht', hhash, hmined'⟩ := h.transactions ht hmined
  exact ⟨t', hhash ▸ ht', hmined', hhash ▸ hcanon⟩

theorem sound_empty : ({} : Memory).Sound :=
  ⟨nofun, nofun, nofun, nofun, nofun⟩

/-! ## Changes of one table -/

theorem get?_createBlock (m : Memory) (b : Chain.Block) (confirmed : Bool) (hash : String) :
    (m.createBlock b confirmed).2.blocks.get? hash =
      if hash = b.hash then some (m.createBlock b confirmed).1 else m.blocks.get? hash :=
  Table.get?_insert _ _ _ _

/-- The row of a block has the block's hash, if the row that was there had it. -/
theorem blockHash_createBlock (m : Memory) (b : Chain.Block) (confirmed : Bool)
    (h : ∀ {c}, m.blocks.get? b.hash = some c → c.blockHash = b.hash) :
    (m.createBlock b confirmed).1.blockHash = b.hash := by
  cases hb : m.blocks.get? b.hash with
  | none => simp [createBlock, hb, Ledger.Block.ofChain]
  | some c => simp [createBlock, hb, h hb]

theorem number_createBlock (m : Memory) (b : Chain.Block) (confirmed : Bool) :
    (m.createBlock b confirmed).1.number = ((m.blocks.get? b.hash).map (·.number)).getD b.number := by
  rw [createBlock]
  cases m.blocks.get? b.hash <;> rfl

namespace Sound

/-- Other blocks: the old ones stay with their numbers. -/
theorem setBlocks (h : m.Sound) {blocks : Table String Ledger.Block}
    (hhash : ∀ {hash b}, blocks.get? hash = some b → b.blockHash = hash)
    (hkept : ∀ {hash b}, m.blocks.get? hash = some b →
      ∃ b', blocks.get? hash = some b' ∧ b'.number = b.number) :
    Sound { m with blocks } ∧ m.Extends { m with blocks } := by
  refine ⟨{ h with blockHash := hhash, linked := fun ht hb => ?_ },
    hkept, fun ht hmined => ⟨_, ht, rfl, hmined⟩⟩
  obtain ⟨c, hc, hnumber⟩ := h.linked ht hb
  obtain ⟨c', hc', hn⟩ := hkept hc
  exact ⟨c', hc', hn ▸ hnumber⟩

/-- One more transaction, or another in the place of one of its hash: a linked one stays linked, and the
block that it is linked to is stored. -/
theorem setTransaction (h : m.Sound) {t : Ledger.Transaction}
    (hlinked : ∀ {b}, t.blockHash = some b → ∃ c, m.blocks.get? b = some c ∧ t.blockNumber = some c.number)
    (hmined : ∀ {t₀}, m.transactions.get? t.txHash = some t₀ → t₀.isMined = true → t.isMined = true) :
    Sound { m with transactions := m.transactions.insert t.txHash t } ∧
      m.Extends { m with transactions := m.transactions.insert t.txHash t } := by
  have hextends : m.Extends { m with transactions := m.transactions.insert t.txHash t } := by
    refine ⟨fun hb => ⟨_, hb, rfl⟩, fun {hash t₀} ht₀ hmined₀ => ?_⟩
    by_cases heq : hash = t.txHash
    · subst heq
      refine ⟨t, by rw [Table.get?_insert, if_pos rfl], (h.txHash ht₀).symm, hmined ht₀ hmined₀⟩
    · exact ⟨t₀, by rw [Table.get?_insert, if_neg heq]; exact ht₀, rfl, hmined₀⟩
  refine ⟨{ h with
    txHash := fun {hash t'} ht' => ?_
    linked := fun {hash t' b} ht' hb => ?_
    internal := fun hrow => (h.internal hrow).imp_right (HasMined.mono hextends) }, hextends⟩
  · rw [Table.get?_insert] at ht'
    split at ht'
    · rename_i heq
      cases ht'
      exact heq.symm
    · exact h.txHash ht'
  · rw [Table.get?_insert] at ht'
    split at ht'
    · cases ht'
      exact hlinked hb
    · exact h.linked ht' hb

theorem setDerived (h : m.Sound) {d : Derived.Tables} (hd : m.derived.SameFrames d) :
    Sound { m with derived := d } ∧ m.Extends { m with derived := d } := by
  refine ⟨{ h with internal := fun hrow => ?_, marker := fun {key mk} hmk => ?_ },
    fun hb => ⟨_, hb, rfl⟩, fun ht hmined => ⟨_, ht, rfl, hmined⟩⟩
  · rw [hd.internalTxs] at hrow
    exact h.internal hrow
  · have hold := hd.markers key
    rw [hmk, Option.map_some, eq_comm, Option.map_eq_some_iff] at hold
    obtain ⟨mk₀, hmk₀, heq⟩ := hold
    obtain ⟨hkey, hrow⟩ := h.marker hmk₀
    refine ⟨(congrArg Prod.fst heq).symm.trans hkey, ?_⟩
    rw [hd.internalTxs]
    exact hrow

/-- Internal transactions of linked transactions, with markers for some of them. -/
theorem insertInternal (h : m.Sound) {rows : List InternalTx} {markers : List Marker}
    (hrows : ∀ row ∈ rows, m.HasMined row.key.txHash)
    (hmarkers : ∀ mk ∈ markers, ∃ row ∈ rows, row.key = mk.key) :
    Sound { m with derived := (m.derived.insertInternal rows markers).2 } ∧
      m.Extends { m with derived := (m.derived.insertInternal rows markers).2 } := by
  refine ⟨{ h with internal := fun {key row} hrow => ?_, marker := fun {key mk} hmk => ?_ },
    fun hb => ⟨_, hb, rfl⟩, fun ht hmined => ⟨_, ht, rfl, hmined⟩⟩
  · have hrow : (Derived.Tables.addInternalTxs m.derived.internalTxs rows).2.get? key = some row := hrow
    rw [Derived.Tables.get?_addInternalTxs, Option.or_eq_some_iff] at hrow
    rcases hrow with hrow | ⟨-, hrow⟩
    · exact h.internal hrow
    · have hkey : row.key = key := of_decide_eq_true (List.find?_some hrow :)
      exact ⟨hkey, hkey ▸ hrows row (List.mem_of_find?_eq_some hrow)⟩
  · have hmk : (Derived.Tables.addMarkers m.derived.markers markers).get? key = some mk := hmk
    show mk.key = key ∧
      ((Derived.Tables.addInternalTxs m.derived.internalTxs rows).2.get? key).isSome = true
    rw [Derived.Tables.get?_addMarkers, Option.or_eq_some_iff] at hmk
    rcases hmk with hmk | ⟨-, hmk⟩
    · obtain ⟨hkey, hrow⟩ := h.marker hmk
      rw [Derived.Tables.get?_addInternalTxs, Option.isSome_or, hrow]
      exact ⟨hkey, rfl⟩
    · have hkey : mk.key = key := of_decide_eq_true (List.find?_some hmk :)
      obtain ⟨row, hrow, hrowkey⟩ := hmarkers mk (List.mem_of_find?_eq_some hmk)
      rw [← hkey, ← hrowkey]
      exact ⟨rfl, Derived.Tables.isSome_get?_addInternalTxs hrow⟩

/-- Storing a block keeps the tables sound; the row that is returned is held under the block's hash. -/
theorem createBlock (h : m.Sound) (b : Chain.Block) (confirmed : Bool) :
    ((m.createBlock b confirmed).2.Sound ∧ m.Extends (m.createBlock b confirmed).2) ∧
      (m.createBlock b confirmed).1.blockHash = b.hash ∧
      (m.createBlock b confirmed).2.Holds (m.createBlock b confirmed).1 := by
  have hrow : (m.createBlock b confirmed).1.blockHash = b.hash :=
    m.blockHash_createBlock b confirmed h.blockHash
  refine ⟨?_, hrow, _, by rw [get?_createBlock, if_pos hrow], rfl⟩
  refine h.setBlocks (fun {hash c} hc => ?_) fun {hash c} hc => ?_
  · have hc := (m.get?_createBlock b confirmed hash).symm.trans hc
    split at hc
    · rename_i heq
      cases hc
      rw [hrow, heq]
    · exact h.blockHash hc
  · by_cases heq : hash = b.hash
    · refine ⟨_, (m.get?_createBlock b confirmed hash).trans (if_pos heq), ?_⟩
      subst heq
      rw [number_createBlock, hc]
      rfl
    · exact ⟨c, (m.get?_createBlock b confirmed hash).trans ((if_neg heq).trans hc), rfl⟩

theorem confirmBlocks (h : m.Sound) (final : Ledger.Block → Bool) :
    let blocks := m.blocks.map fun _ b => if final b then { b with confirmed := true } else b
    Sound { m with blocks } ∧ m.Extends { m with blocks } := by
  refine h.setBlocks (fun {hash c} hc => ?_) fun {hash c} hc => ?_
  · rw [Table.get?_map, Option.map_eq_some_iff] at hc
    obtain ⟨b, hb, rfl⟩ := hc
    have hhash := h.blockHash hb
    split <;> exact hhash
  · refine ⟨_, by rw [Table.get?_map, hc]; rfl, ?_⟩
    dsimp only
    split <;> rfl

end Sound

/-! ## Writing transactions -/

/-- A transaction is added unless there is one of its hash. -/
theorem addTransaction_cases {t : Ledger.Transaction} {reply : Except Fault Ledger.Transaction}
    (h : m.addTransaction t = (reply, m')) :
    (∃ t₀, m.transactions.get? t.txHash = some t₀ ∧
        reply = .error (.duplicateTransaction t.txHash) ∧ m' = m) ∨
      m.transactions.get? t.txHash = none ∧ reply = .ok t ∧
        m' = { m with transactions := m.transactions.insert t.txHash t } := by
  rw [addTransaction, Table.contains] at h
  cases ht : m.transactions.get? t.txHash with
  | none =>
    rw [ht, Option.isSome_none, if_neg Bool.false_ne_true] at h
    cases h
    exact .inr ⟨rfl, rfl, rfl⟩
  | some t₀ =>
    rw [ht, if_pos Option.isSome_some] at h
    cases h
    exact .inl ⟨t₀, rfl, rfl, rfl⟩

theorem linkTransaction_cases {hash : String} {b : Ledger.Block} {r : Chain.Receipt}
    {reply : Except Fault Ledger.Transaction} (h : m.linkTransaction hash b r = (reply, m')) :
    (m.transactions.get? hash = none ∧ reply = .error (.transactionNotFound hash) ∧ m' = m) ∨
      ∃ t, m.transactions.get? hash = some t ∧ reply = .ok (t.link b r) ∧
        m' = { m with transactions := m.transactions.insert hash (t.link b r) } := by
  rw [linkTransaction] at h
  cases ht : m.transactions.get? hash with
  | none =>
    rw [ht] at h
    cases h
    exact .inl ⟨rfl, rfl, rfl⟩
  | some t =>
    rw [ht] at h
    cases h
    exact .inr ⟨t, rfl, rfl, rfl⟩

namespace Sound

theorem addTransaction (h : m.Sound) {t : Ledger.Transaction} {reply : Except Fault Ledger.Transaction}
    (hlinked : ∀ {b}, t.blockHash = some b → ∃ c, m.blocks.get? b = some c ∧ t.blockNumber = some c.number)
    (hadd : m.addTransaction t = (reply, m')) : m'.Sound ∧ m.Extends m' := by
  rcases addTransaction_cases hadd with ⟨-, -, -, rfl⟩ | ⟨hnone, -, rfl⟩
  · exact ⟨h, .refl m'⟩
  · exact h.setTransaction hlinked fun ht₀ => by rw [hnone] at ht₀; cases ht₀

theorem link_refers {b : Ledger.Block} (hb : m.Holds b) (t : Ledger.Transaction) (r : Chain.Receipt)
    {hash : String} (hhash : (t.link b r).blockHash = some hash) :
    ∃ c, m.blocks.get? hash = some c ∧ (t.link b r).blockNumber = some c.number := by
  obtain ⟨c, hc, hn⟩ := hb
  cases hhash
  exact ⟨c, hc, congrArg some hn.symm⟩

theorem linkTransaction (h : m.Sound) {hash : String} {b : Ledger.Block} {r : Chain.Receipt}
    {reply : Except Fault Ledger.Transaction} (hb : m.Holds b)
    (hlink : m.linkTransaction hash b r = (reply, m')) : m'.Sound ∧ m.Extends m' := by
  rcases linkTransaction_cases hlink with ⟨-, -, rfl⟩ | ⟨t, ht, -, rfl⟩
  · exact ⟨h, .refl m'⟩
  · obtain rfl : t.txHash = hash := h.txHash ht
    exact h.setTransaction (t := t.link b r) (link_refers hb t r) fun _ _ => rfl

end Sound

end Memory

/-! ## Accesses -/

/-- What a new reference of a row needs: the block of a linked transaction, the linked transaction of
an internal one, and the internal transaction of a marker. -/
def Access.Permitted (m : Memory) : Access → Prop
  | .createTransaction _ _ b => m.Holds b
  | .linkTransaction _ b _ => m.Holds b
  | .insertInternal rows markers =>
    (∀ row ∈ rows, m.HasMined row.key.txHash) ∧ ∀ mk ∈ markers, ∃ row ∈ rows, row.key = mk.key
  | _ => True

namespace Access

variable {m m' : Memory} {a : Access} {r : Except Fault a.Reply}

theorem ne_none_of_holds {b : Ledger.Block} (hb : m.Holds b) : m.blocks.get? b.blockHash ≠ none := by
  obtain ⟨c, hc, -⟩ := hb
  rw [hc]
  exact Option.some_ne_none c

/-- A permitted access keeps tables sound and loses nothing that is referred to. -/
theorem Effect.sound (h : m.Sound) (hp : a.Permitted m) (he : a.Effect m r m') :
    m'.Sound ∧ m.Extends m' := by
  have hframes {d : Derived.Tables} (hd : m.derived.SameFrames d) := h.setDerived hd
  cases a with
  | createBlock b confirmed =>
    cases he
    exact (h.createBlock b confirmed).1
  | confirmBlocks upTo =>
    obtain ⟨n, final, -, rfl⟩ := he
    exact h.confirmBlocks final
  | getMined hashes =>
    obtain ⟨rows, -, -, rfl⟩ := he
    exact ⟨h, .refl m'⟩
  | createTransaction t receipt b =>
    rcases he with he | ⟨hnone, -, -⟩
    · exact h.addTransaction (Memory.Sound.link_refers hp _ receipt) he
    · exact absurd hnone (ne_none_of_holds hp)
  | createPending t =>
    refine h.addTransaction (fun {hash} hb => ?_) he
    cases hb
  | linkTransaction hash b receipt =>
    rcases he with he | ⟨hnone, -, -⟩
    · exact h.linkTransaction hp he
    · exact absurd hnone (ne_none_of_holds hp)
  | insertInternal rows markers =>
    cases he
    exact h.insertInternal hp.1 hp.2
  | setProcessed key =>
    cases he
    exact h.setDerived (.setProcessed m.derived key)
  | putMultisigTx row | putConfirmation row | putModuleTx row | putSafeStatus row =>
    cases he
    exact h.setDerived ⟨rfl, fun _ => rfl⟩
  | addMasterCopy a | addSafeContract a =>
    cases he
    exact ⟨{ h with }, fun hb => ⟨_, hb, rfl⟩, fun ht hmined => ⟨_, ht, rfl, hmined⟩⟩
  | getBlock _ | getTransaction _ | masterCopies | safeContracts | pendingMarkers | counts =>
    cases he
    exact ⟨h, .refl m⟩

end Access

/-! ## Units of work -/

/-- What an action needs: an access has to be permitted. -/
def Action.Permitted (s : Session Memory) : Action → Prop
  | .access a => a.Permitted s.live
  | _ => True

namespace Session

/-- The tables are sound, and so is the copy that an open unit of work changes. -/
structure Sound (s : Session Memory) : Prop where
  live : s.live.Sound
  staged : ∀ {m}, s.staged = some m → m.Sound

variable {s s' : Session Memory}

/-- A permitted action keeps a session sound. -/
theorem Sound.step (h : s.Sound) {a : Action} (hp : a.Permitted s) {r : Except Fault a.Reply}
    (he : Session.Effect a s r s') : s'.Sound := by
  cases a with
  | access a =>
    obtain ⟨m, he, rfl⟩ := he
    exact ⟨(he.sound h.live hp).1, h.staged⟩
  | beginUnit =>
    obtain ⟨-, rfl⟩ := he
    exact ⟨h.live, fun heq => Option.some.inj heq ▸ h.live⟩
  | invalidate step scope =>
    rcases he with ⟨-, -, rfl⟩ | ⟨m, n, d, hm, -, hd, rfl⟩
    · exact h
    · exact ⟨h.live, fun heq => Option.some.inj heq ▸ ((h.staged hm).setDerived hd).1⟩
  | commit =>
    rcases he with ⟨-, -, rfl⟩ | ⟨m, hm, -, rfl⟩
    · exact h
    · exact ⟨h.staged hm, nofun⟩
  | rollback | abandon =>
    obtain ⟨-, rfl⟩ := he
    exact ⟨h.live, nofun⟩

end Session

end ChainIndex
