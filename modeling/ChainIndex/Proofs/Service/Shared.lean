import Mathlib.Data.List.Chain
import ChainIndex.Proofs.Service.Integrity
import ChainIndex.Proofs.Service.Local
import ChainIndex.Proofs.Store.Growth

/-!
# Stores that others write to as well

A store may be shared: before each of one's own accesses it may be the others' turn, and they may access it
as they like (`Store.shared`).  Each access takes effect at once and as a whole.  What the others do may well
depend on all that has happened; as it may be anything, it is enough to say what it is.

Whatever they do, blocks and transactions stay (`Storage.Grows`).  `Shared.Orderly` is what one's own accesses
keep to in such a store, and `Orderly.step` says what it takes to go on in this way.
-/

namespace ChainIndex

/-! ## Taking turns -/

/-- A store that others write to as well. -/
structure Shared (σ : Type) where
  state : σ
  /-- What the others do before one's next access, before the one after that, and so on. -/
  turns : List (List Access) := []
  /-- One's own accesses so far, each with the state that it met. -/
  moments : List (σ × Access) := []

namespace Store

variable {σ : Type}

/-- The state after some accesses. -/
def afterAll (store : Store σ) (s : σ) (as : List Access) : σ :=
  as.foldl (fun s a => (store.perform (.access a) s).2) s

/-- The store that is shared with others. -/
def shared (store : Store σ) : Store (Shared σ) where
  perform a s :=
    let before := store.afterAll s.state (s.turns.headD [])
    let (r, after) := store.perform a before
    (r, {
      state := after
      turns := s.turns.tail
      moments := match a with
        | .access a => s.moments ++ [(before, a)]
        | _ => s.moments })

end Store

namespace Storage

variable {s s' : Storage} {m m' : Memory} {b : Ledger.Block} {hash : String}

/-! ## What is seen of a store -/

/-- What everybody sees of a store are some tables in memory. -/
def Shows (s : Storage) (m : Memory) : Prop := ∃ t, s.Represents t ∧ t.live = m

namespace Shows

theorem exists_effect (h : s.Shows m) (a : Access) :
    ∃ m', a.Effect m (s.answer a) m' ∧ (s.after a).Shows m' := by
  obtain ⟨t, hrep, rfl⟩ := h
  have hact : store.conduct (.access a) s (s.answer a) (s.after a) := rfl
  obtain ⟨t', ⟨m', he, rfl⟩, hrep'⟩ := Storage.exists_effect hrep hact
  exact ⟨m', he, _, hrep', rfl⟩

theorem answer_getTransaction (h : s.Shows m) (hash : String) :
    s.answer (.getTransaction hash) = .ok (m.transactions.get? hash) := by
  obtain ⟨t, hrep, rfl⟩ := h
  exact Storage.answer_getTransaction hrep hash

theorem answer_getBlock (h : s.Shows m) (hash : String) :
    s.answer (.getBlock hash) = .ok (m.blocks.get? hash) := by
  obtain ⟨t, hrep, rfl⟩ := h
  exact Storage.answer_getBlock hrep hash

theorem get?_transaction (h : s.Shows m) {row : Option Ledger.Transaction}
    (hrow : s.answer (.getTransaction hash) = .ok row) : m.transactions.get? hash = row :=
  Except.ok.inj ((h.answer_getTransaction hash).symm.trans hrow)

theorem get?_block (h : s.Shows m) {b : Option Ledger.Block}
    (hb : s.answer (.getBlock hash) = .ok b) : m.blocks.get? hash = b :=
  Except.ok.inj ((h.answer_getBlock hash).symm.trans hb)

end Shows

/-- Blocks and transactions stay, but for being confirmed and linked. -/
structure Grows (s s' : Storage) : Prop where
  block : ∀ {hash b}, s.answer (.getBlock hash) = .ok (some b) →
    ∃ b', s'.answer (.getBlock hash) = .ok (some b') ∧ b.RisesTo b'
  transaction : ∀ {hash t}, s.answer (.getTransaction hash) = .ok (some t) →
    ∃ t', s'.answer (.getTransaction hash) = .ok (some t') ∧ t.LinksTo t'

namespace Grows

theorem refl (s : Storage) : s.Grows s := ⟨fun hb => ⟨_, hb, .refl _⟩, fun ht => ⟨_, ht, .refl _⟩⟩

theorem trans {s₁ s₂ s₃ : Storage} (h : s₁.Grows s₂) (h' : s₂.Grows s₃) : s₁.Grows s₃ where
  block hb := by
    obtain ⟨b', hb', hrise⟩ := h.block hb
    obtain ⟨b'', hb'', hrise'⟩ := h'.block hb'
    exact ⟨b'', hb'', hrise.trans hrise'⟩
  transaction ht := by
    obtain ⟨t', ht', hlinks⟩ := h.transaction ht
    obtain ⟨t'', ht'', hlinks'⟩ := h'.transaction ht'
    exact ⟨t'', ht'', hlinks.trans hlinks'⟩

end Grows

theorem Shows.grows (h : s.Shows m) (h' : s'.Shows m') (hm : m.Grows m') : s.Grows s' where
  block {hash b} hb := by
    obtain ⟨b', hb', hrise⟩ := hm.block (h.get?_block hb)
    exact ⟨b', by rw [h'.answer_getBlock, hb'], hrise⟩
  transaction {hash t} ht := by
    obtain ⟨t', ht', hlinks⟩ := hm.transaction (h.get?_transaction ht)
    exact ⟨t', by rw [h'.answer_getTransaction, ht'], hlinks⟩

/-- Blocks and transactions stand under their own hashes. -/
def Tidy (s : Storage) : Prop := ∃ m, s.Shows m ∧ m.Tidy

theorem Reachable.tidy (h : s.Reachable) : s.Tidy := by
  obtain ⟨t, hrep, hs⟩ := h.sound
  exact ⟨t.live, ⟨t, hrep, rfl⟩, hs.live.tidy⟩

/-- The row of a block is stored as it is, or has been confirmed by now. -/
def Keeps (s : Storage) (b : Ledger.Block) : Prop :=
  ∃ b', s.answer (.getBlock b.blockHash) = .ok (some b') ∧ b.RisesTo b'

theorem Keeps.mono (h : s.Keeps b) (hgrows : s.Grows s') : s'.Keeps b := by
  obtain ⟨b', hb', hrise⟩ := h
  obtain ⟨b'', hb'', hrise'⟩ := hgrows.block hb'
  exact ⟨b'', hb'', hrise.trans hrise'⟩

theorem Shows.get?_ne_none (h : s.Shows m) (hb : s.Keeps b) : m.blocks.get? b.blockHash ≠ none := by
  obtain ⟨b', hb', -⟩ := hb
  rw [h.get?_block hb']
  exact Option.some_ne_none b'

/-! ## What accesses answer and do -/

namespace Tidy

theorem after (h : s.Tidy) (a : Access) : s.Grows (s.after a) ∧ (s.after a).Tidy := by
  obtain ⟨m, hshows, hm⟩ := h
  obtain ⟨m', he, hshows'⟩ := hshows.exists_effect a
  exact ⟨hshows.grows hshows' he.grows, m', hshows', he.tidy hm⟩

/-- Whatever the others do, blocks and transactions stay, and stand under their own hashes. -/
theorem afterAll (h : s.Tidy) (as : List Access) :
    s.Grows (store.afterAll s as) ∧ (store.afterAll s as).Tidy := by
  induction as generalizing s with
  | nil => exact ⟨.refl s, h⟩
  | cons a rest ih =>
    obtain ⟨hgrows, htidy⟩ := h.after a
    obtain ⟨hgrows', htidy'⟩ := ih htidy
    exact ⟨hgrows.trans hgrows', htidy'⟩

theorem answer_getTransaction (h : s.Tidy) (hash : String) :
    ∃ row?, s.answer (.getTransaction hash) = .ok row? ∧ ∀ row, row? = some row → row.txHash = hash := by
  obtain ⟨m, hshows, hm⟩ := h
  exact ⟨_, hshows.answer_getTransaction hash, fun row hrow => hm.txHash hrow⟩

theorem txHash (h : s.Tidy) {row : Ledger.Transaction}
    (hrow : s.answer (.getTransaction hash) = .ok (some row)) : row.txHash = hash := by
  obtain ⟨row?, hanswer, hhash⟩ := h.answer_getTransaction hash
  exact hhash row (Except.ok.inj (hanswer.symm.trans hrow))

theorem answer_getBlock (h : s.Tidy) (hash : String) :
    ∃ b?, s.answer (.getBlock hash) = .ok b? ∧ ∀ b, b? = some b → b.blockHash = hash ∧ s.Keeps b := by
  obtain ⟨m, hshows, hm⟩ := h
  refine ⟨_, hshows.answer_getBlock hash, fun b hb => ?_⟩
  have hhash := hm.blockHash hb
  exact ⟨hhash, b, by rw [hshows.answer_getBlock, hhash, hb], .refl b⟩

/-- The linked transactions that are listed are stored under their hashes. -/
theorem answer_getMined (h : s.Tidy) (hashes : List String) :
    ∃ rows, s.answer (.getMined hashes) = .ok rows ∧ ∀ row ∈ rows, row.isMined = true ∧
      s.answer (.getTransaction row.txHash) = .ok (some row) := by
  obtain ⟨m, ⟨t, hrep, rfl⟩, hm⟩ := h
  obtain ⟨rows, hrows, hmem⟩ := exists_answer_getMined hrep hashes
  refine ⟨rows, hrows, fun row hrow => ?_⟩
  obtain ⟨hmined, hash, -, hget⟩ := Memory.mem_getMined.1 ((hmem row).1 hrow)
  refine ⟨hmined, ?_⟩
  rw [Storage.answer_getTransaction hrep, hm.txHash hget, hget]

/-- A block is stored, unless it is there; then the row that is there is what counts. -/
theorem answer_createBlock (h : s.Tidy) (c : Chain.Block) (confirmed : Bool) :
    ∃ b, s.answer (.createBlock c confirmed) = .ok b ∧ b.blockHash = c.hash ∧
      (s.after (.createBlock c confirmed)).answer (.getBlock c.hash) = .ok (some b) ∧
      ∀ b₀, s.answer (.getBlock c.hash) = .ok (some b₀) → b₀.RisesTo b := by
  obtain ⟨m, hshows, hm⟩ := h
  obtain ⟨m', he, hshows'⟩ := hshows.exists_effect (.createBlock c confirmed)
  have he : (Except.ok (m.createBlock c confirmed).1, (m.createBlock c confirmed).2) = _ := he
  obtain ⟨hanswer, rfl⟩ := Prod.mk.inj he
  refine ⟨_, hanswer.symm, m.blockHash_createBlock c confirmed hm.blockHash, ?_, fun b₀ hb₀ => ?_⟩
  · rw [hshows'.answer_getBlock, Memory.get?_createBlock, if_pos rfl]
  · rw [m.createBlock_eq c confirmed (hshows.get?_block hb₀)]
    exact .raise b₀ confirmed

/-- A transaction whose block is stored is refused, and nothing changes, if there is one of its hash, and
stored otherwise. -/
theorem answer_createTransaction (h : s.Tidy) (t : Chain.Transaction) (r : Chain.Receipt)
    (hb : s.Keeps b) :
    ((∃ old, s.answer (.getTransaction t.hash) = .ok (some old)) ∧
      s.answer (.createTransaction t r b) = .error (.duplicateTransaction t.hash) ∧
      ∀ hash, (s.after (.createTransaction t r b)).answer (.getTransaction hash) =
        s.answer (.getTransaction hash)) ∨
    s.answer (.getTransaction t.hash) = .ok none ∧
      s.answer (.createTransaction t r b) = .ok (.mined t r b) ∧
      (s.after (.createTransaction t r b)).answer (.getTransaction t.hash) =
        .ok (some (.mined t r b)) := by
  obtain ⟨m, hshows, -⟩ := h
  obtain ⟨m', he, hshows'⟩ := hshows.exists_effect (.createTransaction t r b)
  rcases he with he | ⟨hnone, -⟩
  · rcases Memory.addTransaction_cases he with ⟨old, hold, hanswer, rfl⟩ | ⟨hnone, hanswer, rfl⟩
    · replace hold : m'.transactions.get? t.hash = some old := hold
      refine .inl ⟨⟨old, by rw [hshows.answer_getTransaction, hold]⟩, hanswer, fun hash => ?_⟩
      rw [hshows.answer_getTransaction, hshows'.answer_getTransaction]
    · replace hnone : m.transactions.get? t.hash = none := hnone
      refine .inr ⟨by rw [hshows.answer_getTransaction, hnone], hanswer, ?_⟩
      rw [hshows'.answer_getTransaction]
      exact congrArg Except.ok ((Table.get?_insert _ _ _ _).trans (if_pos rfl))
  · exact absurd hnone (hshows.get?_ne_none hb)

/-- A transaction that is there is linked to a stored block in place, and no other one is touched. -/
theorem answer_linkTransaction (h : s.Tidy) (r : Chain.Receipt) (hb : s.Keeps b)
    {row : Ledger.Transaction} (hrow : s.answer (.getTransaction hash) = .ok (some row)) :
    s.answer (.linkTransaction hash b r) = .ok (row.link b r) ∧
      ∀ hash', (s.after (.linkTransaction hash b r)).answer (.getTransaction hash') =
        if hash' = hash then .ok (some (row.link b r)) else s.answer (.getTransaction hash') := by
  obtain ⟨m, hshows, -⟩ := h
  obtain ⟨m', he, hshows'⟩ := hshows.exists_effect (.linkTransaction hash b r)
  have hget := hshows.get?_transaction hrow
  rcases he with he | ⟨hnone, -⟩
  · rcases Memory.linkTransaction_cases he with ⟨hnone, -, -⟩ | ⟨t, ht, hanswer, rfl⟩
    · cases hnone.symm.trans hget
    · obtain rfl := Option.some.inj (hget.symm.trans ht)
      refine ⟨hanswer, fun hash' => ?_⟩
      rw [hshows'.answer_getTransaction, hshows.answer_getTransaction, Table.get?_insert]
      split <;> rfl
  · exact absurd hnone (hshows.get?_ne_none hb)

end Tidy

end Storage

/-! ## One's own accesses -/

/-- The block that an access links a transaction to. -/
def Access.block? : Access → Option Ledger.Block
  | createTransaction _ _ b => some b
  | linkTransaction _ b _ => some b
  | _ => none

namespace Storage

/-- What an access that met a store demands of the next one: a block is stored to be linked to, and a
transaction that is refused is linked in place. -/
def Demands (s : Storage) : Access → Access → Prop
  | .createBlock c confirmed, next => ∀ b, s.answer (.createBlock c confirmed) = .ok b → next.block? = some b
  | .createTransaction t r b, next =>
    ∀ fault, s.answer (.createTransaction t r b) = .error fault → next = .linkTransaction t.hash b r
  | _, _ => True

/-- The linked row that an access leaves behind that meets a store. -/
def written? (s : Storage) : Access → Option Ledger.Transaction
  | .createTransaction t r b => (s.answer (.createTransaction t r b)).toOption
  | .linkTransaction hash b r => (s.answer (.linkTransaction hash b r)).toOption
  | _ => none

end Storage

namespace Shared

variable {s s' : Shared Storage} {before : Storage} {a : Access} {P P' : Access → Prop}

/-- The linked rows that were written. -/
def written (s : Shared Storage) : List Ledger.Transaction :=
  s.moments.filterMap fun mo => mo.1.written? mo.2

/-- A linked row was in the store right after one of one's own accesses. -/
def Shown (s : Shared Storage) (row : Ledger.Transaction) : Prop :=
  row.isMined = true ∧
    ∃ mo ∈ s.moments, (mo.1.after mo.2).answer (.getTransaction row.txHash) = .ok (some row)

/-- A shared store later on. -/
structure Later (s s' : Shared Storage) : Prop where
  grows : s.state.Grows s'.state
  moments : s.moments ⊆ s'.moments

theorem Later.refl (s : Shared Storage) : s.Later s := ⟨.refl _, fun _ => id⟩

theorem Later.trans {s₁ s₂ s₃ : Shared Storage} (h : s₁.Later s₂) (h' : s₂.Later s₃) : s₁.Later s₃ :=
  ⟨h.grows.trans h'.grows, fun _ hmem => h'.moments (h.moments hmem)⟩

theorem Shown.mono {row : Ledger.Transaction} (h : s.Shown row) (hlater : s.Later s') : s'.Shown row := by
  obtain ⟨hmined, mo, hmem, hget⟩ := h
  exact ⟨hmined, mo, hlater.moments hmem, hget⟩

/-- An access of one's own after the others' turn. -/
structure Step (s : Shared Storage) (before : Storage) (a : Access) (s' : Shared Storage) : Prop where
  grows : s.state.Grows before
  tidy : before.Tidy
  state : s'.state = before.after a
  moments : s'.moments = s.moments ++ [(before, a)]

theorem exists_step (hs : s.state.Tidy) {r : Except Fault a.Reply}
    (h : Storage.store.shared.conduct (.access a) s r s') :
    ∃ before, s.Step before a s' ∧ r = before.answer a := by
  obtain ⟨hgrows, htidy⟩ := hs.afterAll (s.turns.headD [])
  obtain ⟨rfl, rfl⟩ := Prod.mk.inj h
  exact ⟨_, ⟨hgrows, htidy, rfl, rfl⟩, rfl⟩

namespace Step

theorem later (h : s.Step before a s') : s.Later s' where
  grows := by
    rw [h.state]
    exact h.grows.trans (h.tidy.after a).1
  moments := by
    rw [h.moments]
    exact List.subset_append_left _ _

theorem mem_moments (h : s.Step before a s') : (before, a) ∈ s'.moments := by
  rw [h.moments]
  exact List.mem_append_right _ List.mem_cons_self

theorem written (h : s.Step before a s') : s'.written = s.written ++ (before.written? a).toList := by
  rw [Shared.written, h.moments, List.filterMap_append, List.filterMap_cons]
  cases before.written? a <;> rfl

end Step

/-- One's own accesses are in order, and the next one may be any that `P` admits: they found the store
tidy, with all that was there before, and the blocks stored that they link to; and each does what the one
before it demands. -/
structure Orderly (s : Shared Storage) (P : Access → Prop) : Prop where
  tidy : s.state.Tidy
  met : ∀ mo ∈ s.moments, mo.1.Tidy ∧ ∀ b, mo.2.block? = some b → mo.1.Keeps b
  grows : ∀ mo ∈ s.moments, (mo.1.after mo.2).Grows s.state
  chain : s.moments.IsChain fun mo mo' => (mo.1.after mo.2).Grows mo'.1 ∧ mo.1.Demands mo.2 mo'.2
  next : ∀ mo ∈ s.moments.getLast?, ∀ a, P a → mo.1.Demands mo.2 a

namespace Orderly

theorem start (hs : s.state.Tidy) (hmoments : s.moments = []) (P : Access → Prop) : s.Orderly P where
  tidy := hs
  met mo hmem := by
    rw [hmoments] at hmem
    cases hmem
  grows mo hmem := by
    rw [hmoments] at hmem
    cases hmem
  chain := by
    rw [hmoments]
    exact .nil
  next mo hmem := by
    rw [hmoments] at hmem
    cases hmem

theorem mono (h : s.Orderly P) (hP : ∀ a, P' a → P a) : s.Orderly P' :=
  { h with next := fun mo hmem a ha => h.next mo hmem a (hP a ha) }

/-- An access that is admitted leaves all in order, whatever the others did before it. -/
theorem step (h : s.Orderly P) (hstep : s.Step before a s') (ha : P a)
    (hb : ∀ b, a.block? = some b → s.state.Keeps b) (hP' : ∀ a', P' a' → before.Demands a a') :
    s'.Orderly P' where
  tidy := by
    rw [hstep.state]
    exact (hstep.tidy.after a).2
  met mo hmem := by
    rw [hstep.moments] at hmem
    rcases List.mem_append.1 hmem with hmem | hmem
    · exact h.met mo hmem
    · rw [List.mem_singleton.1 hmem]
      exact ⟨hstep.tidy, fun b heq => (hb b heq).mono hstep.grows⟩
  grows mo hmem := by
    rw [hstep.moments] at hmem
    rcases List.mem_append.1 hmem with hmem | hmem
    · exact (h.grows mo hmem).trans hstep.later.grows
    · rw [List.mem_singleton.1 hmem, hstep.state]
      exact .refl _
  chain := by
    rw [hstep.moments, List.isChain_append]
    refine ⟨h.chain, List.isChain_singleton _, fun mo hmem mo' hmo' => ?_⟩
    obtain rfl := Option.some.inj hmo'
    exact ⟨(h.grows mo (List.mem_of_getLast? hmem)).trans hstep.grows, h.next mo hmem a ha⟩
  next mo hmem := by
    rw [hstep.moments, List.getLast?_append, List.getLast?_singleton, Option.some_or] at hmem
    rw [← Option.some.inj hmem]
    exact hP'

end Orderly

end Shared

end ChainIndex
