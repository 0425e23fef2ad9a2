import ChainIndex.Proofs.Store.Effect
import ChainIndex.Proofs.Store.ReadBack

/-!
# A database stands for tables in memory

A database represents the tables in memory that hold what its rows stand for (`Relational.Represents`).
Each access does to the one, within `Access.Effect`, what it does to the other (`Represents.access`), and
an invalidation leaves the frames alone, in as many statements as it takes (`Represents.invalidate`).
-/

namespace ChainIndex

namespace Relational

theorem mapM_decode_encode (ts : List Ledger.Transaction) :
    (ts.map TransactionRow.encode).mapM TransactionRow.decode = .ok ts :=
  mapM_eq_ok_iff.2 (List.forall₂_map_left_iff.2 (List.forall₂_same.2 fun t _ => TransactionRow.decode_encode t))

/-- A database holds, row by row, what tables in memory hold. -/
structure Represents (d : Relational) (m : Memory) : Prop where
  blocks : d.blocks.mapValues BlockRow.decode = m.blocks
  transactions : d.transactions = m.transactions.mapValues TransactionRow.encode
  masterCopies : d.masterCopies = m.masterCopies
  safeContracts : d.safeContracts = m.safeContracts
  derived : d.derived = m.derived

theorem represents_empty : Represents {} {} := ⟨rfl, rfl, rfl, rfl, rfl⟩

namespace Represents

variable {d : Relational} {m : Memory}

/-! ## Blocks -/

theorem getBlock (h : d.Represents m) (hash : String) :
    (d.blocks.get? hash).map BlockRow.decode = m.blocks.get? hash := by
  rw [← h.blocks, Table.get?_mapValues]

theorem createBlock (h : d.Represents m) (b : Chain.Block) (confirmed : Bool) :
    (d.createBlock b confirmed).1 = (m.createBlock b confirmed).1 ∧
      (d.createBlock b confirmed).2.Represents (m.createBlock b confirmed).2 := by
  have hrow : (d.createBlock b confirmed).1 = (m.createBlock b confirmed).1 := by
    unfold Relational.createBlock Memory.createBlock
    simp only [← h.getBlock]
    cases d.blocks.get? b.hash with
    | none => simp [Ledger.Block.ofChain]
    | some row => rfl
  refine ⟨hrow, { h with blocks := ?_ }⟩
  have hset : (m.createBlock b confirmed).2.blocks =
      m.blocks.insert b.hash (m.createBlock b confirmed).1 := rfl
  rw [hset, ← hrow, ← h.blocks]
  exact Table.mapValues_insert _ _ _ _

theorem confirmBlocks (h : d.Represents m) (upTo : UInt64) :
    ∃ final : Ledger.Block → Bool, (d.confirmBlocks upTo).2.Represents
      { m with blocks := m.blocks.map fun _ b => if final b then { b with confirmed := true } else b } := by
  refine ⟨fun b => !b.confirmed && wordColumn b.number ≤ wordColumn upTo, { h with blocks := ?_ }⟩
  rw [← h.blocks]
  exact (congrArg Prod.snd (d.updateWhere_storedBlocks upTo)).symm

/-! ## Transactions -/

theorem getTransaction (h : d.Represents m) (hash : String) :
    d.getTransaction hash = .ok (m.transactions.get? hash) := by
  rw [Relational.getTransaction, h.transactions, Table.get?_mapValues]
  cases m.transactions.get? hash with
  | none => rfl
  | some t => simp [Except.map]

theorem contains_transaction (h : d.Represents m) (hash : String) :
    d.transactions.contains hash = m.transactions.contains hash := by
  rw [Table.contains_eq_isSome, Table.contains_eq_isSome, h.transactions, Table.get?_mapValues,
    Option.isSome_map]

theorem refersToBlock (h : d.Represents m) (hash : String) :
    d.refersToBlock (some hash) = (m.blocks.get? hash).isSome := by
  rw [← h.getBlock, Option.isSome_map]
  rfl

theorem get?_eq_none (h : d.Represents m) {hash : String}
    (hb : ¬ d.refersToBlock (some hash) = true) : m.blocks.get? hash = none := by
  rwa [h.refersToBlock, Bool.not_eq_true, Option.isSome_eq_false_iff, Option.isNone_iff_eq_none] at hb

theorem insert (h : d.Represents m) (hash : String) (t : Ledger.Transaction) :
    Represents { d with transactions := d.transactions.insert hash (.encode t) }
      { m with transactions := m.transactions.insert hash t } := by
  refine { h with transactions := ?_ }
  rw [h.transactions]
  exact (Table.mapValues_insert _ _ _ _).symm

theorem addTransaction (h : d.Represents m) {t : Ledger.Transaction}
    (ht : d.refersToBlock t.blockHash = true) :
    (d.addTransaction t).1 = (m.addTransaction t).1 ∧
      (d.addTransaction t).2.Represents (m.addTransaction t).2 := by
  unfold Relational.addTransaction Memory.addTransaction
  rw [h.contains_transaction, if_pos ht]
  split
  · exact ⟨rfl, h⟩
  · exact ⟨rfl, h.insert _ _⟩

theorem createTransaction (h : d.Represents m) (t : Chain.Transaction) (r : Chain.Receipt)
    (b : Ledger.Block) :
    ∃ m', (Access.createTransaction t r b).Effect m (d.addTransaction (.mined t r b)).1 m' ∧
      (d.addTransaction (.mined t r b)).2.Represents m' := by
  by_cases hb : d.refersToBlock (some b.blockHash) = true
  · obtain ⟨hrow, hrep⟩ := h.addTransaction (t := .mined t r b) hb
    exact ⟨_, .inl (Prod.ext hrow.symm rfl), hrep⟩
  · by_cases hdup : m.transactions.contains (Ledger.Transaction.mined t r b).txHash
    · refine ⟨m, .inl ?_, ?_⟩ <;>
        simp only [Relational.addTransaction, Memory.addTransaction, h.contains_transaction, if_pos hdup]
      exact h
    · have hadd : d.addTransaction (.mined t r b) = (.error foreignKeyFault, d) := by
        rw [Relational.addTransaction, h.contains_transaction, if_neg hdup]
        exact if_neg hb
      rw [hadd]
      exact ⟨m, .inr ⟨h.get?_eq_none hb, rfl, rfl⟩, h⟩

theorem linkTransaction (h : d.Represents m) (hash : String) (b : Ledger.Block) (r : Chain.Receipt) :
    ∃ m', (Access.linkTransaction hash b r).Effect m (d.linkTransaction hash b r).1 m' ∧
      (d.linkTransaction hash b r).2.Represents m' := by
  cases ht : m.transactions.get? hash with
  | none =>
    have hd : d.linkTransaction hash b r = (.error (.transactionNotFound hash), d) := by
      rw [Relational.linkTransaction, h.getTransaction, ht]
    rw [hd]
    exact ⟨m, .inl (by rw [Memory.linkTransaction, ht]), h⟩
  | some t =>
    by_cases hb : d.refersToBlock (some b.blockHash) = true
    · have hset : d.transactions.modify hash (fun row => row.updateLink (t.link b r)) =
          d.transactions.insert hash (.encode (t.link b r)) := by
        rw [Table.modify, h.transactions, Table.get?_mapValues, ht]
        rfl
      have hd : d.linkTransaction hash b r = (.ok (t.link b r),
          { d with transactions := d.transactions.insert hash (.encode (t.link b r)) }) := by
        rw [Relational.linkTransaction, h.getTransaction, ht, ← hset]
        exact if_pos hb
      rw [hd]
      exact ⟨_, .inl (by rw [Memory.linkTransaction, ht]), h.insert _ _⟩
    · have hd : d.linkTransaction hash b r = (.error foreignKeyFault, d) := by
        rw [Relational.linkTransaction, h.getTransaction, ht]
        exact if_neg hb
      rw [hd]
      exact ⟨m, .inr ⟨h.get?_eq_none hb, rfl, rfl⟩, h⟩

theorem minedAmong (h : d.Represents m) (hashes : List String) :
    d.minedAmong hashes = .ok (m.transactions.filter fun hash t =>
      t.isMined && hashes.contains hash).values := by
  unfold Relational.minedAmong
  simp only [h.transactions, Table.filter_mapValues, Table.values_mapValues]
  exact mapM_decode_encode _

theorem mem_minedAmong {m : Memory} {hashes : List String} {row : Ledger.Transaction} :
    row ∈ (m.transactions.filter fun hash t => t.isMined && hashes.contains hash).values ↔
      row ∈ m.getMined hashes := by
  rw [Table.mem_values, Memory.mem_getMined]
  simp only [Table.get?_filter, Option.filter_eq_some_iff, Bool.and_eq_true, List.contains_iff_mem]
  constructor
  · rintro ⟨hash, hrow, hmined, hmem⟩
    exact ⟨hmined, hash, hmem, hrow⟩
  · rintro ⟨hmined, hash, hmem, hrow⟩
    exact ⟨hash, hrow, hmined, hmem⟩

theorem getMined (h : d.Represents m) (hashes : List String) :
    ∃ rows, d.getMined hashes = .ok rows ∧ ∀ row, row ∈ rows ↔ row ∈ m.getMined hashes := by
  obtain ⟨rows, hrows⟩ := exists_getMined fun hash (_ : hash ∈ hashes) => ⟨_, h.getTransaction hash⟩
  refine ⟨rows, hrows, fun row => ?_⟩
  rw [mem_iff_of_getMined hrows, Memory.mem_getMined]
  simp only [h.getTransaction, Except.ok.injEq]
  constructor
  · rintro ⟨hash, hhash, hget, hmined⟩
    exact ⟨hmined, hash, hhash, hget⟩
  · rintro ⟨hmined, hash, hhash, hget⟩
    exact ⟨hash, hhash, hget, hmined⟩

/-! ## Accesses -/

theorem createPending (h : d.Represents m) (t : Chain.Transaction) :
    (d.addTransaction (.pending t)).1 = (m.addTransaction (.pending t)).1 ∧
      (d.addTransaction (.pending t)).2.Represents (m.addTransaction (.pending t)).2 :=
  h.addTransaction rfl

/-- What an access does to a database, it does to the tables that the database represents. -/
theorem access (h : d.Represents m) (a : Access) :
    ∃ m', a.Effect m (Relational.access a d).1 m' ∧ (Relational.access a d).2.Represents m' := by
  cases a with
  | getBlock hash => exact ⟨m, Prod.ext (congrArg Except.ok (h.getBlock hash).symm) rfl, h⟩
  | createBlock b confirmed =>
    obtain ⟨hrow, hrep⟩ := h.createBlock b confirmed
    exact ⟨_, Prod.ext (congrArg Except.ok hrow.symm) rfl, hrep⟩
  | confirmBlocks upTo =>
    obtain ⟨final, hrep⟩ := h.confirmBlocks upTo
    exact ⟨_, ⟨_, final, rfl, rfl⟩, hrep⟩
  | getTransaction hash => exact ⟨m, Prod.ext (h.getTransaction hash).symm rfl, h⟩
  | getMined hashes =>
    obtain ⟨rows, hrows, hmem⟩ := h.getMined hashes
    exact ⟨m, ⟨rows, hrows, hmem, rfl⟩, h⟩
  | createTransaction t r b => exact h.createTransaction t r b
  | createPending t =>
    obtain ⟨hrow, hrep⟩ := h.createPending t
    exact ⟨_, Prod.ext hrow.symm rfl, hrep⟩
  | linkTransaction hash b r => exact h.linkTransaction hash b r
  | insertInternal rows markers =>
    have hcount : (m.derived.insertInternal rows markers).1 = (d.derived.insertInternal rows markers).1 := by
      rw [h.derived]
    exact ⟨_, Prod.ext (congrArg Except.ok hcount) rfl,
      { h with derived := congrArg (fun t => (t.insertInternal rows markers).2) h.derived }⟩
  | masterCopies =>
    exact ⟨m, Prod.ext (congrArg Except.ok (congrArg Table.keys h.masterCopies.symm)) rfl, h⟩
  | safeContracts =>
    exact ⟨m, Prod.ext (congrArg Except.ok (congrArg Table.keys h.safeContracts.symm)) rfl, h⟩
  | addMasterCopy a =>
    refine ⟨_, rfl, { h with masterCopies := ?_ }⟩
    exact (Table.insertIfNew_unit _ _).trans (congrArg (·.insert a ()) h.masterCopies)
  | addSafeContract a =>
    refine ⟨_, rfl, { h with safeContracts := ?_ }⟩
    exact (Table.insertIfNew_unit _ _).trans (congrArg (·.insert a ()) h.safeContracts)
  | putMultisigTx row => exact ⟨_, rfl, { h with derived := congrArg (·.putMultisigTx row) h.derived }⟩
  | putConfirmation row =>
    exact ⟨_, rfl, { h with derived := congrArg (·.putConfirmation row) h.derived }⟩
  | putModuleTx row => exact ⟨_, rfl, { h with derived := congrArg (·.putModuleTx row) h.derived }⟩
  | putSafeStatus row =>
    exact ⟨_, rfl, { h with derived := congrArg (·.putSafeStatus row) h.derived }⟩
  | pendingMarkers => 
    exact ⟨m, Prod.ext (congrArg Except.ok (congrArg (·.pendingMarkers) h.derived.symm)) rfl, h⟩
  | setProcessed key => exact ⟨_, rfl, { h with derived := congrArg (·.setProcessed key) h.derived }⟩
  | counts =>
    refine ⟨m, Prod.ext (congrArg Except.ok ?_) rfl, h⟩
    rw [← h.blocks, h.transactions, Table.size_mapValues, Table.size_mapValues, h.derived]

end Represents

/-! ## Invalidation -/

/-- A statement that leaves the frames alone. -/
def Statement.KeepsFrames (s : Statement) : Prop := ∀ d : Derived.Tables, d.SameFrames (s d).2

theorem keepsFrames_runAll {statements : List Statement} (h : ∀ s ∈ statements, s.KeepsFrames) :
    Statement.KeepsFrames (runAll statements) := by
  induction statements with
  | nil => exact Derived.Tables.SameFrames.refl
  | cons s rest ih =>
    intro d
    exact (h s List.mem_cons_self d).trans (ih (fun s hs => h s (List.mem_cons_of_mem _ hs)) _)

theorem keepsFrames_forAll (step : Derived.Invalidation) : (forAll step).KeepsFrames := by
  intro d
  cases step with
  | markers => exact .resetMarkers d _
  | _ => exact ⟨rfl, fun _ => rfl⟩

theorem keepsFrames_forSome (addresses : List String) (step : Derived.Invalidation) :
    (forSome addresses step).KeepsFrames := by
  intro d
  cases step with
  | markers => exact .resetMarkers d _
  | _ => exact ⟨rfl, fun _ => rfl⟩

theorem keepsFrames_of_mem_statements {step : Derived.Invalidation} {scope : Derived.AddressScope}
    {s : Statement} (hs : s ∈ statements step scope) : s.KeepsFrames := by
  cases scope with
  | all =>
    rw [List.mem_singleton.1 hs]
    exact keepsFrames_forAll step
  | only addresses =>
    obtain ⟨part, -, rfl⟩ := List.mem_map.1 hs
    exact keepsFrames_forSome part step

theorem Represents.runAll {d : Relational} {m : Memory} (h : d.Represents m) {ss : List Statement}
    (hs : ∀ s ∈ ss, s.KeepsFrames) : ∃ t, m.derived.SameFrames t ∧
      Represents { d with derived := (runAll ss d.derived).2 } { m with derived := t } := by
  refine ⟨(Relational.runAll ss d.derived).2, ?_, { h with derived := rfl }⟩
  rw [← h.derived]
  exact keepsFrames_runAll hs d.derived

theorem Represents.invalidate {d : Relational} {m : Memory} (h : d.Represents m)
    (step : Derived.Invalidation) (scope : Derived.AddressScope) :
    ∃ t, m.derived.SameFrames t ∧
      (d.invalidate step scope).2.Represents { m with derived := t } :=
  h.runAll fun _ hs => keepsFrames_of_mem_statements hs

end Relational

end ChainIndex
