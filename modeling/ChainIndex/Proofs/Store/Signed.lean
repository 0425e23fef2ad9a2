import Mathlib.Algebra.Group.Int.Defs
import Mathlib.Algebra.Group.Nat.Defs
import ChainIndex.Proofs.Store.Row
import ChainIndex.Proofs.Table.Selection
import ChainIndex.Proofs.Table.Values
import ChainIndex.Store.Memory
import ChainIndex.Store.Relational

/-!
# Numbers of blocks as signed integers

A database compares the numbers of blocks as the signed integers with the same bits.  These are ordered as
the numbers themselves on either side of `2 ^ 63`, and the other way round across it (`wordColumn_le_iff`).

A database therefore confirms the blocks up to a number as tables in memory do exactly if no block that is
still to be confirmed lies on the other side of `2 ^ 63` than that number (`confirmBlocks_signed`).  Across it,
a block above the bound becomes confirmed (`confirmed_above_bound`), and one below the bound does not.
-/

namespace ChainIndex

/-! ## Confirmed rows -/

/-- The row of a block after it is confirmed. -/
def Ledger.Block.confirm (b : Block) : Block := { b with confirmed := true }

theorem Ledger.Block.confirm_ne (b : Block) (h : b.confirmed = false) : b.confirm ≠ b := by
  intro heq
  have hset : true = b.confirmed := congrArg Block.confirmed heq
  rw [h] at hset
  cases hset

namespace Relational

/-- The columns of a block after it is confirmed. -/
def BlockRow.confirm (row : BlockRow) : BlockRow := { row with confirmed := true }

theorem BlockRow.decode_confirm (row : BlockRow) : row.confirm.decode = row.decode.confirm := rfl

/-- The blocks that the rows of a database stand for. -/
def storedBlocks (d : Relational) : Table String Ledger.Block := d.blocks.mapValues BlockRow.decode

/-! ## The order of columns -/

/-- Two words lie on the same side of `2 ^ 63`, so that their columns have the same sign. -/
def SameSide (n m : UInt64) : Prop := n.toNat < 2 ^ 63 ↔ m.toNat < 2 ^ 63

instance (n m : UInt64) : Decidable (SameSide n m) := inferInstanceAs (Decidable (_ ↔ _))

theorem toInt_wordColumn (n : UInt64) :
    (wordColumn n).toInt = if n.toNat < 2 ^ 63 then (n.toNat : Int) else n.toNat - 2 ^ 64 := by
  show n.toBitVec.toInt = _
  have hbits : n.toBitVec.toNat = n.toNat := rfl
  rw [BitVec.toInt_eq_toNat_cond, hbits]
  split <;> split <;> omega

theorem wordColumn_decode (row : BlockRow) : wordColumn row.decode.number = row.number :=
  Int64.toInt64_toUInt64 _

/-- Columns are in the order of the words on the same side of `2 ^ 63`, and in the opposite order across it. -/
theorem wordColumn_le_iff (n m : UInt64) : wordColumn n ≤ wordColumn m ↔ (n ≤ m ↔ SameSide n m) := by
  have hn : n.toNat < 2 ^ 64 := n.toNat_lt
  have hm : m.toNat < 2 ^ 64 := m.toNat_lt
  rw [Int64.le_iff_toInt_le, toInt_wordColumn, toInt_wordColumn, UInt64.le_iff_toNat_le, SameSide]
  split <;> split <;> omega

/-! ## Confirming blocks -/

/-- A database confirms the blocks whose numbers are at most the bound as signed integers. -/
theorem updateWhere_storedBlocks (d : Relational) (upTo : UInt64) :
    d.storedBlocks.updateWhere (fun _ b => !b.confirmed && wordColumn b.number ≤ wordColumn upTo)
        Ledger.Block.confirm =
      ((d.confirmBlocks upTo).1, (d.confirmBlocks upTo).2.storedBlocks) := by
  unfold storedBlocks
  rw [Table.updateWhere_mapValues BlockRow.decode_confirm]
  simp only [wordColumn_decode]
  rfl

/-- A database confirms the blocks that tables in memory confirm exactly if no block that is still to be
confirmed lies on the other side of `2 ^ 63` than the bound. -/
theorem confirmBlocks_eq_iff {d : Relational} {m : Memory} (h : m.blocks = d.storedBlocks) (upTo : UInt64) :
    ((m.confirmBlocks upTo).1, (m.confirmBlocks upTo).2.blocks) =
        ((d.confirmBlocks upTo).1, (d.confirmBlocks upTo).2.storedBlocks) ↔
      ∀ {hash b}, m.blocks.get? hash = some b → b.confirmed = false → SameSide b.number upTo := by
  have hmemory : ((m.confirmBlocks upTo).1, (m.confirmBlocks upTo).2.blocks) =
      m.blocks.updateWhere (fun _ b => !b.confirmed && b.number ≤ upTo) Ledger.Block.confirm := rfl
  rw [hmemory, ← d.updateWhere_storedBlocks, ← h, Table.updateWhere_eq_iff]
  · refine forall₃_congr fun hash b _ => ?_
    cases b.confirmed with
    | true => simp
    | false =>
      simp only [Bool.not_false, Bool.true_and, decide_eq_decide, wordColumn_le_iff, forall_const]
      by_cases hle : b.number ≤ upTo <;> simp [hle]
  · -- Only a block that is not confirmed is chosen, so that the change shows.
    intro _ b hb
    refine b.confirm_ne (Bool.eq_false_iff.2 fun hc => ?_)
    rw [hc] at hb
    cases hb

/-- A database that confirms the blocks up to a number confirms those that are at most that number as signed
integers, counts them and changes nothing else.  As far as a block and the bound lie on the same side of
`2 ^ 63`, that is what they are as numbers, and otherwise it is the reverse; so the database does what tables
in memory with the same blocks do exactly if none of its unconfirmed blocks lies on the other side. -/
theorem confirmBlocks_signed (d : Relational) (upTo : UInt64) :
    ∃ n d', Relational.access (.confirmBlocks upTo) d = (.ok n, d') ∧
      d' = { d with blocks := d'.blocks } ∧
      d.storedBlocks.Changed (fun _ b => !b.confirmed && wordColumn b.number ≤ wordColumn upTo)
        Ledger.Block.confirm n d'.storedBlocks ∧
      (∀ number, wordColumn number ≤ wordColumn upTo ↔ (number ≤ upTo ↔ SameSide number upTo)) ∧
      ∀ m : Memory, m.blocks = d.storedBlocks →
        ((Memory.access (.confirmBlocks upTo) m).1 = .ok n ∧
            (Memory.access (.confirmBlocks upTo) m).2.blocks = d'.storedBlocks ↔
          ∀ hash b, m.blocks.get? hash = some b → b.confirmed = false → SameSide b.number upTo) := by
  refine ⟨_, _, rfl, rfl, ?_, fun number => wordColumn_le_iff number upTo, fun m hm => ?_⟩
  · have hchanged := d.storedBlocks.changed_updateWhere
      (fun _ b => !b.confirmed && wordColumn b.number ≤ wordColumn upTo) Ledger.Block.confirm
    rwa [d.updateWhere_storedBlocks] at hchanged
  · rw [← confirmBlocks_eq_iff hm, Prod.mk.injEq]
    exact and_congr_left' (Except.ok.injEq _ _).to_iff

end Relational

namespace Sample

/-- A block whose number is negative as a signed integer. -/
def distant : Chain.Block where
  number := 0x8000000000000000
  hash := "0xb8"
  parentHash := "0xb7"
  timestamp := 1700000008

/-- A database that holds a block, not confirmed. -/
def holding (b : Chain.Block) : Relational := (Relational.createBlock {} b false).2

theorem get?_holding {b : Chain.Block} {hash : String} {row : Ledger.Block}
    (h : (holding b).storedBlocks.get? hash = some row) : row = .ofChain b false := by
  have hrow : (if hash = b.hash then some (Relational.BlockRow.encode b false) else none).map
      Relational.BlockRow.decode = some row := by
    rw [← h, Relational.storedBlocks, Table.get?_mapValues]
    exact congrArg _ (Table.get?_insert ∅ b.hash hash (Relational.BlockRow.encode b false)).symm
  split at hrow
  · rw [Option.map_some, Relational.BlockRow.decode_encode] at hrow
    exact (Option.some.inj hrow).symm
  · cases hrow

end Sample

namespace Relational

open Sample

/-- A block of a number below `2 ^ 63` is confirmed alike; the distant one is not. -/
theorem confirmBlocks_signed_sample :
    (∃ n d', Relational.access (.confirmBlocks 5) (holding { distant with number := 5 }) = (.ok n, d') ∧
      (Memory.access (.confirmBlocks 5) { blocks := (holding { distant with number := 5 }).storedBlocks }).1 =
        .ok n) ∧
    ∃ n d', Relational.access (.confirmBlocks 5) (holding distant) = (.ok n, d') ∧
      ¬ ((Memory.access (.confirmBlocks 5) { blocks := (holding distant).storedBlocks }).1 = .ok n ∧
        (Memory.access (.confirmBlocks 5) { blocks := (holding distant).storedBlocks }).2.blocks =
          d'.storedBlocks) := by
  constructor
  · obtain ⟨n, d', haccess, -, -, -, halike⟩ := confirmBlocks_signed (holding { distant with number := 5 }) 5
    refine ⟨n, d', haccess, ((halike { blocks := _ } rfl).2 fun hash b hb _ => ?_).1⟩
    rw [get?_holding hb]
    decide
  · obtain ⟨n, d', haccess, -, -, -, halike⟩ := confirmBlocks_signed (holding distant) 5
    refine ⟨n, d', haccess, fun h => ?_⟩
    have hside : SameSide distant.number 5 := (halike { blocks := _ } rfl).1 h "0xb8" (.ofChain distant false)
      (by decide +kernel) rfl
    exact absurd hside (by decide)

/-- A block above the bound is confirmed and counted by a database, and not by tables in memory. -/
theorem confirmed_above_bound :
    ¬ distant.number ≤ 5 ∧
    (Relational.access (.getBlock "0xb8") (holding distant)).1 = .ok (some (.ofChain distant false)) ∧
    (Relational.access (.confirmBlocks 5) (holding distant)).1 = .ok 1 ∧
    (Relational.access (.getBlock "0xb8") (Relational.access (.confirmBlocks 5) (holding distant)).2).1 =
      .ok (some (.ofChain distant true)) ∧
    (Memory.access (.confirmBlocks 5) { blocks := (holding distant).storedBlocks }).1 = .ok 0 :=
  ⟨by decide, rfl, rfl, rfl, rfl⟩

end Relational

end ChainIndex
