import ChainIndex.Confirmation
import ChainIndex.Proofs.Store.Ledger

/-!
# Which blocks are confirmed

A block is final if it lies deep enough below the head, and up to the tip below a head all blocks do
(`ConfirmationPolicy.le_tip_iff`).  At depth zero a block above the head is final too, but is not below
the tip: confirming up to the tip confirms every final block only because at depth zero every stored
block is confirmed already (`Memory.confirmBlocks_tip`).
-/

namespace ChainIndex

namespace ConfirmationPolicy

variable (p : ConfirmationPolicy) (number head : UInt64)

theorem toNat_depthBelow : (depthBelow number head).toNat = head.toNat - number.toNat := by
  unfold depthBelow
  split
  · rename_i h
    exact UInt64.toNat_sub_of_le _ _ h
  · rename_i h
    rw [UInt64.le_iff_toNat_le] at h
    have hzero : (0 : UInt64).toNat = 0 := rfl
    omega

theorem isConfirmed_iff :
    p.isConfirmed number head = true ↔ p.reorgDepth.toNat ≤ head.toNat - number.toNat := by
  rw [isConfirmed, decide_eq_true_iff, UInt64.le_iff_toNat_le, toNat_depthBelow]

/-- The blocks up to the tip are those that lie deep enough below the head, and not above it. -/
theorem le_tip_iff {p : ConfirmationPolicy} {head tip : UInt64} (h : p.tip? head = some tip)
    (number : UInt64) : number ≤ tip ↔ number.toNat + p.reorgDepth.toNat ≤ head.toNat := by
  unfold tip? at h
  split at h
  · rename_i hle
    obtain rfl := Option.some.inj h
    rw [UInt64.le_iff_toNat_le] at hle
    rw [UInt64.le_iff_toNat_le, UInt64.toNat_sub_of_le _ _ hle]
    omega
  · cases h

theorem lt_of_tip?_eq_none {p : ConfirmationPolicy} {head : UInt64} (h : p.tip? head = none) :
    head.toNat < p.reorgDepth.toNat := by
  unfold tip? at h
  split at h
  · cases h
  · rename_i hle
    rw [UInt64.le_iff_toNat_le] at hle
    omega

end ConfirmationPolicy

namespace Ledger.Block

variable (p : ConfirmationPolicy) (head : UInt64)

/-- The row of a block, confirmed if the block lies deep enough below a head. -/
def raise (b : Block) : Block := { b with confirmed := b.confirmed || p.isConfirmed b.number head }

theorem raise_eq_of_confirmed (b : Block) (h : b.confirmed = true) : b.raise p head = b := by
  have hraised : (b.confirmed || p.isConfirmed b.number head) = b.confirmed := by
    rw [h, Bool.true_or]
  rw [raise, hraised]

theorem raise_raise (b : Block) : (b.raise p head).raise p head = b.raise p head := by
  simp only [raise, Bool.or_assoc, Bool.or_self]

theorem raise_ne_iff (b : Block) :
    b.raise p head ≠ b ↔ b.confirmed = false ∧ p.isConfirmed b.number head = true := by
  constructor
  · intro hne
    cases hc : b.confirmed with
    | true => exact absurd (raise_eq_of_confirmed p head b hc) hne
    | false =>
      cases hfinal : p.isConfirmed b.number head with
      | true => exact ⟨rfl, rfl⟩
      | false =>
        refine absurd ?_ hne
        rw [raise, hfinal, Bool.or_false]
  · rintro ⟨hc, hfinal⟩ heq
    have hconfirmed : (b.raise p head).confirmed = true := by rw [raise, hfinal, Bool.or_true]
    rw [heq, hc] at hconfirmed
    cases hconfirmed

end Ledger.Block

namespace Memory

variable {m : Memory} {p : ConfirmationPolicy}

/-- At depth zero, every stored block is confirmed. -/
def AllConfirmedAtZero (p : ConfirmationPolicy) (m : Memory) : Prop :=
  p.reorgDepth = 0 → ∀ {hash b}, m.blocks.get? hash = some b → b.confirmed = true

/-- What `confirmBlocks` looks for below the tip is what lies deep enough below the head. -/
theorem chosen_iff (hzero : m.AllConfirmedAtZero p) {head tip : UInt64} (htip : p.tip? head = some tip)
    {hash : String} {b : Ledger.Block} (hb : m.blocks.get? hash = some b) :
    (!b.confirmed && decide (b.number ≤ tip)) = decide (b.raise p head ≠ b) := by
  rw [Bool.eq_iff_iff, Bool.and_eq_true, Bool.not_eq_true', decide_eq_true_iff, decide_eq_true_iff,
    Ledger.Block.raise_ne_iff, p.isConfirmed_iff, ConfirmationPolicy.le_tip_iff htip]
  constructor
  · rintro ⟨hc, hle⟩
    exact ⟨hc, by omega⟩
  · rintro ⟨hc, hle⟩
    refine ⟨hc, ?_⟩
    have hpos : p.reorgDepth.toNat ≠ 0 := by
      intro h
      have hconfirmed := hzero (UInt64.toNat_inj.1 h) hb
      rw [hc] at hconfirmed
      cases hconfirmed
    omega

/-- The tables with the blocks confirmed that lie deep enough below a head, and the number of the rows
that this changes. -/
def raise (m : Memory) (p : ConfirmationPolicy) (head : UInt64) : Nat × Memory :=
  (m.blocks.count fun _ b => decide (b.raise p head ≠ b),
    { m with blocks := m.blocks.map fun _ b => b.raise p head })

theorem raise_eq_self {head : UInt64}
    (h : ∀ {hash b}, m.blocks.get? hash = some b → b.raise p head = b) : m.raise p head = (0, m) := by
  have hcount : (m.blocks.count fun _ b => decide (b.raise p head ≠ b)) = 0 := by
    refine List.countP_eq_zero.2 fun row hrow => ?_
    rw [decide_eq_true_iff, Decidable.not_not]
    exact h (Table.get?_eq_some_iff.2 hrow)
  have hmap : (m.blocks.map fun _ b => b.raise p head) = m.blocks := by
    refine Table.ext_get? fun hash => ?_
    rw [Table.get?_map]
    cases hb : m.blocks.get? hash with
    | none => rfl
    | some b => exact congrArg some (h hb)
  rw [raise, hcount, hmap]

theorem get?_raise (m : Memory) (p : ConfirmationPolicy) (head : UInt64) (hash : String) :
    (m.raise p head).2.blocks.get? hash = (m.blocks.get? hash).map (·.raise p head) :=
  Table.get?_map _ _ _

theorem count_raise (m : Memory) (p : ConfirmationPolicy) (head : UInt64) : (m.raise p head).1 =
    m.blocks.count fun hash b => decide ((m.raise p head).2.blocks.get? hash ≠ some b) := by
  refine List.countP_congr fun row hrow => ?_
  have hb : m.blocks.get? row.1 = some row.2 := Table.get?_eq_some_iff.2 hrow
  simp only [get?_raise, hb, Option.map_some, ne_eq, Option.some.injEq]

/-- No row changes but for its confirmation, and none comes or goes. -/
theorem rel_raise (m : Memory) (p : ConfirmationPolicy) (head : UInt64) (hash : String) :
    Option.Rel Ledger.Block.RisesTo (m.blocks.get? hash) ((m.raise p head).2.blocks.get? hash) := by
  rw [get?_raise]
  cases m.blocks.get? hash with
  | none => exact .none
  | some b => exact .some (.raise b _)

/-- After raising, a block that lies deep enough below the head is confirmed. -/
theorem confirmed_of_get?_raise {head : UInt64} {hash : String} {b : Ledger.Block}
    (hb : (m.raise p head).2.blocks.get? hash = some b) (hfinal : p.isConfirmed b.number head = true) :
    b.confirmed = true := by
  rw [get?_raise, Option.map_eq_some_iff] at hb
  obtain ⟨b₀, -, rfl⟩ := hb
  exact (congrArg (b₀.confirmed || ·) hfinal).trans (Bool.or_true _)

theorem AllConfirmedAtZero.raise (h : m.AllConfirmedAtZero p) (head : UInt64) :
    (m.raise p head).2.AllConfirmedAtZero p := by
  intro hdepth hash b hb
  rw [get?_raise, Option.map_eq_some_iff] at hb
  obtain ⟨b₀, hb₀, rfl⟩ := hb
  rw [b₀.raise_eq_of_confirmed _ _ (h hdepth hb₀)]
  exact h hdepth hb₀

theorem raise_raise (m : Memory) (p : ConfirmationPolicy) (head : UInt64) :
    (m.raise p head).2.raise p head = (0, (m.raise p head).2) := by
  refine raise_eq_self fun {hash b} hb => ?_
  rw [get?_raise, Option.map_eq_some_iff] at hb
  obtain ⟨b₀, -, rfl⟩ := hb
  exact b₀.raise_raise p head

/-- Below a head without a tip, no block lies deep enough. -/
theorem raise_of_tip?_eq_none {head : UInt64} (htip : p.tip? head = none) :
    m.raise p head = (0, m) := by
  refine raise_eq_self fun {hash b} _ => Decidable.byContradiction fun hne => ?_
  have hfinal := ((b.raise_ne_iff p head).1 hne).2
  rw [p.isConfirmed_iff] at hfinal
  have hlt := ConfirmationPolicy.lt_of_tip?_eq_none htip
  omega

/-- Confirming up to the tip below a head confirms what lies deep enough below the head. -/
theorem confirmBlocks_tip (hzero : m.AllConfirmedAtZero p) {head tip : UInt64}
    (htip : p.tip? head = some tip) : m.confirmBlocks tip = m.raise p head := by
  have hcount : (m.blocks.count fun _ b => !b.confirmed && decide (b.number ≤ tip)) =
      m.blocks.count fun _ b => decide (b.raise p head ≠ b) := by
    refine List.countP_congr fun row hrow => ?_
    have hrow := chosen_iff hzero htip (Table.get?_eq_some_iff.2 hrow)
    exact iff_of_eq (congrArg (· = true) hrow)
  have hmap : (m.blocks.map fun _ b =>
      if !b.confirmed && decide (b.number ≤ tip) then { b with confirmed := true } else b) =
      m.blocks.map fun _ b => b.raise p head := by
    refine Table.ext_get? fun hash => ?_
    rw [Table.get?_map, Table.get?_map]
    cases hb : m.blocks.get? hash with
    | none => rfl
    | some b =>
      refine congrArg some ?_
      dsimp only
      rw [chosen_iff hzero htip hb]
      by_cases hne : b.raise p head ≠ b
      · obtain ⟨-, hfinal⟩ := (b.raise_ne_iff p head).1 hne
        rw [decide_eq_true hne, if_pos rfl, Ledger.Block.raise, hfinal, Bool.or_true]
      · rw [decide_eq_false hne, if_neg Bool.false_ne_true]
        exact (Decidable.not_not.1 hne).symm
  show (m.blocks.count fun _ b => !b.confirmed && decide (b.number ≤ tip), _) = _
  rw [hcount, raise, ← hmap]

end Memory

end ChainIndex
