import ChainIndex.Proofs.Effect.Execution
import ChainIndex.Store.Memory
import ChainIndex.Store.Relational

/-!
# What a store does

`Session.Effect` is how every store behaves, told in terms of tables in memory: an action does what it
does to those, except that a store may draw the line below a number in its own way when it confirms
blocks, may list linked transactions in any order, may refuse to link a transaction to a block that it
does not hold, and may touch any of the rows that an invalidation can touch.
-/

namespace ChainIndex

open Derived (Invalidation Tables)

/-- Derived tables with the same internal transactions, and with the same markers but for what has been
processed. -/
structure Derived.Tables.SameFrames (d d' : Tables) : Prop where
  internalTxs : d'.internalTxs = d.internalTxs
  markers : ∀ key, (d'.markers.get? key).map (fun m => (m.key, m.selector)) =
    (d.markers.get? key).map fun m => (m.key, m.selector)

namespace Derived.Tables.SameFrames

theorem refl (d : Tables) : d.SameFrames d := ⟨rfl, fun _ => rfl⟩

theorem trans {d₁ d₂ d₃ : Tables} (h : d₁.SameFrames d₂) (h' : d₂.SameFrames d₃) : d₁.SameFrames d₃ :=
  ⟨h'.internalTxs.trans h.internalTxs, fun key => (h'.markers key).trans (h.markers key)⟩

theorem resetMarkers (d : Tables) (chosen : FrameKey → Bool) :
    d.SameFrames { d with
      markers := d.markers.map fun key m => if chosen key then { m with processed := false } else m } where
  internalTxs := rfl
  markers key := by
    rw [Table.get?_map, Option.map_map]
    congr 1
    funext m
    simp only [Function.comp_apply]
    split <;> rfl

theorem setProcessed (d : Tables) (key : FrameKey) : d.SameFrames (d.setProcessed key) where
  internalTxs := rfl
  markers k := by
    rw [Tables.setProcessed, Table.get?_modify]
    split
    · rw [Option.map_map]
      rfl
    · rfl

end Derived.Tables.SameFrames

/-! ## Accesses -/

theorem Memory.mem_getMined {m : Memory} {hashes : List String} {row : Ledger.Transaction} :
    row ∈ m.getMined hashes ↔
      row.isMined = true ∧ ∃ hash ∈ hashes, m.transactions.get? hash = some row := by
  rw [getMined, List.mem_filter, List.mem_filterMap, and_comm]

/-- What an access may answer and do, given the tables that stand for what the store holds. -/
def Access.Effect (m : Memory) : (a : Access) → Except Fault a.Reply → Memory → Prop
  | .confirmBlocks _, r, m' => ∃ (n : Nat) (final : Ledger.Block → Bool), r = .ok n ∧
    m' = { m with
      blocks := m.blocks.map fun _ b => if final b then { b with confirmed := true } else b }
  | .getMined hashes, r, m' => ∃ rows, r = .ok rows ∧ (∀ row, row ∈ rows ↔ row ∈ m.getMined hashes) ∧
    m' = m
  | .createTransaction t r b, reply, m' =>
    m.addTransaction (.mined t r b) = (reply, m') ∨
      m.blocks.get? b.blockHash = none ∧ reply = .error Relational.foreignKeyFault ∧ m' = m
  | .linkTransaction hash b r, reply, m' =>
    m.linkTransaction hash b r = (reply, m') ∨
      m.blocks.get? b.blockHash = none ∧ reply = .error Relational.foreignKeyFault ∧ m' = m
  | a, r, m' => Memory.access a m = (r, m')

/-- Tables in memory behave as they should. -/
theorem Access.effect_memory (a : Access) (m : Memory) :
    a.Effect m (Memory.access a m).1 (Memory.access a m).2 := by
  cases a with
  | confirmBlocks upTo => exact ⟨_, fun b => !b.confirmed && b.number ≤ upTo, rfl, rfl⟩
  | getMined hashes => exact ⟨_, rfl, fun _ => Iff.rfl, rfl⟩
  | createTransaction t r b => exact .inl rfl
  | linkTransaction hash b r => exact .inl rfl
  | _ => rfl

/-! ## Units of work -/

/-- What an action may answer and do. -/
def Session.Effect : Conduct (Session Memory)
  | .access a, s, r, s' => ∃ m, a.Effect s.live r m ∧ s' = { s with live := m }
  | .beginUnit, s, r, s' => r = .ok () ∧ s' = { s with staged := some s.live }
  | .invalidate _ _, s, r, s' =>
    (s.staged = none ∧ r = .error Session.noUnit ∧ s' = s) ∨
      ∃ m n d, s.staged = some m ∧ r = .ok n ∧ m.derived.SameFrames d ∧
        s' = { s with staged := some { m with derived := d } }
  | .commit, s, r, s' =>
    (s.staged = none ∧ r = .error Session.noUnit ∧ s' = s) ∨
      ∃ m, s.staged = some m ∧ r = .ok () ∧ s' = { live := m }
  | .rollback, s, r, s' => r = .ok () ∧ s' = { s with staged := none }
  | .abandon, s, r, s' => r = .ok () ∧ s' = { s with staged := none }

end ChainIndex
