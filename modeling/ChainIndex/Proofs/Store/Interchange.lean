import Mathlib.Algebra.Group.Nat.Defs
import Mathlib.Data.List.Nodup
import ChainIndex.Proofs.Store.Growth
import ChainIndex.Proofs.Store.Represents

/-!
# Tables of a database answer like tables in memory

A database that stands for tables in memory (`Relational.Matches`) answers an access as they do, and stands
for them afterwards (`Matches.step`).  Two things must be left out for that, since a database would tell them
from tables in memory: numbers of blocks that are negative as signed integers, and links to blocks that are
not stored (`Access.Admissible`).  Only the order in which several transactions are listed may differ.
-/

namespace ChainIndex

/-! ## Accesses -/

namespace Access

/-- The rows of blocks that an answer holds. -/
def blocksIn : (a : Access) → Except Fault a.Reply → List Ledger.Block
  | .getBlock _, .ok b => b.toList
  | .createBlock .., .ok b => [b]
  | _, _ => []

/-- An access that every kind of store answers alike, given the rows of blocks that are known from earlier
answers: numbers of blocks fit into signed integers, no hash is asked for twice at once, and transactions
are linked to known blocks. -/
def Admissible (known : List Ledger.Block) : Access → Prop
  | .createBlock b _ => b.number.toNat < 2 ^ 63
  | .confirmBlocks upTo => upTo.toNat < 2 ^ 63
  | .getMined hashes => hashes.Nodup
  | .createTransaction _ _ b => b ∈ known
  | .linkTransaction _ b _ => b ∈ known
  | _ => True

instance (known : List Ledger.Block) : (a : Access) → Decidable (a.Admissible known)
  | .createBlock .. => inferInstanceAs (Decidable (_ < _))
  | .confirmBlocks _ => inferInstanceAs (Decidable (_ < _))
  | .getMined _ => inferInstanceAs (Decidable (List.Nodup _))
  | .createTransaction .. => inferInstanceAs (Decidable (_ ∈ _))
  | .linkTransaction .. => inferInstanceAs (Decidable (_ ∈ _))
  | .getBlock _ | .getTransaction _ | .createPending _ | .insertInternal .. | .masterCopies | .safeContracts
  | .addMasterCopy _ | .addSafeContract _ | .putMultisigTx _ | .putConfirmation _ | .putModuleTx _
  | .putSafeStatus _ | .pendingMarkers | .setProcessed _ | .counts => inferInstanceAs (Decidable True)

/-- Two answers to an access are the same, but for the order in which several transactions are listed. -/
def SameAnswer : (a : Access) → Except Fault a.Reply → Except Fault a.Reply → Prop
  | .getMined _, r, r' => ∃ rows rows', r = .ok rows ∧ r' = .ok rows' ∧ rows.Perm rows'
  | _, r, r' => r = r'

end Access

/-- The numbers of all stored blocks fit into signed integers. -/
def Memory.NumbersFit (m : Memory) : Prop :=
  ∀ {hash b}, m.blocks.get? hash = some b → b.number.toNat < 2 ^ 63

namespace Relational.Represents

variable {d : Relational} {m : Memory}

theorem confirmBlocks_eq (h : d.Represents m) (hm : m.NumbersFit) {upTo : UInt64}
    (hup : upTo.toNat < 2 ^ 63) :
    (d.confirmBlocks upTo).1 = (m.confirmBlocks upTo).1 ∧
      (d.confirmBlocks upTo).2.Represents (m.confirmBlocks upTo).2 := by
  have heq := (confirmBlocks_eq_iff h.blocks.symm upTo).2 fun hb _ => ⟨fun _ => hup, fun _ => hm hb⟩
  obtain ⟨hcount, hblocks⟩ := Prod.mk.inj heq
  exact ⟨hcount.symm, { h with blocks := hblocks.symm }⟩

/-! ## Transactions of several hashes -/

theorem minedAmong_perm (h : d.Represents m) (hm : m.Keyed) {hashes : List String}
    (hnodup : hashes.Nodup) : ∃ rows, d.minedAmong hashes = .ok rows ∧ (m.getMined hashes).Perm rows := by
  refine ⟨_, h.minedAmong hashes, ?_⟩
  refine (List.perm_ext_iff_of_nodup ?_ ?_).2 fun row => mem_minedAmong.symm
  · refine (List.Nodup.filterMap (fun a a' t ha ha' => ?_) hnodup).filter _
    exact (hm ha).symm.trans (hm ha')
  · refine Table.nodup_values (f := Ledger.Transaction.txHash) fun {hash t} ht => ?_
    rw [Table.get?_filter, Option.filter_eq_some_iff] at ht
    exact hm ht.1

/-- Statement after statement, the linked transactions are listed. -/
theorem mapM_minedAmong_perm (h : d.Represents m) (hm : m.Keyed) {parts : List (List String)}
    (hnodup : parts.flatten.Nodup) :
    ∃ lists, parts.mapM d.minedAmong = .ok lists ∧ (m.getMined parts.flatten).Perm lists.flatten := by
  induction parts with
  | nil => exact ⟨[], rfl, .nil⟩
  | cons part rest ih =>
    rw [List.flatten_cons] at hnodup
    obtain ⟨rows, hrows, hperm⟩ := h.minedAmong_perm hm hnodup.of_append_left
    obtain ⟨lists, hlists, hperm'⟩ := ih hnodup.of_append_right
    refine ⟨rows :: lists, by rw [List.mapM_cons, hrows, hlists]; rfl, ?_⟩
    rw [List.flatten_cons, List.flatten_cons, Memory.getMined, List.filterMap_append, List.filter_append]
    exact hperm.append hperm'

theorem getMined_perm (h : d.Represents m) (hm : m.Keyed) {hashes : List String} (hnodup : hashes.Nodup) :
    ∃ rows, d.getMined hashes = .ok rows ∧ (m.getMined hashes).Perm rows := by
  rw [← flatten_chunks maxParameters hashes] at hnodup
  obtain ⟨lists, hlists, hperm⟩ := h.mapM_minedAmong_perm hm hnodup
  rw [flatten_chunks] at hperm
  exact ⟨lists.flatten, by rw [Relational.getMined, hlists]; rfl, hperm⟩

end Relational.Represents

/-! ## Accesses one by one -/

namespace Access

variable {m m' : Memory} {a : Access} {known : List Ledger.Block}

theorem Effect.numbersFit {r : Except Fault a.Reply} (he : a.Effect m r m') (ha : a.Admissible known)
    (h : m.NumbersFit) : m'.NumbersFit := by
  intro hash b hb
  cases hold : m.blocks.get? hash with
  | none =>
    obtain ⟨c, confirmed, rfl, -, rfl⟩ := he.newBlock hold hb
    exact ha
  | some b₀ =>
    obtain ⟨b', hb', hrise⟩ := he.block hold
    have hfit := h hold
    rw [Option.some.inj (hb.symm.trans hb'), hrise.same]
    exact hfit

theorem isSome_of_mem_blocksIn (hm : m.Tidy) {b : Ledger.Block}
    (hb : b ∈ a.blocksIn (Memory.access a m).1) :
    ((Memory.access a m).2.blocks.get? b.blockHash).isSome = true := by
  cases a with
  | getBlock hash =>
    have hrow : m.blocks.get? hash = some b := Option.mem_toList.1 hb
    rw [hm.blockHash hrow]
    exact Option.isSome_of_eq_some hrow
  | createBlock c confirmed =>
    obtain rfl := List.mem_singleton.1 hb
    show ((m.createBlock c confirmed).2.blocks.get? (m.createBlock c confirmed).1.blockHash).isSome = true
    rw [m.blockHash_createBlock c confirmed hm.blockHash, Memory.get?_createBlock, if_pos rfl]
    rfl
  | _ => cases hb

end Access

namespace Relational

/-- A database stands for tables in memory within the bounds that it observes, and the blocks that are known
from answers are stored. -/
structure Matches (d : Relational) (m : Memory) (known : List Ledger.Block) : Prop where
  represents : d.Represents m
  tidy : m.Tidy
  fits : m.NumbersFit
  known : ∀ b ∈ known, (m.blocks.get? b.blockHash).isSome = true

theorem matches_empty : Matches {} {} [] :=
  ⟨represents_empty, ⟨nofun, nofun⟩, nofun, nofun⟩

namespace Matches

variable {d : Relational} {m : Memory} {known : List Ledger.Block} {a : Access}

theorem refersToBlock (h : d.Matches m known) {b : Ledger.Block} (hb : b ∈ known) :
    d.refersToBlock (some b.blockHash) = true := by
  rw [h.represents.refersToBlock]
  exact h.known b hb

theorem linkTransaction (h : d.Matches m known) (hash : String) {b : Ledger.Block} (hb : b ∈ known)
    (r : Chain.Receipt) : (d.linkTransaction hash b r).1 = (m.linkTransaction hash b r).1 ∧
      (d.linkTransaction hash b r).2.Represents (m.linkTransaction hash b r).2 := by
  obtain ⟨m', he, hrep⟩ := h.represents.linkTransaction hash b r
  rcases he with he | ⟨hnone, -⟩
  · rw [he]
    exact ⟨rfl, hrep⟩
  · have hsome := h.known b hb
    rw [hnone] at hsome
    cases hsome

/-- A database answers an access as the tables do that it stands for, and stands for them afterwards. -/
theorem answer (h : d.Matches m known) (ha : a.Admissible known) :
    a.SameAnswer (Memory.access a m).1 (Relational.access a d).1 ∧
      (Relational.access a d).2.Represents (Memory.access a m).2 := by
  obtain ⟨m', he, hrep⟩ := h.represents.access a
  cases a with
  | confirmBlocks upTo =>
    obtain ⟨hn, hrep⟩ := h.represents.confirmBlocks_eq h.fits ha
    exact ⟨congrArg Except.ok hn.symm, hrep⟩
  | getMined hashes =>
    obtain ⟨rows, hrows, hperm⟩ := h.represents.getMined_perm h.tidy.txHash ha
    exact ⟨⟨_, rows, rfl, hrows, hperm⟩, h.represents⟩
  | createTransaction t r b =>
    obtain ⟨hrow, hrep⟩ := h.represents.addTransaction (t := .mined t r b) (h.refersToBlock ha)
    exact ⟨hrow.symm, hrep⟩
  | linkTransaction hash b r =>
    obtain ⟨hrow, hrep⟩ := h.linkTransaction hash ha r
    exact ⟨hrow.symm, hrep⟩
  | _ => exact ⟨congrArg Prod.fst he, (congrArg Prod.snd he).symm ▸ hrep⟩

theorem step (h : d.Matches m known) (ha : a.Admissible known) :
    (Relational.access a d).2.Matches (Memory.access a m).2
      (known ++ a.blocksIn (Memory.access a m).1) where
  represents := (h.answer ha).2
  tidy := (a.effect_memory m).tidy h.tidy
  fits := (a.effect_memory m).numbersFit ha h.fits
  known b hb := by
    rcases List.mem_append.1 hb with hb | hb
    · obtain ⟨b', hb'⟩ := Option.isSome_iff_exists.1 (h.known b hb)
      obtain ⟨b'', hb'', -⟩ := (a.effect_memory m).block hb'
      exact Option.isSome_of_eq_some hb''
    · exact Access.isSome_of_mem_blocksIn h.tidy hb

end Matches

end Relational

end ChainIndex
