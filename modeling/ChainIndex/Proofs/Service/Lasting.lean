import Mathlib.Logic.Relation
import ChainIndex.Proofs.Service.Grounded
import ChainIndex.Proofs.Service.Reprocess
import ChainIndex.Proofs.Service.Shared
import ChainIndex.Proofs.Store.Lasting

/-!
# What is known of the chain lasts

A run of a store (`Storage.Run`) is any sequence of actions by anybody, any of which may fail; while a unit
of work is open it has the tables to itself.  Between any two points of a run the later store holds what the
earlier one held of the chain (`Storage.Lasts`), and whatever operations do, with whatever node, is such a
run (`Operation.run_of_exec`).
-/

namespace ChainIndex

open Attempt Storage

variable {α : Type} {N : Answers} {s s' : Storage} {es : List Event}

namespace Storage

/-- Blocks stay but for being confirmed, transactions but for being linked, internal transactions as they
are, and markers but for what has been processed. -/
structure Lasts (s s' : Storage) : Prop extends s.Grows s' where
  frames : s.derived.FramesLast s'.derived

theorem Lasts.refl (s : Storage) : s.Lasts s := ⟨.refl s, .refl _⟩

theorem Lasts.trans {s₁ s₂ s₃ : Storage} (h : s₁.Lasts s₂) (h' : s₂.Lasts s₃) : s₁.Lasts s₃ :=
  ⟨h.toGrows.trans h'.toGrows, h.frames.trans h'.frames⟩

/-! ## Runs -/

/-- One action of anybody.  What waits while a unit of work is open happens when none is. -/
def Step (s s' : Storage) : Prop := ∃ a r, (a.waits = true → s.closed = s) ∧ Tries a s r s'

/-- Any number of actions, one after the other. -/
abbrev Run : Storage → Storage → Prop := Relation.ReflTransGen Step

/-- An open unit of work, if there is one, has changed nothing that is known of the chain. -/
def Quiet (s : Storage) : Prop := ∃ t, s.Represents t ∧ t.Quiet

/-- A store that holds nothing yet, of either kind. -/
def IsEmpty (s : Storage) : Prop := s = .inMemory ∨ ∃ path?, s = .database path? { live := {} }

theorem IsEmpty.quiet (h : s.IsEmpty) : s.Quiet := by
  rcases h with rfl | ⟨path?, rfl⟩
  · exact ⟨{ live := {} }, ⟨rfl, .none⟩, Session.quiet_of_none rfl⟩
  · exact ⟨{ live := {} }, ⟨Relational.represents_empty, .none⟩, Session.quiet_of_none rfl⟩

theorem Step.lasts (h : s.Step s') (hquiet : s.Quiet) : s'.Quiet ∧ s.Lasts s' := by
  obtain ⟨a, r, ha, htry⟩ := h
  obtain ⟨t, hrep, ht⟩ := hquiet
  obtain ⟨t', hrep', ht', hlasts⟩ := htry.lasts hrep ht ha
  refine ⟨⟨t', hrep', ht'⟩, Shows.grows ⟨t, hrep, rfl⟩ ⟨t', hrep', rfl⟩ hlasts.grows, ?_⟩
  rw [derived_eq hrep, derived_eq hrep']
  exact hlasts.frames

/-- What is known of the chain lasts along a run. -/
theorem Run.quiet_lasts (h : s.Run s') (hquiet : s.Quiet) : s'.Quiet ∧ s.Lasts s' := by
  induction h with
  | refl => exact ⟨hquiet, .refl s⟩
  | tail _ hstep ih =>
    obtain ⟨hquiet', hlasts⟩ := ih
    obtain ⟨hquiet'', hlasts'⟩ := hstep.lasts hquiet'
    exact ⟨hquiet'', hlasts.trans hlasts'⟩

/-! ## Moves in due order -/

/-- What waits while a unit of work is open is done when none is. -/
def InOrder : Guard Storage := fun _ s m =>
  match m with
  | .ask _ => True
  | .act a => a.waits = true → s.closed = s

theorem closed_closed (s : Storage) : s.closed.closed = s.closed := by
  cases s <;> rfl

theorem closed_access (h : s.closed = s) (a : Access) :
    (store.perform (.access a) s).2.closed = (store.perform (.access a) s).2 := by
  cases s with
  | memory s =>
    cases s
    cases h
    rfl
  | database path? s =>
    cases s
    cases h
    rfl

theorem closed_commit (s : Storage) : (store.perform .commit s).2.closed = (store.perform .commit s).2 := by
  rcases s with ⟨live, _ | staged⟩ | ⟨path?, live, _ | staged⟩ <;> rfl

namespace Tries

theorem closed_access {a : Access} {r : Except Fault a.Reply} (h : Tries (.access a) s r s')
    (hs : s.closed = s) : s'.closed = s' := by
  have hperform := Storage.closed_access hs a
  rcases h with h | ⟨-, rfl | rfl⟩
  · rwa [h] at hperform
  · exact hs
  · exact hperform

theorem closed_commit {r : Except Fault Unit} (h : Tries .commit s r s') : s'.closed = s' := by
  have hperform := Storage.closed_commit s
  rcases h with h | ⟨-, rfl | rfl⟩
  · rwa [h] at hperform
  · exact closed_closed s
  · exact hperform

theorem closed_rollback {r : Except Fault Unit} (h : Tries .rollback s r s') : s'.closed = s' := by
  rcases h with h | ⟨-, rfl⟩
  · obtain rfl : s' = s.closed := by rw [← perform_rollback s, h]
    exact closed_closed s
  · exact closed_closed s

theorem beginUnit {fault : Fault} (h : Tries .beginUnit s (.error fault) s') : s' = s := by
  rcases h with h | ⟨-, h⟩
  · cases s <;> cases h
  · exact h

end Tries

end Storage

/-! ## Operations -/

theorem Routine.Only.guarded_inOrder {p : Routine α} (h : p.Only fun m => !m.isUnit) (hs : s.closed = s) :
    p.Guarded Tries InOrder es s fun _ _ s' => s'.closed = s' := by
  induction p generalizing es s with
  | done a => exact hs
  | ask q next ih => exact ⟨trivial, fun r => ih r (h.2 r) hs⟩
  | act a next ih =>
    cases a with
    | access b => exact ⟨fun _ => hs, fun r s' hR => ih r (h.2 r) (hR.closed_access hs)⟩
    | _ => exact absurd h.1 Bool.false_ne_true

theorem Routine.Only.guarded_unit {p : Routine α} (h : p.Only Move.isStep) :
    p.Guarded Tries InOrder es s fun _ _ _ => True := by
  induction p generalizing es s with
  | done a => trivial
  | ask q next => exact absurd h.1 Bool.false_ne_true
  | act a next ih =>
    cases a with
    | invalidate step scope => exact ⟨fun hwaits => absurd hwaits Bool.false_ne_true, fun r _ _ => ih r (h.2 r)⟩
    | _ => exact absurd h.1 Bool.false_ne_true

/-- A unit of work that is opened is left again, whatever becomes of its steps. -/
theorem Reprocess.guarded_inOrder (scope : Derived.AddressScope) (hs : s.closed = s) :
    Guarded Tries InOrder (Reprocess.scope scope) es s (fun _ _ s' => s'.closed = s')
      fun _ _ s' => s'.closed = s' := by
  refine guarded_bind (guarded_perform (fun _ => hs) fun r s₁ h₁ => ?_)
  cases r with
  | error fault =>
    obtain rfl := h₁.beginUnit
    exact hs
  | ok _ =>
    intro _
    refine guarded_bind (guarded_lift ?_)
    refine (Routine.Only.guarded_unit (only_steps (fun _ _ => rfl) scope)).mono fun r es₂ s₂ _ => ?_
    cases r with
    | ok summary =>
      intro _
      refine guarded_bind (guarded_perform (fun hwaits => absurd hwaits Bool.false_ne_true)
        fun r s₃ h₃ => ?_)
      cases r with
      | error fault => exact h₃.closed_commit
      | ok _ => exact fun _ => guarded_pure h₃.closed_commit
    | error fault =>
      intro _
      refine guarded_bind (guarded_lift (guarded_perform (fun hwaits => absurd hwaits Bool.false_ne_true)
        fun r s₃ h₃ => ?_))
      cases r <;> exact fun _ => guarded_throw h₃.closed_rollback

variable {policy : ConfirmationPolicy}

theorem Move.isUnit_eq_false_of_isLedger {m : Move} (h : m.isLedger = true) : (!m.isUnit) = true := by
  cases m with
  | ask q => rfl
  | act a =>
    cases a with
    | access b => rfl
    | _ => cases h

theorem Indexer.only_store (r : Rows) : (store policy r).Only fun m => !m.isUnit := by
  unfold store
  split
  · exact only_pure 0
  · exact Only.bind (Routine.Only.imp (Resolve.only_transactions _) Move.isUnit_eq_false_of_isLedger)
      fun _ => only_perform rfl

theorem Operation.Part.guarded_inOrder {p : Routine α} (h : Part policy p) (hs : s.closed = s) :
    p.Guarded Tries InOrder es s fun _ _ s' => s'.closed = s' := by
  have hledger {α : Type} {t : Attempt α} (ht : t.Only Move.isLedger) :
      t.run.Guarded Tries InOrder es s fun _ _ s' => s'.closed = s' :=
    (Routine.Only.imp ht Move.isUnit_eq_false_of_isLedger).guarded_inOrder hs
  have hblocks {α : Type} {t : Attempt α} (ht : t.Only Move.isBlockwise) :
      t.run.Guarded Tries InOrder es s fun _ _ s' => s'.closed = s' :=
    hledger (Routine.Only.imp ht Move.isLedger_of_isBlockwise)
  cases h with
  | block hash => exact hblocks (Resolve.only_block hash)
  | transaction hash => exact hledger (Resolve.only_transaction hash)
  | transactions hashes => exact hledger (Resolve.only_transactions hashes)
  | confirmBlocks => exact hblocks Resolve.only_confirmBlocks
  | store _ => exact Routine.Only.guarded_inOrder (Indexer.only_store _) hs
  | reprocess scope => exact (Reprocess.guarded_inOrder scope hs).routine
  | send _ => exact Routine.Only.guarded_inOrder (only_send rfl) hs
  | access _ _ => exact Routine.Only.guarded_inOrder (only_perform rfl) hs

namespace Operation

theorem guarded_inOrder (service : Service) (o : Operation) (hs : s.closed = s) :
    (o.attempt service).run.Guarded Tries InOrder es s fun _ _ s' => s'.closed = s' := by
  cases o with
  | access a free => exact Routine.Only.guarded_inOrder (only_perform rfl) hs
  | _ => exact (Operation.built service rfl).guarded (fun h => h.guarded_inOrder) hs

/-- Whatever an operation does is a run of the store, after which no unit of work is open. -/
theorem run_of_exec (service : Service) (o : Operation) {r : Except Fault o.Reply} (hs : s.closed = s)
    (hexec : (o.attempt service).run.Exec N Tries s es r s') : s.Run s' ∧ s'.closed = s' := by
  have hask {es : List Event} {s₁ : Storage} {q : Query} (h : s.Run s₁)
      (_ : InOrder es s₁ (.ask q)) : s.Run s₁ := h
  have hact {es : List Event} {s₁ s₂ : Storage} {a : Action} {r : Except Fault a.Reply} (h : s.Run s₁)
      (ha : InOrder es s₁ (.act a)) (htry : Tries a s₁ r s₂) : s.Run s₂ := h.tail ⟨a, r, ha, htry⟩
  have hguarded : (o.attempt service).run.Guarded Tries InOrder [] s fun _ _ s' => s'.closed = s' :=
    o.guarded_inOrder service hs
  exact hguarded.keeps (I := fun _ s₁ => s.Run s₁) hask hact .refl hexec

end Operation

/-- A run on an open store tries what it does. -/
theorem Routine.exec_tries {ν : Type} (node : Node ν) (p : Routine α) (w : Routine.World ν Storage) :
    p.Exec (p.heard node store w) Tries w.store (p.history node store w) (p.run node store w).1
      (p.run node store w).2.store := by
  have hsim {a : Action} {s s' t : Storage} {r : Except Fault a.Reply} (heq : s = t)
      (h : store.conduct a s r s') : ∃ t', Tries a t r t' ∧ s' = t' := ⟨s', heq ▸ .inl h, rfl⟩
  obtain ⟨t, hexec, rfl⟩ := (exec_run node store p w).simulate hsim rfl
  exact hexec

/-! ## Growth -/

/-- Stored chain data only grows: along every run of an empty store, and so along all that operations do,
which are runs. -/
theorem Storage.lasts_of_run :
    (∀ {s₀ s s' : Storage}, s₀.IsEmpty → s₀.Run s → s.Run s' → s.Lasts s') ∧
    ∀ (service : Service) (o : Operation) {N : Answers} {s s' : Storage} {es : List Event}
      {r : Except Fault o.Reply}, s.closed = s →
      (o.attempt service).run.Exec N Tries s es r s' → s.Run s' ∧ s'.closed = s' :=
  ⟨fun h₀ hrun hrun' => (hrun'.quiet_lasts (hrun.quiet_lasts h₀.quiet).1).2,
    fun service o _ _ _ _ _ hs hexec => o.run_of_exec service hs hexec⟩

/-- The store with the event after every address was reprocessed. -/
def Sample.reprocessed : Storage :=
  (Operation.reprocessAll.run Sample.service Sample.node ⟨(), Sample.processed⟩).2.store

theorem Storage.lasts_of_run_sample :
    inMemory.IsEmpty ∧ inMemory.Run Sample.processed ∧ Sample.processed.Run Sample.reprocessed ∧
      Sample.processed.Lasts Sample.reprocessed := by
  obtain ⟨hrun, hclosed⟩ := lasts_of_run.2 Sample.service (.process .l2 false [.log Sample.log])
    (s := inMemory) rfl (Routine.exec_tries Sample.node _ ⟨(), inMemory⟩)
  obtain ⟨hrun', -⟩ := lasts_of_run.2 Sample.service .reprocessAll hclosed
    (Routine.exec_tries Sample.node _ ⟨(), Sample.processed⟩)
  exact ⟨.inl rfl, hrun, hrun', lasts_of_run.1 (.inl rfl) hrun hrun'⟩

end ChainIndex
