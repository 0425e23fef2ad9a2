import ChainIndex.Proofs.Resolve.Grounded
import ChainIndex.Proofs.Service.Integrity

/-!
# Operations are grounded

Every operation that leaves the writing of blocks to the engine makes grounded moves only
(`Operation.grounded`).  A `Course` is a sequence of operations with all that happens in them: whatever
grounded moves keep is kept along a course.
-/

namespace ChainIndex

open Attempt

variable {α : Type} {policy : ConfirmationPolicy} {es : List Event} {s : Session Memory}

/-! ## Reprocessing -/

theorem Routine.Only.guarded_units {p : Routine α} (h : p.Only Move.isUnit) (hcalm : s.Calm)
    (hkeyed : s.live.Keyed) :
    p.Guarded Session.Effect (Grounded policy) es s fun _ _ s' => s'.Calm ∧ s'.live.Keyed := by
  induction p generalizing es s with
  | done a => exact ⟨hcalm, hkeyed⟩
  | ask q next => exact absurd h.1 Bool.false_ne_true
  | act a next ih =>
    have hunit : ∀ b, a ≠ .access b := by
      rintro b rfl
      exact absurd h.1 Bool.false_ne_true
    refine ⟨?_, fun r s' he => ?_⟩
    · cases a with
      | access b => exact absurd rfl (hunit b)
      | _ => trivial
    · obtain ⟨hcalm', haccess | ⟨-, hsame⟩⟩ := hcalm.step (fun b heq => absurd heq (hunit b)) he
      · obtain ⟨b, rfl⟩ := haccess
        exact absurd rfl (hunit b)
      · refine ih r (h.2 r) hcalm' ?_
        rw [Memory.Keyed, hsame]
        exact hkeyed

namespace Reprocess

open Derived (AddressScope)

theorem only_steps {P : Move → Bool} (hP : ∀ step scope, P (.act (.invalidate step scope)) = true)
    (scope : AddressScope) : (steps scope).Only P :=
  (only_perform (hP _ _)).bind fun _ => (only_perform (hP _ _)).bind fun _ =>
    (only_perform (hP _ _)).bind fun _ => (only_perform (hP _ _)).bind fun _ =>
      (only_perform (hP _ _)).bind fun _ => only_pure _

/-- A reprocessing does nothing outside of its unit of work. -/
theorem only_scope (scope : AddressScope) : (Reprocess.scope scope).Only Move.isUnit := by
  refine (only_perform rfl).bind fun _ => Only.bind ?_ fun r => ?_
  · exact Routine.Only.bind (only_steps (fun _ _ => rfl) scope) fun _ => trivial
  · cases r with
    | ok summary => exact (only_perform rfl).bind fun _ => only_pure _
    | error fault =>
      refine Only.bind ?_ fun _ => only_throw fault
      exact Routine.Only.bind (only_perform rfl) fun _ => trivial

theorem only_addresses (list : List String) : (addresses list).Only Move.isUnit := by
  unfold addresses
  split
  · exact only_pure _
  · exact only_scope _

theorem guarded_end {a : Action} (ha : a = .commit ∨ a = .rollback) (hcalm : s.Calm)
    (hkeyed : s.live.Keyed) : Guarded Session.Effect (Grounded policy) a.perform es s
      (fun _ _ => Session.Idle) fun _ _ => Session.Idle := by
  rcases ha with rfl | rfl
  · refine guarded_perform trivial fun r s' he => ?_
    rcases he with ⟨hnone, rfl, rfl⟩ | ⟨m, hm, rfl, rfl⟩
    · exact ⟨hnone, hkeyed⟩
    · refine ⟨rfl, ?_⟩
      rw [Memory.Keyed, (hcalm m hm).2]
      exact hkeyed
  · refine guarded_perform trivial fun r s' he => ?_
    obtain ⟨rfl, rfl⟩ := he
    exact ⟨rfl, hkeyed⟩

/-- A unit of work that is opened is left again, whatever becomes of its steps. -/
theorem guarded_scope (scope : AddressScope) (hs : s.Idle) :
    Guarded Session.Effect (Grounded policy) (Reprocess.scope scope) es s (fun _ _ => Session.Idle)
      fun _ _ => Session.Idle := by
  refine guarded_bind (guarded_perform trivial fun r s₁ he => ?_)
  obtain ⟨rfl, rfl⟩ := he
  intro _
  have hcalm : Session.Calm { s with staged := some s.live } :=
    fun m hm => Option.some.inj hm ▸ ⟨rfl, rfl⟩
  refine guarded_bind (guarded_lift ?_)
  refine (Routine.Only.guarded_units (only_steps (fun _ _ => rfl) scope) hcalm hs.keyed).mono fun r es₁ s₁ hend => ?_
  obtain ⟨hcalm₁, hkeyed₁⟩ := hend
  cases r with
  | ok summary =>
    intro _
    exact guarded_bind (Guarded.mono (guarded_end (.inl rfl) hcalm₁ hkeyed₁)
      (fun _ es₂ s₂ hs₂ _ => guarded_pure hs₂) fun _ _ _ hs₂ => hs₂)
  | error fault =>
    intro _
    have hend : Guarded Session.Effect (Grounded policy) Action.rollback.perform es₁ s₁
        (fun _ _ => Session.Idle) fun _ _ => Session.Idle := guarded_end (.inr rfl) hcalm₁ hkeyed₁
    exact guarded_bind (guarded_lift (hend.mono (fun _ es₂ s₂ hs₂ _ => guarded_throw hs₂)
      fun _ es₂ s₂ hs₂ _ => guarded_throw hs₂))

end Reprocess

/-! ## Operations -/

theorem Access.grounded_of_isFree {a : Access} (free : a.isFree = true) (h : a.writesBlocks = false)
    (m : Memory) : a.Grounded policy es m := by
  cases a with
  | createBlock b confirmed => cases h
  | confirmBlocks upTo => cases h
  | linkTransaction hash b r => cases free
  | _ => trivial

theorem guarded_free {a : Access} (ha : a.Grounded policy es s.live) (hs : s.Idle) :
    Guarded Session.Effect (Grounded policy) a.perform es s (fun _ _ => Session.Idle)
      fun _ _ => Session.Idle := by
  refine Resolve.guarded_access hs ha fun r m he => ?_
  have hidle := hs.access he
  cases r <;> exact hidle

theorem Indexer.guarded_store {r : Rows} (hs : s.Idle) :
    Guarded Session.Effect (Grounded policy) (store policy r) es s (fun _ _ => Session.Idle)
      fun _ _ => Session.Idle := by
  unfold store
  split
  · exact guarded_pure hs
  · exact guarded_bind (Guarded.mono (Resolve.guarded_transactions hs)
      (fun _ es₁ s₁ hs₁ _ => guarded_free trivial hs₁) fun _ _ _ hs₁ => hs₁)

theorem Operation.Part.grounded {p : Routine α} (h : Part policy p) (hs : s.Idle) :
    p.Guarded Session.Effect (Grounded policy) es s fun _ _ s' => s'.Idle := by
  cases h with
  | block hash =>
    exact Guarded.routine (Resolve.guarded_block hs (fun _ _ _ hs' _ => hs') fun _ _ _ hs' _ => hs')
  | transaction hash => exact (Resolve.guarded_transaction hs).routine
  | transactions hashes => exact (Resolve.guarded_transactions hs).routine
  | confirmBlocks => exact (Resolve.guarded_confirmBlocks hs).routine
  | store _ => exact (Indexer.guarded_store hs).routine
  | reprocess scope => exact (Reprocess.guarded_scope scope hs).routine
  | send hq =>
    refine Guarded.routine (Resolve.guarded_query (fun hash hmem => ?_) (fun _ _ _ => hs) fun _ _ => hs)
    rw [hq] at hmem
    cases hmem
  | access free h => exact (guarded_free (Access.grounded_of_isFree free h _) hs).routine

/-- An operation that leaves the writing of blocks to the engine makes grounded moves only. -/
theorem Operation.grounded (service : Service) {o : Operation} (h : o.isCall = true) (hs : s.Idle) :
    (o.attempt service).run.Guarded Session.Effect (Grounded service.policy) es s
      fun _ _ s' => s'.Idle :=
  (o.built service h).guarded (fun h => h.grounded) hs

/-- Every operation leaves no unit of work open, and transactions under their own hashes. -/
theorem Operation.guarded_idle (service : Service) (o : Operation) (hs : s.Idle) :
    (o.attempt service).run.Guarded Session.Effect (fun _ _ _ => True) es s fun _ _ s' => s'.Idle := by
  cases o with
  | access a free =>
    refine ⟨trivial, fun r s' hR => ?_⟩
    obtain ⟨m, he, rfl⟩ := hR
    exact hs.access he
  | _ => exact (Operation.grounded service rfl hs).imp (fun hR => hR) fun _ => trivial

end ChainIndex
