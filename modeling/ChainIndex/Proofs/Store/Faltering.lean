import ChainIndex.Proofs.Effect.Order
import ChainIndex.Store.Disturbed
import ChainIndex.Store.Storage

/-!
# Stores that falter

`Storage.Falters` is the conduct of a store in which any action may fail at any time.  An access that
fails changes nothing, and neither does a unit of work that fails to open.  A step of a unit that fails may
leave anything in the copy that the unit works on, but leaves the tables; a unit that fails to be committed
or rolled back is gone.  Only to leave a unit cannot fail.

`failures` are the faults that such a store reports in some events.  Without any, the store has done what
it does undisturbed (`Routine.Exec.of_failures_eq_nil`).
-/

namespace ChainIndex

/-! ## Failures -/

/-- The fault that an action failed with, if it did. -/
def Event.failure? : Event → Option Fault
  | .did _ (.error fault) => some fault
  | _ => none

/-- The faults that actions failed with, in their order. -/
def failures (es : List Event) : List Fault := es.filterMap Event.failure?

theorem failures_append (es es' : List Event) : failures (es ++ es') = failures es ++ failures es' :=
  List.filterMap_append

/-- Whether an action is a step within a unit of work. -/
def Action.isStep : Action → Bool
  | invalidate .. => true
  | _ => false

def Move.isStep : Move → Bool
  | act a => a.isStep
  | ask _ => false

namespace Storage

/-! ## Without a unit of work -/

/-- An open store as everybody sees it, without a unit of work. -/
def closed : Storage → Storage
  | .memory s => .memory { live := s.live }
  | .database path? s => .database path? { live := s.live }

theorem closed_beginUnit (s : Storage) : (store.perform .beginUnit s).2.closed = s.closed := by
  cases s <;> rfl

/-- A step changes nothing that everybody sees. -/
theorem closed_invalidate (step : Derived.Invalidation) (scope : Derived.AddressScope) (s : Storage) :
    (store.perform (.invalidate step scope) s).2.closed = s.closed := by
  rcases s with ⟨live, _ | staged⟩ | ⟨path?, live, _ | staged⟩ <;> rfl

theorem perform_rollback (s : Storage) : (store.perform .rollback s).2 = s.closed := by
  cases s <;> rfl

theorem perform_abandon (s : Storage) : (store.perform .abandon s).2 = s.closed := by
  cases s <;> rfl

/-- There was no unit of work to commit if an undisturbed store reports a fault. -/
theorem perform_commit {s s' : Storage} {fault : Fault}
    (h : store.perform .commit s = (.error fault, s')) : s' = s.closed := by
  rcases s with ⟨live, _ | staged⟩ | ⟨path?, live, _ | staged⟩ <;> cases h <;> rfl

/-! ## Faltering -/

/-- What a store may do in which any action may fail. -/
def Falters : Conduct Storage := fun a s r s' =>
  store.perform a s = (r, s') ∨
    (∃ fault, r = .error fault) ∧ match a with
      | .access _ | .beginUnit => s' = s
      | .invalidate .. => s'.closed = s.closed
      | .commit | .rollback => s' = s.closed
      | .abandon => False

/-- A store is in some state, disturbed by `d`. -/
def DisturbedBy (d : Disturbance) (w : Storage × Disturbance) (s : Storage) : Prop := s = w.1 ∧ w.2 = d

namespace Falters

variable {s s' : Storage}

theorem closed_beginUnit {r : Except Fault Unit} (h : Falters .beginUnit s r s') :
    s'.closed = s.closed := by
  rcases h with h | ⟨-, rfl⟩
  · rw [← Storage.closed_beginUnit s, h]
  · rfl

theorem closed_invalidate {step : Derived.Invalidation} {scope : Derived.AddressScope}
    {r : Except Fault Nat} (h : Falters (.invalidate step scope) s r s') : s'.closed = s.closed := by
  rcases h with h | ⟨-, hclosed⟩
  · rw [← Storage.closed_invalidate step scope s, h]
  · exact hclosed

theorem beginUnit {fault : Fault} (h : Falters .beginUnit s (.error fault) s') : s' = s := by
  rcases h with h | ⟨-, h⟩
  · cases s <;> cases h
  · exact h

theorem commit {fault : Fault} (h : Falters .commit s (.error fault) s') : s' = s.closed := by
  rcases h with h | ⟨-, h⟩
  · exact perform_commit h
  · exact h

theorem rollback {r : Except Fault Unit} (h : Falters .rollback s r s') : s' = s.closed := by
  rcases h with h | ⟨-, h⟩
  · rw [← perform_rollback s, h]
  · exact h

theorem abandon {r : Except Fault Unit} (h : Falters .abandon s r s') : s' = s.closed := by
  rcases h with h | ⟨-, h⟩
  · rw [← perform_abandon s, h]
  · exact h.elim

theorem conduct_of_failure?_eq_none {a : Action} {r : Except Fault a.Reply} (h : Falters a s r s')
    (hnone : (Event.did a r).failure? = none) : store.conduct a s r s' := by
  rcases h with h | ⟨⟨fault, rfl⟩, -⟩
  · exact h
  · cases hnone

/-- An action that is made to fail fails as it may. -/
theorem of_fault {a : Action} {d : Disturbance} {w : Storage × Disturbance} {r : Except Fault a.Reply}
    {fault : Fault} (hfault : d.fault? a = some fault) (hleaves : d.fault? .abandon = none)
    (h : store.disturbed.perform a (s, d) = (r, w)) : Falters a s r w.1 ∧ w.2 = d := by
  unfold Store.disturbed at h
  simp only [hfault] at h
  cases a with
  | commit =>
    cases h
    exact ⟨.inr ⟨⟨fault, rfl⟩, perform_abandon s⟩, rfl⟩
  | rollback =>
    cases h
    exact ⟨.inr ⟨⟨fault, rfl⟩, perform_rollback s⟩, rfl⟩
  | abandon =>
    rw [hleaves] at hfault
    cases hfault
  | _ =>
    cases h
    exact ⟨.inr ⟨⟨fault, rfl⟩, rfl⟩, rfl⟩

/-- A store that is made to fail falters, as long as no look-up is blind and units can be left. -/
theorem of_disturbed {a : Action} {w w' : Storage × Disturbance} {r : Except Fault a.Reply}
    (hblind : ∀ l, w.2.blind l = 0) (hleaves : w.2.fault? .abandon = none)
    (h : store.disturbed.conduct a w r w') :
    Falters a w.1 r w'.1 ∧ w'.2 = w.2 := by
  obtain ⟨s, d⟩ := w
  have h : store.disturbed.perform a (s, d) = (r, w') := h
  cases hfault : d.fault? a with
  | some fault => exact of_fault hfault hleaves h
  | none =>
    have hperform : store.disturbed.perform a (s, d) =
        ((store.perform a s).1, (store.perform a s).2, d) := by
      unfold Store.disturbed
      simp only [hfault]
      split
      · exact if_pos (hblind _)
      · rfl
    rw [hperform] at h
    cases h
    exact ⟨.inl rfl, rfl⟩

end Falters

end Storage

/-! ## Undisturbed executions -/

namespace Routine

variable {α : Type} {N : Answers} {p : Routine α} {s s' : Storage} {es : List Event} {a : α}

/-- An execution in which nothing fails is one of the undisturbed store. -/
theorem Exec.of_failures_eq_nil (h : p.Exec N Storage.Falters s es a s') (hnone : failures es = []) :
    p.Exec N Storage.store.conduct s es a s' := by
  induction p generalizing s es with
  | done b => exact h
  | ask q next ih =>
    obtain ⟨r, es', rfl, hN, h⟩ := h
    exact ⟨r, es', rfl, hN, ih r h hnone⟩
  | act b next ih =>
    obtain ⟨r, s₁, es', rfl, hR, h⟩ := h
    rw [failures, List.filterMap_eq_nil_iff] at hnone
    have hb := hR.conduct_of_failure?_eq_none (hnone _ List.mem_cons_self)
    refine ⟨r, s₁, es', rfl, hb, ih r h ?_⟩
    exact List.filterMap_eq_nil_iff.2 fun e he => hnone e (List.mem_cons_of_mem _ he)

/-- What happens in a store that is made to fail may happen in one that falters. -/
theorem exec_disturbed {ν : Type} (node : Node ν) (p : Routine α) (n : ν) (s : Storage)
    {d : Disturbance} (hblind : ∀ l, d.blind l = 0) (hleaves : d.fault? .abandon = none) :
    p.Exec (p.heard node Storage.store.disturbed ⟨n, s, d⟩) Storage.Falters s
      (p.history node Storage.store.disturbed ⟨n, s, d⟩)
      (p.run node Storage.store.disturbed ⟨n, s, d⟩).1
      (p.run node Storage.store.disturbed ⟨n, s, d⟩).2.store.1 := by
  have hsim {a : Action} {w : Storage × Disturbance} {r : Except Fault a.Reply}
      {w' : Storage × Disturbance} {t : Storage} (hrel : Storage.DisturbedBy d w t)
      (h : Storage.store.disturbed.conduct a w r w') :
      ∃ t', Storage.Falters a t r t' ∧ Storage.DisturbedBy d w' t' := by
    obtain ⟨rfl, rfl⟩ := hrel
    obtain ⟨hfalters, hd⟩ := Storage.Falters.of_disturbed hblind hleaves h
    exact ⟨w'.1, hfalters, rfl, hd⟩
  obtain ⟨t, hexec, rfl, -⟩ :=
    (exec_run node Storage.store.disturbed p ⟨n, s, d⟩).simulate @hsim ⟨rfl, rfl⟩
  exact hexec

theorem Exec.eq_run {ν σ : Type} {store : Store σ} {s s' : σ} (h : p.Exec N store.conduct s es a s')
    (hacts : p.Only Move.isAct) (node : Node ν) (n : ν) :
    p.run node store ⟨n, s⟩ = (a, ⟨n, s'⟩) := by
  induction p generalizing s es with
  | done b =>
    obtain ⟨-, rfl, rfl⟩ := h
    rfl
  | ask q next => exact absurd hacts.1 Bool.false_ne_true
  | act b next ih =>
    obtain ⟨r, s₁, es', -, hb, h⟩ := h
    rw [run_act]
    have hb : store.perform b s = (r, s₁) := hb
    rw [hb]
    exact ih r h (hacts.2 r)

end Routine

end ChainIndex
