import ChainIndex.Proofs.Effect.Ensures
import ChainIndex.Proofs.Effect.Guarded

/-!
# Routines built of parts

`Routine.Built Part p` says that `p` is put together from parts by doing one thing after the other.  What
every part keeps is kept by whatever is built of the parts (`Routine.Built.ensures`, `Routine.Built.guarded`),
which makes no moves but those of the parts (`Routine.Built.only`).  Attempts, with and without a state of
their own, are built by the same rules.
-/

namespace ChainIndex

variable {ι α β : Type} {Part : ⦃α : Type⦄ → Routine α → Prop}

/-- The routine is put together from parts. -/
inductive Routine.Built (Part : ⦃α : Type⦄ → Routine α → Prop) : {α : Type} → Routine α → Prop
  | part {α : Type} {p : Routine α} (h : Part p) : Built Part p
  | done {α : Type} (a : α) : Built Part (.done a)
  | bind {α β : Type} {p : Routine α} {f : α → Routine β} (hp : Built Part p)
    (hf : ∀ a, Built Part (f a)) : Built Part (p >>= f)

namespace Routine.Built

variable {σ : Type} {R : Conduct σ} {I : σ → Prop} {p : Routine α} {s : σ}

theorem ensures {N : Answers} {E : LinkRule}
    (hpart : ∀ {α : Type} {p : Routine α} {s : σ}, Part p → I s → p.Ensures N R E s fun _ s' => I s')
    (h : p.Built Part) (hs : I s) : p.Ensures N R E s fun _ s' => I s' := by
  induction h generalizing s with
  | part h => exact hpart h hs
  | done a => exact ensures_pure hs
  | bind hp hf ihp ihf => exact ensures_bind ((ihp hs).mono fun a s₁ hs₁ => ihf a hs₁)

theorem guarded {G : Guard σ} {es : List Event}
    (hpart : ∀ {α : Type} {p : Routine α} {es : List Event} {s : σ}, Part p → I s →
      p.Guarded R G es s fun _ _ s' => I s')
    (h : p.Built Part) (hs : I s) : p.Guarded R G es s fun _ _ s' => I s' := by
  induction h generalizing es s with
  | part h => exact hpart h hs
  | done a => exact hs
  | bind hp hf ihp ihf => exact Guarded.bind ((ihp hs).mono fun a es₁ s₁ hs₁ => ihf a hs₁)

theorem only {P : Move → Bool}
    (hpart : ∀ {α : Type} {p : Routine α}, Part p → p.Only P) (h : p.Built Part) : p.Only P := by
  induction h with
  | part h => exact hpart h
  | done a => trivial
  | bind hp hf ihp ihf => exact ihp.bind ihf

end Routine.Built

namespace Attempt

/-- The attempt is put together from parts. -/
def Built (Part : ⦃α : Type⦄ → Routine α → Prop) (t : Attempt α) : Prop := Routine.Built Part t.run

variable {t : Attempt α}

theorem built_part (h : Part t.run) : t.Built Part := .part h

theorem built_pure (a : α) : Built Part (pure a) := .done (Except.ok a)

end Attempt

namespace StateAttempt

/-- The attempt is put together from parts, whatever its own state is. -/
def Built (Part : ⦃α : Type⦄ → Routine α → Prop) (t : StateAttempt ι α) : Prop :=
  ∀ i, Routine.Built Part (t.start i)

variable {t : StateAttempt ι α}

theorem built_pure (a : α) : Built Part (pure a : StateAttempt ι α) := fun i => .done (Except.ok a, i)

theorem built_keeping {t : Attempt α} (h : t.Built Part) :
    Built Part (t.keeping : StateAttempt ι α) :=
  fun i => .bind h fun r => .done (r, i)

theorem Built.bind {f : α → StateAttempt ι β} (h : t.Built Part) (hf : ∀ a, (f a).Built Part) :
    Built Part (t >>= f) := by
  refine fun i => Routine.Built.bind (h i) fun r => ?_
  obtain ⟨r, i'⟩ := r
  cases r with
  | ok a => exact hf a i'
  | error e => exact .done (Except.error e, i')

theorem built_except (r : Except Fault α) : Built Part (ExceptT.mk (pure r) : StateAttempt ι α) :=
  fun i => .done (r, i)

theorem built_get : Built Part (getThe ι : StateAttempt ι ι) := fun i => .done (Except.ok i, i)

theorem built_modify (f : ι → ι) : Built Part (modifyThe ι f : StateAttempt ι PUnit) :=
  fun i => .done (Except.ok PUnit.unit, f i)

/-- The attempt that starts a stateful one and forgets its state. -/
theorem Built.start (h : t.Built Part) (i : ι) :
    Attempt.Built Part (ExceptT.mk (Prod.fst <$> t.start i)) :=
  Routine.Built.bind (h i) fun r => .done r.1

end StateAttempt

end ChainIndex
