import ChainIndex.Proofs.Effect.Ensures
import ChainIndex.Proofs.Effect.Order

/-!
# Guarded moves

A `Guard` says which move may be made, given what happened before and the state that the store is in.
`Routine.Guarded R G p es s Q` says that after `es`, from the state `s`, every move of `p` is guarded by
`G`, whatever is answered and whatever the store does within the conduct `R`, and that `p` ends as `Q`
says.  There is one rule for each way to build a routine, and the same rules hold for attempts, with and
without a state of their own.

Of an execution of guarded moves, what every guarded move keeps is kept (`Guarded.keeps`).
-/

namespace ChainIndex

/-! ## What has been heard -/

/-- What was answered among some events. -/
def heardIn (es : List Event) : Answers := fun q r => .asked q r ∈ es

theorem heardIn_mono {es es' : List Event} (h : es <+: es') :
    ∀ q r, heardIn es q r → heardIn es' q r :=
  fun _ _ hmem => h.subset hmem

/-- The moves that may be made, given what happened before and the state. -/
abbrev Guard (σ : Type) := List Event → σ → Move → Prop

variable {σ α β : Type} {N : Answers} {R : Conduct σ} {G : Guard σ} {es : List Event} {s : σ}

namespace Routine

/-- Every move of the routine is guarded, and it ends as it should. -/
def Guarded (R : Conduct σ) (G : Guard σ) :
    Routine α → List Event → σ → (α → List Event → σ → Prop) → Prop
  | .done a, es, s, Q => Q a es s
  | .ask q next, es, s, Q =>
    G es s (.ask q) ∧ ∀ r, (next r).Guarded R G (es ++ [.asked q r]) s Q
  | .act a next, es, s, Q =>
    G es s (.act a) ∧ ∀ r s', R a s r s' → (next r).Guarded R G (es ++ [.did a r]) s' Q

variable {p : Routine α} {Q Q' : α → List Event → σ → Prop}

theorem Guarded.mono (h : p.Guarded R G es s Q) (hQ : ∀ a es' s', Q a es' s' → Q' a es' s') :
    p.Guarded R G es s Q' := by
  induction p generalizing es s with
  | done a => exact hQ a es s h
  | ask q next ih => exact ⟨h.1, fun r => ih r (h.2 r)⟩
  | act a next ih => exact ⟨h.1, fun r s' hR => ih r (h.2 r s' hR)⟩

theorem Guarded.imp {R' : Conduct σ} {G' : Guard σ} (h : p.Guarded R G es s Q)
    (hR : ∀ {a s r s'}, R' a s r s' → R a s r s') (hG : ∀ {es s m}, G es s m → G' es s m) :
    p.Guarded R' G' es s Q := by
  induction p generalizing es s with
  | done a => exact h
  | ask q next ih => exact ⟨hG h.1, fun r => ih r (h.2 r)⟩
  | act a next ih => exact ⟨hG h.1, fun r s' hR' => ih r (h.2 r s' (hR hR'))⟩

theorem Guarded.and {G' : Guard σ} (h : p.Guarded R G es s Q) (h' : p.Guarded R G' es s Q') :
    p.Guarded R (fun es s m => G es s m ∧ G' es s m) es s fun a es' s' => Q a es' s' ∧ Q' a es' s' := by
  induction p generalizing es s with
  | done a => exact ⟨h, h'⟩
  | ask q next ih => exact ⟨⟨h.1, h'.1⟩, fun r => ih r (h.2 r) (h'.2 r)⟩
  | act a next ih => exact ⟨⟨h.1, h'.1⟩, fun r s' hR => ih r (h.2 r s' hR) (h'.2 r s' hR)⟩

/-- Where a guarded routine ends, an execution of it with the answers that were heard has led. -/
theorem Guarded.and_exec (h : p.Guarded R G es s Q) : p.Guarded R G es s fun a es' s' =>
    Q a es' s' ∧ ∃ es₁, es' = es ++ es₁ ∧ p.Exec (heardIn es') R s es₁ a s' := by
  induction p generalizing es s with
  | done a => exact ⟨h, [], (List.append_nil es).symm, rfl, rfl, rfl⟩
  | ask q next ih =>
    refine ⟨h.1, fun r => (ih r (h.2 r)).mono fun a es' s' hend => ?_⟩
    obtain ⟨hQ, es₁, rfl, hexec⟩ := hend
    refine ⟨hQ, .asked q r :: es₁, List.append_assoc .., r, es₁, rfl, ?_, hexec⟩
    exact List.mem_append_left _ (List.mem_append_right _ List.mem_cons_self)
  | act a next ih =>
    refine ⟨h.1, fun r s' hR => (ih r (h.2 r s' hR)).mono fun b es' s'' hend => ?_⟩
    obtain ⟨hQ, es₁, rfl, hexec⟩ := hend
    exact ⟨hQ, .did a r :: es₁, List.append_assoc .., r, s', es₁, rfl, hR, hexec⟩

theorem guarded_pure {a : α} (h : Q a es s) : Guarded R G (pure a) es s Q := h

theorem Guarded.bind {f : α → Routine β} {Q : β → List Event → σ → Prop}
    (h : p.Guarded R G es s fun a es₁ s₁ => (f a).Guarded R G es₁ s₁ Q) :
    (p >>= f).Guarded R G es s Q := by
  induction p generalizing es s with
  | done a => exact h
  | ask q next ih => exact ⟨h.1, fun r => ih r (h.2 r)⟩
  | act a next ih => exact ⟨h.1, fun r s' hR => ih r (h.2 r s' hR)⟩

/-- What follows may rely on it that all that happened before has happened. -/
theorem guarded_bind {f : α → Routine β} {Q : β → List Event → σ → Prop}
    (h : p.Guarded R G es s fun a es₁ s₁ => es <+: es₁ → (f a).Guarded R G es₁ s₁ Q) :
    (p >>= f).Guarded R G es s Q := by
  refine Guarded.bind (h.and_exec.mono fun a es₁ s₁ hend => ?_)
  obtain ⟨hf, es₂, rfl, -⟩ := hend
  exact hf (List.prefix_append es es₂)

theorem Only.guarded {P : Move → Bool} (h : p.Only P) (hP : ∀ m, P m = true → m.isAsk = true)
    (hG : ∀ es' q, P (.ask q) = true → G es' s (.ask q)) (hQ : ∀ a es', Q a es' s) :
    p.Guarded R G es s Q := by
  induction p generalizing es with
  | done a => exact hQ a es
  | ask q next ih => exact ⟨hG es q h.1, fun r => ih r (h.2 r)⟩
  | act a next => exact absurd (hP _ h.1) Bool.false_ne_true

/-- What guarded moves keep is kept by an execution. -/
theorem Guarded.keeps {I : List Event → σ → Prop}
    (hask : ∀ {es s q r}, I es s → G es s (.ask q) → I (es ++ [.asked q r]) s)
    (hact : ∀ {es s a r s'}, I es s → G es s (.act a) → R a s r s' → I (es ++ [.did a r]) s')
    (h : p.Guarded R G es s Q) (hI : I es s) {es₁ : List Event} {a : α} {s' : σ}
    (hexec : p.Exec N R s es₁ a s') : I (es ++ es₁) s' ∧ Q a (es ++ es₁) s' := by
  induction p generalizing es s es₁ with
  | done a =>
    obtain ⟨rfl, rfl, rfl⟩ := hexec
    rw [List.append_nil]
    exact ⟨hI, h⟩
  | ask q next ih =>
    obtain ⟨r, es', rfl, -, hexec⟩ := hexec
    rw [← List.singleton_append, ← List.append_assoc]
    exact ih r (h.2 r) (hask hI h.1) hexec
  | act b next ih =>
    obtain ⟨r, s₁, es', rfl, hR, hexec⟩ := hexec
    rw [← List.singleton_append, ← List.append_assoc]
    exact ih r (h.2 r s₁ hR) (hact hI h.1 hR) hexec

end Routine

/-! ## Attempts -/

namespace Attempt

/-- Every move of the attempt is guarded, and it ends as it should. -/
def Guarded (R : Conduct σ) (G : Guard σ) (t : Attempt α) (es : List Event) (s : σ)
    (Q : α → List Event → σ → Prop) (X : Fault → List Event → σ → Prop) : Prop :=
  Routine.Guarded R G t.run es s fun r es' => Outcome (Q · es') (X · es') r

variable {t : Attempt α} {Q Q' : α → List Event → σ → Prop} {X : Fault → List Event → σ → Prop}

theorem guarded_pure {a : α} (h : Q a es s) : Guarded R G (pure a) es s Q X := h

theorem guarded_throw {e : Fault} (h : X e es s) : Guarded R G (throw e : Attempt α) es s Q X := h

theorem guarded_send {q : Query} {Q : q.Reply → List Event → σ → Prop} (hG : G es s (.ask q))
    (hQ : ∀ a, Q a (es ++ [.asked q (.ok a)]) s) (hX : ∀ e, X e (es ++ [.asked q (.error e)]) s) :
    Guarded R G q.send es s Q X := by
  refine ⟨hG, fun r => ?_⟩
  cases r with
  | ok a => exact hQ a
  | error e => exact hX e

theorem guarded_perform {a : Action} {Q : a.Reply → List Event → σ → Prop} (hG : G es s (.act a))
    (h : ∀ r s', R a s r s' → Outcome (Q · (es ++ [.did a r])) (X · (es ++ [.did a r])) r s') :
    Guarded R G a.perform es s Q X :=
  ⟨hG, h⟩

theorem guarded_bind {f : α → Attempt β} {Q : β → List Event → σ → Prop}
    (h : Guarded R G t es s (fun a es₁ s₁ => es <+: es₁ → Guarded R G (f a) es₁ s₁ Q X) X) :
    Guarded R G (t >>= f) es s Q X := by
  refine Routine.guarded_bind (Routine.Guarded.mono h fun r es₁ s₁ hr hes => ?_)
  cases r with
  | ok a => exact hr hes
  | error e => exact hr

theorem guarded_tryCatch {f : Fault → Attempt α}
    (h : Guarded R G t es s Q fun e es₁ s₁ => Guarded R G (f e) es₁ s₁ Q X) :
    Guarded R G (tryCatch t f) es s Q X := by
  refine Routine.guarded_bind (Routine.Guarded.mono h fun r es₁ s₁ hr _ => ?_)
  cases r with
  | ok a => exact hr
  | error e => exact hr

theorem guarded_lift {Q : Except Fault α → List Event → σ → Prop}
    (h : Guarded R G t es s (fun a => Q (.ok a)) fun e => Q (.error e)) :
    Guarded R G (ExceptT.lift t.run : Attempt (Except Fault α)) es s Q X := by
  refine Routine.guarded_bind (Routine.Guarded.mono h fun r es₁ s₁ hr _ => ?_)
  cases r with
  | ok a => exact hr
  | error e => exact hr

theorem Guarded.mono {X' : Fault → List Event → σ → Prop} (h : Guarded R G t es s Q X)
    (hQ : ∀ a es' s', Q a es' s' → Q' a es' s') (hX : ∀ e es' s', X e es' s' → X' e es' s') :
    Guarded R G t es s Q' X' := by
  refine Routine.Guarded.mono h fun r es' s' hr => ?_
  cases r with
  | ok a => exact hQ a es' s' hr
  | error e => exact hX e es' s' hr

theorem Guarded.routine {P : σ → Prop} (h : Guarded R G t es s (fun _ _ => P) fun _ _ => P) :
    Routine.Guarded R G t.run es s fun _ _ s' => P s' :=
  Routine.Guarded.mono h fun _ _ _ hend => hend.of_const

/-- What an attempt ensures with what will have been heard is ensured of what was heard. -/
theorem Guarded.and_ensures {E : LinkRule} {Q₁ : α → List Event → σ → Prop}
    {X₁ : Fault → List Event → σ → Prop} (h : Guarded R G t es s Q X)
    (ht : ∀ es', es <+: es' → t.Ensures (heardIn es') R E s (Q₁ · es') (X₁ · es')) :
    Guarded R G t es s (fun a es' s' => Q a es' s' ∧ Q₁ a es' s')
      fun e es' s' => X e es' s' ∧ X₁ e es' s' := by
  refine Routine.Guarded.mono (Routine.Guarded.and_exec h) fun r es' s' hend => ?_
  obtain ⟨hr, es₁, rfl, hexec⟩ := hend
  have hends := (ht _ (List.prefix_append es es₁) es₁ r s' hexec).2
  cases r with
  | ok a => exact ⟨hr, hends⟩
  | error e => exact ⟨hr, hends⟩

/-- Questions leave the state alone and ensure what they ensure of what was heard. -/
theorem Only.guarded {P : Move → Bool} {E : LinkRule} {T : α → Answers → Prop} (ht : t.Only P)
    (hP : ∀ m, P m = true → m.isAsk = true) (hG : ∀ es' q, P (.ask q) = true → G es' s (.ask q))
    (hT : ∀ es', es <+: es' →
      t.Ensures (heardIn es') R E s (fun a _ => T a (heardIn es')) fun _ _ => True)
    (hQ : ∀ a es', T a (heardIn es') → Q a es' s) (hX : ∀ e es', X e es' s) :
    Guarded R G t es s Q X := by
  have hasks : Guarded R G t es s (fun _ _ s' => s' = s) fun _ _ s' => s' = s :=
    Routine.Only.guarded ht hP hG fun r es' => by cases r <;> rfl
  refine (hasks.and_ensures hT).mono (fun a es' s' hend => ?_) fun e es' s' hend => ?_
  · obtain ⟨rfl, hheard⟩ := hend
    exact hQ a es' hheard
  · obtain ⟨rfl, -⟩ := hend
    exact hX e es'

end Attempt

/-! ## Attempts with a state of their own -/

namespace StateAttempt

variable {ι : Type}

/-- Every move of the attempt is guarded, and it ends as it should, whatever its own state is. -/
def Guarded (R : Conduct σ) (G : Guard σ) (t : StateAttempt ι α) (es : List Event) (s : σ)
    (Q : α → List Event → σ → Prop) (X : Fault → List Event → σ → Prop) : Prop :=
  ∀ i, (t.start i).Guarded R G es s fun r es' => Outcome (Q · es') (X · es') r.1

variable {t : StateAttempt ι α} {Q : α → List Event → σ → Prop} {X : Fault → List Event → σ → Prop}

theorem guarded_pure {a : α} (h : Q a es s) :
    Guarded R G (pure a : StateAttempt ι α) es s Q X := fun _ => h

theorem guarded_keeping {t : Attempt α} (h : t.Guarded R G es s Q X) :
    Guarded R G (t.keeping : StateAttempt ι α) es s Q X :=
  fun _ => Routine.Guarded.bind h

theorem guarded_bind {f : α → StateAttempt ι β} {Q : β → List Event → σ → Prop}
    (h : t.Guarded R G es s (fun a es₁ s₁ => es <+: es₁ → (f a).Guarded R G es₁ s₁ Q X) X) :
    Guarded R G (t >>= f) es s Q X := by
  refine fun i => Routine.guarded_bind ((h i).mono fun r es₁ s₁ hr hes => ?_)
  obtain ⟨r, i'⟩ := r
  cases r with
  | ok a => exact hr hes i'
  | error e => exact hr

theorem guarded_except {r : Except Fault α} (h : Outcome (Q · es) (X · es) r s) :
    Guarded R G (ExceptT.mk (pure r) : StateAttempt ι α) es s Q X := fun _ => h

theorem guarded_get {Q : ι → List Event → σ → Prop} (h : ∀ i, Q i es s) :
    Guarded R G (getThe ι : StateAttempt ι ι) es s Q X := h

theorem guarded_modify {f : ι → ι} {Q : PUnit → List Event → σ → Prop} (h : Q PUnit.unit es s) :
    Guarded R G (modifyThe ι f : StateAttempt ι PUnit) es s Q X := fun _ => h

theorem Guarded.mono {Q' : α → List Event → σ → Prop} {X' : Fault → List Event → σ → Prop}
    (h : t.Guarded R G es s Q X) (hQ : ∀ a es' s', Q a es' s' → Q' a es' s')
    (hX : ∀ e es' s', X e es' s' → X' e es' s') : t.Guarded R G es s Q' X' := by
  refine fun i => (h i).mono fun r es' s' hr => ?_
  obtain ⟨r, i'⟩ := r
  cases r with
  | ok a => exact hQ a es' s' hr
  | error e => exact hX e es' s' hr

theorem Guarded.start (h : t.Guarded R G es s Q X) (i : ι) :
    Attempt.Guarded R G (ExceptT.mk (Prod.fst <$> t.start i)) es s Q X :=
  Routine.Guarded.bind (h i)

end StateAttempt

end ChainIndex
