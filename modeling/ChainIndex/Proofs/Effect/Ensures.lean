import Mathlib.Data.List.Forall2
import ChainIndex.Proofs.Effect.Execution

/-!
# What all executions of an attempt have in common

`Attempt.Ensures N R E t s Q X` says that whatever the node answers within `N` and the store does within
`R`, every event of an execution of `t` from the state `s` obeys the rule `E` for links, a success
satisfies `Q` and a fault satisfies `X`, each together with the state that is left.

There is one rule for each way to build an attempt, so that what a long attempt ensures follows from what
its parts ensure.
-/

namespace ChainIndex

/-- A rule for writing linked transactions: of the receipt, of the block, and of the store's reply. -/
abbrev LinkRule := Chain.Receipt → Ledger.Block → Except Fault Ledger.Transaction → Prop

/-- An event that writes a linked transaction, or is refused to, does so by the rule. -/
def Event.Obeys (E : LinkRule) : Event → Prop
  | .did (.access (.createTransaction _ r b)) reply => E r b reply
  | .did (.access (.linkTransaction _ b r)) reply => E r b reply
  | _ => True

variable {σ α β : Type} {N : Answers} {R : Conduct σ} {E : LinkRule} {s : σ}

/-! ## Routines -/

namespace Routine

/-- Every execution of the routine obeys the rule and ends as it should. -/
def Ensures (N : Answers) (R : Conduct σ) (E : LinkRule) (p : Routine α) (s : σ) (Q : α → σ → Prop) :
    Prop :=
  ∀ es a s', p.Exec N R s es a s' → (∀ e ∈ es, e.Obeys E) ∧ Q a s'

variable {p : Routine α} {Q Q' : α → σ → Prop}

theorem ensures_pure {a : α} (h : Q a s) : Ensures N R E (pure a) s Q := by
  rintro es _ _ ⟨rfl, rfl, rfl⟩
  exact ⟨fun e he => absurd he List.not_mem_nil, h⟩

theorem ensures_bind {f : α → Routine β} {Q : β → σ → Prop}
    (h : Ensures N R E p s fun a s₁ => Ensures N R E (f a) s₁ Q) : Ensures N R E (p >>= f) s Q := by
  intro es b s' hexec
  obtain ⟨a, es₁, s₁, es₂, hp, hf, rfl⟩ := exec_bind.1 hexec
  obtain ⟨hes₁, hrest⟩ := h es₁ a s₁ hp
  obtain ⟨hes₂, hQ⟩ := hrest es₂ b s' hf
  exact ⟨fun e he => (List.mem_append.1 he).elim (hes₁ e) (hes₂ e), hQ⟩

theorem Ensures.mono (h : Ensures N R E p s Q) (hQ : ∀ a s', Q a s' → Q' a s') :
    Ensures N R E p s Q' := by
  intro es a s' hexec
  obtain ⟨hes, ha⟩ := h es a s' hexec
  exact ⟨hes, hQ a s' ha⟩

theorem ensures_ask {q : Query} {next : Except Fault q.Reply → Routine α}
    (h : ∀ r, N q r → Ensures N R E (next r) s Q) : Ensures N R E (.ask q next) s Q := by
  rintro es a s' ⟨r, es', rfl, hN, hexec⟩
  obtain ⟨hes, hQ⟩ := h r hN es' a s' hexec
  refine ⟨fun e he => ?_, hQ⟩
  rcases List.mem_cons.1 he with rfl | he
  · trivial
  · exact hes e he

theorem ensures_act {a : Action} {next : Except Fault a.Reply → Routine α}
    (h : ∀ r s₁, R a s r s₁ → (Event.did a r).Obeys E ∧ Ensures N R E (next r) s₁ Q) :
    Ensures N R E (.act a next) s Q := by
  rintro es b s' ⟨r, s₁, es', rfl, hR, hexec⟩
  obtain ⟨hr, hnext⟩ := h r s₁ hR
  obtain ⟨hes, hQ⟩ := hnext es' b s' hexec
  refine ⟨fun e he => ?_, hQ⟩
  rcases List.mem_cons.1 he with rfl | he
  · exact hr
  · exact hes e he

end Routine

/-! ## Attempts -/

/-- How an attempt may end: with a success that satisfies one predicate or a fault that satisfies
another. -/
def Outcome (Q : α → σ → Prop) (X : Fault → σ → Prop) : Except Fault α → σ → Prop
  | .ok a, s => Q a s
  | .error e, s => X e s

theorem Outcome.of_const {P : σ → Prop} {r : Except Fault α}
    (h : Outcome (fun _ => P) (fun _ => P) r s) : P s := by
  cases r <;> exact h

theorem Outcome.map {f : α → β} {Q : β → σ → Prop} {X : Fault → σ → Prop} {r : Except Fault α}
    (h : Outcome (fun a => Q (f a)) X r s) : Outcome Q X (r.map f) s := by
  cases r <;> exact h

namespace Attempt

/-- Every execution of the attempt obeys the rule and ends as it should. -/
def Ensures (N : Answers) (R : Conduct σ) (E : LinkRule) (t : Attempt α) (s : σ) (Q : α → σ → Prop)
    (X : Fault → σ → Prop) : Prop :=
  Routine.Ensures N R E t.run s (Outcome Q X)

variable {t : Attempt α} {Q Q' : α → σ → Prop} {X X' : Fault → σ → Prop}

theorem ensures_pure {a : α} (h : Q a s) : Ensures N R E (pure a) s Q X := Routine.ensures_pure h

theorem ensures_throw {e : Fault} (h : X e s) : Ensures N R E (throw e : Attempt α) s Q X :=
  Routine.ensures_pure h

theorem ensures_send {q : Query} {Q : q.Reply → σ → Prop} (hQ : ∀ a, N q (.ok a) → Q a s)
    (hX : ∀ e, N q (.error e) → X e s) : Ensures N R E q.send s Q X := by
  refine Routine.ensures_ask fun r hN => Routine.ensures_pure ?_
  cases r with
  | ok a => exact hQ a hN
  | error e => exact hX e hN

/-- An action ensures whatever holds of each reply that the conduct allows. -/
theorem ensures_perform {a : Action} {Q : a.Reply → σ → Prop}
    (h : ∀ r s', R a s r s' → (Event.did a r).Obeys E ∧ Outcome Q X r s') :
    Ensures N R E a.perform s Q X :=
  Routine.ensures_act fun r s' hR => (h r s' hR).imp_right Routine.ensures_pure

theorem ensures_bind {f : α → Attempt β} {Q : β → σ → Prop}
    (h : Ensures N R E t s (fun a s₁ => Ensures N R E (f a) s₁ Q X) X) :
    Ensures N R E (t >>= f) s Q X := by
  refine Routine.ensures_bind (h.mono fun r s₁ hr => ?_)
  cases r with
  | ok a => exact hr
  | error e => exact Routine.ensures_pure hr

theorem ensures_tryCatch {f : Fault → Attempt α}
    (h : Ensures N R E t s Q fun e s₁ => Ensures N R E (f e) s₁ Q X) :
    Ensures N R E (tryCatch t f) s Q X := by
  refine Routine.ensures_bind (h.mono fun r s₁ hr => ?_)
  cases r with
  | ok a => exact Routine.ensures_pure hr
  | error e => exact hr

theorem ensures_lift {Q : Except Fault α → σ → Prop}
    (h : Ensures N R E t s (fun a => Q (.ok a)) fun e => Q (.error e)) :
    Ensures N R E (ExceptT.lift t.run : Attempt (Except Fault α)) s Q X := by
  refine Routine.ensures_bind (Routine.Ensures.mono h fun r s₁ hr => Routine.ensures_pure ?_)
  cases r with
  | ok a => exact hr
  | error e => exact hr

theorem Ensures.mono (h : Ensures N R E t s Q X) (hQ : ∀ a s', Q a s' → Q' a s')
    (hX : ∀ e s', X e s' → X' e s') : Ensures N R E t s Q' X' := by
  refine Routine.Ensures.mono h fun r s' hr => ?_
  cases r with
  | ok a => exact hQ a s' hr
  | error e => exact hX e s' hr

/-- What holds of the state that is left, whatever the end, holds of it after the routine. -/
theorem Ensures.routine {P : σ → Prop} (h : Ensures N R E t s (fun _ => P) fun _ => P) :
    Routine.Ensures N R E t.run s fun _ s' => P s' :=
  Routine.Ensures.mono h fun _ _ hend => hend.of_const

/-- Attempts at the items of a list that leave the state alone give one result for each item. -/
theorem ensures_mapM {f : α → Attempt β} {P : α → β → Prop} {xs : List α} {Q : List β → σ → Prop}
    (hf : ∀ x ∈ xs, ∀ {Q : β → σ → Prop}, (∀ b, P x b → Q b s) → Ensures N R E (f x) s Q X)
    (hQ : ∀ bs, List.Forall₂ P xs bs → Q bs s) : Ensures N R E (xs.mapM f) s Q X := by
  induction xs generalizing Q with
  | nil => exact ensures_pure (hQ [] .nil)
  | cons x rest ih =>
    rw [List.mapM_cons]
    refine ensures_bind (hf x List.mem_cons_self fun b hb => ensures_bind ?_)
    refine ih (fun y hy => hf y (List.mem_cons_of_mem _ hy)) fun bs hbs => ?_
    exact ensures_pure (hQ _ (.cons hb hbs))

end Attempt

end ChainIndex
