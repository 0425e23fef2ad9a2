import ChainIndex.Proofs.Effect.Ensures
import ChainIndex.Proofs.Effect.Order

/-!
# What happens on the way

`Routine.Leads N R p s Q` says that every execution of `p` from the state `s` ends as `Q` says, which may
speak of all that happened on the way.  There is one rule for each way to build a routine; what happens in
a sequence is what happens in its parts, one after the other.  The same rules hold for attempts, with and
without a state of their own.

What is known of the ends of an attempt (`Attempt.Ensures`) and of its moves (`Routine.Only`) is known of
its executions as well.
-/

namespace ChainIndex

variable {σ ι α β : Type} {N : Answers} {R : Conduct σ} {s : σ}

/-! ## Routines -/

namespace Routine

/-- Every execution of the routine ends as it should, given what happened in it. -/
def Leads (N : Answers) (R : Conduct σ) (p : Routine α) (s : σ) (Q : α → List Event → σ → Prop) : Prop :=
  ∀ es a s', p.Exec N R s es a s' → Q a es s'

variable {p : Routine α} {Q Q' : α → List Event → σ → Prop}

theorem leads_pure {a : α} (h : Q a [] s) : Leads N R (pure a) s Q := by
  rintro es _ _ ⟨rfl, rfl, rfl⟩
  exact h

theorem leads_bind {f : α → Routine β} {Q : β → List Event → σ → Prop}
    (h : p.Leads N R s fun a es s₁ => (f a).Leads N R s₁ fun b es' => Q b (es ++ es')) :
    Leads N R (p >>= f) s Q := by
  intro es b s' hexec
  obtain ⟨a, es₁, s₁, es₂, hp, hf, rfl⟩ := exec_bind.1 hexec
  exact h es₁ a s₁ hp es₂ b s' hf

theorem Leads.mono (h : p.Leads N R s Q) (hQ : ∀ a es s', Q a es s' → Q' a es s') :
    p.Leads N R s Q' :=
  fun es a s' hexec => hQ a es s' (h es a s' hexec)

theorem Leads.and (h : p.Leads N R s Q) (h' : p.Leads N R s Q') :
    p.Leads N R s fun a es s' => Q a es s' ∧ Q' a es s' :=
  fun es a s' hexec => ⟨h es a s' hexec, h' es a s' hexec⟩

theorem Leads.of_conduct {R' : Conduct σ} (h : p.Leads N R' s Q)
    (hR : ∀ {b s r s'}, R b s r s' → R' b s r s') : p.Leads N R s Q :=
  fun es a s' hexec => h es a s' (hexec.of_conduct hR)

theorem Leads.run {ν : Type} {node : Node ν} {store : Store σ} {w : World ν σ}
    (h : p.Leads node.answers store.conduct w.store Q) :
    Q (p.run node store w).1 (p.history node store w) (p.run node store w).2.store :=
  h _ _ _ ((exec_run node store p w).imp fun _ _ hheard => hheard.2)

/-- All that happens satisfies what all moves satisfy, and what every such move keeps is kept. -/
theorem Only.leads {P : Move → Bool} (h : p.Only P) {I : σ → Prop}
    (hI : ∀ a s r s', P (.act a) = true → R a s r s' → I s → I s') (hs : I s) :
    p.Leads N R s fun _ es s' => I s' ∧ ∀ e ∈ es, P e.move = true :=
  fun _ _ _ hexec => h.of_exec hI hexec hs

/-- A routine that asks nothing when it is run does the same in every execution. -/
theorem Leads.of_run {ν : Type} {node : Node ν} {store : Store σ} {n : ν}
    (hlocal : ∀ e ∈ p.history node store ⟨n, s⟩, e.isQuestion = false) :
    p.Leads N store.conduct s fun a es s' => a = (p.run node store ⟨n, s⟩).1 ∧
      es = p.history node store ⟨n, s⟩ ∧ s' = (p.run node store ⟨n, s⟩).2.store := by
  induction p generalizing s with
  | done a => exact leads_pure ⟨rfl, rfl, rfl⟩
  | ask q next ih =>
    rw [history_ask] at hlocal
    exact absurd (hlocal _ List.mem_cons_self).symm Bool.false_ne_true
  | act b next ih =>
    rintro es a s' ⟨r, s₁, es', rfl, hR, hexec⟩
    rw [history_act] at hlocal ⊢
    rw [run_act]
    obtain ⟨rfl, rfl⟩ := Prod.ext_iff.1 hR
    obtain ⟨ha, hes, hs'⟩ := ih _ (fun e he => hlocal e (List.mem_cons_of_mem _ he)) es' a s' hexec
    exact ⟨ha, congrArg _ hes, hs'⟩

end Routine

/-! ## Attempts -/

namespace Attempt

/-- Every execution of the attempt ends as it should, given what happened in it. -/
def Leads (N : Answers) (R : Conduct σ) (t : Attempt α) (s : σ) (Q : α → List Event → σ → Prop)
    (X : Fault → List Event → σ → Prop) : Prop :=
  Routine.Leads N R t.run s fun r es => Outcome (Q · es) (X · es) r

variable {t : Attempt α} {Q Q' : α → List Event → σ → Prop} {X X' : Fault → List Event → σ → Prop}

theorem leads_pure {a : α} (h : Q a [] s) : Leads N R (pure a) s Q X := Routine.leads_pure h

theorem leads_send {q : Query} {Q : q.Reply → List Event → σ → Prop}
    (hQ : ∀ a, N q (.ok a) → Q a [.asked q (.ok a)] s)
    (hX : ∀ e, N q (.error e) → X e [.asked q (.error e)] s) : Leads N R q.send s Q X := by
  rintro es a s' ⟨r, es', rfl, hN, rfl, rfl, rfl⟩
  cases a with
  | ok a => exact hQ a hN
  | error e => exact hX e hN

theorem leads_perform {a : Action} {Q : a.Reply → List Event → σ → Prop}
    (h : ∀ r s', R a s r s' → Outcome (Q · [.did a r]) (X · [.did a r]) r s') :
    Leads N R a.perform s Q X := by
  rintro es r s' ⟨r, s₁, es', rfl, hR, rfl, rfl, rfl⟩
  exact h r s' hR

theorem leads_bind {f : α → Attempt β} {Q : β → List Event → σ → Prop}
    (h : Leads N R t s
      (fun a es s₁ => (f a).Leads N R s₁ (fun b es' => Q b (es ++ es')) fun e es' => X e (es ++ es')) X) :
    Leads N R (t >>= f) s Q X := by
  refine Routine.leads_bind (Routine.Leads.mono h fun r es s₁ hr => ?_)
  cases r with
  | ok a => exact hr
  | error e =>
    refine Routine.leads_pure ?_
    rw [List.append_nil]
    exact hr

theorem Leads.mono (h : Leads N R t s Q X) (hQ : ∀ a es s', Q a es s' → Q' a es s')
    (hX : ∀ e es s', X e es s' → X' e es s') : Leads N R t s Q' X' := by
  refine Routine.Leads.mono h fun r es s' hr => ?_
  cases r with
  | ok a => exact hQ a es s' hr
  | error e => exact hX e es s' hr

theorem Leads.and (h : Leads N R t s Q X) (h' : Leads N R t s Q' X') :
    Leads N R t s (fun a es s' => Q a es s' ∧ Q' a es s') fun e es s' => X e es s' ∧ X' e es s' := by
  refine (Routine.Leads.and h h').mono fun r es s' hr => ?_
  cases r <;> exact hr

theorem Ensures.leads {E : LinkRule} {Q : α → σ → Prop} {X : Fault → σ → Prop}
    (h : t.Ensures N R E s Q X) : Leads N R t s (fun a _ => Q a) fun e _ => X e :=
  fun es r s' hexec => (h es r s' hexec).2

theorem Only.leads {P : Move → Bool} (h : t.Only P) {I : σ → Prop}
    (hI : ∀ a s r s', P (.act a) = true → R a s r s' → I s → I s') (hs : I s) :
    Leads N R t s (fun _ es s' => I s' ∧ ∀ e ∈ es, P e.move = true)
      fun _ es s' => I s' ∧ ∀ e ∈ es, P e.move = true :=
  (Routine.Only.leads h hI hs).mono fun r _ _ hr => by cases r <;> exact hr

theorem Leads.run {ν : Type} {node : Node ν} {store : Store σ} {w : Routine.World ν σ}
    (h : t.Leads node.answers store.conduct w.store Q X) :
    (∃ a, (t.run.run node store w).1 = .ok a ∧
      Q a (t.run.history node store w) (t.run.run node store w).2.store) ∨
    ∃ e, (t.run.run node store w).1 = .error e ∧
      X e (t.run.history node store w) (t.run.run node store w).2.store := by
  have hend := Routine.Leads.run h
  cases hrun : (t.run.run node store w).1 with
  | ok a =>
    rw [hrun] at hend
    exact .inl ⟨a, rfl, hend⟩
  | error e =>
    rw [hrun] at hend
    exact .inr ⟨e, rfl, hend⟩

/-- A run of an attempt that cannot fault succeeds. -/
theorem Leads.exists_ok {ν : Type} {node : Node ν} {store : Store σ} {w : Routine.World ν σ}
    (h : t.Leads node.answers store.conduct w.store Q fun _ _ _ => False) :
    ∃ a, (t.run.run node store w).1 = .ok a ∧
      Q a (t.run.history node store w) (t.run.run node store w).2.store := by
  rcases h.run with hok | ⟨e, -, hnever⟩
  · exact hok
  · exact hnever.elim

end Attempt

/-! ## Attempts with a state of their own -/

namespace StateAttempt

variable {i : ι}

/-- Every execution of the attempt from a state of its own ends as it should, given what happened in it. -/
def Leads (N : Answers) (R : Conduct σ) (t : StateAttempt ι α) (i : ι) (s : σ)
    (Q : α → ι → List Event → σ → Prop) (X : Fault → ι → List Event → σ → Prop) : Prop :=
  (t.start i).Leads N R s fun r es => Outcome (Q · r.2 es) (X · r.2 es) r.1

variable {t : StateAttempt ι α} {Q Q' : α → ι → List Event → σ → Prop}
  {X X' : Fault → ι → List Event → σ → Prop}

theorem leads_pure {a : α} (h : Q a i [] s) : Leads N R (pure a : StateAttempt ι α) i s Q X :=
  Routine.leads_pure h

theorem leads_throw {e : Fault} (h : X e i [] s) : Leads N R (throw e : StateAttempt ι α) i s Q X :=
  Routine.leads_pure h

theorem leads_keeping {t : Attempt α} (h : t.Leads N R s (fun a => Q a i) fun e => X e i) :
    Leads N R (t.keeping : StateAttempt ι α) i s Q X := by
  refine Routine.leads_bind (Routine.Leads.mono h fun r es s' hr => Routine.leads_pure ?_)
  rw [List.append_nil]
  exact hr

theorem leads_bind {f : α → StateAttempt ι β} {Q : β → ι → List Event → σ → Prop}
    (h : Leads N R t i s (fun a i₁ es s₁ => (f a).Leads N R i₁ s₁ (fun b i' es' => Q b i' (es ++ es'))
      fun e i' es' => X e i' (es ++ es')) X) : Leads N R (t >>= f) i s Q X := by
  refine Routine.leads_bind (Routine.Leads.mono h fun r es s₁ hr => ?_)
  obtain ⟨r, i₁⟩ := r
  cases r with
  | ok a => exact hr
  | error e =>
    refine Routine.leads_pure ?_
    rw [List.append_nil]
    exact hr

theorem leads_get {Q : ι → ι → List Event → σ → Prop} (h : Q i i [] s) :
    Leads N R (getThe ι : StateAttempt ι ι) i s Q X := Routine.leads_pure h

theorem leads_modify {f : ι → ι} {Q : PUnit → ι → List Event → σ → Prop} (h : Q PUnit.unit (f i) [] s) :
    Leads N R (modifyThe ι f : StateAttempt ι PUnit) i s Q X := Routine.leads_pure h

theorem Leads.mono (h : Leads N R t i s Q X) (hQ : ∀ a i' es s', Q a i' es s' → Q' a i' es s')
    (hX : ∀ e i' es s', X e i' es s' → X' e i' es s') : Leads N R t i s Q' X' := by
  refine Routine.Leads.mono h fun r es s' hr => ?_
  obtain ⟨r, i'⟩ := r
  cases r with
  | ok a => exact hQ a i' es s' hr
  | error e => exact hX e i' es s' hr

theorem Leads.start (h : t.Leads N R i s Q X) :
    Attempt.Leads N R (ExceptT.mk (Prod.fst <$> t.start i)) s (fun a es s' => ∃ i', Q a i' es s')
      fun e es s' => ∃ i', X e i' es s' := by
  refine Routine.leads_bind (Routine.Leads.mono h fun r es s' hr => Routine.leads_pure ?_)
  rw [List.append_nil]
  obtain ⟨r, i'⟩ := r
  cases r with
  | ok a => exact ⟨i', hr⟩
  | error e => exact ⟨i', hr⟩

end StateAttempt

end ChainIndex
