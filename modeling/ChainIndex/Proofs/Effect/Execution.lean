import ChainIndex.Effect.Routine

/-!
# Executions

An `Event` is a question with its answer or an action with its reply.  `Routine.Exec N R p s es a s'`
says that `p` can go from the state `s` to the state `s'` with the result `a`, leaving the events `es`
behind, when the node answers as `N` allows and the store behaves as the `Conduct` `R` allows.

A run is an execution (`exec_run`), an execution of a sequence is a sequence of executions (`exec_bind`),
and an execution carries over to any conduct that simulates the one it was made with (`Exec.simulate`).
-/

namespace ChainIndex

/-- Something that happens while a routine is carried out. -/
inductive Event where
  | asked (q : Query) (r : Except Fault q.Reply)
  | did (a : Action) (r : Except Fault a.Reply)

/-- What a node may answer to each question. -/
abbrev Answers := (q : Query) → Except Fault q.Reply → Prop

/-- What a node answers in one of its states. -/
def Node.answers {ν : Type} (node : Node ν) : Answers := fun q r => ∃ n, (node.answer q n).1 = r

/-- How a store may behave: what each action may answer, and the states it may leave. -/
abbrev Conduct (σ : Type) := (a : Action) → σ → Except Fault a.Reply → σ → Prop

/-- The conduct of a given store. -/
def Store.conduct {σ : Type} (store : Store σ) : Conduct σ := fun a s r s' => store.perform a s = (r, s')

namespace Routine

variable {ν σ τ α β : Type}

/-- The executions of a routine. -/
def Exec (N : Answers) (R : Conduct σ) : Routine α → σ → List Event → α → σ → Prop
  | .done a, s, es, b, s' => es = [] ∧ b = a ∧ s' = s
  | .ask q next, s, es, b, s' => ∃ r es', es = .asked q r :: es' ∧ N q r ∧ (next r).Exec N R s es' b s'
  | .act a next, s, es, b, s' =>
    ∃ r s₁ es', es = .did a r :: es' ∧ R a s r s₁ ∧ (next r).Exec N R s₁ es' b s'

variable {N : Answers} {R : Conduct σ}

theorem exec_bind {p : Routine α} {f : α → Routine β} {s s' : σ} {es : List Event} {b : β} :
    (p >>= f).Exec N R s es b s' ↔
      ∃ a es₁ s₁ es₂, p.Exec N R s es₁ a s₁ ∧ (f a).Exec N R s₁ es₂ b s' ∧ es = es₁ ++ es₂ := by
  induction p generalizing s es with
  | done a =>
    constructor
    · exact fun h => ⟨a, [], s, es, ⟨rfl, rfl, rfl⟩, h, rfl⟩
    · rintro ⟨_, _, _, es₂, ⟨rfl, rfl, rfl⟩, h, rfl⟩
      exact h
  | ask q next ih =>
    constructor
    · rintro ⟨r, es', rfl, hN, h⟩
      obtain ⟨a, es₁, s₁, es₂, hp, hf, rfl⟩ := (ih r).1 h
      exact ⟨a, .asked q r :: es₁, s₁, es₂, ⟨r, es₁, rfl, hN, hp⟩, hf, rfl⟩
    · rintro ⟨a, _, s₁, es₂, ⟨r, es₁, rfl, hN, hp⟩, hf, rfl⟩
      exact ⟨r, es₁ ++ es₂, rfl, hN, (ih r).2 ⟨a, es₁, s₁, es₂, hp, hf, rfl⟩⟩
  | act a next ih =>
    constructor
    · rintro ⟨r, s₀, es', rfl, hR, h⟩
      obtain ⟨b, es₁, s₁, es₂, hp, hf, rfl⟩ := (ih r).1 h
      exact ⟨b, .did a r :: es₁, s₁, es₂, ⟨r, s₀, es₁, rfl, hR, hp⟩, hf, rfl⟩
    · rintro ⟨b, _, s₁, es₂, ⟨r, s₀, es₁, rfl, hR, hp⟩, hf, rfl⟩
      exact ⟨r, s₀, es₁ ++ es₂, rfl, hR, (ih r).2 ⟨b, es₁, s₁, es₂, hp, hf, rfl⟩⟩

/-- What one conduct can do from a state, another can do from a state that stands for it. -/
theorem Exec.simulate {T : Conduct τ} {rel : σ → τ → Prop}
    (hsim : ∀ {a s r s' t}, rel s t → R a s r s' → ∃ t', T a t r t' ∧ rel s' t')
    {p : Routine α} {s s' : σ} {es : List Event} {a : α} (h : p.Exec N R s es a s') {t : τ}
    (hrel : rel s t) : ∃ t', p.Exec N T t es a t' ∧ rel s' t' := by
  induction p generalizing s es t with
  | done b =>
    obtain ⟨rfl, rfl, rfl⟩ := h
    exact ⟨t, ⟨rfl, rfl, rfl⟩, hrel⟩
  | ask q next ih =>
    obtain ⟨r, es', rfl, hN, h⟩ := h
    obtain ⟨t', ht, hrel'⟩ := ih r h hrel
    exact ⟨t', ⟨r, es', rfl, hN, ht⟩, hrel'⟩
  | act b next ih =>
    obtain ⟨r, s₁, es', rfl, hR, h⟩ := h
    obtain ⟨t₁, hT, hrel₁⟩ := hsim hrel hR
    obtain ⟨t', ht, hrel'⟩ := ih r h hrel₁
    exact ⟨t', ⟨r, t₁, es', rfl, hT, ht⟩, hrel'⟩

theorem Exec.of_conduct {R' : Conduct σ} {p : Routine α} {s s' : σ} {es : List Event} {a : α}
    (h : p.Exec N R s es a s') (hR : ∀ {b s r s'}, R b s r s' → R' b s r s') : p.Exec N R' s es a s' := by
  have hsim {b : Action} {s : σ} {r : Except Fault b.Reply} {s' t : σ} (hrel : s = t)
      (hb : R b s r s') : ∃ t', R' b t r t' ∧ s' = t' := ⟨s', hrel ▸ hR hb, rfl⟩
  obtain ⟨_, hexec, rfl⟩ := h.simulate @hsim rfl
  exact hexec

theorem Exec.imp {N' : Answers} {p : Routine α} {s s' : σ} {es : List Event} {a : α}
    (h : p.Exec N R s es a s') (hN : ∀ q r, N q r → N' q r) : p.Exec N' R s es a s' := by
  induction p generalizing s es with
  | done b => exact h
  | ask q next ih =>
    obtain ⟨r, es', rfl, hr, h⟩ := h
    exact ⟨r, es', rfl, hN q r hr, ih r h⟩
  | act b next ih =>
    obtain ⟨r, s₁, es', rfl, hR, h⟩ := h
    exact ⟨r, s₁, es', rfl, hR, ih r h⟩

/-- Every action in an execution is one that the conduct allows in some state. -/
theorem Exec.exists_of_did_mem {p : Routine α} {s s' : σ} {es : List Event} {a : α}
    (h : p.Exec N R s es a s') {b : Action} {r : Except Fault b.Reply} (hmem : .did b r ∈ es) :
    ∃ s₁ s₂, R b s₁ r s₂ := by
  induction p generalizing s es with
  | done b =>
    obtain ⟨rfl, -, -⟩ := h
    cases hmem
  | ask q next ih =>
    obtain ⟨r', es', rfl, -, h⟩ := h
    rcases List.mem_cons.1 hmem with hmem | hmem
    · cases hmem
    · exact ih r' h hmem
  | act c next ih =>
    obtain ⟨r', s₁, es', rfl, hR, h⟩ := h
    rcases List.mem_cons.1 hmem with hmem | hmem
    · cases hmem
      exact ⟨s, s₁, hR⟩
    · exact ih r' h hmem

/-! ## Runs -/

/-- What happens in a run. -/
def history (node : Node ν) (store : Store σ) : Routine α → World ν σ → List Event
  | .done _, _ => []
  | .ask q next, w =>
    let (r, n) := node.answer q w.node
    .asked q r :: (next r).history node store { w with node := n }
  | .act a next, w =>
    let (r, s) := store.perform a w.store
    .did a r :: (next r).history node store { w with store := s }

theorem history_ask (node : Node ν) (store : Store σ) (q : Query)
    (next : Except Fault q.Reply → Routine α) (w : World ν σ) :
    (Routine.ask q next).history node store w = .asked q (node.answer q w.node).1 ::
      (next (node.answer q w.node).1).history node store { w with node := (node.answer q w.node).2 } :=
  rfl

theorem history_act (node : Node ν) (store : Store σ) (a : Action)
    (next : Except Fault a.Reply → Routine α) (w : World ν σ) :
    (Routine.act a next).history node store w = .did a (store.perform a w.store).1 ::
      (next (store.perform a w.store).1).history node store
        { w with store := (store.perform a w.store).2 } :=
  rfl

theorem run_ask (node : Node ν) (store : Store σ) (q : Query)
    (next : Except Fault q.Reply → Routine α) (w : World ν σ) :
    (Routine.ask q next).run node store w =
      (next (node.answer q w.node).1).run node store { w with node := (node.answer q w.node).2 } :=
  rfl

theorem run_act (node : Node ν) (store : Store σ) (a : Action)
    (next : Except Fault a.Reply → Routine α) (w : World ν σ) :
    (Routine.act a next).run node store w =
      (next (store.perform a w.store).1).run node store
        { w with store := (store.perform a w.store).2 } :=
  rfl

theorem answers_of_mem_history {node : Node ν} {store : Store σ} {p : Routine α} {w : World ν σ}
    {q : Query} {r : Except Fault q.Reply} (h : .asked q r ∈ p.history node store w) :
    node.answers q r := by
  induction p generalizing w with
  | done a => cases h
  | ask q' next ih =>
    rw [history_ask] at h
    rcases List.mem_cons.1 h with h | h
    · cases h
      exact ⟨_, rfl⟩
    · exact ih _ h
  | act a next ih =>
    rw [history_act] at h
    rcases List.mem_cons.1 h with h | h
    · cases h
    · exact ih _ h

/-- What a node answered in a run. -/
def heard (node : Node ν) (store : Store σ) (p : Routine α) (w : World ν σ) : Answers :=
  fun q r => .asked q r ∈ p.history node store w ∧ node.answers q r

/-- A run is an execution with the answers that were heard. -/
theorem exec_run (node : Node ν) (store : Store σ) (p : Routine α) (w : World ν σ) :
    p.Exec (p.heard node store w) store.conduct w.store (p.history node store w)
      (p.run node store w).1 (p.run node store w).2.store := by
  induction p generalizing w with
  | done a => exact ⟨rfl, rfl, rfl⟩
  | ask q next ih =>
    refine ⟨_, _, rfl, ⟨List.mem_cons_self, _, rfl⟩, ?_⟩
    refine (ih _ { w with node := (node.answer q w.node).2 }).imp fun q' r' hr => ?_
    exact ⟨List.mem_cons_of_mem _ hr.1, hr.2⟩
  | act a next ih =>
    refine ⟨_, _, _, rfl, rfl, ?_⟩
    refine (ih _ { w with store := (store.perform a w.store).2 }).imp fun q' r' hr => ?_
    exact ⟨List.mem_cons_of_mem _ hr.1, hr.2⟩

end Routine

/-! ## Attempts -/

namespace Attempt

variable {ν σ α β : Type} {node : Node ν} {store : Store σ} {w : Routine.World ν σ}

theorem run_send_bind {q : Query} {f : q.Reply → Attempt β} {a : q.Reply}
    (h : (node.answer q w.node).1 = .ok a) :
    (q.send >>= f).run.run node store w =
      (f a).run.run node store { w with node := (node.answer q w.node).2 } := by
  show (ExceptT.bindCont f (node.answer q w.node).1).run node store _ = _
  rw [h]
  rfl

/-- An access that succeeds and changes nothing is followed by what depends on the reply. -/
theorem run_perform_bind {a : Access} {f : a.Reply → Attempt β} {r : a.Reply}
    (h : store.perform (.access a) w.store = (.ok r, w.store)) :
    (a.perform >>= f).run.run node store w = (f r).run.run node store w := by
  show (ExceptT.bindCont f (store.perform (.access a) w.store).1).run node store
    { w with store := (store.perform (.access a) w.store).2 } = _
  rw [h]
  rfl

theorem history_perform_bind {a : Access} {f : a.Reply → Attempt β} {r : a.Reply}
    (h : store.perform (.access a) w.store = (.ok r, w.store)) :
    (a.perform >>= f).run.history node store w =
      .did (.access a) (.ok r) :: (f r).run.history node store w := by
  show .did (.access a) (store.perform (.access a) w.store).1 ::
    (ExceptT.bindCont f (store.perform (.access a) w.store).1).history node store
      { w with store := (store.perform (.access a) w.store).2 } = _
  rw [h]
  rfl

end Attempt

end ChainIndex
