import ChainIndex.Effect.Action
import ChainIndex.Effect.Query

/-!
# Routines

A `Routine` is a computation that asks a node questions and acts on a store: a tree that branches on
each reply, also on a failed one.  `Routine.run` carries it out with a given node and store.

An `Attempt` is a routine that may end with a fault; a failed reply is its fault unless it is caught.
-/

namespace ChainIndex

/-- A computation that asks questions and acts on a store. -/
inductive Routine (α : Type) where
  | done (a : α)
  | ask (q : Query) (next : Except Fault q.Reply → Routine α)
  | act (a : Action) (next : Except Fault a.Reply → Routine α)

namespace Routine

variable {α β γ : Type}

/-- Goes on with a routine that depends on the result. -/
def bind : Routine α → (α → Routine β) → Routine β
  | .done a, f => f a
  | .ask q next, f => .ask q fun r => (next r).bind f
  | .act a next, f => .act a fun r => (next r).bind f

instance : Monad Routine where
  pure := .done
  bind := bind

@[simp] theorem bind_done (a : α) (f : α → Routine β) : (Routine.done a >>= f) = f a := rfl

@[simp] theorem bind_ask (q : Query) (next : Except Fault q.Reply → Routine α) (f : α → Routine β) :
    (Routine.ask q next >>= f) = .ask q fun r => next r >>= f := rfl

@[simp] theorem bind_act (a : Action) (next : Except Fault a.Reply → Routine α) (f : α → Routine β) :
    (Routine.act a next >>= f) = .act a fun r => next r >>= f := rfl

theorem bind_pure (p : Routine α) : p >>= pure = p := by
  induction p with
  | done a => rfl
  | ask q next ih => simp only [bind_ask, ih]
  | act a next ih => simp only [bind_act, ih]

theorem bind_assoc (p : Routine α) (f : α → Routine β) (g : β → Routine γ) :
    p >>= f >>= g = p >>= fun a => f a >>= g := by
  induction p with
  | done a => rfl
  | ask q next ih => simp only [bind_ask, ih]
  | act a next ih => simp only [bind_act, ih]

instance : LawfulMonad Routine :=
  LawfulMonad.mk' Routine (fun p => bind_pure p) (fun _ _ => rfl) bind_assoc

/-! ## Carrying a routine out -/

/-- The states of a node and of a store. -/
structure World (ν σ : Type) where
  node : ν
  store : σ

variable {ν σ : Type}

/-- The result of a routine with the states it leaves behind. -/
def run (node : Node ν) (store : Store σ) : Routine α → World ν σ → α × World ν σ
  | .done a, w => (a, w)
  | .ask q next, w =>
    let (r, s) := node.answer q w.node
    (next r).run node store { w with node := s }
  | .act a next, w =>
    let (r, s) := store.perform a w.store
    (next r).run node store { w with store := s }

theorem run_bind (node : Node ν) (store : Store σ) (p : Routine α) (f : α → Routine β)
    (w : World ν σ) :
    (p >>= f).run node store w =
      (f (p.run node store w).1).run node store (p.run node store w).2 := by
  induction p generalizing w with
  | done a => rfl
  | ask q next ih => simp only [bind_ask, run, ih]
  | act a next ih => simp only [bind_act, run, ih]

end Routine

/-! ## Attempts -/

/-- A routine that may end with a fault. -/
abbrev Attempt := ExceptT Fault Routine

/-- Asks a question. -/
def Query.send (q : Query) : Attempt q.Reply := ExceptT.mk (.ask q .done)

def Action.perform (a : Action) : Attempt a.Reply := ExceptT.mk (.act a .done)

def Access.perform (a : Access) : Attempt a.Reply := (Action.access a).perform

/-- An attempt beside a state that outlives a fault. -/
abbrev StateAttempt (ι : Type) := ExceptT Fault (StateT ι Routine)

/-- An attempt that leaves the state alone. -/
def Attempt.keeping {ι α : Type} (t : Attempt α) : StateAttempt ι α :=
  ExceptT.mk fun s => t.run >>= fun r => pure (r, s)

instance {ι : Type} : MonadLift Attempt (StateAttempt ι) := ⟨Attempt.keeping⟩

/-- Carries a stateful attempt out from a given state; the result may be a fault. -/
def StateAttempt.start {ι α : Type} (t : StateAttempt ι α) (s : ι) : Routine (Except Fault α × ι) :=
  t.run.run s

end ChainIndex
