import ChainIndex.Effect.Action

/-!
# Disturbed stores

A store in which actions can be made to fail, and look-ups to see nothing for a while.  A look-up that
sees nothing stands for another writer who stores the row right after it.
-/

namespace ChainIndex

/-- The look-ups that can be made blind. -/
inductive Lookup where
  | block
  | transaction
  | mined
  deriving DecidableEq

/-- What disturbs a store: the fault of each kind of action that fails, and for each look-up how many
more times it sees nothing. -/
structure Disturbance where
  fault? : Action → Option Fault := fun _ => none
  blind : Lookup → Nat := fun _ => 0

namespace Disturbance

/-- Uses up one blind look-up. -/
def useUp (d : Disturbance) (l : Lookup) : Disturbance :=
  { d with blind := fun l' => if l' = l then d.blind l - 1 else d.blind l' }

/-- The look-up that an action is, with what it answers when it sees nothing. -/
def lookup? : (a : Action) → Option (Lookup × a.Reply)
  | .access (.getBlock _) => some (.block, none)
  | .access (.getTransaction _) => some (.transaction, none)
  | .access (.getMined _) => some (.mined, [])
  | _ => none

/-- What becomes of the open unit of work when an action fails: a failing commit leaves it and a failing
roll-back takes it back all the same. -/
def aftermath : Action → Option Action
  | .commit => some .abandon
  | .rollback => some .rollback
  | _ => none

end Disturbance

def Store.disturbed {σ : Type} (s : Store σ) : Store (σ × Disturbance) where
  perform a w :=
    let (state, d) := w
    match d.fault? a with
    | some fault =>
      match Disturbance.aftermath a with
      | some b => (.error fault, (s.perform b state).2, d)
      | none => (.error fault, state, d)
    | none =>
      match Disturbance.lookup? a with
      | some (l, nothing) =>
        if d.blind l = 0 then
          let (r, state) := s.perform a state
          (r, state, d)
        else (.ok nothing, state, d.useUp l)
      | none =>
        let (r, state) := s.perform a state
        (r, state, d)

end ChainIndex
