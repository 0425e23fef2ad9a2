import ChainIndex.Effect.Action

/-!
# Units of work

A `Backend` says what accesses and invalidations do to tables.  A `Session` holds the tables as everybody
sees them and, while a unit of work is open, the copy that the unit works on.  Committing puts the copy
in place of the tables; anything else that ends the unit drops it.
-/

namespace ChainIndex

/-- What can be done to tables. -/
structure Backend (δ : Type) where
  access : (a : Access) → δ → Except Fault a.Reply × δ
  invalidate : Derived.Invalidation → Derived.AddressScope → δ → Nat × δ

/-- Tables, and the copy of them that an open unit of work changes. -/
structure Session (δ : Type) where
  live : δ
  staged : Option δ := none

namespace Session

/-- The fault of a step outside of any unit of work. -/
def noUnit : Fault := .storage "no unit of work is open"

end Session

/-- The store whose state is a session over tables. -/
def Backend.store {δ : Type} (b : Backend δ) : Store (Session δ) where
  perform
    | .access a, s =>
      let (r, live) := b.access a s.live
      (r, { s with live })
    | .beginUnit, s => (.ok (), { s with staged := some s.live })
    | .invalidate step scope, s =>
      match s.staged with
      | none => (.error Session.noUnit, s)
      | some tables =>
        let (n, tables) := b.invalidate step scope tables
        (.ok n, { s with staged := some tables })
    | .commit, s =>
      match s.staged with
      | none => (.error Session.noUnit, s)
      | some tables => (.ok (), { live := tables })
    | .rollback, s => (.ok (), { s with staged := none })
    | .abandon, s => (.ok (), { s with staged := none })

end ChainIndex
