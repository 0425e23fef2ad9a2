import ChainIndex.Proofs.Effect.Ensures
import ChainIndex.Proofs.Store.Represents
import ChainIndex.Store.Storage

/-!
# Stores stand for tables in memory

Both kinds of store follow tables in memory (`Backend.Follows`).  Whatever an action does to an open
store, it does within `Session.Effect` to the tables that the store represents
(`Storage.exists_effect`), so that a run on an open store is an execution within `Session.Effect`
(`Storage.exists_exec`): what holds of all those executions holds of every store.
-/

namespace ChainIndex

theorem Derived.Tables.sameFrames_invalidate (d : Derived.Tables) (step : Derived.Invalidation)
    (scope : Derived.AddressScope) : d.SameFrames (d.invalidate step scope).2 := by
  cases step with
  | markers => exact .resetMarkers d _
  | _ => exact ⟨rfl, fun _ => rfl⟩

/-! ## Stores -/

/-- Tables of one kind behave as the tables in memory that they stand for. -/
structure Backend.Follows {δ : Type} (b : Backend δ) (rel : δ → Memory → Prop) : Prop where
  access : ∀ {d m}, rel d m → ∀ a, ∃ m', a.Effect m (b.access a d).1 m' ∧ rel (b.access a d).2 m'
  invalidate : ∀ {d m}, rel d m → ∀ step scope, ∃ t, m.derived.SameFrames t ∧
    rel (b.invalidate step scope d).2 { m with derived := t }

theorem Memory.follows : Memory.backend.Follows Eq where
  access := by
    rintro d _ rfl a
    exact ⟨_, a.effect_memory d, rfl⟩
  invalidate := by
    rintro d _ rfl step scope
    exact ⟨_, d.derived.sameFrames_invalidate step scope, rfl⟩

theorem Relational.follows : Relational.backend.Follows Relational.Represents where
  access h a := h.access a
  invalidate h step scope := h.invalidate step scope

/-- Sessions stand for each other when their tables do. -/
structure Session.Rel {δ : Type} (rel : δ → Memory → Prop) (s : Session δ) (t : Session Memory) :
    Prop where
  live : rel s.live t.live
  staged : Option.Rel rel s.staged t.staged

/-- What a session does is what the session it stands for may do. -/
theorem Backend.Follows.exists_effect {δ : Type} {b : Backend δ} {rel : δ → Memory → Prop}
    (hb : b.Follows rel) {s : Session δ} {t : Session Memory} (h : s.Rel rel t) (a : Action) :
    ∃ t', Session.Effect a t (b.store.perform a s).1 t' ∧ (b.store.perform a s).2.Rel rel t' := by
  obtain ⟨live, staged⟩ := s
  obtain ⟨live', staged'⟩ := t
  obtain ⟨hlive, hstaged⟩ := h
  cases a with
  | access a =>
    obtain ⟨m, heffect, hrel⟩ := hb.access hlive a
    exact ⟨_, ⟨m, heffect, rfl⟩, hrel, hstaged⟩
  | beginUnit => exact ⟨_, ⟨rfl, rfl⟩, hlive, .some hlive⟩
  | invalidate step scope =>
    cases hstaged with
    | none => exact ⟨_, .inl ⟨rfl, rfl, rfl⟩, hlive, .none⟩
    | some hrel =>
      obtain ⟨d, hd, hrel'⟩ := hb.invalidate hrel step scope
      exact ⟨_, .inr ⟨_, _, d, rfl, rfl, hd, rfl⟩, hlive, .some hrel'⟩
  | commit =>
    cases hstaged with
    | none => exact ⟨_, .inl ⟨rfl, rfl, rfl⟩, hlive, .none⟩
    | some hrel => exact ⟨_, .inr ⟨_, rfl, rfl, rfl⟩, hrel, .none⟩
  | rollback => exact ⟨_, ⟨rfl, rfl⟩, hlive, .none⟩
  | abandon => exact ⟨_, ⟨rfl, rfl⟩, hlive, .none⟩

namespace Storage

/-- The sessions over tables in memory that an open store stands for. -/
def Represents : Storage → Session Memory → Prop
  | .memory s, t => s.Rel Eq t
  | .database _ s, t => s.Rel Relational.Represents t

/-- Whatever an open store does, it does within `Session.Effect`. -/
theorem exists_effect {s s' : Storage} {t : Session Memory} (h : s.Represents t) {a : Action}
    {r : Except Fault a.Reply} (hact : store.conduct a s r s') :
    ∃ t', Session.Effect a t r t' ∧ s'.Represents t' := by
  cases s with
  | memory s =>
    obtain ⟨t', heffect, hrel⟩ := Memory.follows.exists_effect h a
    cases hact
    exact ⟨t', heffect, hrel⟩
  | database path? s =>
    obtain ⟨t', heffect, hrel⟩ := Relational.follows.exists_effect h a
    cases hact
    exact ⟨t', heffect, hrel⟩

/-- A run on an open store is an execution within `Session.Effect`. -/
theorem exists_exec {ν α : Type} (node : Node ν) {p : Routine α} {w : Routine.World ν Storage}
    {t : Session Memory} (h : w.store.Represents t) :
    ∃ t', p.Exec (p.heard node store w) Session.Effect t (p.history node store w)
        (p.run node store w).1 t' ∧ (p.run node store w).2.store.Represents t' := by
  have hsim : ∀ {a : Action} {s : Storage} {r : Except Fault a.Reply} {s' : Storage} {t},
      s.Represents t → store.conduct a s r s' → ∃ t', Session.Effect a t r t' ∧ s'.Represents t' :=
    fun hrel hact => exists_effect hrel hact
  exact (Routine.exec_run node store p w).simulate hsim h

/-- What an attempt ensures within `Session.Effect`, with the answers that are heard in a run of it on an
open store, is ensured in that run. -/
theorem ensures_run {ν α : Type} (node : Node ν) {p : Attempt α} (w : Routine.World ν Storage)
    {t : Session Memory} {E : LinkRule} {Q : α → Session Memory → Prop}
    {X : Fault → Session Memory → Prop} (hrep : w.store.Represents t)
    (h : p.Ensures (p.run.heard node store w) Session.Effect E t Q X) :
    (∀ e ∈ p.run.history node store w, e.Obeys E) ∧
      ∃ t', (p.run.run node store w).2.store.Represents t' ∧
        Outcome Q X (p.run.run node store w).1 t' := by
  obtain ⟨t', hexec, hrep'⟩ := exists_exec node hrep
  obtain ⟨hobeys, hend⟩ := h _ _ t' hexec
  exact ⟨hobeys, t', hrep', hend⟩

theorem exists_outcome {ν α : Type} {node : Node ν} {p : Attempt α} {w : Routine.World ν Storage}
    {t : Session Memory} {N : Answers} {E : LinkRule} {Q : α → Session Memory → Prop}
    {X : Fault → Session Memory → Prop} (hN : ∀ q r, p.run.heard node store w q r → N q r)
    (hrep : w.store.Represents t) (h : p.Ensures N Session.Effect E t Q X) :
    ∃ t', (p.run.run node store w).2.store.Represents t' ∧
      Outcome Q X (p.run.run node store w).1 t' :=
  (ensures_run node w hrep fun es r t' hexec => h es r t' (hexec.imp hN)).2

end Storage

end ChainIndex
