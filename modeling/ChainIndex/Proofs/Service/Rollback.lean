import ChainIndex.Proofs.Service.Course
import ChainIndex.Proofs.Service.Reprocess
import ChainIndex.Proofs.Store.Faltering

/-!
# Reprocessing, or nothing at all

In a store that falters, the first action of a reprocessing that fails is what it reports, and the store is
then as it was before, whatever else fails on the way out (`Reprocess.guarded_scope_falters`).  A unit of
work that is left without being committed leaves the store as it was, too (`guarded_dropping`).
-/

namespace ChainIndex

open Attempt Storage

variable {α : Type} {N : Answers} {c s s' : Storage} {es : List Event} {a : α}

/-- A store that is not watched. -/
abbrev unguarded : Guard Storage := fun _ _ _ => True

theorem Attempt.Guarded.of_exec {t : Attempt α} {Q : α → List Event → Storage → Prop}
    {X : Fault → List Event → Storage → Prop} (h : t.Guarded Falters unguarded [] s Q X)
    {r : Except Fault α} (hexec : t.run.Exec N Falters s es r s') : Outcome (Q · es) (X · es) r s' :=
  (Routine.Guarded.keeps (I := fun _ _ => True) (fun _ _ => trivial) (fun _ _ _ => trivial) h trivial
    hexec).2

/-! ## Units of work -/

theorem Move.isAct_of_isUnit {m : Move} (h : m.isUnit = true) : m.isAct = true := by
  cases m with
  | ask q => cases h
  | act a => rfl

/-- Nothing has failed so far, and everybody sees the tables as they were. -/
structure Underway (c : Storage) (es : List Event) (s : Storage) : Prop where
  failures : failures es = []
  closed : s.closed = c

/-- The first thing that failed did so with a fault, and everybody sees the tables as they were. -/
structure Broken (c : Storage) (fault : Fault) (es : List Event) (s : Storage) : Prop where
  failures : (failures es).head? = some fault
  closed : s.closed = c

theorem failures_ok {b : Action} (h : failures es = []) (reply : b.Reply) :
    failures (es ++ [.did b (.ok reply)]) = [] := by
  rw [failures_append, h]
  rfl

theorem failures_error {b : Action} (h : failures es = []) (fault : Fault) :
    (failures (es ++ [.did b (.error fault)])).head? = some fault := by
  rw [failures_append, h]
  rfl

theorem head?_failures_append {fault : Fault} (h : (failures es).head? = some fault) (es' : List Event) :
    (failures (es ++ es')).head? = some fault := by
  rw [failures_append, List.head?_append, h]
  rfl

/-- Steps of a unit of work change nothing that everybody sees. -/
theorem Routine.Only.guarded_isStep {p : Routine α} (h : p.Only Move.isStep) (hs : s.closed = c) :
    p.Guarded Falters unguarded es s fun _ _ s' => s'.closed = c := by
  induction p generalizing es s with
  | done a => exact hs
  | ask q next => exact absurd h.1 Bool.false_ne_true
  | act b next ih =>
    refine ⟨trivial, fun r s' hR => ih r (h.2 r) ?_⟩
    cases b with
    | invalidate step scope => exact hR.closed_invalidate.trans hs
    | _ => exact absurd h.1 Bool.false_ne_true

/-- Opens a unit of work, does something in it and leaves it without committing it. -/
def Attempt.dropping (t : Attempt α) : Attempt α := do
  Action.beginUnit.perform
  let r ← ExceptT.lift t.run
  Action.abandon.perform
  ExceptT.mk (pure r)

/-- A unit of work that is left leaves the store as it was. -/
theorem guarded_dropping {t : Attempt α} (ht : t.Only Move.isStep) (hs : s.closed = s) :
    Guarded Falters unguarded t.dropping es s (fun _ _ s' => s' = s) fun _ _ s' => s' = s := by
  refine guarded_bind (guarded_perform trivial fun r s₁ h₁ => ?_)
  cases r with
  | error fault => exact h₁.beginUnit
  | ok _ =>
    intro _
    have hclosed : s₁.closed = s := h₁.closed_beginUnit.trans hs
    refine guarded_bind (guarded_lift ?_)
    refine (Routine.Only.guarded_isStep ht hclosed).mono fun r es₂ s₂ h₂ => ?_
    have hend : Guarded Falters unguarded (do Action.abandon.perform; ExceptT.mk (pure r)) es₂ s₂
        (fun _ _ s' => s' = s) fun _ _ s' => s' = s := by
      refine guarded_bind (guarded_perform trivial fun r' s₃ h₃ => ?_)
      have hs₃ : s₃ = s := h₃.abandon.trans h₂
      cases r' with
      | error fault => exact hs₃
      | ok _ =>
        intro _
        cases r <;> exact hs₃
    cases r <;> exact fun _ => hend

namespace Reprocess

open Derived (AddressScope Invalidation Summary)

/-- After a step that works, the unit is underway; one that fails breaks it. -/
theorem guarded_step {step : Invalidation} {scope : AddressScope} {f : Nat → Attempt α}
    {Q : α → List Event → Storage → Prop} (h : Underway c es s)
    (hf : ∀ n es' s', Underway c es' s' → Guarded Falters unguarded (f n) es' s' Q (Broken c)) :
    Guarded Falters unguarded ((Action.invalidate step scope).perform >>= f) es s Q (Broken c) := by
  refine guarded_bind (guarded_perform trivial fun r s₁ h₁ => ?_)
  have hclosed : s₁.closed = c := h₁.closed_invalidate.trans h.closed
  cases r with
  | error fault => exact ⟨failures_error h.failures fault, hclosed⟩
  | ok n => exact fun _ => hf n _ s₁ ⟨failures_ok h.failures n, hclosed⟩

theorem guarded_steps (scope : AddressScope) (h : Underway c es s) :
    Guarded Falters unguarded (steps scope) es s (fun _ => Underway c) (Broken c) := by
  refine guarded_step h fun _ es₁ s₁ h₁ => ?_
  refine guarded_step h₁ fun _ es₂ s₂ h₂ => ?_
  refine guarded_step h₂ fun _ es₃ s₃ h₃ => ?_
  refine guarded_step h₃ fun _ es₄ s₄ h₄ => ?_
  exact guarded_step h₄ fun _ es₅ s₅ h₅ => guarded_pure h₅

/-- What is reported failed first, and then the store is as it was. -/
theorem guarded_scope_falters (scope : AddressScope) (hes : failures es = []) (hs : s.closed = s) :
    Guarded Falters unguarded (Reprocess.scope scope) es s (fun _ es' _ => failures es' = [])
      fun fault es' s' => (failures es').head? = some fault ∧ s' = s := by
  refine guarded_bind (guarded_perform trivial fun r s₁ h₁ => ?_)
  cases r with
  | error fault => exact ⟨failures_error hes fault, h₁.beginUnit⟩
  | ok _ =>
    intro _
    have hunit : Underway s (es ++ [.did .beginUnit (.ok ())]) s₁ :=
      ⟨failures_ok (b := .beginUnit) hes (), h₁.closed_beginUnit.trans hs⟩
    refine guarded_bind (guarded_lift ((guarded_steps scope hunit).mono ?_ ?_))
    · intro summary es₂ s₂ h₂ _
      refine guarded_bind (guarded_perform trivial fun r s₃ h₃ => ?_)
      cases r with
      | error fault => exact ⟨failures_error h₂.failures fault, h₃.commit.trans h₂.closed⟩
      | ok _ => exact fun _ => guarded_pure (failures_ok (b := .commit) h₂.failures ())
    · intro fault es₂ s₂ h₂ _
      refine guarded_bind (guarded_lift (guarded_perform trivial fun r s₃ h₃ => ?_))
      have hend : (failures (es₂ ++ [.did .rollback r])).head? = some fault ∧ s₃ = s :=
        ⟨head?_failures_append h₂.failures _, h₃.rollback.trans h₂.closed⟩
      cases r <;> exact fun _ => guarded_throw hend

end Reprocess

/-! ## All or nothing -/

/-- The attempt reprocesses some addresses, or all of them. -/
def Attempt.Reprocesses (t : Attempt Derived.Summary) : Prop :=
  t = Reprocess.all ∨ ∃ addresses, t = Reprocess.addresses addresses

namespace Attempt.Reprocesses

variable {t : Attempt Derived.Summary}

theorem cases (h : t.Reprocesses) : t = pure {} ∨ ∃ scope, t = Reprocess.scope scope := by
  rcases h with rfl | ⟨addresses, rfl⟩
  · exact .inr ⟨.all, rfl⟩
  · unfold Reprocess.addresses
    split
    · exact .inl rfl
    · exact .inr ⟨_, rfl⟩

theorem only (h : t.Reprocesses) : t.Only Move.isAct := by
  refine Routine.Only.imp (P := Move.isUnit) ?_ Move.isAct_of_isUnit
  rcases h with rfl | ⟨addresses, rfl⟩
  · exact Reprocess.only_scope .all
  · exact Reprocess.only_addresses addresses

theorem guarded (h : t.Reprocesses) (hs : s.closed = s) :
    Guarded Falters unguarded t [] s (fun _ es' _ => failures es' = [])
      fun fault es' s' => (failures es').head? = some fault ∧ s' = s := by
  rcases h.cases with rfl | ⟨scope, rfl⟩
  · exact guarded_pure rfl
  · exact Reprocess.guarded_scope_falters scope rfl hs

theorem of_error (h : t.Reprocesses) (hs : s.closed = s) {fault : Fault}
    (hexec : t.run.Exec N Falters s es (.error fault) s') :
    (failures es).head? = some fault ∧ s' = s :=
  (h.guarded hs).of_exec hexec

theorem of_failures (h : t.Reprocesses) (hs : s.closed = s) {r : Except Fault Derived.Summary}
    (hexec : t.run.Exec N Falters s es r s') {fault : Fault}
    (hfault : (failures es).head? = some fault) : r = .error fault ∧ s' = s := by
  cases r with
  | ok summary =>
    have hnone : failures es = [] := (h.guarded hs).of_exec hexec
    rw [hnone] at hfault
    cases hfault
  | error fault' =>
    obtain ⟨hfirst, rfl⟩ := h.of_error hs hexec
    rw [hfault] at hfirst
    cases hfirst
    exact ⟨rfl, rfl⟩

end Attempt.Reprocesses

/-- One attempt after the other, whatever becomes of the first. -/
def Attempt.inTurn {β : Type} (t : Attempt α) (u : Attempt β) :
    Routine (Except Fault α × Except Fault β) :=
  t.run >>= fun r => u.run >>= fun r' => pure (r, r')

/-- Of two attempts in turn, the second goes on where the first ends. -/
theorem Attempt.exec_inTurn {β : Type} {t : Attempt α} {u : Attempt β} {r : Except Fault α}
    {r' : Except Fault β} (h : (t.inTurn u).Exec N Falters s es (r, r') s') :
    ∃ es₁ s₁ es₂, t.run.Exec N Falters s es₁ r s₁ ∧ u.run.Exec N Falters s₁ es₂ r' s' ∧
      es = es₁ ++ es₂ := by
  obtain ⟨r₁, es₁, s₁, es₂, ht, hu, rfl⟩ := Routine.exec_bind.1 h
  obtain ⟨r₂, es₃, s₂, es₄, hu, ⟨rfl, hpair, rfl⟩, rfl⟩ := Routine.exec_bind.1 hu
  cases hpair
  exact ⟨es₁, s₁, es₃, ht, hu, by rw [List.append_nil]⟩

/-- What becomes of reprocessing, and of units of work that are left, in a store that falters. -/
structure Storage.AllOrNothing (N : Answers) (s : Storage) : Prop where
  /-- The first failure is reported, and the store is as it was. -/
  failing {t : Attempt Derived.Summary} (ht : t.Reprocesses) {es : List Event}
    {r : Except Fault Derived.Summary} {s' : Storage} (h : t.run.Exec N Falters s es r s')
    {fault : Fault} (hfault : (failures es).head? = some fault) : r = .error fault ∧ s' = s
  /-- If nothing fails, all is done as in a store that never does. -/
  working {t : Attempt Derived.Summary} (ht : t.Reprocesses) {es : List Event}
    {r : Except Fault Derived.Summary} {s' : Storage} (h : t.run.Exec N Falters s es r s')
    (hnone : failures es = []) {ν : Type} (node : Node ν) (n : ν) :
    t.run.run node store ⟨n, s⟩ = (r, ⟨n, s'⟩)
  /-- A unit of work that is left leaves the store as it was. -/
  dropped {α : Type} {t : Attempt α} (ht : t.Only Move.isStep) {es : List Event} {r : Except Fault α}
    {s' : Storage} (h : t.dropping.run.Exec N Falters s es r s') : s' = s
  /-- After a failure, whatever is done goes as if it were the first. -/
  after_failing {β : Type} {t : Attempt Derived.Summary} {u : Attempt β} (ht : t.Reprocesses)
    {es : List Event} {fault : Fault} {r : Except Fault β} {s' : Storage}
    (h : (t.inTurn u).Exec N Falters s es (.error fault, r) s') :
    ∃ es', es' <:+ es ∧ u.run.Exec N Falters s es' r s'
  /-- After a unit of work that was left, whatever is done goes as if it were the first. -/
  after_dropped {α β : Type} {t : Attempt α} {u : Attempt β} (ht : t.Only Move.isStep)
    {es : List Event} {r : Except Fault α} {r' : Except Fault β} {s' : Storage}
    (h : (t.dropping.inTurn u).Exec N Falters s es (r, r') s') :
    ∃ es', es' <:+ es ∧ u.run.Exec N Falters s es' r' s'

/-- Reprocessing is all or nothing in every store without an open unit of work. -/
theorem Storage.all_or_nothing (hs : s.closed = s) (N : Answers) : s.AllOrNothing N where
  failing ht _ _ _ h _ hfault := ht.of_failures hs h hfault
  working ht _ _ _ h hnone _ node n := (h.of_failures_eq_nil hnone).eq_run ht.only node n
  dropped ht _ r _ h := by
    have hend := (guarded_dropping ht hs).of_exec h
    cases r <;> exact hend
  after_failing ht _ _ _ _ h := by
    obtain ⟨es₁, s₁, es₂, ht', hu, rfl⟩ := exec_inTurn h
    obtain ⟨-, rfl⟩ := ht.of_error hs ht'
    exact ⟨es₂, List.suffix_append es₁ es₂, hu⟩
  after_dropped ht _ r _ _ h := by
    obtain ⟨es₁, s₁, es₂, ht', hu, rfl⟩ := exec_inTurn h
    have hend := (guarded_dropping ht hs).of_exec ht'
    have heq : s₁ = s := by cases r <;> exact hend
    subst heq
    exact ⟨es₂, List.suffix_append es₁ es₂, hu⟩

theorem Session.Rel.staged_eq_none {δ : Type} {rel : δ → Memory → Prop} {s : Session δ}
    {t : Session Memory} (h : s.Rel rel t) (ht : t.staged = none) : s.staged = none := by
  have hstaged := h.staged
  rw [ht] at hstaged
  generalize s.staged = staged at hstaged ⊢
  cases hstaged
  rfl

/-- No unit of work is open between operations. -/
theorem Storage.Reachable.closed_eq (h : s.Reachable) : s.closed = s := by
  obtain ⟨t, hrep, -, hidle⟩ := h.exists_idle
  unfold closed
  cases s with
  | memory s => rw [← Session.Rel.staged_eq_none hrep hidle.staged]
  | database path? s => rw [← Session.Rel.staged_eq_none hrep hidle.staged]

/-! ## A disk that is full -/

/-- The fourth step fails, and so does the roll-back after it. -/
def Sample.fullDisk : Disturbance where
  fault?
    | .invalidate .safeStatuses _ => some (.storage "disk full")
    | .rollback => some (.storage "no connection")
    | _ => none

theorem Storage.all_or_nothing_sample :
    (Storage.memory { live := { derived := Sample.decoded } }).closed =
      .memory { live := { derived := Sample.decoded } } ∧
    (Reprocess.all.run.run Sample.node store.disturbed
      ⟨(), .memory { live := { derived := Sample.decoded } }, Sample.fullDisk⟩).1 =
        .error (.storage "disk full") ∧
    (Reprocess.all.run.run Sample.node store.disturbed
      ⟨(), .memory { live := { derived := Sample.decoded } }, Sample.fullDisk⟩).2.store.1 =
        .memory { live := { derived := Sample.decoded } } :=
  ⟨rfl, (all_or_nothing rfl _).failing (.inl rfl)
    (Routine.exec_disturbed Sample.node Reprocess.all.run () _ (fun _ => rfl) rfl) rfl⟩

end ChainIndex
