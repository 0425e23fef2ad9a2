import ChainIndex.Proofs.Service.Grounded

/-!
# Courses of operations

A `Storage.Course` is a sequence of operations on a store, by any services and with any nodes, with all
that happens in them.  If every operation makes guarded moves only, then whatever guarded moves keep is
kept from the start to the end of the course (`Course.keeps`).

Between operations no unit of work is open, so that a course may start at any store that operations lead
to (`Reachable.exists_idle`), and leads to such a store (`Course.reachable`).
-/

namespace ChainIndex

namespace Storage

/-- Operations of some kind lead from one store to another, and some events happen on the way. -/
inductive Course (P : Service → Operation → Prop) (s : Storage) : List Event → Storage → Prop
  | nil : Course P s [] s
  | step {es : List Event} {s' : Storage} (h : Course P s es s') {service : Service} {o : Operation}
    (ho : P service o) {ν : Type} (node : Node ν) (n : ν) :
    Course P s (es ++ o.history service node ⟨n, s'⟩) (o.run service node ⟨n, s'⟩).2.store

/-- The store that some events lead to. -/
def following (s : Storage) : List Event → Storage
  | [] => s
  | .asked .. :: es => s.following es
  | .did a _ :: es => (store.perform a s).2.following es

theorem following_append (s : Storage) (es es' : List Event) :
    s.following (es ++ es') = (s.following es).following es' := by
  induction es generalizing s with
  | nil => rfl
  | cons e es ih =>
    cases e with
    | asked q r => exact ih s
    | did a r => exact ih _

/-- What guarded moves keep is kept along a course of operations that make guarded moves only. -/
theorem Course.keeps {P : Service → Operation → Prop} {rel : Storage → Session Memory → Prop}
    {R : Conduct (Session Memory)} {G : Guard (Session Memory)}
    {I : List Event → Session Memory → Prop} {s s' : Storage} {es : List Event}
    (hsim : ∀ {a s r s' t}, rel s t → store.conduct a s r s' → ∃ t', R a t r t' ∧ rel s' t')
    (hG : ∀ {service o}, P service o → ∀ {es t}, Session.Idle t →
      (o.attempt service).run.Guarded R G es t fun _ _ t' => t'.Idle)
    (hask : ∀ {es t q r}, I es t → G es t (.ask q) → I (es ++ [.asked q r]) t)
    (hact : ∀ {es t a r t'}, I es t → G es t (.act a) → R a t r t' → I (es ++ [.did a r]) t')
    (h : Course P s es s') {t : Session Memory} (hrel : rel s t) (hidle : t.Idle) (hI : I [] t) :
    ∃ t', rel s' t' ∧ t'.Idle ∧ I es t' := by
  induction h with
  | nil => exact ⟨t, hrel, hidle, hI⟩
  | step h ho node n ih =>
    obtain ⟨t₁, hrel₁, hidle₁, hI₁⟩ := ih
    obtain ⟨t', hexec, hrel'⟩ := (Routine.exec_run node store _ ⟨n, _⟩).simulate hsim hrel₁
    obtain ⟨hI', hidle'⟩ := (hG ho hidle₁).keeps hask hact hI₁ hexec
    exact ⟨t', hrel', hidle', hI'⟩

/-! ## Reachable stores -/

/-- A reachable store stands for sound tables, and no unit of work is open. -/
theorem Reachable.exists_idle {s : Storage} (h : s.Reachable) :
    ∃ t, s.Represents t ∧ t.Sound ∧ t.Idle := by
  have hempty : Session.Idle { live := {} } := ⟨rfl, nofun⟩
  induction h with
  | memory => exact ⟨_, represents_inMemory, sound_empty, hempty⟩
  | database path? => exact ⟨_, represents_database path?, sound_empty, hempty⟩
  | step h service o node n ih =>
    obtain ⟨t, hrep, hs, hidle⟩ := ih
    obtain ⟨t', hexec, hrep'⟩ := exists_exec node (w := ⟨n, _⟩) hrep
    have hsound := (o.keepsSound service hs _ _ t' hexec).2.of_const
    have hguarded : (o.attempt service).run.Guarded Session.Effect (fun _ _ _ => True) [] t
        fun _ _ t' => t'.Idle := o.guarded_idle service hidle
    obtain ⟨-, hidle'⟩ := hguarded.keeps (I := fun _ _ => True) (fun _ _ => trivial)
      (fun _ _ _ => trivial) trivial hexec
    exact ⟨t', hrep', hsound, hidle'⟩
  | reopen h ih =>
    obtain ⟨t, hrep, hs, hidle⟩ := ih
    exact ⟨{ live := t.live }, ⟨hrep.live, .none⟩, ⟨hs.live, nofun⟩, rfl, hidle.keyed⟩

theorem Course.reachable {P : Service → Operation → Prop} {s s' : Storage} {es : List Event}
    (h : Course P s es s') (hs : s.Reachable) : s'.Reachable := by
  induction h with
  | nil => exact hs
  | step h ho node n ih => exact .step ih _ _ node n

end Storage

end ChainIndex
