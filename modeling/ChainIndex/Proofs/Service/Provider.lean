import ChainIndex.Provider

/-!
# One instance for everybody

Callers that need the shared service take turns.  A caller looks at the slot, builds an instance if the
slot is empty, and publishes it; between two turns of a caller the others may do anything, also replace or
drop the instance that is shared.  A `Crowd` is a provider with the callers that are on their way, and a list
of turns is one interleaving of what they do.

A call that nobody interrupts is `Provider.getOrBuild` (`Crowd.take_getOrBuild`).  However the turns are
interleaved, whoever gets an instance gets the one in the slot, and only a replacement puts another one
there (`Crowd.one_instance`).
-/

namespace ChainIndex.Provider

/-- How far a caller has got. -/
inductive Stage where
  /-- No call is under way. -/
  | idle
  /-- The slot was empty, so that an instance has to be built. -/
  | building (c : Config)
  /-- An instance was built, and is not published yet. -/
  | built (i : Instance)
  deriving DecidableEq

/-- A provider and its callers. -/
structure Crowd where
  provider : Provider := {}
  stage : Nat → Stage := fun _ => .idle

/-- What somebody does in one go. -/
inductive Turn where
  /-- A caller asks for the service, with its own settings, and looks at the slot. -/
  | look (caller : Nat) (c : Config)
  /-- A caller builds an instance, with the databases that there are by then, and the client if it can be made. -/
  | build (caller : Nat) (disk : Disk) (client : Except String Unit := .ok ())
  | publish (caller : Nat)
  | current
  | set (i : Instance)
  | reset

/-- Whether the turn puts something else into the slot whatever is there. -/
def Turn.replaces : Turn → Bool
  | set _ | reset => true
  | _ => false

namespace Crowd

/-- A caller gets to a stage. -/
def move (w : Crowd) (caller : Nat) (stage : Stage) : Crowd :=
  { w with stage := fun n => if n = caller then stage else w.stage n }

/-- What a turn answers, if it is the last one of a call, and what it leaves behind.  A turn that is not the
next one of its caller does nothing. -/
def take (w : Crowd) : Turn → Option (Except Fault Instance) × Crowd
  | .look caller c =>
    match w.stage caller with
    | .idle =>
      match w.provider.current with
      | some shared => (some (.ok shared), w)
      | none => (none, w.move caller (.building c))
    | _ => (none, w)
  | .build caller disk client =>
    match w.stage caller with
    | .building c =>
      match (c.build disk client).1 with
      | .error fault => (some (.error fault), w.move caller .idle)
      | .ok s =>
        let (i, p) := w.provider.number s
        (none, { w with provider := p }.move caller (.built i))
    | _ => (none, w)
  | .publish caller =>
    match w.stage caller with
    | .built i =>
      let (shared, p) := w.provider.publish i
      (some (.ok shared), { w with provider := p }.move caller .idle)
    | _ => (none, w)
  | .current => (w.provider.current.map .ok, w)
  | .set i => (none, { w with provider := w.provider.set i })
  | .reset => (none, { w with provider := w.provider.reset })

/-- What some turns leave behind, one after the other. -/
def run (w : Crowd) (turns : List Turn) : Crowd := turns.foldl (fun w t => (w.take t).2) w

end Crowd

/-! ## The slot -/

variable {p : Provider} {i j : Instance} {w : Crowd} {t : Turn} {caller : Nat}

@[simp] theorem slot_number (p : Provider) (s : Service) : (p.number s).2.slot = p.slot := rfl

@[simp] theorem slot_set (p : Provider) (i : Instance) : (p.set i).slot = some i := rfl

@[simp] theorem slot_reset (p : Provider) : p.reset.slot = none := rfl

theorem slot_publish (p : Provider) (i : Instance) : (p.publish i).2.slot = some (p.publish i).1 := by
  unfold publish
  cases h : p.slot with
  | some shared => exact h
  | none => rfl

theorem publish_of_slot (h : p.slot = some j) (i : Instance) : p.publish i = (j, p) := by
  simp only [publish, h]

namespace Crowd

@[simp] theorem provider_move (w : Crowd) (caller : Nat) (stage : Stage) :
    (w.move caller stage).provider = w.provider := rfl

@[simp] theorem stage_move (w : Crowd) (caller : Nat) (stage : Stage) :
    (w.move caller stage).stage caller = stage := if_pos rfl

/-! ## Single turns -/

theorem take_look (hstage : w.stage caller = .idle) (hslot : w.provider.slot = some i) (c : Config) :
    w.take (.look caller c) = (some (.ok i), w) := by
  have hcurrent : w.provider.current = some i := hslot
  simp only [take, hstage, hcurrent]

/-- What a turn may answer, and what is in the slot afterwards. -/
inductive Took (w : Crowd) (t : Turn) : Option (Except Fault Instance) → Option Instance → Prop
  | replaced {slot : Option Instance} (h : t.replaces = true) : Took w t none slot
  /-- Somebody gets the instance that was in the slot, or has just filled the empty slot with it. -/
  | shared {i : Instance} (h : w.provider.slot = none ∨ w.provider.slot = some i) :
    Took w t (some (.ok i)) (some i)
  | failed {fault : Fault} {caller : Nat} {c : Config} {disk : Disk} {client : Except String Unit}
    (ht : t = .build caller disk client) (hstage : w.stage caller = .building c)
    (hbuild : (c.build disk client).1 = .error fault) :
    Took w t (some (.error fault)) w.provider.slot
  | silent : Took w t none w.provider.slot

theorem took (w : Crowd) (t : Turn) : Took w t (w.take t).1 (w.take t).2.provider.slot := by
  cases t with
  | look caller c =>
    cases hstage : w.stage caller with
    | idle =>
      cases hslot : w.provider.slot with
      | some shared =>
        rw [take_look hstage hslot, hslot]
        exact .shared (.inr hslot)
      | none =>
        have hcurrent : w.provider.current = none := hslot
        simp only [take, hstage, hcurrent]
        exact .silent
    | building c' | built j =>
      simp only [take, hstage]
      exact .silent
  | build caller disk client =>
    cases hstage : w.stage caller with
    | building c =>
      cases hbuild : (c.build disk client).1 with
      | error fault =>
        simp only [take, hstage, hbuild]
        exact .failed rfl hstage hbuild
      | ok s =>
        simp only [take, hstage, hbuild]
        exact .silent
    | idle | built j =>
      simp only [take, hstage]
      exact .silent
  | publish caller =>
    cases hstage : w.stage caller with
    | built j =>
      simp only [take, hstage, provider_move, slot_publish]
      refine .shared ?_
      cases hslot : w.provider.slot with
      | none => exact .inl rfl
      | some shared => exact .inr (by rw [publish_of_slot hslot])
    | idle | building c =>
      simp only [take, hstage]
      exact .silent
  | current =>
    cases hslot : w.provider.slot with
    | none =>
      have hcurrent : w.provider.current = none := hslot
      simp only [take, hcurrent]
      exact .silent
    | some shared =>
      have hcurrent : w.provider.current = some shared := hslot
      simp only [take, hcurrent, hslot]
      exact .shared (.inr hslot)
  | set j => exact .replaced rfl
  | reset => exact .replaced rfl

theorem slot_of_take (h : (w.take t).1 = some (.ok i)) : (w.take t).2.provider.slot = some i := by
  have htook := took w t
  rw [h] at htook
  generalize (w.take t).2.provider.slot = slot at htook ⊢
  cases htook with
  | shared => rfl

/-- A turn that fails is one in which building failed, and it leaves the slot as it was. -/
theorem of_take_error {fault : Fault} (h : (w.take t).1 = some (.error fault)) :
    (w.take t).2.provider.slot = w.provider.slot ∧ ∃ caller c disk client,
      t = .build caller disk client ∧ w.stage caller = .building c ∧
        (c.build disk client).1 = .error fault := by
  have htook := took w t
  rw [h] at htook
  generalize (w.take t).2.provider.slot = slot at htook ⊢
  cases htook with
  | failed ht hstage hbuild => exact ⟨rfl, _, _, _, _, ht, hstage, hbuild⟩

/-- What is in the slot stays there, unless it is replaced. -/
theorem slot_take (ht : t.replaces = false) (h : w.provider.slot = some i) :
    (w.take t).2.provider.slot = some i := by
  have htook := took w t
  generalize (w.take t).2.provider.slot = slot at htook ⊢
  generalize (w.take t).1 = r at htook
  cases htook with
  | replaced hreplaces => exact absurd (ht.symm.trans hreplaces) Bool.false_ne_true
  | shared hslot =>
    rcases hslot with hslot | hslot
    · cases h.symm.trans hslot
    · exact hslot.symm.trans h
  | failed => exact h
  | silent => exact h

theorem replaces_of_take {r : Except Fault Instance} (h : (w.take t).1 = some r) : t.replaces = false := by
  cases t with
  | set j => cases h
  | reset => cases h
  | _ => rfl

/-! ## Many turns -/

theorem run_cons (w : Crowd) (t : Turn) (turns : List Turn) : w.run (t :: turns) = (w.take t).2.run turns :=
  rfl

theorem slot_run {turns : List Turn} (hturns : ∀ u ∈ turns, u.replaces = false)
    (h : w.provider.slot = some i) : (w.run turns).provider.slot = some i := by
  induction turns generalizing w with
  | nil => exact h
  | cons u rest ih =>
    obtain ⟨hu, hrest⟩ := List.forall_mem_cons.1 hturns
    rw [run_cons]
    exact ih hrest (slot_take hu h)

/-- A call whose turns follow one another looks at the slot and builds an instance only if it has to, as
`Provider.getOrBuild` does. -/
theorem take_getOrBuild (w : Crowd) (caller : Nat) (hstage : w.stage caller = .idle) (c : Config)
    (disk : Disk) (client : Except String Unit) :
    let looked := w.take (.look caller c)
    let built := looked.2.take (.build caller disk client)
    let published := built.2.take (.publish caller)
    (looked.1.or (built.1.or published.1), published.2.provider) =
      ((some (w.provider.getOrBuild (c.build disk client).1).1),
        (w.provider.getOrBuild (c.build disk client).1).2) := by
  cases hslot : w.provider.current with
  | some shared => simp [take, hstage, hslot, getOrBuild]
  | none => cases hbuild : (c.build disk client).1 <;> simp [take, hstage, hslot, hbuild, getOrBuild]

/-- Whatever callers are on their way: who gets an instance gets the one that is in the slot then, and until
the slot is replaced everybody else gets the same one.  A call fails only if its own building failed, which
leaves the slot as it was, and never if the slot was not empty when it looked. -/
theorem one_instance (w : Crowd) (t : Turn) :
    (∀ i, (w.take t).1 = some (.ok i) → (w.take t).2.provider.slot = some i ∧
      ∀ turns t' j, (∀ u ∈ turns, u.replaces = false) →
        (((w.take t).2.run turns).take t').1 = some (.ok j) → j = i) ∧
    (∀ fault, (w.take t).1 = some (.error fault) → (w.take t).2.provider.slot = w.provider.slot ∧
      ∃ caller c disk client, t = .build caller disk client ∧ w.stage caller = .building c ∧
        (c.build disk client).1 = .error fault) ∧
    ∀ i caller, w.provider.slot = some i → w.stage caller = .idle →
      ∀ c, w.take (.look caller c) = (some (.ok i), w) := by
  refine ⟨fun i hi => ⟨slot_of_take hi, fun turns t' j hturns hj => ?_⟩,
    fun fault hfault => of_take_error hfault, fun i caller hslot hstage => take_look hstage hslot⟩
  -- Each gets what is in the slot, and no turn in between puts something else there.
  have hkept : ((w.take t).2.run turns).provider.slot = some i := slot_run hturns (slot_of_take hi)
  have hlast := slot_take (replaces_of_take hj) hkept
  exact Option.some.inj ((slot_of_take hj).symm.trans hlast)

/-- Two callers both find the slot empty and build an instance each, the second one first.  When the first
one publishes, that is the instance of the second one too, and of a third one whose settings are refused; a
fourth one fails with such settings while the slot is empty. -/
theorem one_instance_sample :
    let refused : Config := { nodeUrl := "" }
    let turns : List Turn :=
      [.look 0 {}, .look 1 { reorgDepth := 2 }, .look 3 refused, .build 1 {}, .build 0 {}]
    let w := Crowd.run {} turns
    let shared : Instance := ⟨1, ({} : Config).service⟩
    let later := (w.take (.publish 0)).2
    (w.take (.build 3 {})).1 = some (.error (.config "node_url must not be empty")) ∧
      (w.take (.build 3 {})).2.provider.slot = none ∧
      (w.take (.publish 0)).1 = some (.ok shared) ∧ later.provider.slot = some shared ∧
      ((later.run [.look 2 refused]).take (.publish 1)).1 = some (.ok shared) ∧
      later.take (.look 2 refused) = (some (.ok shared), later) := by
  intro refused turns w shared later
  have hfails : (w.take (.build 3 {})).1 = some (.error (.config "node_url must not be empty")) :=
    rfl
  have hfirst : (w.take (.publish 0)).1 = some (.ok shared) := rfl
  obtain ⟨j, hsecond⟩ : ∃ j, ((later.run [.look 2 refused]).take (.publish 1)).1 = some (.ok j) :=
    ⟨shared, rfl⟩
  obtain ⟨hshared, -, -⟩ := one_instance w (.publish 0)
  obtain ⟨hslot, hothers⟩ := hshared shared hfirst
  have hsame : j = shared := hothers [.look 2 refused] (.publish 1) j (by simp [Turn.replaces]) hsecond
  refine ⟨hfails, ((one_instance w (.build 3 {})).2.1 _ hfails).1.trans rfl, hfirst, hslot,
    hsame ▸ hsecond, ?_⟩
  exact (one_instance later .current).2.2 shared 2 hslot rfl refused

end Crowd

end ChainIndex.Provider
