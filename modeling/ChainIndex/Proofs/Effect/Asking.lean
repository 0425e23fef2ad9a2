import ChainIndex.Proofs.Effect.Trace
import Mathlib.Data.List.Forall2

/-!
# What is asked

`questions es` are the questions among some events, in their order.  Which ones an attempt asks depends on
what it is told: it follows a script, as long as the answers are those of a `Telling` (`Followed`), or
breaks off (`BrokenOff`).  A script need not say what is asked twice: who asks nothing twice is told the same
whenever he asks (`Telling.exists_agrees`).

In a look-up a question is asked once more if the first answer settles nothing, and only then (`LookedUp`).
A `Series` of look-ups ends with the first one that leads to a fault.
-/

namespace ChainIndex

def Event.question? : Event → Option Query
  | asked q _ => some q
  | did .. => none

/-- The questions among some events, in their order. -/
def questions (es : List Event) : List Query := es.filterMap Event.question?

section

variable {es es' : List Event} {q : Query}

@[simp] theorem questions_nil : questions [] = [] := rfl

@[simp] theorem questions_asked (q : Query) (r : Except Fault q.Reply) (es : List Event) :
    questions (.asked q r :: es) = q :: questions es := rfl

@[simp] theorem questions_did (a : Action) (r : Except Fault a.Reply) (es : List Event) :
    questions (.did a r :: es) = questions es := rfl

@[simp] theorem questions_append : questions (es ++ es') = questions es ++ questions es' :=
  List.filterMap_append

theorem mem_questions {r : Except Fault q.Reply} (h : .asked q r ∈ es) : q ∈ questions es :=
  List.mem_filterMap.2 ⟨_, h, rfl⟩

theorem questions_eq_nil (h : ∀ e ∈ es, e.move.isAct = true) : questions es = [] := by
  refine List.filterMap_eq_nil_iff.2 fun e he => ?_
  cases e with
  | asked q r => cases h _ he
  | did a r => rfl

end

/-! ## Tellings -/

/-- What somebody tells who tells the same whenever he is asked. -/
abbrev Telling := (q : Query) → q.Reply

namespace Telling

variable {es es' : List Event} {told : Telling}

/-- Whatever was answered is what is told. -/
def Agrees (told : Telling) (es : List Event) : Prop := ∀ q r, .asked q (.ok r) ∈ es → told q = r

theorem agrees_append : told.Agrees (es ++ es') ↔ told.Agrees es ∧ told.Agrees es' := by
  constructor
  · intro h
    exact ⟨fun q r hr => h q r (List.mem_append_left _ hr), fun q r hr => h q r (List.mem_append_right _ hr)⟩
  · intro h q r hr
    exact (List.mem_append.1 hr).elim (h.1 q r) (h.2 q r)

/-- There is nothing to tell. -/
def silent : Telling
  | .head => 0
  | .block _ | .transaction _ | .receipt _ => none
  | .logs .. | .traces .. => []
  | .blocks _ | .transactions _ | .receipts _ => []

/-- If nothing was asked twice, then the answers may be what somebody tells. -/
theorem exists_agrees (h : (questions es).Nodup) : ∃ told : Telling, told.Agrees es := by
  induction es with
  | nil => exact ⟨silent, fun _ _ hr => absurd hr List.not_mem_nil⟩
  | cons e rest ih =>
    cases e with
    | did a r =>
      obtain ⟨told, htold⟩ := ih h
      refine ⟨told, fun q r hr => htold q r ?_⟩
      rcases List.mem_cons.1 hr with hr | hr
      · cases hr
      · exact hr
    | asked q r =>
      obtain ⟨hnew, hrest⟩ := List.nodup_cons.1 h
      obtain ⟨told, htold⟩ := ih hrest
      cases r with
      | error e =>
        refine ⟨told, fun q r hr => htold q r ?_⟩
        rcases List.mem_cons.1 hr with hr | hr
        · cases hr
        · exact hr
      | ok r =>
        refine ⟨Function.update told q r, fun q' r' hr => ?_⟩
        rcases List.mem_cons.1 hr with hr | hr
        · cases hr
          exact Function.update_self q r told
        · have hne : q' ≠ q := fun heq => hnew (heq ▸ mem_questions hr)
          rw [Function.update_of_ne hne]
          exact htold q' r' hr

end Telling

/-! ## Scripts -/

/-- Nothing but a part of a plan was asked, in its order, and it was what the script says for what was
told. -/
structure Followed (plan : List Query) (script : Telling → List Query) (es : List Event) : Prop where
  sublist : (questions es).Sublist plan
  eq : ∀ told : Telling, told.Agrees es → questions es = script told

/-- The script was followed up to some question. -/
structure BrokenOff (plan : List Query) (script : Telling → List Query) (es : List Event) : Prop where
  sublist : (questions es).Sublist plan
  part : ∀ told : Telling, told.Agrees es → questions es <+: script told

section

variable {plan plan' : List Query} {script script' : Telling → List Query} {es es' : List Event}

theorem Followed.congr (h : Followed plan script es)
    (hscript : ∀ told : Telling, told.Agrees es → script told = script' told) : Followed plan script' es :=
  ⟨h.sublist, fun told htold => (h.eq told htold).trans (hscript told htold)⟩

theorem BrokenOff.congr (h : BrokenOff plan script es)
    (hscript : ∀ told : Telling, told.Agrees es → script told = script' told) : BrokenOff plan script' es :=
  ⟨h.sublist, fun told htold => hscript told htold ▸ h.part told htold⟩

theorem Followed.append (h : Followed plan script es) (h' : Followed plan' script' es') :
    Followed (plan ++ plan') (fun told => script told ++ script' told) (es ++ es') where
  sublist := by
    rw [questions_append]
    exact h.sublist.append h'.sublist
  eq told htold := by
    obtain ⟨hes, hes'⟩ := Telling.agrees_append.1 htold
    rw [questions_append, h.eq told hes, h'.eq told hes']

theorem Followed.append_brokenOff (h : Followed plan script es) (h' : BrokenOff plan' script' es') :
    BrokenOff (plan ++ plan') (fun told => script told ++ script' told) (es ++ es') where
  sublist := by
    rw [questions_append]
    exact h.sublist.append h'.sublist
  part told htold := by
    obtain ⟨hes, hes'⟩ := Telling.agrees_append.1 htold
    rw [questions_append, h.eq told hes]
    exact List.prefix_append_right_inj _ |>.2 (h'.part told hes')

theorem BrokenOff.append (h : BrokenOff plan script es) (plan' : List Query)
    (script' : Telling → List Query) :
    BrokenOff (plan ++ plan') (fun told => script told ++ script' told) es where
  sublist := h.sublist.trans (List.sublist_append_left _ _)
  part told htold := (h.part told htold).trans (List.prefix_append _ _)

theorem Followed.append_silent (h : Followed plan script es) (hes' : questions es' = []) :
    Followed plan script (es ++ es') where
  sublist := by
    rw [questions_append, hes', List.append_nil]
    exact h.sublist
  eq told htold := by
    rw [questions_append, hes', List.append_nil]
    exact h.eq told (Telling.agrees_append.1 htold).1

theorem Followed.brokenOff (h : Followed plan script es) : BrokenOff plan script es :=
  ⟨h.sublist, fun told htold => h.eq told htold ▸ List.prefix_refl _⟩

end

namespace Attempt

variable {σ α β : Type} {N : Answers} {R : Conduct σ} {s : σ}

theorem Only.leads_questions {t : Attempt α} (h : t.Only Move.isAct) (s : σ) :
    t.Leads N R s (fun _ es _ => questions es = []) fun _ es _ => questions es = [] :=
  (h.leads (I := fun _ => True) (fun _ _ _ _ _ _ => id) trivial).mono
    (fun _ _ _ hend => questions_eq_nil hend.2) fun _ _ _ hend => questions_eq_nil hend.2

/-- If each of some items leads to the questions that it should, all of them do. -/
theorem leads_mapM {f : α → Attempt β} {asks : α → List Query} {P : Telling → α → β → Prop}
    (hf : ∀ x s, (f x).Leads N R s
      (fun b es _ => questions es = asks x ∧ ∀ told : Telling, told.Agrees es → P told x b)
      fun _ es _ => questions es <+: asks x) (xs : List α) (s : σ) :
    (xs.mapM f).Leads N R s
      (fun bs es _ => questions es = xs.flatMap asks ∧
        ∀ told : Telling, told.Agrees es → List.Forall₂ (P told) xs bs)
      fun _ es _ => questions es <+: xs.flatMap asks := by
  induction xs generalizing s with
  | nil => exact leads_pure ⟨rfl, fun _ _ => .nil⟩
  | cons x rest ih =>
    rw [List.mapM_cons]
    refine leads_bind ((hf x s).mono (fun b es s₁ hend => ?_) fun _ es _ hend => ?_)
    · obtain ⟨hes, hb⟩ := hend
      refine leads_bind ((ih s₁).mono (fun bs es' s' hrest => leads_pure ?_) fun _ es' _ hrest => ?_)
      · obtain ⟨hes', hbs⟩ := hrest
        rw [List.append_nil, questions_append, hes, hes', List.flatMap_cons]
        refine ⟨rfl, fun told htold => ?_⟩
        obtain ⟨htold, htold'⟩ := Telling.agrees_append.1 htold
        exact .cons (hb told htold) (hbs told htold')
      · rw [questions_append, hes, List.flatMap_cons]
        exact List.prefix_append_right_inj _ |>.2 hrest
    · rw [List.flatMap_cons]
      exact hend.trans (List.prefix_append _ _)

/-- A question comes first, and what it is followed by depends on its answer. -/
theorem leads_send_bind {q : Query} {f : q.Reply → Attempt β} {plan : List Query}
    {asks : q.Reply → List Query} {P : Telling → q.Reply → β → Prop} (hplan : ∀ r, (asks r).Sublist plan)
    (hf : ∀ r s, (f r).Leads N R s
      (fun b es _ => questions es = asks r ∧ ∀ told : Telling, told.Agrees es → P told r b)
      fun _ es _ => questions es <+: asks r) :
    Leads N R (q.send >>= f) s
      (fun b es _ => Followed (q :: plan) (fun told => q :: asks (told q)) es ∧
        ∀ told : Telling, told.Agrees es → P told (told q) b)
      fun _ es _ => BrokenOff (q :: plan) (fun told => q :: asks (told q)) es := by
  refine leads_bind (leads_send (fun r _ => ?_) fun e _ => ?_)
  · -- Whoever agrees tells this reply.
    have htells {es : List Event} {told : Telling} (h : told.Agrees ([.asked q (.ok r)] ++ es)) :
        told q = r ∧ told.Agrees es :=
      ⟨h q r List.mem_cons_self, (Telling.agrees_append.1 h).2⟩
    refine (hf r s).mono (fun b es _ hend => ?_) fun _ es _ hend => ?_
    · obtain ⟨hes, hb⟩ := hend
      refine ⟨⟨?_, fun told htold => ?_⟩, fun told htold => ?_⟩
      · show (q :: questions es).Sublist _
        rw [hes]
        exact (hplan r).cons_cons q
      · obtain ⟨rfl, -⟩ := htells htold
        exact congrArg _ hes
      · obtain ⟨hr, hrest⟩ := htells htold
        rw [hr]
        exact hb told hrest
    · refine ⟨.cons_cons q (hend.sublist.trans (hplan r)), fun told htold => ?_⟩
      obtain ⟨rfl, -⟩ := htells htold
      exact List.cons_prefix_cons.2 ⟨rfl, hend⟩
  · exact ⟨.cons_cons q (List.nil_sublist _), fun told _ => List.cons_prefix_cons.2 ⟨rfl, List.nil_prefix⟩⟩

end Attempt

/-! ## Look-ups -/

/-- A question is settled by a first answer, or else asked once more; in the end there may be a fault. -/
inductive Settlement (q : Query) (first : q.Reply) : List Event → Option Fault → Prop
  | at_once (h : q.unsettled? first = none) : Settlement q first [] none
  | again {r out} (h : q.unsettled? first ≠ none) (hout : (Event.asked q r).fault? = out) :
    Settlement q first [.asked q r] out

/-- A question is asked, and settled then unless the node fails. -/
inductive LookedUp (q : Query) : List Event → Option Fault → Prop
  | failed {e} : LookedUp q [.asked q (.error e)] (some e)
  | answered {first es out} (h : Settlement q first es out) : LookedUp q (.asked q (.ok first) :: es) out

/-- Some questions are looked up one after the other, until one of them leads to a fault. -/
inductive Series : List Query → List Event → Option Fault → Prop
  | nil : Series [] [] none
  | did {qs a r es out} (h : Series qs es out) : Series qs (.did a r :: es) out
  | failed {q es fault} (h : LookedUp q es (some fault)) : Series [q] es (some fault)
  | settled {q qs es es' out} (h : LookedUp q es none) (rest : Series qs es' out) :
    Series (q :: qs) (es ++ es') out

/-- A question as often as it may have to be asked. -/
def Query.attempts (q : Query) : List Query :=
  match q with
  | block _ | transaction _ | receipt _ => [q, q]
  | _ => [q]

section

variable {q : Query} {qs qs' : List Query} {es es' : List Event} {out : Option Fault}

theorem Settlement.questions_eq {q : Query} {first : q.Reply} (h : Settlement q first es out) {settled : Bool}
    (hsettled : q.unsettled? first = none ↔ settled = true) :
    questions es = if settled then [] else [q] := by
  cases h with
  | at_once h => rw [if_pos (hsettled.1 h), questions_nil]
  | again h => rw [if_neg (mt hsettled.2 h), questions_asked, questions_nil]

theorem LookedUp.sublist (h : LookedUp q es out) : (questions es).Sublist q.attempts := by
  have hone : [q].Sublist q.attempts := by
    cases q with
    | block | transaction | receipt => exact List.sublist_append_left [_] [_]
    | head | logs | traces | blocks | transactions | receipts => exact .refl _
  cases h with
  | failed => exact hone
  | answered h =>
    cases h with
    | at_once => exact hone
    | again h =>
      -- Only these three can be left unsettled.
      cases q with
      | block | transaction | receipt => exact .refl _
      | head | logs | traces | blocks | transactions | receipts => exact absurd rfl h

/-- Nothing is asked more often than it may have to be. -/
theorem Series.sublist (h : Series qs es out) : (questions es).Sublist (qs.flatMap Query.attempts) := by
  induction h with
  | nil => exact .slnil
  | did h ih => exact ih
  | failed h =>
    rw [List.flatMap_singleton]
    exact h.sublist
  | settled h rest ih =>
    rw [questions_append, List.flatMap_cons]
    exact h.sublist.append ih

theorem Series.append (h : Series qs es none) (h' : Series qs' es' out) :
    Series (qs ++ qs') (es ++ es') out := by
  generalize hnone : (none : Option Fault) = before at h
  induction h with
  | nil => exact h'
  | did h ih => exact .did (ih hnone)
  | failed h => cases hnone
  | settled h rest ih =>
    rw [List.cons_append, List.append_assoc]
    exact .settled h (ih hnone)

theorem series_nil (h : ∀ e ∈ es, e.move.isAct = true) : Series [] es none := by
  induction es with
  | nil => exact .nil
  | cons e rest ih =>
    cases e with
    | asked q r => cases h _ List.mem_cons_self
    | did a r => exact .did (ih fun e he => h e (List.mem_cons_of_mem _ he))

end

namespace Attempt

variable {σ α β : Type} {N : Answers} {R : Conduct σ} {s : σ} {P : List Query → Prop}

/-- The questions that an attempt asks are a series of look-ups, and a fault of a look-up is its fault. -/
def Seeks (N : Answers) (R : Conduct σ) (t : Attempt α) (s : σ) (P : List Query → Prop) : Prop :=
  t.Leads N R s (fun _ es _ => ∃ qs, P qs ∧ Series qs es none)
    fun e es _ => ∃ qs out, P qs ∧ Series qs es out ∧ ∀ fault, out = some fault → fault = e

theorem seeks_pure {a : α} (h : P []) : Seeks N R (pure a) s P := leads_pure ⟨[], h, .nil⟩

theorem Only.seeks {t : Attempt α} (h : t.Only Move.isAct) (hP : P []) : t.Seeks N R s P :=
  (h.leads (I := fun _ => True) (fun _ _ _ _ _ _ => id) trivial).mono
    (fun _ _ _ hend => ⟨[], hP, series_nil hend.2⟩)
    fun _ _ _ hend => ⟨[], none, hP, series_nil hend.2, nofun⟩

theorem Seeks.bind {t : Attempt α} {f : α → Attempt β} {Q X : List Query → Prop} (h : t.Seeks N R s P)
    (hf : ∀ a s, (f a).Seeks N R s Q) (hQ : Q []) (hX : ∀ qs qs', P qs → Q qs' → X (qs ++ qs')) :
    Seeks N R (t >>= f) s X := by
  have hfirst {qs : List Query} (hqs : P qs) : X qs := List.append_nil qs ▸ hX qs [] hqs hQ
  refine leads_bind (Leads.mono h (fun a es s₁ hend => ?_) fun e es _ hend => ?_)
  · obtain ⟨qs, hqs, hes⟩ := hend
    refine (hf a s₁).mono (fun b es' _ hrest => ?_) fun e es' _ hrest => ?_
    · obtain ⟨qs', hqs', hes'⟩ := hrest
      exact ⟨qs ++ qs', hX qs qs' hqs hqs', hes.append hes'⟩
    · obtain ⟨qs', out, hqs', hes', hout⟩ := hrest
      exact ⟨qs ++ qs', out, hX qs qs' hqs hqs', hes.append hes', hout⟩
  · obtain ⟨qs, out, hqs, hes, hout⟩ := hend
    exact ⟨qs, out, hfirst hqs, hes, hout⟩

theorem seeks_lookUp {q : Query} {f : q.Reply → Attempt β}
    (hf : ∀ first s, (f first).Leads N R s (fun _ es _ => Settlement q first es none)
      fun e es _ => Settlement q first es (some e)) : Seeks N R (q.send >>= f) s (· = [q]) := by
  refine leads_bind (leads_send (fun first _ => ?_) fun e _ => ?_)
  · refine (hf first s).mono (fun _ es _ hes => ⟨[q], rfl, ?_⟩) fun e es _ hes => ⟨[q], some e, rfl, ?_, ?_⟩
    · have hseries := Series.settled (.answered hes) .nil
      rwa [List.append_nil] at hseries
    · exact .failed (.answered hes)
    · exact fun _ heq => (Option.some.inj heq).symm
  · exact ⟨[q], some e, rfl, .failed .failed, fun _ heq => (Option.some.inj heq).symm⟩

end Attempt

end ChainIndex
