import ChainIndex.Proofs.Effect.Execution

/-!
# The order of questions and actions

`Routine.Only P` says that every move of a routine satisfies `P`, whatever it is answered.  A routine
`AsksFirst` if it asks no question after it has done more than look something up, and it `StopsAtFault` if
an answer that settles nothing (`Event.fault?`) is the last thing that happens.

Of a routine that does both, an answer that settles nothing is its fault, and the store is left as it was
(`Routine.run_of_fault`).
-/

namespace ChainIndex

/-! ## Moves and events -/

/-- The hashes whose transactions a question is about, or their receipts. -/
def Query.wanted : Query → List String
  | transaction hash | receipt hash => [hash]
  | transactions hashes | receipts hashes => hashes
  | _ => []

/-- Whether a question is for all elements of a range of blocks. -/
def Query.isSearch : Query → Bool
  | logs .. | traces .. => true
  | _ => false

/-- Whether an access reads or writes blocks and transactions and nothing else. -/
def Access.isLedger : Access → Bool
  | .getBlock _ | .createBlock .. | .confirmBlocks _ => true
  | .getTransaction _ | .getMined _ => true
  | .createTransaction .. | .createPending _ | .linkTransaction .. => true
  | _ => false

/-- Whether an access may write a row of a transaction. -/
def Access.writesTransactions : Access → Bool
  | .createTransaction .. | .createPending _ | .linkTransaction .. => true
  | _ => false

/-- What a routine does next. -/
inductive Move where
  | ask (q : Query)
  | act (a : Action)

namespace Move

def isAsk : Move → Bool
  | ask _ => true
  | act _ => false

def isAct : Move → Bool
  | ask _ => false
  | act _ => true

/-- Whether the move concerns a unit of work as a whole. -/
def isUnit : Move → Bool
  | act (.access _) => false
  | act _ => true
  | ask _ => false

/-- Whether the move asks about blocks and transactions, or reads or writes them, and does nothing else. -/
def isLedger : Move → Bool
  | ask q => !q.isSearch
  | act (.access a) => a.isLedger
  | act _ => false

/-- Whether the move leaves the rows of transactions to others. -/
def sparesTransactions : Move → Bool
  | act (.access a) => !a.writesTransactions
  | _ => true

/-- Whether the move asks about blocks and transactions, or reads or writes blocks, and does nothing else. -/
def isBlockwise (m : Move) : Bool := m.isLedger && m.sparesTransactions

/-- Whether the move is a question, and about no other transactions than those of some hashes. -/
def asksAbout (hashes : List String) : Move → Bool
  | ask q => q.wanted.all hashes.contains
  | act _ => false

theorem isLedger_of_isBlockwise {m : Move} (h : m.isBlockwise = true) : m.isLedger = true :=
  (Bool.and_eq_true_iff.1 h).1

theorem sparesTransactions_of_isBlockwise {m : Move} (h : m.isBlockwise = true) :
    m.sparesTransactions = true :=
  (Bool.and_eq_true_iff.1 h).2

theorem isAsk_of_asksAbout {hashes : List String} {m : Move} (h : m.asksAbout hashes = true) :
    m.isAsk = true := by
  cases m with
  | ask q => rfl
  | act a => cases h

end Move

/-- Whether an action looks something up and changes nothing. -/
def Action.isLookup : Action → Bool
  | .access (.getBlock _) | .access (.getTransaction _) | .access (.getMined _) => true
  | .access .masterCopies | .access .safeContracts => true
  | .access .pendingMarkers | .access .counts => true
  | _ => false

/-- The fault that an answer about one hash leads to if it does not settle the question: if it lacks the
block, the mined transaction or the mined receipt. -/
def Query.unsettled? : (q : Query) → q.Reply → Option Fault
  | .receipt hash, none => some (.transactionNotFound hash)
  | .receipt hash, some r => if r.isMined then none else some (.transactionWithoutBlock hash)
  | .transaction hash, none => some (.transactionNotFound hash)
  | .transaction hash, some t =>
    if t.blockHash.isSome then none else some (.transactionWithoutBlock hash)
  | .block hash, none => some (.blockNotFound hash)
  | _, _ => none

namespace Event

/-- The move that the event is the outcome of. -/
def move : Event → Move
  | asked q _ => .ask q
  | did a _ => .act a

def isQuestion (e : Event) : Bool := e.move.isAsk

/-- Whether the event may have changed the store. -/
def isWrite : Event → Bool
  | asked .. => false
  | did a _ => !a.isLookup

/-- The fault that an answer leads to, if it failed or does not settle the question. -/
def fault? : Event → Option Fault
  | asked _ (.error e) => some e
  | asked q (.ok r) => q.unsettled? r
  | did .. => none

end Event

/-! ## Routines -/

namespace Routine

variable {ν σ α β : Type} {P : Move → Bool}

/-- Every move satisfies a property. -/
def Only (P : Move → Bool) : Routine α → Prop
  | .done _ => True
  | .ask q next => P (.ask q) = true ∧ ∀ r, (next r).Only P
  | .act a next => P (.act a) = true ∧ ∀ r, (next r).Only P

/-- No question is asked after more has been done than to look something up. -/
def AsksFirst : Routine α → Prop
  | .done _ => True
  | .ask _ next => ∀ r, (next r).AsksFirst
  | .act a next =>
    (a.isLookup = true ∧ ∀ r, (next r).AsksFirst) ∨ ∀ r, (next r).Only Move.isAct

/-- An answer that settles nothing ends the routine with its fault. -/
def StopsAtFault : Routine (Except Fault α) → Prop
  | .done _ => True
  | .ask q next => ∀ r, (∀ e, (Event.asked q r).fault? = some e → next r = .done (.error e)) ∧
      (next r).StopsAtFault
  | .act _ next => ∀ r, (next r).StopsAtFault

theorem Only.bind {p : Routine α} {f : α → Routine β} (h : p.Only P) (hf : ∀ a, (f a).Only P) :
    (p >>= f).Only P := by
  induction p with
  | done a => exact hf a
  | ask q next ih => exact ⟨h.1, fun r => ih r (h.2 r)⟩
  | act a next ih => exact ⟨h.1, fun r => ih r (h.2 r)⟩

theorem Only.imp {P' : Move → Bool} {p : Routine α} (h : p.Only P)
    (hP : ∀ {m}, P m = true → P' m = true) : p.Only P' := by
  induction p with
  | done a => trivial
  | ask q next ih => exact ⟨hP h.1, fun r => ih r (h.2 r)⟩
  | act a next ih => exact ⟨hP h.1, fun r => ih r (h.2 r)⟩

theorem Only.asksFirst {p : Routine α} (h : p.Only Move.isAct) : p.AsksFirst := by
  cases p with
  | done a => trivial
  | ask q next => exact absurd h.1 Bool.false_ne_true
  | act a next => exact .inr h.2

/-- Questions may come before anything that asks first. -/
theorem Only.bind_asksFirst {p : Routine α} {f : α → Routine β} (h : p.Only Move.isAsk)
    (hf : ∀ a, (f a).AsksFirst) : (p >>= f).AsksFirst := by
  induction p with
  | done a => exact hf a
  | ask q next ih => exact fun r => ih r (h.2 r)
  | act a next => exact absurd h.1 Bool.false_ne_true

/-- Actions may come after anything that asks first. -/
theorem AsksFirst.bind {p : Routine α} {f : α → Routine β} (h : p.AsksFirst)
    (hf : ∀ a, (f a).Only Move.isAct) : (p >>= f).AsksFirst := by
  induction p with
  | done a => exact (hf a).asksFirst
  | ask q next ih => exact fun r => ih r (h r)
  | act a next ih =>
    rcases h with ⟨hlookup, h⟩ | h
    · exact .inl ⟨hlookup, fun r => ih r (h r)⟩
    · exact .inr fun r => (h r).bind hf

theorem Only.stopsAtFault {p : Routine (Except Fault α)} (h : p.Only Move.isAct) :
    p.StopsAtFault := by
  induction p with
  | done a => trivial
  | ask q next => exact absurd h.1 Bool.false_ne_true
  | act a next ih => exact fun r => ih r (h.2 r)

/-! ## Executions -/

variable {N : Answers} {R : Conduct σ} {node : Node ν} {store : Store σ}

/-- All that happens satisfies what all moves satisfy, and what every such move keeps is kept. -/
theorem Only.of_exec {p : Routine α} (h : p.Only P) {I : σ → Prop}
    (hI : ∀ a s r s', P (.act a) = true → R a s r s' → I s → I s') {s s' : σ} {es : List Event} {a : α}
    (hexec : p.Exec N R s es a s') (hs : I s) : I s' ∧ ∀ e ∈ es, P e.move = true := by
  induction p generalizing s es with
  | done b =>
    obtain ⟨rfl, -, rfl⟩ := hexec
    exact ⟨hs, fun e he => absurd he List.not_mem_nil⟩
  | ask q next ih =>
    obtain ⟨r, es', rfl, -, hexec⟩ := hexec
    exact (ih r (h.2 r) hexec hs).imp_right fun hes => List.forall_mem_cons.2 ⟨h.1, hes⟩
  | act b next ih =>
    obtain ⟨r, s₁, es', rfl, hR, hexec⟩ := hexec
    exact (ih r (h.2 r) hexec (hI b s r s₁ h.1 hR hs)).imp_right fun hes =>
      List.forall_mem_cons.2 ⟨h.1, hes⟩

theorem Only.of_mem_history {p : Routine α} (h : p.Only P) {w : World ν σ} {e : Event}
    (he : e ∈ p.history node store w) : P e.move = true :=
  (h.of_exec (I := fun _ => True) (fun _ _ _ _ _ _ => id) (exec_run node store p w) trivial).2 e he

theorem Only.isQuestion_eq_false {p : Routine α} (h : p.Only Move.isAct)
    {w : World ν σ} {e : Event} (he : e ∈ p.history node store w) : e.isQuestion = false := by
  have hact := h.of_mem_history he
  cases e with
  | asked q r => exact absurd hact Bool.false_ne_true
  | did a r => rfl

/-- All questions come before the first write. -/
theorem AsksFirst.exists_append {p : Routine α} (h : p.AsksFirst) (w : World ν σ) :
    ∃ es₁ es₂, p.history node store w = es₁ ++ es₂ ∧ (∀ e ∈ es₁, e.isWrite = false) ∧
      ∀ e ∈ es₂, e.isQuestion = false := by
  induction p generalizing w with
  | done a =>
    have hnone (P : Event → Prop) : ∀ e ∈ [], P e := fun e he => absurd he List.not_mem_nil
    exact ⟨[], [], rfl, hnone _, hnone _⟩
  | ask q next ih =>
    obtain ⟨es₁, es₂, heq, hes₁, hes₂⟩ := ih _ (h _) { w with node := (node.answer q w.node).2 }
    refine ⟨.asked q (node.answer q w.node).1 :: es₁, es₂, ?_, fun e he => ?_, hes₂⟩
    · rw [history_ask, heq, List.cons_append]
    · rcases List.mem_cons.1 he with rfl | he
      · rfl
      · exact hes₁ e he
  | act a next ih =>
    rcases h with ⟨hlookup, h⟩ | h
    · obtain ⟨es₁, es₂, heq, hes₁, hes₂⟩ := ih _ (h _) { w with store := (store.perform a w.store).2 }
      refine ⟨.did a (store.perform a w.store).1 :: es₁, es₂, ?_, fun e he => ?_, hes₂⟩
      · rw [history_act, heq, List.cons_append]
      · rcases List.mem_cons.1 he with rfl | he
        · rw [Event.isWrite, hlookup, Bool.not_true]
        · exact hes₁ e he
    · refine ⟨[], _, rfl, fun e he => absurd he List.not_mem_nil, fun e he => ?_⟩
      rcases List.mem_cons.1 he with rfl | he
      · rfl
      · exact (h _).isQuestion_eq_false he

theorem StopsAtFault.run_eq_error {p : Routine (Except Fault α)} (h : p.StopsAtFault) {w : World ν σ}
    {e : Event} (he : e ∈ p.history node store w) {fault : Fault} (hfault : e.fault? = some fault) :
    (p.run node store w).1 = .error fault := by
  induction p generalizing w with
  | done a => cases he
  | ask q next ih =>
    rw [history_ask] at he
    rw [run_ask]
    rcases List.mem_cons.1 he with rfl | he
    · rw [(h _).1 fault hfault]
      rfl
    · exact ih _ (h _).2 he
  | act a next ih =>
    rw [history_act] at he
    rw [run_act]
    rcases List.mem_cons.1 he with rfl | he
    · cases hfault
    · exact ih _ (h _) he

theorem run_of_fault {p : Routine (Except Fault α)} (hfirst : p.AsksFirst) (hstops : p.StopsAtFault)
    (hlookup : ∀ a s, a.isLookup = true → (store.perform a s).2 = s) {w : World ν σ} {e : Event}
    (he : e ∈ p.history node store w) {fault : Fault} (hfault : e.fault? = some fault) :
    (p.run node store w).1 = .error fault ∧ (p.run node store w).2.store = w.store := by
  refine ⟨hstops.run_eq_error he hfault, ?_⟩
  induction p generalizing w with
  | done a => cases he
  | ask q next ih =>
    rw [history_ask] at he
    rw [run_ask]
    rcases List.mem_cons.1 he with rfl | he
    · rw [(hstops _).1 fault hfault]
      rfl
    · exact ih _ (hfirst _) (hstops _).2 he
  | act a next ih =>
    rw [history_act] at he
    rw [run_act]
    rcases List.mem_cons.1 he with rfl | he
    · cases hfault
    rcases hfirst with ⟨hread, hfirst⟩ | hacts
    · exact (ih _ (hfirst _) (hstops _) he).trans (hlookup a _ hread)
    · have hnone : e.isQuestion = false := (hacts _).isQuestion_eq_false he
      cases e with
      | asked q r => cases hnone
      | did a r => cases hfault

end Routine

/-! ## Attempts -/

namespace Attempt

variable {α β : Type} {P : Move → Bool} {t : Attempt α}

/-- Every move of the attempt satisfies a property. -/
def Only (P : Move → Bool) (t : Attempt α) : Prop := Routine.Only P t.run

def AsksFirst (t : Attempt α) : Prop := Routine.AsksFirst t.run

def StopsAtFault (t : Attempt α) : Prop := Routine.StopsAtFault t.run

theorem only_pure (a : α) : Only P (pure a) := trivial

theorem only_throw (e : Fault) : Only P (throw e : Attempt α) := trivial

theorem only_send {q : Query} (h : P (.ask q) = true) : Only P q.send := ⟨h, fun _ => trivial⟩

theorem only_perform {a : Action} (h : P (.act a) = true) : Only P a.perform := ⟨h, fun _ => trivial⟩

theorem Only.bind {f : α → Attempt β} (h : t.Only P) (hf : ∀ a, (f a).Only P) : Only P (t >>= f) := by
  refine Routine.Only.bind h fun r => ?_
  cases r with
  | ok a => exact hf a
  | error e => trivial

theorem Only.tryCatch {f : Fault → Attempt α} (h : t.Only P) (hf : ∀ e, (f e).Only P) :
    Only P (tryCatch t f) := by
  refine Routine.Only.bind h fun r => ?_
  cases r with
  | ok a => trivial
  | error e => exact hf e

theorem only_mapM {f : α → Attempt β} {xs : List α} (h : ∀ x ∈ xs, (f x).Only P) :
    Only P (xs.mapM f) := by
  induction xs with
  | nil => exact only_pure []
  | cons x rest ih =>
    rw [List.mapM_cons]
    exact (h x List.mem_cons_self).bind fun b =>
      (ih fun y hy => h y (List.mem_cons_of_mem _ hy)).bind fun bs => only_pure (b :: bs)

theorem Only.asksFirst (h : t.Only Move.isAct) : t.AsksFirst := Routine.Only.asksFirst h

theorem Only.bind_asksFirst {f : α → Attempt β} (h : t.Only Move.isAsk)
    (hf : ∀ a, (f a).AsksFirst) : AsksFirst (t >>= f) := by
  refine Routine.Only.bind_asksFirst h fun r => ?_
  cases r with
  | ok a => exact hf a
  | error e => trivial

theorem AsksFirst.bind {f : α → Attempt β} (h : t.AsksFirst) (hf : ∀ a, (f a).Only Move.isAct) :
    AsksFirst (t >>= f) := by
  refine Routine.AsksFirst.bind h fun r => ?_
  cases r with
  | ok a => exact hf a
  | error e => trivial

theorem asksFirst_perform {a : Action} (ha : a.isLookup = true) {f : a.Reply → Attempt β}
    (hf : ∀ r, (f r).AsksFirst) : AsksFirst (a.perform >>= f) := by
  refine .inl ⟨ha, fun r => ?_⟩
  cases r with
  | ok r => exact hf r
  | error e => trivial

theorem stopsAtFault_pure (a : α) : StopsAtFault (pure a) := trivial

theorem stopsAtFault_throw (e : Fault) : StopsAtFault (throw e : Attempt α) := trivial

theorem Only.stopsAtFault (h : t.Only Move.isAct) : t.StopsAtFault :=
  Routine.Only.stopsAtFault h

theorem stopsAtFault_send {q : Query} {f : q.Reply → Attempt β}
    (hfault : ∀ r e, (Event.asked q (.ok r)).fault? = some e → f r = throw e)
    (hf : ∀ r, (f r).StopsAtFault) : StopsAtFault (q.send >>= f) := by
  intro r
  cases r with
  | ok r => exact ⟨fun e he => hfault r e he, hf r⟩
  | error e => exact ⟨fun e' he => by cases he; rfl, trivial⟩

theorem StopsAtFault.bind {f : α → Attempt β} (h : t.StopsAtFault) (hf : ∀ a, (f a).StopsAtFault) :
    StopsAtFault (t >>= f) := by
  have hbind (p : Routine (Except Fault α)) (hp : p.StopsAtFault) :
      Routine.StopsAtFault (p >>= ExceptT.bindCont f) := by
    induction p with
    | done r =>
      cases r with
      | ok a => exact hf a
      | error e => trivial
    | ask q next ih =>
      refine fun r => ⟨fun e he => ?_, ih r (hp r).2⟩
      show next r >>= _ = _
      rw [(hp r).1 e he]
      rfl
    | act a next ih => exact fun r => ih r (hp r)
  exact hbind t.run h

theorem stopsAtFault_mapM {f : α → Attempt β} (h : ∀ x, (f x).StopsAtFault) (xs : List α) :
    StopsAtFault (xs.mapM f) := by
  induction xs with
  | nil => exact stopsAtFault_pure []
  | cons x rest ih =>
    rw [List.mapM_cons]
    exact (h x).bind fun b => ih.bind fun bs => stopsAtFault_pure (b :: bs)

end Attempt

end ChainIndex
