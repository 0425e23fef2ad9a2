import ChainIndex.Proofs.Resolve.Counting
import ChainIndex.Proofs.Service.Engine

/-!
# Operations keep a store sound

Every operation keeps the session that its store stands for sound, and each of its links is permitted
(`Operation.keepsSound`).  What a reachable store holds is therefore sound (`Storage.Reachable.sound`).
-/

namespace ChainIndex

open Text (canonical)

/-! ## Attempts that keep a session sound -/

/-- Every execution of the attempt from a sound session ends in a sound one, and its links are
permitted. -/
def Attempt.KeepsSound {α : Type} (N : Answers) (t : Attempt α) : Prop :=
  ∀ ⦃s : Session Memory⦄, s.Sound →
    t.Ensures N Session.Effect LinkRule.permitted s (fun _ => Session.Sound) fun _ => Session.Sound

/-- Whether an action is open to everybody. -/
def Action.isFree : Action → Bool
  | .access a => a.isFree
  | _ => true

theorem Action.permitted_of_isFree {a : Action} (h : a.isFree = true) (s : Session Memory) :
    a.Permitted s := by
  cases a with
  | access a => cases a <;> trivial
  | _ => trivial

theorem Action.obeys_of_isFree {a : Action} (h : a.isFree = true) (r : Except Fault a.Reply)
    (E : LinkRule) : (Event.did a r).Obeys E := by
  cases a with
  | access a => cases a <;> trivial
  | _ => trivial

variable {α β : Type} {N : Answers}

namespace Attempt

variable {t : Attempt α}

theorem keepsSound_pure (a : α) : KeepsSound N (pure a) := fun _ hs => ensures_pure hs

theorem keepsSound_throw (e : Fault) : KeepsSound N (throw e : Attempt α) := fun _ hs => ensures_throw hs

theorem keepsSound_send (q : Query) : KeepsSound N q.send :=
  fun _ hs => ensures_send (fun _ _ => hs) fun _ _ => hs

theorem keepsSound_perform {a : Action} (h : a.isFree = true) : KeepsSound N a.perform := by
  intro s hs
  refine ensures_perform fun r s' hR => ⟨a.obeys_of_isFree h r _, ?_⟩
  have hs' := hs.step (a.permitted_of_isFree h s) hR
  cases r <;> exact hs'

theorem KeepsSound.bind {f : α → Attempt β} (h : t.KeepsSound N) (hf : ∀ a, (f a).KeepsSound N) :
    KeepsSound N (t >>= f) :=
  fun _ hs => ensures_bind ((h hs).mono (fun a _ hs' => hf a hs') fun _ _ hs' => hs')

theorem KeepsSound.lift (h : t.KeepsSound N) :
    KeepsSound N (ExceptT.lift t.run : Attempt (Except Fault α)) :=
  fun _ hs => ensures_lift (h hs)

end Attempt

open Attempt (keepsSound_pure keepsSound_throw keepsSound_send keepsSound_perform)

/-! ## Resolving -/

namespace Resolve

variable {policy : ConfirmationPolicy}

theorem keepsSound_block (hash : String) : (block policy hash).KeepsSound N :=
  fun _ hs => ensures_block hs (fun _ _ hb => hb.sound) fun _ _ hs' => hs'

theorem keepsSound_transaction (hash : String) : (transaction policy hash).KeepsSound N :=
  fun _ hs => ensures_transaction hs (fun _ h => ⟨_, h⟩) (fun _ _ h => h.sound hs) fun _ _ hs' => hs'

theorem keepsSound_transactions (hashes : List String) : (transactions policy hashes).KeepsSound N :=
  fun _ hs => ensures_transactions hs (fun _ _ h => ⟨_, h⟩) (fun _ _ _ _ _ h => h.linked.sound.1)
    fun _ _ hs' => hs'

theorem keepsSound_confirmBlocks : (confirmBlocks policy).KeepsSound N := by
  refine (keepsSound_send _).bind fun head => ?_
  cases policy.tip? head with
  | none => exact keepsSound_pure 0
  | some tip => exact keepsSound_perform rfl

end Resolve

/-! ## Indexers -/

namespace Indexer

/-- Rows are stored after their transactions were resolved, so that they refer to linked ones. -/
theorem keepsSound_store {policy : ConfirmationPolicy} {r : Rows} (hr : r.Covered) :
    (store policy r).KeepsSound N := by
  intro s hs
  unfold store
  split
  · exact Attempt.ensures_pure hs
  · refine Attempt.ensures_bind (Resolve.ensures_transactions hs (fun _ _ h => ⟨_, h⟩)
      (fun known found fetched rows s' h => ?_) fun _ _ hs' => hs')
    refine Resolve.ensures_access fun n m he => ⟨trivial, ?_⟩
    have hrows : ∀ row ∈ r.rows, s'.live.HasMined row.key.txHash := fun row hrow =>
      h.hasMined hs (List.mem_map_of_mem hrow)
    have hs' := h.linked.sound.1
    have hp : (Access.insertInternal r.rows r.markers).Permitted s'.live := ⟨hrows, hr⟩
    have hlive := (he.sound hs'.live hp).1
    cases he
    exact ⟨hlive, hs'.staged⟩

end Indexer

/-! ## Reprocessing -/

namespace Reprocess

open Derived (AddressScope)

theorem keepsSound_steps (scope : AddressScope) : (steps scope).KeepsSound N :=
  (keepsSound_perform rfl).bind fun _ => (keepsSound_perform rfl).bind fun _ =>
    (keepsSound_perform rfl).bind fun _ => (keepsSound_perform rfl).bind fun _ =>
      (keepsSound_perform rfl).bind fun _ => keepsSound_pure _

theorem keepsSound_scope (s : AddressScope) : (scope s).KeepsSound N := by
  refine (keepsSound_perform rfl).bind fun _ => (keepsSound_steps s).lift.bind fun r => ?_
  cases r with
  | ok summary => exact (keepsSound_perform rfl).bind fun _ => keepsSound_pure summary
  | error fault =>
    exact (keepsSound_perform (a := .rollback) rfl).lift.bind fun _ => keepsSound_throw fault

end Reprocess

/-! ## Operations -/

theorem Operation.Part.keepsSound {policy : ConfirmationPolicy} {p : Routine α} (h : Part policy p)
    {s : Session Memory} (hs : s.Sound) :
    p.Ensures N Session.Effect LinkRule.permitted s fun _ s' => s'.Sound := by
  cases h with
  | block hash => exact (Resolve.keepsSound_block hash hs).routine
  | transaction hash => exact (Resolve.keepsSound_transaction hash hs).routine
  | transactions hashes => exact (Resolve.keepsSound_transactions hashes hs).routine
  | confirmBlocks => exact (Resolve.keepsSound_confirmBlocks hs).routine
  | store hr => exact (Indexer.keepsSound_store hr hs).routine
  | reprocess scope => exact (Reprocess.keepsSound_scope scope hs).routine
  | send _ => exact (keepsSound_send _ hs).routine
  | access free _ => exact (keepsSound_perform (a := .access _) free hs).routine

/-- Every operation keeps a session sound, and every link that it makes is permitted. -/
theorem Operation.keepsSound (s : Service) (o : Operation) : (o.attempt s).KeepsSound N := by
  cases o with
  | access a free => exact keepsSound_perform (a := .access a) free
  | _ =>
    refine fun t ht => ((Operation.built s rfl).ensures (fun h => h.keepsSound) ht).mono fun r t' hend => ?_
    cases r <;> exact hend

/-! ## Reachable stores -/

namespace Storage

theorem represents_inMemory : inMemory.Represents { live := {} } := ⟨rfl, .none⟩

theorem represents_database (path? : Option String) :
    (database path? { live := {} }).Represents { live := {} } :=
  ⟨Relational.represents_empty, .none⟩

theorem sound_empty : Session.Sound { live := {} } := ⟨Memory.sound_empty, nofun⟩

/-- A reachable store stands for sound tables. -/
theorem Reachable.sound {s : Storage} (h : s.Reachable) : ∃ t, s.Represents t ∧ t.Sound := by
  induction h with
  | memory => exact ⟨_, represents_inMemory, sound_empty⟩
  | database path? => exact ⟨_, represents_database path?, sound_empty⟩
  | step h service o node n ih =>
    obtain ⟨t, hrep, hs⟩ := ih
    obtain ⟨-, t', hrep', hend⟩ := ensures_run node ⟨n, _⟩ hrep (o.keepsSound service hs)
    exact ⟨t', hrep', hend.of_const⟩
  | reopen h ih =>
    obtain ⟨t, hrep, hs⟩ := ih
    exact ⟨{ live := t.live }, ⟨hrep.live, .none⟩, hs.live, nofun⟩

/-! ## Intact stores -/

/-- Every reference leads somewhere: a linked transaction to a stored block of its number, an internal
transaction to a linked transaction of its hash up to case and blanks, and a marker to an internal
transaction. -/
structure Intact (s : Storage) : Prop where
  readable : ∀ hash, ∃ row?, s.answer (.getTransaction hash) = .ok row?
  block : ∀ {hash row b}, s.answer (.getTransaction hash) = .ok (some row) → row.blockHash = some b →
    ∃ c, s.answer (.getBlock b) = .ok (some c) ∧ c.blockHash = b ∧ row.blockNumber = some c.number
  transaction : ∀ {key row}, s.derived.internalTxs.get? key = some row → row.key = key ∧
    ∃ t, s.answer (.getTransaction t.txHash) = .ok (some t) ∧ t.isMined = true ∧
      canonical t.txHash = canonical key.txHash
  internal : ∀ {key mk}, s.derived.markers.get? key = some mk → mk.key = key ∧
    ∃ row, s.derived.internalTxs.get? key = some row

theorem intact_of_sound {s : Storage} {t : Session Memory} (hrep : s.Represents t) (hs : t.Sound) :
    s.Intact where
  readable hash := ⟨_, answer_getTransaction hrep hash⟩
  block {hash row b} hrow hb := by
    rw [answer_getTransaction hrep] at hrow
    obtain ⟨c, hc, hnumber⟩ := hs.live.linked (Except.ok.inj hrow) hb
    exact ⟨c, by rw [answer_getBlock hrep, hc], hs.live.blockHash hc, hnumber⟩
  transaction {key row} hrow := by
    rw [derived_eq hrep] at hrow
    obtain ⟨hkey, t', ht', hmined, hcanon⟩ := hs.live.internal hrow
    exact ⟨hkey, t', by rw [answer_getTransaction hrep, ht'], hmined, hcanon⟩
  internal {key mk} hmk := by
    rw [derived_eq hrep] at hmk ⊢
    obtain ⟨hkey, hrow⟩ := hs.live.marker hmk
    exact ⟨hkey, Option.isSome_iff_exists.1 hrow⟩

end Storage

/-- An action whose link is permitted is not refused for a block that is missing. -/
theorem Action.ne_foreignKeyFault {a : Action} {r : Except Fault a.Reply} {s s' : Session Memory}
    (hobeys : (Event.did a r).Obeys LinkRule.permitted) (he : Session.Effect a s r s') :
    r ≠ .error Relational.foreignKeyFault := by
  rintro rfl
  cases a with
  | access a =>
    obtain ⟨m, he, -⟩ := he
    cases a with
    | createTransaction t receipt b =>
      obtain ⟨_, hne⟩ := hobeys
      exact hne rfl
    | linkTransaction hash b receipt =>
      obtain ⟨_, hne⟩ := hobeys
      exact hne rfl
    | createPending t =>
      rcases Memory.addTransaction_cases he with ⟨-, -, h, -⟩ | ⟨-, h, -⟩ <;> cases h
    | confirmBlocks upTo =>
      obtain ⟨n, final, h, -⟩ := he
      cases h
    | getMined hashes =>
      obtain ⟨rows, h, -, -⟩ := he
      cases h
    | _ => cases he
  | invalidate step scope =>
    rcases he with ⟨-, h, -⟩ | ⟨m, n, d, -, h, -⟩
    · exact absurd (Except.error.inj h) (by decide)
    · cases h
  | commit =>
    rcases he with ⟨-, h, -⟩ | ⟨m, -, h, -⟩
    · exact absurd (Except.error.inj h) (by decide)
    · cases h
  | beginUnit | rollback | abandon =>
    obtain ⟨h, -⟩ := he
    cases h

/-- A store that operations lead to is intact, and nothing that an operation does to it is refused for a
block that is missing. -/
theorem Storage.Reachable.intact {s : Storage} (h : s.Reachable) :
    s.Intact ∧ ∀ (service : Service) (o : Operation) {ν : Type} (node : Node ν) (n : ν) (a : Action),
      .did a (.error Relational.foreignKeyFault) ∉ o.history service node ⟨n, s⟩ := by
  obtain ⟨t, hrep, hs⟩ := h.sound
  refine ⟨intact_of_sound hrep hs, fun service o ν node n a hmem => ?_⟩
  obtain ⟨t', hexec, -⟩ := exists_exec node (w := ⟨n, s⟩) hrep
  obtain ⟨s₁, s₂, he⟩ := hexec.exists_of_did_mem hmem
  have hobeys := (o.keepsSound service hs _ _ t' hexec).1 _ hmem
  exact Action.ne_foreignKeyFault hobeys he rfl

/-- An event of a transaction that is found under another spelling of its hash. -/
theorem Storage.intact_sample :
    (Sample.processed.derived.markers.get? ⟨" 0xaa", "log:0"⟩).isSome = true ∧
      Sample.processed.Intact ∧ ∀ a : Action, .did a (.error Relational.foreignKeyFault) ∉
        Operation.reprocessAll.history Sample.service Sample.node ⟨(), Sample.processed⟩ := by
  have hmarker : (Sample.processed.derived.markers.get? ⟨" 0xaa", "log:0"⟩).isSome = true := by
    decide +kernel
  obtain ⟨hintact, hfault⟩ := Storage.Reachable.intact (s := Sample.processed)
    (.step .memory Sample.service (.process .l2 false [.log Sample.log]) Sample.node ())
  exact ⟨hmarker, hintact, hfault Sample.service .reprocessAll Sample.node ()⟩

end ChainIndex
