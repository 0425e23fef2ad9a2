import ChainIndex.Proofs.Derived.Regeneration
import ChainIndex.Proofs.Service.Composition
import ChainIndex.Proofs.Service.Course
import ChainIndex.Proofs.Service.Replay

/-!
# Nothing is deleted that will not be made again

A decoder is trusted to store module transactions and states of safes only under the keys of internal
transactions that the safe sent and that have a marker (`Operation.Founded`).  Of every store that operations
then lead to (`Storage.Trusted`), each of these rows keeps its internal transaction and its marker, through
whatever is indexed, decoded and reprocessed (`Storage.Trusted.founded`).  So reprocessing deletes no row
that does not wait for the decoder afterwards (`Operation.reprocess_regenerates`).
-/

namespace ChainIndex

open Attempt
open Derived (AddressScope Invalidation Owners Tables)

/-! ## Accesses -/

/-- Whether an access stores what the decoder makes of a single internal transaction. -/
def Access.isDecoding : Access → Bool
  | .putModuleTx _ | .putSafeStatus _ => true
  | _ => false

/-- What the access stores for the decoder can be made again from some tables. -/
def Access.Founded (d : Tables) : Access → Prop
  | .putModuleTx row => d.Founds row.internalTx row.safe
  | .putSafeStatus row => d.Founds row.internalTx row.address
  | _ => True

theorem Access.founded_of_isDecoding {a : Access} (h : a.isDecoding = false) (d : Tables) :
    a.Founded d := by
  cases a with
  | putModuleTx row | putSafeStatus row => cases h
  | _ => trivial

/-- What an access does to derived tables. -/
def Access.derive : Access → Tables → Tables
  | .insertInternal rows markers, d => (d.insertInternal rows markers).2
  | .putMultisigTx row, d => d.putMultisigTx row
  | .putConfirmation row, d => d.putConfirmation row
  | .putModuleTx row, d => d.putModuleTx row
  | .putSafeStatus row, d => d.putSafeStatus row
  | .setProcessed key, d => d.setProcessed key
  | _, d => d

theorem Access.derive_of_isLedger {a : Access} (h : a.isLedger = true) (d : Tables) : a.derive d = d := by
  cases a <;> first | rfl | cases h

theorem Memory.derived_access (m : Memory) (a : Access) :
    (Memory.access a m).2.derived = a.derive m.derived := by
  by_cases h : a.isLedger = true
  · obtain ⟨blocks, transactions, heq⟩ := access_isLedger h m
    rw [heq, Access.derive_of_isLedger h]
  · cases a <;> first | rfl | exact absurd rfl h

theorem Relational.derived_access (d : Relational) (a : Access) :
    (Relational.access a d).2.derived = a.derive d.derived := by
  by_cases h : a.isLedger = true
  · obtain ⟨blocks, transactions, heq⟩ := access_isLedger h d
    rw [heq, Access.derive_of_isLedger h]
  · cases a <;> first | rfl | exact absurd rfl h

/-- The frames last in whatever an access does to derived tables. -/
theorem Access.framesLast_derive (a : Access) (d : Tables) : d.FramesLast (a.derive d) := by
  cases a with
  | insertInternal rows markers => exact .of_gains (d.gains_insertInternal rows markers)
  | setProcessed key => exact .of_sameFrames (.setProcessed d key)
  | _ => exact ⟨id, fun hmk => ⟨_, hmk, rfl, rfl⟩⟩

theorem Derived.Tables.Founded.derive {d : Tables} (h : d.Founded) {a : Access} (ha : a.Founded d) :
    (a.derive d).Founded := by
  cases a with
  | putModuleTx row => exact h.putModuleTx ha
  | putSafeStatus row => exact h.putSafeStatus ha
  | _ => exact h.mono (Access.framesLast_derive _ d) id id

/-! ## Sessions -/

/-- The tables of a session have a property, and so has the copy that an open unit of work changes. -/
structure Session.All {δ : Type} (I : δ → Prop) (s : Session δ) : Prop where
  live : I s.live
  staged : ∀ {d}, s.staged = some d → I d

theorem Session.All.perform {δ : Type} {b : Backend δ} {I : δ → Prop} {s : Session δ} (h : s.All I)
    {a : Action} (haccess : ∀ {x}, a = .access x → I (b.access x s.live).2)
    (hinvalidate : ∀ {step scope d}, I d → I (b.invalidate step scope d).2) :
    (b.store.perform a s).2.All I := by
  obtain ⟨hlive, hstaged⟩ := h
  cases a with
  | access x => exact ⟨haccess rfl, hstaged⟩
  | beginUnit => exact ⟨hlive, fun heq => Option.some.inj heq ▸ hlive⟩
  | rollback | abandon => exact ⟨hlive, nofun⟩
  | invalidate step scope =>
    obtain ⟨live, _ | tables⟩ := s
    · exact ⟨hlive, hstaged⟩
    · exact ⟨hlive, fun heq => Option.some.inj heq ▸ hinvalidate (hstaged rfl)⟩
  | commit =>
    obtain ⟨live, _ | tables⟩ := s
    · exact ⟨hlive, hstaged⟩
    · exact ⟨hstaged rfl, nofun⟩

/-- Statements that delete and mark rows of some owners keep tables founded. -/
theorem Relational.founded_runAll {step : Invalidation} {statements : List Statement}
    (h : ∀ t ∈ statements, ∃ owners, t = Tables.takeBack owners step) {d : Tables} (hd : d.Founded) :
    (runAll statements d).2.Founded := by
  induction statements generalizing d with
  | nil => exact hd
  | cons t rest ih =>
    obtain ⟨owners, rfl⟩ := h t List.mem_cons_self
    exact ih (fun t' ht' => h t' (List.mem_cons_of_mem _ ht')) (hd.takeBack owners step)

theorem Relational.exists_owners {step : Invalidation} {scope : AddressScope} {t : Statement}
    (h : t ∈ statements step scope) : ∃ owners, t = Tables.takeBack owners step := by
  cases scope with
  | all =>
    rw [List.mem_singleton.1 h]
    exact ⟨_, forAll_eq_takeBack step⟩
  | only addresses =>
    obtain ⟨part, -, rfl⟩ := List.mem_map.1 h
    exact ⟨_, forSome_eq_takeBack part step⟩

namespace Storage

theorem derived_after (s : Storage) (a : Access) : (s.after a).derived = a.derive s.derived := by
  cases s with
  | memory s => exact s.live.derived_access a
  | database path? s => exact s.live.derived_access a

/-- Everything decoded is founded, in the tables and in the copy of an open unit of work. -/
def Founded : Storage → Prop
  | .memory s => s.All fun m => m.derived.Founded
  | .database _ s => s.All fun d => d.derived.Founded

variable {s : Storage}

theorem Founded.derived (h : s.Founded) : s.derived.Founded := by
  cases s <;> exact h.live

theorem Founded.perform (h : s.Founded) {a : Action} (ha : ∀ {x}, a = .access x → x.Founded s.derived) :
    (store.perform a s).2.Founded := by
  cases s with
  | memory s =>
    refine Session.All.perform (b := Memory.backend) h (fun {x} hx => ?_) fun {step scope m} hm => ?_
    · show (Memory.access x s.live).2.derived.Founded
      rw [Memory.derived_access]
      exact h.live.derive (ha hx)
    · show (m.derived.invalidate step scope).2.Founded
      rw [Tables.invalidate_eq_takeBack]
      exact hm.takeBack _ step
  | database path? s =>
    refine Session.All.perform (b := Relational.backend) h (fun {x} hx => ?_) fun {step scope d} hd => ?_
    · show (Relational.access x s.live).2.derived.Founded
      rw [Relational.derived_access]
      exact h.live.derive (ha hx)
    · exact Relational.founded_runAll (fun _ => Relational.exists_owners) hd

end Storage

/-! ## Operations -/

/-- Whether the move leaves it to the decoder to store module transactions and states of safes. -/
def Move.sparesDecoded : Move → Bool
  | .act (.access a) => !a.isDecoding
  | _ => true

theorem Move.sparesDecoded_of_isLedger {m : Move} (h : m.isLedger = true) : m.sparesDecoded = true := by
  cases m with
  | ask q => rfl
  | act a =>
    cases a with
    | access a => cases a <;> first | rfl | cases h
    | _ => rfl

theorem Move.sparesDecoded_of_isUnit {m : Move} (h : m.isUnit = true) : m.sparesDecoded = true := by
  cases m with
  | ask q => rfl
  | act a =>
    cases a with
    | access a => cases h
    | _ => rfl

namespace Indexer

variable {policy : ConfirmationPolicy}

/-- The routines that leave what is decoded alone. -/
abbrev Spares : ⦃α : Type⦄ → Routine α → Prop := fun _ p => p.Only Move.sparesDecoded

theorem spares_store (r : Rows) : Spares (store policy r).run := by
  have hledger : (Resolve.transactions policy (r.rows.map fun row => row.key.txHash)).Only
      Move.sparesDecoded := Routine.Only.imp (Resolve.only_transactions _) Move.sparesDecoded_of_isLedger
  have hstore : (store policy r).Only Move.sparesDecoded := by
    unfold store
    split
    · exact only_pure 0
    · exact hledger.bind fun _ => only_perform rfl
  exact hstore

theorem madeOf_frames : (frames policy).MadeOf Spares where
  find addresses first stop := by
    unfold frames
    dsimp only
    split
    · exact StateAttempt.built_pure []
    · exact (StateAttempt.built_keeping (built_part (only_send rfl))).bind fun traces =>
        StateAttempt.built_pure _
  process elements := StateAttempt.built_keeping (built_part (spares_store _))
  tracked := StateAttempt.built_keeping (built_part (only_perform rfl))

theorem madeOf_events : (events policy).MadeOf Spares where
  find addresses first stop := by
    unfold events
    dsimp only
    split
    · exact StateAttempt.built_pure []
    · exact StateAttempt.built_get.bind fun exact_ =>
        (StateAttempt.built_keeping (built_part (only_send rfl))).bind fun logs =>
          StateAttempt.built_pure _
  process elements := StateAttempt.built_keeping (built_part (spares_store _))
  tracked := StateAttempt.built_keeping (built_part (only_perform rfl))

end Indexer

theorem Service.madeOf_indexer (service : Service) : service.indexer.MadeOf Indexer.Spares := by
  unfold Service.indexer
  split
  · exact Indexer.madeOf_frames
  · exact Indexer.madeOf_events

namespace Operation

/-- What the operation stores for the decoder can be made again from some tables. -/
def Founded (d : Tables) : Operation → Prop
  | access a _ => a.Founded d
  | _ => True

/-- Whatever is not done by the decoder leaves what is decoded alone. -/
theorem only_sparesDecoded (service : Service) {o : Operation} (h : ∀ a free, o ≠ access a free) :
    (o.attempt service).Only Move.sparesDecoded := by
  have hbuilt {ι α : Type} {t : StateAttempt ι α} (ht : t.Built Indexer.Spares) (i : ι) :
      Attempt.Only Move.sparesDecoded (ExceptT.mk (Prod.fst <$> t.start i)) :=
    Routine.Built.only (fun hp => hp) (ht.start i)
  have hledger {α : Type} {t : Attempt α} (ht : t.Only Move.isLedger) : t.Only Move.sparesDecoded :=
    Routine.Only.imp ht Move.sparesDecoded_of_isLedger
  have hblocks {α : Type} {t : Attempt α} (ht : t.Only Move.isBlockwise) : t.Only Move.sparesDecoded :=
    hledger (Routine.Only.imp ht Move.isLedger_of_isBlockwise)
  have hunit {α : Type} {t : Attempt α} (ht : t.Only Move.isUnit) : t.Only Move.sparesDecoded :=
    Routine.Only.imp ht Move.sparesDecoded_of_isUnit
  cases o with
  | block hash => exact hblocks (Resolve.only_block hash)
  | transaction hash => exact hledger (Resolve.only_transaction hash)
  | transactions hashes => exact hledger (Resolve.only_transactions hashes)
  | confirmBlocks => exact hblocks Resolve.only_confirmBlocks
  | process network exact_ elements =>
    exact hbuilt ((Service.madeOf_indexer { service with network }).process elements) exact_
  | replay network exact_ request =>
    exact hbuilt ((Service.madeOf_indexer { service with network }).replay (only_send rfl) request) exact_
  | reindex fromBlock toBlock chunkSize addresses =>
    exact hbuilt (service.madeOf_indexer.replay (only_send rfl) _) false
  | reprocess addresses => exact hunit (Reprocess.only_addresses addresses)
  | reprocessAll => exact hunit (Reprocess.only_scope .all)
  | access a free => exact absurd rfl (h a free)

/-- An operation with a trusted decoder keeps a store founded, whether it succeeds or fails. -/
theorem founded_run {ν : Type} (service : Service) {o : Operation} (node : Node ν) (n : ν) {s : Storage}
    (hs : s.Founded) (ho : o.Founded s.derived) : (o.run service node ⟨n, s⟩).2.store.Founded := by
  by_cases haccess : ∃ a free, o = access a free
  · obtain ⟨a, free, rfl⟩ := haccess
    exact hs.perform (a := .access a) fun heq => Action.access.inj heq ▸ ho
  · have hkeeps (a : Action) (s₁ : Storage) (r : Except Fault a.Reply) (s₂ : Storage)
        (ha : (Move.act a).sparesDecoded = true) (hR : Storage.store.conduct a s₁ r s₂)
        (hs₁ : s₁.Founded) : s₂.Founded := by
      obtain rfl : (Storage.store.perform a s₁).2 = s₂ := congrArg Prod.snd hR
      refine hs₁.perform fun {x} hx => x.founded_of_isDecoding ?_ _
      subst hx
      simpa [Move.sparesDecoded] using ha
    have honly : (o.attempt service).Only Move.sparesDecoded :=
      only_sparesDecoded service fun a free heq => haccess ⟨a, free, heq⟩
    exact (Routine.Only.of_exec honly hkeeps (Routine.exec_run node Storage.store _ ⟨n, s⟩) hs).1

end Operation

/-! ## Stores with a trusted decoder -/

namespace Storage

/-- The stores that operations lead to from an empty one, by whatever services and nodes, if the decoder
stores nothing that it could not make again. -/
inductive Trusted : Storage → Prop
  | memory : Trusted .inMemory
  | database (path? : Option String) : Trusted (.database path? { live := {} })
  | step {s : Storage} (h : Trusted s) (service : Service) {o : Operation} (ho : o.Founded s.derived)
    {ν : Type} (node : Node ν) (n : ν) : Trusted (o.run service node ⟨n, s⟩).2.store
  /-- A database that is closed is opened again. -/
  | reopen {path? : Option String} {s : Session Relational} (h : Trusted (.database path? s)) :
    Trusted (.database path? { live := s.live })

variable {s : Storage}

theorem Trusted.reachable (h : s.Trusted) : s.Reachable := by
  induction h with
  | memory => exact .memory
  | database path? => exact .database path?
  | step h service ho node n ih => exact .step ih service _ node n
  | reopen h ih => exact .reopen ih

/-- Everything that a trusted decoder stored is founded for good. -/
theorem Trusted.founded (h : s.Trusted) : s.Founded := by
  induction h with
  | memory => exact ⟨Tables.founded_empty, nofun⟩
  | database path? => exact ⟨Tables.founded_empty, nofun⟩
  | step h service ho node n ih => exact Operation.founded_run service node n ih ho
  | reopen h ih => exact ⟨ih.live, nofun⟩

theorem Trusted.after (h : s.Trusted) {a : Access} (free : a.isFree = true) (ha : a.Founded s.derived) :
    (s.after a).Trusted :=
  h.step Sample.service (o := .access a free) ha Sample.node ()

theorem Reachable.markersKeyed (h : s.Reachable) : s.derived.MarkersKeyed := by
  obtain ⟨t, hrep, hsound⟩ := h.sound
  rw [derived_eq hrep]
  exact fun hmk => (hsound.live.marker hmk).1

end Storage

/-! ## Reprocessing -/

open Reprocess in
/-- An attempt that takes back the rows of some owners takes back none that will not be made again. -/
theorem Reprocess.TakesBack.regenerates {ν : Type} {node : Node ν} {n : ν} {a : Attempt Derived.Summary}
    {owners : Owners} (h : TakesBack node n a owners) (hcase : owners.IgnoreCase) {s : Storage}
    (hs : s.Trusted) : ∃ summary s', a.run.run node Storage.store ⟨n, s⟩ = (.ok summary, ⟨n, s'⟩) ∧
      s.derived.Regenerates owners s'.derived := by
  obtain ⟨summary, d', hrun, hd'⟩ := h s
  refine ⟨summary, s.withDerived d', hrun, ?_⟩
  rw [Storage.derived_withDerived]
  exact hd'.regenerates hcase hs.reachable.markersKeyed hs.founded.derived

namespace Operation

/-- With a trusted decoder, whatever reprocessing deletes waits for the decoder afterwards, whatever waited
still does, and no marker that belongs to other addresses is set back. -/
theorem reprocess_regenerates {ν : Type} (service : Service) (node : Node ν) (n : ν) {s : Storage}
    (hs : s.Trusted) :
    (∀ s' : Storage, s'.answer .pendingMarkers = .ok s'.derived.pendingMarkers) ∧
    (∀ addresses, ∃ summary s',
      (Operation.reprocess addresses).run service node ⟨n, s⟩ = (.ok summary, ⟨n, s'⟩) ∧
      s.derived.Regenerates (.among addresses) s'.derived) ∧
    ∃ summary s',
      Operation.reprocessAll.run service node ⟨n, s⟩ = (.ok summary, ⟨n, s'⟩) ∧
      s.derived.Regenerates .all s'.derived := by
  refine ⟨fun s' => by cases s' <;> rfl, fun addresses => ?_,
    Reprocess.takesBack_all.regenerates Owners.ignoreCase_all hs⟩
  by_cases hnone : addresses = []
  · subst hnone
    exact ⟨{}, s, rfl, .refl _ _⟩
  · exact (Reprocess.takesBack_addresses hnone).regenerates (Owners.ignoreCase_among addresses) hs

end Operation

namespace Sample

/-- What a decoder made of the stored event, for the safe that emitted it. -/
def moduleTx : Derived.ModuleTx where
  internalTx := ⟨" 0xaa", "log:0"⟩
  safe := "0X05"
  module := "0x06"
  recipient := "0x02"
  value := "0"
  data := "0x"

/-- The store with the event after the decoder has handled it. -/
def executed : Storage :=
  (processed.after (.setProcessed moduleTx.internalTx)).after (.putModuleTx moduleTx)

theorem trusted_executed : executed.Trusted := by
  have hprocessed : processed.Trusted :=
    .step .memory service (o := .process .l2 false [.log log]) trivial node ()
  have hsafe : Text.lower "0x05" = Text.lower "0X05" := (Text.eqIgnoringCase_iff _ _).1 (by decide +kernel)
  have hfounds : processed.derived.Founds moduleTx.internalTx moduleTx.safe :=
    ⟨by decide +kernel, Indexer.eventRow log, by decide +kernel, hsafe⟩
  have hmarked := hprocessed.after (a := .setProcessed moduleTx.internalTx) rfl trivial
  refine hmarked.after (a := .putModuleTx moduleTx) rfl ?_
  show Tables.Founds (Storage.derived _) moduleTx.internalTx moduleTx.safe
  rw [Storage.derived_after]
  exact hfounds.mono (Access.framesLast_derive _ _)

end Sample

theorem Operation.reprocess_regenerates_sample : Sample.executed.Trusted ∧ ∃ summary s',
    (Operation.reprocess ["0x05"]).run Sample.service Sample.node ⟨(), Sample.executed⟩ =
      (.ok summary, ⟨(), s'⟩) ∧
    Sample.executed.answer .pendingMarkers = .ok [] ∧
    Sample.moduleTx ∈ Sample.executed.derived.moduleTxs.values ∧
    Sample.moduleTx ∉ s'.derived.moduleTxs.values ∧
    s'.derived.Awaits Sample.moduleTx.internalTx := by
  have hmem : Sample.moduleTx ∈ Sample.executed.derived.moduleTxs.values := by decide +kernel
  obtain ⟨-, hsome, -⟩ := reprocess_regenerates Sample.service Sample.node () Sample.trusted_executed
  obtain ⟨summary, s', hrun, hregenerates⟩ := hsome ["0x05"]
  have hgone : Sample.moduleTx ∉ s'.derived.moduleTxs.values := by
    have hs' : s' = ((Operation.reprocess ["0x05"]).run Sample.service Sample.node
        ⟨(), Sample.executed⟩).2.store := by rw [hrun]
    rw [hs']
    decide +kernel
  exact ⟨Sample.trusted_executed, summary, s', hrun, by decide +kernel, hmem, hgone,
    hregenerates.moduleTx _ hmem hgone⟩

end ChainIndex
