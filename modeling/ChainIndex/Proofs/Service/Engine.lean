import ChainIndex.Proofs.Effect.Built
import ChainIndex.Proofs.Effect.Order
import ChainIndex.Proofs.Indexer.Parts
import ChainIndex.Proofs.Service.Operation

/-!
# What operations are made of

Every operation that leaves the writing of blocks to the engine is built of a few parts
(`Operation.built`): what resolves blocks and transactions, what stores elements, one reprocessing at a
time, and single questions and accesses that concern neither.  What holds of these parts and of sequences
holds of all operations.
-/

namespace ChainIndex

/-- Whether an access writes rows of blocks. -/
def Access.writesBlocks : Access → Bool
  | .createBlock .. | .confirmBlocks _ => true
  | _ => false

/-- Whether an operation writes blocks through the engine only. -/
def Operation.isCall : Operation → Bool
  | .access a _ => !a.writesBlocks
  | _ => true

namespace Indexer

open Derived (InternalTx Marker)

/-- Every marker belongs to one of the rows. -/
def Rows.Covered (r : Rows) : Prop := ∀ mk ∈ r.markers, ∃ row ∈ r.rows, row.key = mk.key

theorem covered_frameRows (elements : List Chain.Element) : (frameRows elements).Covered := by
  intro mk hmk
  obtain ⟨t, ht, hmk⟩ := List.mem_filterMap.1 hmk
  refine ⟨frameRow t, List.mem_map_of_mem ht, ?_⟩
  unfold frameMarker? at hmk
  split at hmk
  · obtain ⟨selector, -, rfl⟩ := Option.map_eq_some_iff.1 hmk
    rfl
  · cases hmk

theorem covered_eventRows (elements : List Chain.Element) : (eventRows elements).Covered := by
  intro mk hmk
  obtain ⟨l, hl, hmk⟩ := List.mem_filterMap.1 hmk
  obtain ⟨topic, -, rfl⟩ := Option.map_eq_some_iff.1 hmk
  exact ⟨eventRow l, List.mem_map_of_mem hl, rfl⟩

end Indexer

/-- The parts of operations. -/
inductive Operation.Part (policy : ConfirmationPolicy) : ⦃α : Type⦄ → Routine α → Prop
  | block (hash : String) : Part policy (Resolve.block policy hash).run
  | transaction (hash : String) : Part policy (Resolve.transaction policy hash).run
  | transactions (hashes : List String) : Part policy (Resolve.transactions policy hashes).run
  | confirmBlocks : Part policy (Resolve.confirmBlocks policy).run
  | store {r : Indexer.Rows} (h : r.Covered) : Part policy (Indexer.store policy r).run
  | reprocess (scope : Derived.AddressScope) : Part policy (Reprocess.scope scope).run
  /-- A question that is not about transactions. -/
  | send {q : Query} (h : q.wanted = []) : Part policy q.send.run
  | access {a : Access} (free : a.isFree = true) (h : a.writesBlocks = false) :
    Part policy a.perform.run

open Attempt (built_part built_pure)
open Operation (Part)

variable {ι : Type} {policy : ConfirmationPolicy}

namespace Indexer

/-- All that an indexer does is built of parts. -/
structure Built (policy : ConfirmationPolicy) (ix : Indexer ι) : Prop where
  find : ∀ addresses first stop, (ix.find addresses first stop).Built (Part policy)
  process : ∀ elements, (ix.process elements).Built (Part policy)
  tracked : ix.tracked.Built (Part policy)

open StateAttempt (built_keeping)

theorem built_frames (policy : ConfirmationPolicy) : (frames policy).Built policy where
  find addresses first stop := by
    unfold frames
    dsimp only
    split
    · exact StateAttempt.built_pure []
    · exact (built_keeping (built_part (.send rfl))).bind fun traces => StateAttempt.built_pure _
  process elements := built_keeping (built_part (.store (covered_frameRows elements)))
  tracked := built_keeping (built_part (.access rfl rfl))

theorem built_events (policy : ConfirmationPolicy) : (events policy).Built policy where
  find addresses first stop := by
    unfold events
    dsimp only
    split
    · exact StateAttempt.built_pure []
    · exact StateAttempt.built_get.bind fun exact_ =>
        (built_keeping (built_part (.send rfl))).bind fun logs => StateAttempt.built_pure _
  process elements := built_keeping (built_part (.store (covered_eventRows elements)))
  tracked := built_keeping (built_part (.access rfl rfl))

theorem Built.replay {ix : Indexer ι} (h : ix.Built policy) (r : Request) :
    (ix.replay r).Built (Part policy) :=
  MadeOf.replay ⟨h.find, h.process, h.tracked⟩ (.send rfl) r

end Indexer

theorem Service.built_indexer (s : Service) : s.indexer.Built s.policy := by
  unfold Service.indexer
  split
  · exact Indexer.built_frames _
  · exact Indexer.built_events _

theorem Reprocess.built_addresses (list : List String) : (addresses list).Built (Part policy) := by
  unfold addresses
  split
  · exact built_pure _
  · exact built_part (.reprocess _)

/-- An operation that leaves the writing of blocks to the engine is built of parts. -/
theorem Operation.built (s : Service) {o : Operation} (h : o.isCall = true) :
    (o.attempt s).Built (Part s.policy) := by
  cases o with
  | block hash => exact built_part (.block hash)
  | transaction hash => exact built_part (.transaction hash)
  | transactions hashes => exact built_part (.transactions hashes)
  | confirmBlocks => exact built_part .confirmBlocks
  | process network exact_ elements =>
    exact ((Service.built_indexer { s with network }).process elements).start exact_
  | replay network exact_ request =>
    exact ((Service.built_indexer { s with network }).replay request).start exact_
  | reindex fromBlock toBlock chunkSize addresses => exact (s.built_indexer.replay _).start false
  | reprocess addresses => exact Reprocess.built_addresses addresses
  | reprocessAll => exact built_part (.reprocess .all)
  | access a free => exact built_part (.access free (Bool.not_eq_true' _ ▸ h))

end ChainIndex
