import ChainIndex.Proofs.Effect.Built
import ChainIndex.Service

/-!
# What replays are made of

If finding elements, storing them and looking up the tracked addresses are built of some parts, then so is
a replay, window after window (`Indexer.MadeOf.replay`).
-/

namespace ChainIndex.Indexer

variable {ι : Type} {Part : ⦃α : Type⦄ → Routine α → Prop} {ix : Indexer ι}

/-- All that an indexer does is built of some parts. -/
structure MadeOf (Part : ⦃α : Type⦄ → Routine α → Prop) (ix : Indexer ι) : Prop where
  find : ∀ addresses first stop, (ix.find addresses first stop).Built Part
  process : ∀ elements, (ix.process elements).Built Part
  tracked : ix.tracked.Built Part

/-- The windows are built one after the other. -/
theorem MadeOf.sweep (h : ix.MadeOf Part) (addresses : List String) (stop : UInt64)
    (size : { size : UInt64 // 0 < size }) (cursor : UInt64) (report : Report) :
    (ix.sweep addresses stop size cursor report).Built Part := by
  fun_induction Indexer.sweep ix addresses stop size cursor report with
  | case1 cursor report hlt next =>
    rename_i ih
    exact (h.find addresses cursor next).bind fun elements => (h.process elements).bind fun processed =>
      ih elements processed
  | case2 cursor report hle => exact StateAttempt.built_pure report

theorem MadeOf.chooseAddresses (h : ix.MadeOf Part) (r : Request) :
    (ix.chooseAddresses r).Built Part := by
  unfold Indexer.chooseAddresses
  split
  · exact (StateAttempt.built_modify _).bind fun _ => StateAttempt.built_pure _
  · exact (StateAttempt.built_modify _).bind fun _ => h.tracked

theorem MadeOf.replay (h : ix.MadeOf Part) (hhead : Part Query.head.send.run) (r : Request) :
    (ix.replay r).Built Part := by
  refine (StateAttempt.built_except _).bind fun size => (h.chooseAddresses r).bind fun addresses => ?_
  split
  · exact StateAttempt.built_pure _
  · refine (StateAttempt.built_keeping (Attempt.built_part hhead)).bind fun head => ?_
    exact h.sweep _ _ _ _ _

end ChainIndex.Indexer
