import ChainIndex.Proofs.Effect.Order
import ChainIndex.Proofs.Resolve.Counting

/-!
# Many hashes are gathered before they are stored

Gathering does nothing but ask, and stops at the first answer that settles nothing.  Storing asks nothing.
A question about many hashes therefore asks all that it asks before it writes anything.
-/

namespace ChainIndex.Resolve

open Attempt

variable {policy : ConfirmationPolicy} {hashes : List String} {P : Move → Bool}

/-! ## Asking once more -/

theorem asksAbout_singleton {hash : String} (h : hash ∈ hashes) :
    [hash].all hashes.contains = true := by
  rw [List.all_cons, List.all_nil, Bool.and_true]
  exact List.contains_iff_mem.2 h

theorem asksAbout_self (hashes : List String) : hashes.all hashes.contains = true :=
  List.all_eq_true.2 fun _ hmem => List.contains_iff_mem.2 hmem

theorem only_settleReceipt {hash : String} (h : P (.ask (.receipt hash)) = true)
    (first : Option Chain.Receipt) : (settleReceipt hash first).Only P := by
  unfold settleReceipt
  split
  · exact only_pure _
  · refine (only_send h).bind fun reply => ?_
    cases reply with
    | none => exact only_throw _
    | some r =>
      dsimp only
      split
      · exact only_pure _
      · exact only_throw _

theorem only_settleTransaction {hash : String} (h : P (.ask (.transaction hash)) = true)
    (first : Option Chain.Transaction) : (settleTransaction hash first).Only P := by
  unfold settleTransaction
  split
  · exact only_pure _
  · refine (only_send h).bind fun reply => ?_
    cases reply with
    | none => exact only_throw _
    | some t =>
      dsimp only
      split
      · exact only_pure _
      · exact only_throw _

theorem only_settleBlock {hash : String} (h : P (.ask (.block hash)) = true)
    (first : Option Chain.Block) : (settleBlock hash first).Only P := by
  unfold settleBlock
  split
  · exact only_pure _
  · refine (only_send h).bind fun reply => ?_
    cases reply with
    | none => exact only_throw _
    | some b => exact only_pure b

theorem stopsAtFault_settleReceipt (hash : String) (first : Option Chain.Receipt) :
    (settleReceipt hash first).StopsAtFault := by
  unfold settleReceipt
  split
  · exact stopsAtFault_pure _
  · refine stopsAtFault_send (fun reply fault hfault => ?_) fun reply => ?_
    · cases reply with
      | none =>
        cases hfault
        rfl
      | some r =>
        replace hfault : (if r.isMined then none else some (Fault.transactionWithoutBlock hash)) =
          some fault := hfault
        split at hfault
        · cases hfault
        · rename_i hmined
          cases hfault
          simp only [minedReceipt?_eq_none.2 (Bool.not_eq_true _ ▸ hmined)]
    · cases reply with
      | none => exact stopsAtFault_throw _
      | some r =>
        dsimp only
        split
        · exact stopsAtFault_pure _
        · exact stopsAtFault_throw _

theorem stopsAtFault_settleTransaction (hash : String) (first : Option Chain.Transaction) :
    (settleTransaction hash first).StopsAtFault := by
  unfold settleTransaction
  split
  · exact stopsAtFault_pure _
  · refine stopsAtFault_send (fun reply fault hfault => ?_) fun reply => ?_
    · cases reply with
      | none =>
        cases hfault
        rfl
      | some t =>
        replace hfault : (if t.blockHash.isSome then none else
          some (Fault.transactionWithoutBlock hash)) = some fault := hfault
        split at hfault
        · cases hfault
        · rename_i hnamed
          cases hfault
          simp only [minedTransaction?_eq_none.2 (Bool.not_eq_true _ ▸ hnamed)]
    · cases reply with
      | none => exact stopsAtFault_throw _
      | some t =>
        dsimp only
        split
        · exact stopsAtFault_pure _
        · exact stopsAtFault_throw _

theorem stopsAtFault_settleBlock (hash : String) (first : Option Chain.Block) :
    (settleBlock hash first).StopsAtFault := by
  unfold settleBlock
  split
  · exact stopsAtFault_pure _
  · refine stopsAtFault_send (fun reply fault hfault => ?_) fun reply => ?_
    · cases reply with
      | none =>
        cases hfault
        rfl
      | some b => cases hfault
    · cases reply with
      | none => exact stopsAtFault_throw _
      | some b => exact stopsAtFault_pure b

/-! ## Gathering -/

theorem only_gather_of (hP : ∀ q, q.isSearch = false → q.wanted.all hashes.contains = true →
    P (.ask q) = true) : (gather hashes).Only P := by
  refine Only.bind (Only.bind (only_send (hP _ rfl (asksAbout_self _))) fun replies => only_mapM fun e he =>
    (only_settleReceipt (hP _ rfl (asksAbout_singleton (fst_mem_of_mem_entries he))) _).bind
      fun _ => only_pure _) fun receipts => ?_
  refine Only.bind (Only.bind (only_send (hP _ rfl (asksAbout_self _))) fun replies => only_mapM fun e he =>
    (only_settleTransaction (hP _ rfl (asksAbout_singleton (fst_mem_of_mem_entries he))) _).bind
      fun _ => only_pure _) fun transactions => ?_
  refine Only.bind (Only.bind (only_send (hP _ rfl rfl)) fun replies => only_mapM fun e _ =>
    (only_settleBlock (hP _ rfl rfl) _).bind fun _ => only_pure _) fun blocks => ?_
  exact (only_send (hP _ rfl rfl)).bind fun head => only_pure _

/-- Gathering does nothing but ask, and about no other transactions. -/
theorem only_gather (hashes : List String) : (gather hashes).Only (Move.asksAbout hashes) :=
  only_gather_of fun _ _ h => h

/-- A question to which every reply settles something may be followed by anything that stops as it
should. -/
theorem stopsAtFault_query {α : Type} {q : Query} {f : q.Reply → Attempt α}
    (hq : ∀ r, q.unsettled? r = none) (hf : ∀ r, (f r).StopsAtFault) : StopsAtFault (q.send >>= f) :=
  stopsAtFault_send (fun r _ hfault => absurd ((hq r).symm.trans hfault) nofun) hf

/-- What a reply about many hashes lacks is asked for once more, and that is final. -/
theorem stopsAtFault_gather (hashes : List String) : (gather hashes).StopsAtFault := by
  refine StopsAtFault.bind (stopsAtFault_query (fun _ => rfl) fun replies => stopsAtFault_mapM
    (fun e => (stopsAtFault_settleReceipt _ _).bind fun _ => stopsAtFault_pure _) _) fun receipts => ?_
  refine StopsAtFault.bind (stopsAtFault_query (fun _ => rfl) fun replies => stopsAtFault_mapM
    (fun e => (stopsAtFault_settleTransaction _ _).bind fun _ => stopsAtFault_pure _) _)
    fun transactions => ?_
  refine StopsAtFault.bind (stopsAtFault_query (fun _ => rfl) fun replies => stopsAtFault_mapM
    (fun e => (stopsAtFault_settleBlock _ _).bind fun _ => stopsAtFault_pure _) _) fun blocks => ?_
  exact stopsAtFault_query (fun _ => rfl) fun head => stopsAtFault_pure _

/-! ## Storing -/

theorem only_createOrLink {t : Chain.Transaction} {r : Chain.Receipt} {b : Ledger.Block}
    (hP : ∀ a : Access, a.isLedger = true → P (.act (.access a)) = true) : (createOrLink t r b).Only P := by
  refine Only.tryCatch (only_perform (hP _ rfl)) fun fault => ?_
  split
  · exact only_perform (hP _ rfl)
  · exact only_throw fault

theorem only_storeFound (hP : ∀ a : Access, a.isLedger = true → P (.act (.access a)) = true) (g : Gathered)
    (stored : List (String × Ledger.Block)) (found : List Found) :
    (storeFound policy g stored found).Only P := by
  induction found generalizing stored with
  | nil => exact only_pure []
  | cons f rest ih =>
    rw [storeFound]
    split
    · exact (only_createOrLink hP).bind fun row => (ih _).bind fun rows => only_pure _
    · split
      · exact only_throw _
      · exact (only_perform (hP _ rfl)).bind fun b =>
          (only_createOrLink hP).bind fun row => (ih _).bind fun rows => only_pure _

theorem only_rowsOf (P : Move → Bool) (rows : List Ledger.Transaction) (hashes : List String) :
    (rowsOf rows hashes).Only P := by
  refine only_mapM fun hash _ => ?_
  split
  · exact only_pure _
  · exact only_throw _

/-! ## Single hashes -/

theorem only_block (hash : String) : (block policy hash).Only Move.isBlockwise := by
  refine (only_perform rfl).bind fun stored => ?_
  cases stored with
  | some b => exact only_pure b
  | none =>
    exact (only_send rfl).bind fun head => (only_send rfl).bind fun first =>
      (only_settleBlock rfl first).bind fun found => only_perform rfl

theorem only_receiptAndBlock (hash : String) : (receiptAndBlock policy hash).Only Move.isBlockwise :=
  (only_send rfl).bind fun first => (only_settleReceipt rfl first).bind fun settled =>
    (only_block settled.2).bind fun b => only_pure (settled.1, b)

theorem only_transaction (hash : String) : (transaction policy hash).Only Move.isLedger := by
  have hsettled : (receiptAndBlock policy (Text.canonical hash)).Only Move.isLedger :=
    Routine.Only.imp (only_receiptAndBlock _) Move.isLedger_of_isBlockwise
  refine (only_perform rfl).bind fun stored => ?_
  cases stored with
  | some row =>
    dsimp only
    split
    · exact only_pure row
    · exact hsettled.bind fun settled => only_perform rfl
  | none =>
    exact hsettled.bind fun settled => (only_send rfl).bind fun first =>
      (only_settleTransaction rfl first).bind fun found => only_createOrLink fun _ ha => ha

theorem only_confirmBlocks : (confirmBlocks policy).Only Move.isBlockwise := by
  refine (only_send rfl).bind fun head => ?_
  cases policy.tip? head with
  | none => exact only_pure 0
  | some tip => exact only_perform rfl

/-! ## Many hashes -/

theorem asksFirst_fetch (hashes : List String) : (fetch policy hashes).AsksFirst :=
  Only.bind_asksFirst (Routine.Only.imp (only_gather hashes) Move.isAsk_of_asksAbout) fun g =>
    (only_storeFound (fun _ _ => rfl) g [] g.found).asksFirst

theorem stopsAtFault_fetch (hashes : List String) : (fetch policy hashes).StopsAtFault :=
  (stopsAtFault_gather hashes).bind fun g => (only_storeFound (fun _ _ => rfl) g [] g.found).stopsAtFault

/-- Many hashes are resolved by nothing but what concerns blocks and transactions. -/
theorem only_transactions (hashes : List String) :
    (transactions policy hashes).Only Move.isLedger := by
  unfold transactions
  dsimp only
  split
  · exact only_pure []
  · refine (only_perform rfl).bind fun known => ?_
    split
    · exact only_rowsOf _ known _
    · refine Only.bind (Only.bind (only_gather_of fun q hq _ => ?_) fun g =>
        only_storeFound (fun _ ha => ha) g [] g.found) fun fetched => only_rowsOf _ _ _
      rw [Move.isLedger, hq, Bool.not_false]

/-- All questions about many hashes come before the first write. -/
theorem asksFirst_transactions (hashes : List String) : (transactions policy hashes).AsksFirst := by
  unfold transactions
  dsimp only
  split
  · exact Only.asksFirst (only_pure [])
  · refine asksFirst_perform (a := .access _) rfl fun known => ?_
    split
    · exact (only_rowsOf _ known _).asksFirst
    · exact (asksFirst_fetch _).bind fun fetched => only_rowsOf _ _ _

theorem stopsAtFault_transactions (hashes : List String) : (transactions policy hashes).StopsAtFault := by
  unfold transactions
  dsimp only
  split
  · exact stopsAtFault_pure []
  · refine (only_perform (a := .access _) rfl).stopsAtFault.bind fun known => ?_
    split
    · exact (only_rowsOf _ known _).stopsAtFault
    · exact (stopsAtFault_fetch _).bind fun fetched => (only_rowsOf _ _ _).stopsAtFault

end ChainIndex.Resolve
