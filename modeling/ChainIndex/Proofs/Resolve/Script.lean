import ChainIndex.Proofs.Effect.Asking
import ChainIndex.Proofs.Resolve.Order

/-!
# The questions about some hashes

What is asked to resolve many hashes follows a script (`Telling.script`).  Receipts, transactions and blocks
are asked for together, and what a reply lacks or leaves unsettled is asked for once more on its own; the
head comes last.  Nothing is asked twice (`Scripted.nodup`).

To resolve a single hash, at most its receipt, the head, a block and the transaction are looked up
(`seeks_transaction`).
-/

namespace ChainIndex

open Text (canonical)

/-! ## The script -/

namespace Resolve

/-- The questions about what the entries of a reply lack, or do not settle. -/
def again {α : Type} (settles : α → Bool) (ask : String → Query) (entries : List (String × Option α)) :
    List Query :=
  (entries.filter fun e => !e.2.any settles).map fun e => ask e.1

end Resolve

open Resolve

namespace Telling

/-- The name of the block of a transaction, if the entry of a reply has one, or else the reply about the
transaction alone. -/
def blockName? (told : Telling) (e : String × Option Chain.Transaction) : Option String :=
  ((e.2.bind Chain.Transaction.blockHash).or
    ((told (.transaction e.1)).bind Chain.Transaction.blockHash)).map canonical

/-- The names of the blocks of some transactions, each where it comes first. -/
def blockNames (told : Telling) (hashes : List String) : List String :=
  ((entries hashes (told (.transactions hashes))).filterMap told.blockName?).eraseDups

def receiptScript (told : Telling) (hashes : List String) : List Query :=
  .receipts hashes :: again Chain.Receipt.isMined .receipt (entries hashes (told (.receipts hashes)))

def transactionScript (told : Telling) (hashes : List String) : List Query :=
  .transactions hashes ::
    again (fun t => t.blockHash.isSome) .transaction (entries hashes (told (.transactions hashes)))

def blockScript (told : Telling) (names : List String) : List Query :=
  .blocks names :: again (fun _ => true) .block (entries names (told (.blocks names)))

/-- What is asked about some hashes. -/
def script (told : Telling) (hashes : List String) : List Query :=
  told.receiptScript hashes ++ (told.transactionScript hashes ++
    (told.blockScript (told.blockNames hashes) ++ [.head]))

end Telling

namespace Resolve

open Attempt

variable {α : Type} {settles : α → Bool} {ask : String → Query}

theorem again_eq_flatMap (entries : List (String × Option α)) :
    again settles ask entries = entries.flatMap fun e => if e.2.any settles then [] else [ask e.1] := by
  induction entries with
  | nil => rfl
  | cons e rest ih =>
    rw [List.flatMap_cons, ← ih, again, List.filter_cons]
    cases e.2.any settles <;> rfl

/-- No hash is asked about more than once more. -/
theorem again_sublist (settles : α → Bool) (ask : String → Query) (hashes : List String)
    (replies : List (Option α)) : (again settles ask (entries hashes replies)).Sublist (hashes.map ask) := by
  have hmap : (entries hashes replies).map (fun e => ask e.1) = hashes.map ask := by
    rw [← map_fst_entries hashes replies, List.map_map, map_fst_entries]
    rfl
  rw [← hmap]
  exact List.filter_sublist.map _

/-- All questions that may be asked about some hashes and about the blocks of some names. -/
def plan (hashes names : List String) : List Query :=
  (.receipts hashes :: hashes.map .receipt) ++ ((.transactions hashes :: hashes.map .transaction) ++
    ((.blocks names :: names.map .block) ++ [.head]))

theorem nodup_plan {hashes names : List String} (hhashes : hashes.Nodup) (hnames : names.Nodup) :
    (plan hashes names).Nodup := by
  have hphase {many : Query} {ask : String → Query} {xs : List String} (hxs : xs.Nodup)
      (hask : ∀ a b, ask a = ask b → a = b) (hmany : ∀ a, ask a ≠ many) : (many :: xs.map ask).Nodup := by
    refine List.nodup_cons.2 ⟨fun hmem => ?_, hxs.map fun a b => hask a b⟩
    obtain ⟨a, -, ha⟩ := List.mem_map.1 hmem
    exact hmany a ha
  refine (hphase hhashes (fun _ _ => Query.receipt.inj) (by simp)).append
    ((hphase hhashes (fun _ _ => Query.transaction.inj) (by simp)).append
      ((hphase hnames (fun _ _ => Query.block.inj) (by simp)).append (List.nodup_singleton _) ?_) ?_) ?_
  · simp [List.Disjoint]
  · simp [List.Disjoint]
  · simp [List.Disjoint]

/-! ## Settling -/

variable {σ : Type} {N : Answers} {R : Conduct σ} {s : σ} {policy : ConfirmationPolicy} {hash : String}
  {es : List Event} {out : Option Fault}

theorem any_isMined (first : Option Chain.Receipt) :
    first.any Chain.Receipt.isMined = (first.bind minedReceipt?).isSome := by
  cases first with
  | none => rfl
  | some r => exact r.isSome_minedIn?.symm.trans Option.isSome_map.symm

theorem any_isSome_blockHash (first : Option Chain.Transaction) :
    first.any (fun t => t.blockHash.isSome) = (first.bind minedTransaction?).isSome := by
  cases first with
  | none => rfl
  | some t => exact Option.isSome_map.symm

theorem unsettled?_receipt (hash : String) (first : Option Chain.Receipt) :
    (Query.receipt hash).unsettled? first = none ↔ first.any Chain.Receipt.isMined = true := by
  cases first with
  | none => exact ⟨nofun, nofun⟩
  | some r =>
    show (if r.isMined then none else some (Fault.transactionWithoutBlock hash)) = none ↔ r.isMined = true
    cases r.isMined <;> simp

theorem unsettled?_transaction (hash : String) (first : Option Chain.Transaction) :
    (Query.transaction hash).unsettled? first = none ↔ first.any (fun t => t.blockHash.isSome) = true := by
  cases first with
  | none => exact ⟨nofun, nofun⟩
  | some t =>
    show (if t.blockHash.isSome then none else some (Fault.transactionWithoutBlock hash)) = none ↔
      t.blockHash.isSome = true
    cases t.blockHash.isSome <;> simp

theorem unsettled?_block (hash : String) (first : Option Chain.Block) :
    (Query.block hash).unsettled? first = none ↔ first.any (fun _ => true) = true := by
  cases first with
  | none => exact ⟨nofun, nofun⟩
  | some b => exact ⟨fun _ => rfl, fun _ => rfl⟩

/-- The attempt settles a question to which there is a first answer: on something that goes with what is told
if the question is asked once more, or on a fault. -/
def Settles (N : Answers) (R : Conduct σ) (q : Query) (first : q.Reply) (t : Attempt α) (s : σ)
    (V : q.Reply → α → Prop) : Prop :=
  t.Leads N R s (fun a es _ => Settlement q first es none ∧ ∀ told : Telling, told.Agrees es → V (told q) a)
    fun e es _ => Settlement q first es (some e)

section

variable {q : Query} {first : q.Reply} {V : q.Reply → α → Prop}

theorem settles_pure {a : α} (h : q.unsettled? first = none) (hV : ∀ r, V r a) :
    Settles N R q first (pure a) s V :=
  leads_pure ⟨.at_once h, fun told _ => hV (told q)⟩

theorem settles_send {f : q.Reply → Attempt α} (h : q.unsettled? first ≠ none)
    (hf : ∀ r, (∃ a, f r = pure a ∧ q.unsettled? r = none ∧ V r a) ∨
      ∃ fault, f r = throw fault ∧ q.unsettled? r = some fault) :
    Settles N R q first (q.send >>= f) s V := by
  refine leads_bind (leads_send (fun r _ => ?_) fun e _ => .again h rfl)
  rcases hf r with ⟨a, heq, hr, hV⟩ | ⟨fault, heq, hr⟩
  · rw [heq]
    refine leads_pure ⟨.again h hr, fun told htold => ?_⟩
    rwa [htold q r List.mem_cons_self]
  · rw [heq]
    exact Routine.leads_pure (.again h hr)

end

theorem settles_settleReceipt (hash : String) (first : Option Chain.Receipt) (s : σ) :
    Settles N R (.receipt hash) first (settleReceipt hash first) s fun _ _ => True := by
  have hsettled (reply : Option Chain.Receipt) :
      (Query.receipt hash).unsettled? reply = none ↔ (reply.bind minedReceipt?).isSome = true := by
    rw [unsettled?_receipt, any_isMined]
  unfold settleReceipt
  split
  · rename_i found hfound
    exact settles_pure ((hsettled first).2 (Option.isSome_iff_exists.2 ⟨found, hfound⟩)) fun _ => trivial
  · rename_i hnone
    refine settles_send (fun h => ?_) fun reply => ?_
    · rw [hsettled, hnone] at h
      cases h
    · cases reply with
      | none => exact .inr ⟨_, rfl, rfl⟩
      | some r =>
        cases hr : minedReceipt? r with
        | none =>
          have hmined := Bool.eq_false_iff.1 (minedReceipt?_eq_none.1 hr)
          exact .inr ⟨_, by simp only [hr], if_neg hmined⟩
        | some found => exact .inl ⟨found, by simp only [hr], (hsettled (some r)).2 (by simp [hr]), trivial⟩

theorem settles_settleTransaction (hash : String) (first : Option Chain.Transaction) (s : σ) :
    Settles N R (.transaction hash) first (settleTransaction hash first) s fun reply found =>
      (first.bind Chain.Transaction.blockHash).or (reply.bind Chain.Transaction.blockHash) =
        some found.2 := by
  have hsettled (reply : Option Chain.Transaction) :
      (Query.transaction hash).unsettled? reply = none ↔ (reply.bind minedTransaction?).isSome = true := by
    rw [unsettled?_transaction, any_isSome_blockHash]
  -- What is settled on comes with the name of its block.
  have hname {t : Chain.Transaction} {found : Chain.Transaction × String}
      (h : minedTransaction? t = some found) : t.blockHash = some found.2 := by
    obtain ⟨name, hname, rfl⟩ := Option.map_eq_some_iff.1 h
    exact hname
  unfold settleTransaction
  split
  · rename_i found hfound
    refine settles_pure ((hsettled first).2 (Option.isSome_iff_exists.2 ⟨found, hfound⟩)) fun reply => ?_
    obtain ⟨t, rfl, ht⟩ := Option.bind_eq_some_iff.1 hfound
    rw [Option.bind_some, hname ht, Option.some_or]
  · rename_i hnone
    have hfirst : first.bind Chain.Transaction.blockHash = none := by
      cases first with
      | none => rfl
      | some t => exact Option.map_eq_none_iff.1 hnone
    refine settles_send (fun h => ?_) fun reply => ?_
    · rw [hsettled, hnone] at h
      cases h
    · cases reply with
      | none => exact .inr ⟨_, rfl, rfl⟩
      | some t =>
        cases ht : minedTransaction? t with
        | none =>
          have hpending := Bool.eq_false_iff.1 (minedTransaction?_eq_none.1 ht)
          exact .inr ⟨_, by simp only [ht], if_neg hpending⟩
        | some found =>
          refine .inl ⟨found, by simp only [ht], (hsettled (some t)).2 (by simp [ht]), ?_⟩
          rw [hfirst, Option.none_or, Option.bind_some, hname ht]

theorem settles_settleBlock (hash : String) (first : Option Chain.Block) (s : σ) :
    Settles N R (.block hash) first (settleBlock hash first) s fun _ _ => True := by
  unfold settleBlock
  cases first with
  | some b => exact settles_pure rfl fun _ => trivial
  | none =>
    refine settles_send nofun fun reply => ?_
    cases reply with
    | none => exact .inr ⟨_, rfl, rfl⟩
    | some b => exact .inl ⟨b, rfl, rfl, trivial⟩

/-! ## Gathering -/

/-- An entry that settles the question is not asked about, and any other one once. -/
theorem Settles.leads_entry {β : Type} {q : Query} {first : q.Reply} {t : Attempt α} {V : q.Reply → α → Prop}
    (h : Settles N R q first t s V) {settled : Bool} (hsettled : q.unsettled? first = none ↔ settled = true)
    {f : α → β} {P : Telling → β → Prop} (hP : ∀ (told : Telling) a, V (told q) a → P told (f a)) :
    (t >>= fun a => pure (f a)).Leads N R s
      (fun b es _ => questions es = (if settled then [] else [q]) ∧
        ∀ told : Telling, told.Agrees es → P told b)
      fun _ es _ => questions es <+: if settled then [] else [q] := by
  refine leads_bind (Leads.mono h (fun a es _ hend => leads_pure ?_) fun e es _ hend => ?_)
  · rw [List.append_nil]
    exact ⟨hend.1.questions_eq hsettled, fun told htold => hP told a (hend.2 told htold)⟩
  · exact hend.questions_eq hsettled ▸ List.prefix_rfl

theorem leads_gatherReceipts (hashes : List String) (s : σ) :
    (gatherReceipts hashes).Leads N R s
      (fun _ es _ => Followed (.receipts hashes :: hashes.map .receipt) (·.receiptScript hashes) es)
      fun _ es _ => BrokenOff (.receipts hashes :: hashes.map .receipt) (·.receiptScript hashes) es := by
  refine (leads_send_bind (P := fun _ _ _ => True) (again_sublist Chain.Receipt.isMined .receipt hashes)
    fun replies s => ?_).mono (fun _ _ _ hend => hend.1) fun _ _ _ hend => hend
  rw [again_eq_flatMap]
  refine (leads_mapM (P := fun _ _ _ => True) (fun e s => ?_) _ s).mono
    (fun _ _ _ hend => ⟨hend.1, fun _ _ => trivial⟩) fun _ _ _ hend => hend
  exact (settles_settleReceipt e.1 e.2 s).leads_entry (unsettled?_receipt e.1 e.2) fun _ _ => id

theorem leads_gatherTransactions (hashes : List String) (s : σ) :
    (gatherTransactions hashes).Leads N R s
      (fun found es _ =>
        Followed (.transactions hashes :: hashes.map .transaction) (·.transactionScript hashes) es ∧
        ∀ told : Telling, told.Agrees es → told.blockNames hashes = (found.map Prod.snd).eraseDups)
      fun _ es _ =>
        BrokenOff (.transactions hashes :: hashes.map .transaction) (·.transactionScript hashes) es := by
  refine (leads_send_bind
    (P := fun told replies found => (entries hashes replies).filterMap told.blockName? = found.map Prod.snd)
    (again_sublist (fun t => t.blockHash.isSome) .transaction hashes) fun replies s => ?_).mono
    (fun _ _ _ hend => ⟨hend.1, fun told htold => congrArg List.eraseDups (hend.2 told htold)⟩)
    fun _ _ _ hend => hend
  rw [again_eq_flatMap]
  refine (leads_mapM (P := fun told e found => told.blockName? e = some found.2) (fun e s => ?_) _ s).mono
    (fun found _ _ hend => ⟨hend.1, fun told htold => ?_⟩) fun _ _ _ hend => hend
  · exact (settles_settleTransaction e.1 e.2 s).leads_entry (unsettled?_transaction e.1 e.2)
      fun told found hname => congrArg (Option.map canonical) hname
  · exact filterMap_eq_of_forall₂ (List.forall₂_map_right_iff.2 (hend.2 told htold))

theorem leads_gatherBlocks (names : List String) (s : σ) :
    (gatherBlocks names).Leads N R s
      (fun _ es _ => Followed (.blocks names :: names.map .block) (·.blockScript names) es)
      fun _ es _ => BrokenOff (.blocks names :: names.map .block) (·.blockScript names) es := by
  refine (leads_send_bind (P := fun _ _ _ => True) (again_sublist (fun _ => true) .block names)
    fun replies s => ?_).mono (fun _ _ _ hend => hend.1) fun _ _ _ hend => hend
  rw [again_eq_flatMap]
  refine (leads_mapM (P := fun _ _ _ => True) (fun e s => ?_) _ s).mono
    (fun _ _ _ hend => ⟨hend.1, fun _ _ => trivial⟩) fun _ _ _ hend => hend
  exact (settles_settleBlock e.1 e.2 s).leads_entry (unsettled?_block e.1 e.2) fun _ _ => id

/-- Gathering follows the script. -/
theorem leads_gather (hashes : List String) (s : σ) :
    (gather hashes).Leads N R s
      (fun _ es _ => ∃ names : List String, names.Nodup ∧ Followed (plan hashes names) (·.script hashes) es)
      fun _ es _ => ∃ names : List String, names.Nodup ∧
        BrokenOff (plan hashes names) (·.script hashes) es := by
  refine leads_bind ((leads_gatherReceipts hashes s).mono (fun _ es₁ s₁ h₁ => ?_) fun _ es₁ _ h₁ =>
    ⟨[], List.nodup_nil, h₁.append _ _⟩)
  refine leads_bind ((leads_gatherTransactions hashes s₁).mono (fun found es₂ s₂ h₂ => ?_)
    fun _ es₂ _ h₂ => ⟨[], List.nodup_nil, h₁.append_brokenOff (h₂.append _ _)⟩)
  obtain ⟨h₂, hnames⟩ := h₂
  -- The names of the blocks are those that the script has, whoever tells what was answered.
  have hscript {es : List Event} (told : Telling) (htold : told.Agrees (es₁ ++ (es₂ ++ es))) :
      told.receiptScript hashes ++ (told.transactionScript hashes ++
        (told.blockScript (found.map Prod.snd).eraseDups ++ [.head])) = told.script hashes := by
    rw [← hnames told (Telling.agrees_append.1 (Telling.agrees_append.1 htold).2).1]
    rfl
  refine leads_bind ((leads_gatherBlocks _ s₂).mono (fun _ es₃ s₃ h₃ => ?_) fun _ es₃ _ h₃ => ?_)
  · have hhead (r : Except Fault UInt64) : Followed [.head] (fun _ => [.head]) [.asked .head r] :=
      ⟨.refl _, fun _ _ => rfl⟩
    refine leads_bind (leads_send (fun head _ => leads_pure ?_) fun e _ => ?_)
    · exact ⟨_, nodup_eraseDups _, (h₁.append (h₂.append (h₃.append (hhead _)))).congr hscript⟩
    · exact ⟨_, nodup_eraseDups _, (h₁.append (h₂.append (h₃.append (hhead _)))).brokenOff.congr hscript⟩
  · exact ⟨_, nodup_eraseDups _, (h₁.append_brokenOff (h₂.append_brokenOff (h₃.append _ _))).congr hscript⟩

/-! ## Many hashes -/

theorem leads_fetch (hashes : List String) (s : σ) :
    (fetch policy hashes).Leads N R s
      (fun _ es _ => ∃ names : List String, names.Nodup ∧ Followed (plan hashes names) (·.script hashes) es)
      fun _ es _ => ∃ names : List String, names.Nodup ∧
        BrokenOff (plan hashes names) (·.script hashes) es := by
  refine leads_bind ((leads_gather hashes s).mono (fun g es s₁ hend => ?_) fun _ _ _ hend => hend)
  obtain ⟨names, hnames, hfollowed⟩ := hend
  have honly : (storeFound policy g [] g.found).Only Move.isAct :=
    only_storeFound (fun _ _ => rfl) g [] g.found
  refine (honly.leads_questions s₁).mono
    (fun _ es' _ hes' => ?_) fun _ es' _ hes' => ?_
  · exact ⟨names, hnames, hfollowed.append_silent hes'⟩
  · exact ⟨names, hnames, (hfollowed.append_silent hes').brokenOff⟩

/-- What is asked when a store says which rows of some hashes are known: nothing if it fails or none is
missing, and about the missing ones otherwise. -/
inductive Scripted (F : List Query → (Telling → List Query) → List Event → Prop) (hashes : List String)
    (es : List Event) : Except Fault (List Ledger.Transaction) → Prop
  | failed {e} (h : questions es = []) : Scripted F hashes es (.error e)
  | none_missing {known} (hnone : missing known hashes = []) (h : questions es = []) :
    Scripted F hashes es (.ok known)
  | some_missing {known} {names : List String} (hsome : missing known hashes ≠ []) (hnames : names.Nodup)
    (h : F (plan (missing known hashes) names) (·.script (missing known hashes)) es) :
    Scripted F hashes es (.ok known)

section

variable {F : List Query → (Telling → List Query) → List Event → Prop} {hashes : List String}
  {answer : Except Fault (List Ledger.Transaction)} {known : List Ledger.Transaction}

theorem Scripted.questions_of_error {e : Fault} (h : Scripted F hashes es (.error e)) :
    questions es = [] := by
  cases h with
  | failed h => exact h

theorem Scripted.questions_of_none_missing (h : Scripted F hashes es (.ok known))
    (hnone : missing known hashes = []) : questions es = [] := by
  cases h with
  | none_missing _ h => exact h
  | some_missing hsome => exact absurd hnone hsome

theorem Scripted.of_some_missing (h : Scripted F hashes es (.ok known)) (hsome : missing known hashes ≠ []) :
    ∃ names, F (plan (missing known hashes) names) (·.script (missing known hashes)) es := by
  cases h with
  | none_missing hnone => exact absurd hnone hsome
  | @some_missing _ names _ _ h => exact ⟨names, h⟩

theorem Scripted.brokenOff (h : Scripted Followed hashes es answer) :
    Scripted BrokenOff hashes es answer := by
  cases h with
  | failed h => exact .failed h
  | none_missing hnone h => exact .none_missing hnone h
  | some_missing hsome hnames h => exact .some_missing hsome hnames h.brokenOff

/-- Nothing is asked twice. -/
theorem Scripted.nodup (h : Scripted BrokenOff hashes es answer) : (questions es).Nodup := by
  cases h with
  | failed h | none_missing _ h =>
    rw [h]
    exact List.nodup_nil
  | @some_missing known names _ hnames h =>
    have hmissing : (missing known hashes).Nodup := (nodup_distinct hashes).filter _
    exact h.sublist.nodup (nodup_plan hmissing hnames)

end

theorem leads_transactions (store : Store σ) (hashes : List String) (s : σ) :
    (transactions policy hashes).Leads N store.conduct s
      (fun _ es _ => Scripted Followed hashes es
        (store.perform (.access (.getMined (distinct hashes))) s).1)
      fun _ es _ => Scripted BrokenOff hashes es
        (store.perform (.access (.getMined (distinct hashes))) s).1 := by
  rw [transactions_eq]
  split
  · rename_i hempty
    refine leads_pure ?_
    cases (store.perform (.access (.getMined (distinct hashes))) s).1 with
    | error e => exact .failed rfl
    | ok known =>
      refine .none_missing ?_ rfl
      rw [missing, List.isEmpty_iff.1 hempty, List.filter_nil]
  · refine leads_bind (leads_perform (a := .access _) fun answer s₁ hR => ?_)
    have hanswer : (store.perform (.access (.getMined (distinct hashes))) s).1 = answer :=
      congrArg Prod.fst hR
    rw [hanswer]
    cases answer with
    | error e => exact .failed rfl
    | ok known =>
      have hrows (rows : List Ledger.Transaction) (s : σ) :
          (rowsOf rows (distinct hashes)).Leads N store.conduct s (fun _ es _ => questions es = [])
            fun _ es _ => questions es = [] :=
        (only_rowsOf _ _ _).leads_questions s
      have hlookup : Followed [] (fun _ => [])
          [.did (.access (.getMined (distinct hashes))) (.ok known)] := ⟨.slnil, fun _ _ => rfl⟩
      show Attempt.Leads N store.conduct (if _ then _ else _) s₁ _ _
      split
      · rename_i hempty
        have hnone := List.isEmpty_iff.1 hempty
        exact (hrows known s₁).mono (fun _ _ _ hes => .none_missing hnone hes)
          fun _ _ _ hes => .none_missing hnone hes
      · rename_i hempty
        have hsome : missing known hashes ≠ [] := fun hnil => hempty (List.isEmpty_iff.2 hnil)
        refine leads_bind ((leads_fetch (missing known hashes) s₁).mono (fun fetched es s₂ hend => ?_)
          fun _ es _ hend => ?_)
        · obtain ⟨names, hnames, hfollowed⟩ := hend
          refine (hrows (known ++ fetched) s₂).mono (fun _ es' _ hes' => .some_missing hsome hnames ?_)
            fun _ es' _ hes' => .some_missing hsome hnames ?_
          · exact hlookup.append (hfollowed.append_silent hes')
          · exact (hlookup.append (hfollowed.append_silent hes')).brokenOff
        · obtain ⟨names, hnames, hbrokenOff⟩ := hend
          exact .some_missing hsome hnames (hlookup.append_brokenOff hbrokenOff)

/-! ## A single hash -/

theorem seeks_head (s : σ) : Query.head.send.Seeks N R s (· = [.head]) := by
  rw [← bind_pure Query.head.send]
  exact seeks_lookUp fun head s => leads_pure (.at_once rfl)

theorem seeks_block (name : String) (s : σ) :
    (block policy name).Seeks N R s fun qs => qs.Sublist [.head, .block (canonical name)] := by
  have hstored (a : Access) (s : σ) : a.perform.Seeks N R s (· = []) :=
    (only_perform (P := Move.isAct) rfl).seeks rfl
  unfold block
  refine (hstored _ s).bind (Q := fun qs => qs.Sublist [.head, .block (canonical name)])
    (fun stored s => ?_) (List.nil_sublist _) fun qs qs' hqs hqs' => by rwa [hqs]
  cases stored with
  | some b => exact seeks_pure (List.nil_sublist _)
  | none =>
    refine (seeks_head s).bind (Q := fun qs => qs.Sublist [.block (canonical name)]) (fun head s => ?_)
      (List.nil_sublist _) fun qs qs' hqs hqs' => hqs ▸ hqs'.cons_cons _
    rw [← bind_assoc]
    refine (seeks_lookUp fun first s => ?_).bind (Q := (· = [])) (fun found s => hstored _ s) rfl
      fun qs qs' hqs hqs' => ?_
    · exact (settles_settleBlock _ first s).mono (fun _ _ _ hend => hend.1) fun _ _ _ hend => hend
    · rw [hqs, hqs']
      exact .refl _

theorem seeks_receiptAndBlock (hash : String) (s : σ) :
    (receiptAndBlock policy hash).Seeks N R s fun qs =>
      ∃ name : String, qs.Sublist [.receipt hash, .head, .block name] := by
  unfold receiptAndBlock
  rw [← bind_assoc]
  refine (seeks_lookUp fun first s => ?_).bind
    (Q := fun qs => ∃ name : String, qs.Sublist [.head, .block name]) (fun settled s => ?_)
    ⟨"", List.nil_sublist _⟩ fun qs qs' hqs hqs' => ?_
  · exact (settles_settleReceipt hash first s).mono (fun _ _ _ hend => hend.1) fun _ _ _ hend => hend
  · refine (seeks_block settled.2 s).bind (Q := (· = [])) (fun b s => seeks_pure rfl) rfl
      fun qs qs' hqs hqs' => ⟨canonical settled.2, ?_⟩
    rwa [hqs', List.append_nil]
  · obtain ⟨name, hname⟩ := hqs'
    exact ⟨name, hqs ▸ hname.cons_cons _⟩

/-- At most the receipt of a hash, the head, a block and the transaction are looked up. -/
def LooksUp (hash : String) (qs : List Query) : Prop :=
  ∃ name : String, qs.Sublist [.receipt hash, .head, .block name, .transaction hash]

theorem looksUp_nil (hash : String) : LooksUp hash [] := ⟨"", List.nil_sublist _⟩

theorem seeks_transaction (hash : String) (s : σ) :
    (transaction policy hash).Seeks N R s (LooksUp (canonical hash)) := by
  have hsettled {f : Chain.Receipt × Ledger.Block → Attempt Ledger.Transaction} (s : σ)
      (hf : ∀ settled s, (f settled).Seeks N R s fun qs => qs.Sublist [.transaction (canonical hash)]) :
      (receiptAndBlock policy (canonical hash) >>= f).Seeks N R s (LooksUp (canonical hash)) := by
    refine (seeks_receiptAndBlock _ s).bind hf (List.nil_sublist _) fun qs qs' hqs hqs' => ?_
    obtain ⟨name, hname⟩ := hqs
    exact ⟨name, hname.append hqs'⟩
  unfold transaction
  have hstored (a : Access) : a.perform.Seeks N R s (· = []) :=
    (only_perform (P := Move.isAct) rfl).seeks rfl
  refine (hstored _).bind (Q := LooksUp (canonical hash)) (fun stored s => ?_) (looksUp_nil _)
    fun qs qs' hqs hqs' => by rwa [hqs]
  cases stored with
  | some row =>
    dsimp only
    split
    · exact seeks_pure (looksUp_nil _)
    · exact hsettled s fun settled s =>
        (only_perform (P := Move.isAct) rfl).seeks (List.nil_sublist _)
  | none =>
    refine hsettled s fun settled s => ?_
    dsimp only
    rw [← bind_assoc]
    refine (seeks_lookUp fun first s => ?_).bind (Q := (· = []))
      (fun found s => (only_createOrLink fun _ _ => rfl).seeks rfl) rfl fun qs qs' hqs hqs' => ?_
    · exact (settles_settleTransaction _ first s).mono (fun _ _ _ hend => hend.1) fun _ _ _ hend => hend
    · rw [hqs, hqs']
      exact .refl _

end Resolve

end ChainIndex
