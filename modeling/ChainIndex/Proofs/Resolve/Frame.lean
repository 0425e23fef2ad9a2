import ChainIndex.Proofs.Resolve.Spelling
import ChainIndex.Proofs.Store.Frame

/-!
# The rows that resolving writes

A row is written under the hash that the node's reply carries, whatever hash was asked for: only a
transaction that was stored while pending is written under the hash that was asked for.  `WritesOnly` says
that every row that is written is under a key that was reached by what the node has told so far, and no
unit of work is opened.
-/

namespace ChainIndex

open Text (canonical)

/-- What keys may be written, given what has been told. -/
abbrev Reach := Answers → Key → Prop

/-- The guard of moves that write rows under reached keys only. -/
def WithinReach {σ : Type} (K : Reach) : Guard σ
  | es, _, .act (.access a) => ∀ key, a.Writes key → K (heardIn es) key
  | _, _, .act _ => False
  | _, _, .ask _ => True

namespace Resolve

open Attempt

variable {σ : Type} {R : Conduct σ} {K : Reach} {es : List Event} {s : σ} {policy : ConfirmationPolicy}
  {hash : String} {α β : Type}

/-- Every row is written under a key that is reached by what was told before. -/
def WritesOnly (R : Conduct σ) (K : Reach) (t : Attempt α) (es : List Event) (s : σ) : Prop :=
  t.Guarded R (WithinReach K) es s (fun _ _ _ => True) fun _ _ _ => True

theorem writesOnly_pure (a : α) : WritesOnly R K (pure a) es s := guarded_pure trivial

theorem writesOnly_throw (e : Fault) : WritesOnly R K (throw e : Attempt α) es s := guarded_throw trivial

theorem WritesOnly.bind {t : Attempt α} {f : α → Attempt β} (ht : WritesOnly R K t es s)
    (hf : ∀ a es' s', es <+: es' → WritesOnly R K (f a) es' s') : WritesOnly R K (t >>= f) es s :=
  guarded_bind (ht.mono (fun a es' s' _ hes' => hf a es' s' hes') fun _ _ _ _ => trivial)

theorem writesOnly_access {a : Access} (h : ∀ key, a.Writes key → K (heardIn es) key) :
    WritesOnly R K a.perform es s :=
  guarded_perform (a := .access a) h fun r _ _ => by cases r <;> trivial

theorem writesOnly_send_bind {q : Query} {f : q.Reply → Attempt β}
    (hf : ∀ a es', es <+: es' → heardIn es' q (.ok a) → WritesOnly R K (f a) es' s) :
    WritesOnly R K (q.send >>= f) es s :=
  guarded_bind (guarded_send trivial
    (fun a hes' => hf a _ hes' (List.mem_append_right _ List.mem_cons_self)) fun _ => trivial)

theorem writesOnly_of_only {hashes : List String} {t : Attempt α} (ht : t.Only (Move.asksAbout hashes)) :
    WritesOnly R K t es s :=
  Routine.Only.guarded ht (fun _ => Move.isAsk_of_asksAbout) (fun _ _ _ => trivial)
    fun r _ => by cases r <;> trivial

theorem writesOnly_only_bind {hashes : List String} {T : α → Answers → Prop} {t : Attempt α}
    {f : α → Attempt β} (ht : t.Only (Move.asksAbout hashes))
    (hT : ∀ es', es <+: es' → t.Ensures (heardIn es') R (fun _ _ _ => True) s
      (fun a _ => T a (heardIn es')) fun _ _ => True)
    (hf : ∀ a es', es <+: es' → T a (heardIn es') → WritesOnly R K (f a) es' s) :
    WritesOnly R K (t >>= f) es s :=
  guarded_bind (Only.guarded ht (fun _ => Move.isAsk_of_asksAbout) (fun _ _ _ => trivial) hT
    (fun a es' ha hes' => hf a es' hes' ha) fun _ _ => trivial)

/-! ## Blocks -/

/-- Of a block that is told for a hash from now on, the key is reached. -/
def ReachesBlock (K : Reach) (es : List Event) (hash : String) : Prop :=
  ∀ es', es <+: es' → ∀ c, (heardIn es').TellsBlock hash c → K (heardIn es') (.block c.hash)

theorem ReachesBlock.mono {es' : List Event} (h : ReachesBlock K es hash) (hes : es <+: es') :
    ReachesBlock K es' hash :=
  fun es'' hes' => h es'' (hes.trans hes')

theorem writesOnly_storeBlock {c : Chain.Block} {head : UInt64} (hc : K (heardIn es) (.block c.hash)) :
    WritesOnly R K (storeBlock policy head c) es s :=
  writesOnly_access fun key hkey => by
    obtain rfl : key = .block c.hash := hkey
    exact hc

theorem writesOnly_block (hK : ReachesBlock K es (canonical hash)) :
    WritesOnly R K (block policy hash) es s := by
  refine WritesOnly.bind (writesOnly_access fun _ => False.elim) fun b? es₁ s₁ hes₁ => ?_
  cases b? with
  | some b => exact writesOnly_pure b
  | none =>
    refine writesOnly_send_bind fun head es₂ hes₂ _ => writesOnly_send_bind fun first es₃ hes₃ hfirst => ?_
    have hsettle : (settleBlock (canonical hash) first).Only (Move.asksAbout []) :=
      only_settleBlock rfl first
    refine writesOnly_only_bind (T := fun c N => N.TellsBlock (canonical hash) c) hsettle
      (fun es' hes' => ?_) fun c es₄ hes₄ hc => ?_
    · exact ensures_settleBlock (fun c hc => .inl (hc ▸ hes'.subset hfirst)) (fun c hc => hc)
        fun _ _ => trivial
    · exact writesOnly_storeBlock (hK es₄ (hes₁.trans (hes₂.trans (hes₃.trans hes₄))) c hc)

/-! ## Transactions -/

/-- Of a block that is told for the name in a receipt of a hash, the key is reached. -/
def ReachesReceipted (K : Reach) (hash : String) : Prop :=
  ∀ N r name c, N.TellsReceipt hash r → r.blockHash = some name → N.TellsBlock (canonical name) c →
    K N (.block c.hash)

theorem blockHash_of_minedIn? {r : Chain.Receipt} {name : String} (h : r.minedIn? = some name) :
    r.blockHash = some name := by
  unfold Chain.Receipt.minedIn? at h
  split at h
  · exact h
  · cases h

theorem writesOnly_receiptAndBlock (hK : ReachesReceipted K hash) :
    WritesOnly R K (receiptAndBlock policy hash) es s := by
  refine writesOnly_send_bind fun first es₁ _ hfirst => ?_
  refine writesOnly_only_bind
    (T := fun r N => N.TellsReceipt hash r.1 ∧ r.1.blockHash = some r.2)
    (only_settleReceipt (asksAbout_self [hash]) first) (fun es' hes' => ?_) fun r es₂ _ hr => ?_
  · exact ensures_settleReceipt (fun r hr => .inl (hr ▸ hes'.subset hfirst))
      (fun r name hr hname => ⟨hr, blockHash_of_minedIn? hname⟩) fun _ _ => trivial
  · have hblock : ReachesBlock K es₂ (canonical r.2) := fun es' hes' c hc =>
      hK _ r.1 r.2 c (hr.1.mono (heardIn_mono hes')) hr.2 hc
    exact (writesOnly_block hblock).bind fun b _ _ _ => writesOnly_pure (r.1, b)

/-- A transaction is written under its own hash, whether it is new or another writer stored it first. -/
theorem writesOnly_createOrLink {t : Chain.Transaction} {r : Chain.Receipt} {b : Ledger.Block}
    (hK : ∀ es', es <+: es' → K (heardIn es') (.transaction t.hash)) :
    WritesOnly R K (createOrLink t r b) es s := by
  have hcreate : ∀ key, (Access.createTransaction t r b).Writes key → K (heardIn es) key := by
    rintro key rfl
    exact hK es (List.prefix_refl es)
  refine guarded_tryCatch (guarded_perform (a := .access _) hcreate fun reply s₁ _ => ?_)
  cases reply with
  | ok row => trivial
  | error e =>
    show WritesOnly R K (if e.isDuplicate = true then _ else _) _ s₁
    split
    · refine writesOnly_access fun key hkey => ?_
      obtain rfl : key = .transaction t.hash := hkey
      exact hK _ (List.prefix_append es _)
    · exact writesOnly_throw e

/-- What the key of a transaction that is resolved may be: the hash that was asked for, or the hash of a
transaction that was told for it. -/
def ReachesTransaction (K : Reach) (hash : String) : Prop :=
  (∀ N, K N (.transaction hash)) ∧ ∀ N t, N.TellsTransaction hash t → K N (.transaction t.hash)

theorem writesOnly_transaction (hreceipt : ReachesReceipted K (canonical hash))
    (hK : ReachesTransaction K (canonical hash)) : WritesOnly R K (transaction policy hash) es s := by
  obtain ⟨hasked, htold⟩ := hK
  refine WritesOnly.bind (writesOnly_access fun _ => False.elim) fun row? es₁ s₁ _ => ?_
  cases row? with
  | some row =>
    show WritesOnly R K (if row.isMined = true then _ else _) es₁ s₁
    split
    · exact writesOnly_pure row
    · refine (writesOnly_receiptAndBlock hreceipt).bind fun _ es₂ _ _ => writesOnly_access fun key hkey => ?_
      obtain rfl : key = .transaction (canonical hash) := hkey
      exact hasked (heardIn es₂)
  | none =>
    refine (writesOnly_receiptAndBlock hreceipt).bind fun rb es₂ s₂ _ =>
      writesOnly_send_bind fun first es₃ _ hfirst => ?_
    refine writesOnly_only_bind (T := fun t N => N.TellsTransaction (canonical hash) t.1)
      (only_settleTransaction (asksAbout_self [canonical hash]) first) (fun es' hes' => ?_)
      fun t es₄ _ ht => writesOnly_createOrLink fun es' hes' => htold _ _ (ht.mono (heardIn_mono hes'))
    exact ensures_settleTransaction (fun t ht => .inl (ht ▸ hes'.subset hfirst)) (fun _ _ ht _ => ht)
      fun _ _ => trivial

/-! ## Many transactions -/

/-- Of a transaction that was told for one of the hashes, the key is reached, and so is the key of a block
that was told for the name in it. -/
structure ReachesAmong (K : Reach) (hashes : List String) : Prop where
  transaction : ∀ {N hash t}, hash ∈ hashes → N.TellsTransaction hash t → K N (.transaction t.hash)
  block : ∀ {N hash t name c}, hash ∈ hashes → N.TellsTransaction hash t →
    t.blockHash.map canonical = some name → N.TellsBlock name c → K N (.block c.hash)

variable {hashes : List String}

theorem FoundFor.mono {N N' : Answers} {f : Found} (h : FoundFor N hash f)
    (hN : ∀ q r, N q r → N' q r) : FoundFor N' hash f :=
  { h with receipt := h.receipt.mono hN, transaction := h.transaction.mono hN }

theorem writesOnly_storeFound {g : Gathered} {stored : List (String × Ledger.Block)} {found : List Found}
    (hK : ReachesAmong K hashes) (hblocks : ∀ p ∈ g.blocks, (heardIn es).TellsBlock p.1 p.2)
    (hfound : ∀ f ∈ found, ∃ hash ∈ hashes, FoundFor (heardIn es) hash f) :
    WritesOnly R K (storeFound policy g stored found) es s := by
  induction found generalizing es s stored with
  | nil => exact writesOnly_pure []
  | cons f rest ih =>
    obtain ⟨hash, hmem, hf⟩ := hfound f List.mem_cons_self
    -- Once the block is stored, the transaction is stored and then the others are.
    have hnext (stored' b es₁ s₁) (hes₁ : es <+: es₁) : WritesOnly R K (do
        let row ← createOrLink f.transaction f.receipt b
        let rows ← storeFound policy g stored' rest
        return row :: rows) es₁ s₁ := by
      have htransaction (es') (hes' : es₁ <+: es') : K (heardIn es') (.transaction f.transaction.hash) :=
        hK.transaction hmem (hf.transaction.mono (heardIn_mono (hes₁.trans hes')))
      refine (writesOnly_createOrLink htransaction).bind fun row es₂ s₂ hes₂ => ?_
      have hgrows := heardIn_mono (hes₁.trans hes₂)
      refine (ih (fun p hp => (hblocks p hp).mono hgrows) fun f' hf' => ?_).bind fun rows _ _ _ =>
        writesOnly_pure _
      obtain ⟨hash', hmem', hf'⟩ := hfound f' (List.mem_cons_of_mem _ hf')
      exact ⟨hash', hmem', hf'.mono hgrows⟩
    rw [storeFound]
    split
    · exact hnext _ _ es s (List.prefix_refl es)
    · split
      · exact writesOnly_throw _
      · rename_i c hc
        have hstored : K (heardIn es) (.block c.hash) :=
          hK.block hmem hf.transaction hf.block (hblocks _ (mem_of_lookup hc))
        exact (writesOnly_storeBlock hstored).bind fun b es₁ s₁ hes₁ => hnext _ b es₁ s₁ hes₁

theorem writesOnly_fetch (hK : ReachesAmong K hashes) : WritesOnly R K (fetch policy hashes) es s := by
  refine writesOnly_only_bind (T := fun g N => Told N hashes g) (only_gather hashes)
    (fun es' _ => ensures_gather (fun g hg => hg) fun _ _ => trivial) fun g es₁ _ hg => ?_
  exact writesOnly_storeFound hK hg.blocks fun f hf => exists_of_mem_right hg.found hf

theorem writesOnly_transactions (hK : ReachesAmong K (distinct hashes)) :
    WritesOnly R K (transactions policy hashes) es s := by
  show WritesOnly R K (if (distinct hashes).isEmpty then pure [] else _) es s
  split
  · exact writesOnly_pure []
  · refine WritesOnly.bind (writesOnly_access fun _ => False.elim) fun known es₁ s₁ _ => ?_
    show WritesOnly R K (if (missing known hashes).isEmpty then _ else _) es₁ s₁
    have hmissing : ReachesAmong K (missing known hashes) :=
      ⟨fun hmem => hK.transaction (List.mem_of_mem_filter hmem),
        fun hmem => hK.block (List.mem_of_mem_filter hmem)⟩
    split
    · exact writesOnly_of_only (only_rowsOf (Move.asksAbout []) _ _)
    · exact (writesOnly_fetch hmissing).bind fun fetched es₂ s₂ _ =>
        writesOnly_of_only (only_rowsOf (Move.asksAbout []) _ _)

end Resolve

end ChainIndex
