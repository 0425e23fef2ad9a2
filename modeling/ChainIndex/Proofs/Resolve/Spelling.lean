import ChainIndex.Proofs.Effect.Guarded
import ChainIndex.Proofs.Resolve.Batch
import ChainIndex.Proofs.Resolve.Order
import ChainIndex.Proofs.Store.Keys

/-!
# How keys are spelled

`Sourced` is the guard that every move of the engine passes: a row is only added under the very hash that
the node told, or that an element carries.  Nothing is made of the hash on the way, and in particular
nothing brings it into its canonical form.
-/

namespace ChainIndex

open Text (canonical)

/-- The node may report an element. -/
def Answers.TellsElement (N : Answers) : Chain.Element → Prop
  | .trace t => ∃ addresses first last traces, N (.traces addresses first last) (.ok traces) ∧ t ∈ traces
  | .log l => ∃ addresses topics first last logs, N (.logs addresses topics first last) (.ok logs) ∧ l ∈ logs

/-- The key carries a hash that was told for what stands under it, or that an element carries: one that
was told or one of those that are given. -/
def Key.Sourced (given : Chain.Element → Prop) (N : Answers) : Key → Prop
  | .block hash => ∃ asked b, N.TellsBlock asked b ∧ b.hash = hash
  | .transaction hash => ∃ asked t, N.TellsTransaction asked t ∧ t.hash = hash
  | .internalTx key => ∃ e, (given e ∨ N.TellsElement e) ∧ e.txHash = key.txHash

variable {given : Chain.Element → Prop}

theorem Answers.TellsElement.mono {N N' : Answers} (h : ∀ q r, N q r → N' q r) {e : Chain.Element}
    (he : N.TellsElement e) : N'.TellsElement e := by
  cases e with
  | trace t =>
    obtain ⟨addresses, first, last, traces, hN, hmem⟩ := he
    exact ⟨addresses, first, last, traces, h _ _ hN, hmem⟩
  | log l =>
    obtain ⟨addresses, topics, first, last, logs, hN, hmem⟩ := he
    exact ⟨addresses, topics, first, last, logs, h _ _ hN, hmem⟩

theorem Key.Sourced.mono {N N' : Answers} (h : ∀ q r, N q r → N' q r) {key : Key}
    (hkey : key.Sourced given N) : key.Sourced given N' := by
  cases key with
  | block hash =>
    obtain ⟨asked, b, hb, heq⟩ := hkey
    exact ⟨asked, b, hb.mono h, heq⟩
  | transaction hash =>
    obtain ⟨asked, t, ht, heq⟩ := hkey
    exact ⟨asked, t, ht.mono h, heq⟩
  | internalTx key =>
    obtain ⟨e, he, heq⟩ := hkey
    exact ⟨e, he.imp_right (·.mono h), heq⟩

variable {σ : Type}

/-- The guard of moves that add rows under hashes as they came. -/
def Sourced (given : Chain.Element → Prop) : Guard σ
  | es, _, .act (.access a) => ∀ key, a.Adds key → key.Sourced given (heardIn es)
  | _, _, _ => True

namespace Resolve

open Attempt

variable {R : Conduct σ} {es : List Event} {s : σ} {policy : ConfirmationPolicy} {hash : String}
  {α β : Type}

/-- Every move adds rows under hashes as they came. -/
def Sources (R : Conduct σ) (given : Chain.Element → Prop) (t : Attempt α) (es : List Event) (s : σ) :
    Prop :=
  t.Guarded R (Sourced given) es s (fun _ _ _ => True) fun _ _ _ => True

theorem sources_pure (a : α) : Sources R given (pure a) es s := guarded_pure trivial

theorem sources_throw (e : Fault) : Sources R given (throw e : Attempt α) es s := guarded_throw trivial

theorem Sources.bind {t : Attempt α} {f : α → Attempt β} (ht : Sources R given t es s)
    (hf : ∀ a es' s', es <+: es' → Sources R given (f a) es' s') : Sources R given (t >>= f) es s :=
  guarded_bind (ht.mono (fun a es' s' _ hes' => hf a es' s' hes') fun _ _ _ _ => trivial)

theorem sources_access {a : Access} (h : ∀ key, a.Adds key → key.Sourced given (heardIn es)) :
    Sources R given a.perform es s :=
  guarded_perform (a := .access a) h fun r _ _ => by cases r <;> trivial

theorem sources_send_bind {q : Query} {f : q.Reply → Attempt β}
    (hf : ∀ a es', es <+: es' → heardIn es' q (.ok a) → Sources R given (f a) es' s) :
    Sources R given (q.send >>= f) es s :=
  guarded_bind (guarded_send trivial
    (fun a hes' => hf a _ hes' (List.mem_append_right _ List.mem_cons_self)) fun _ => trivial)

theorem sources_of_only {hashes : List String} {t : Attempt α} (ht : t.Only (Move.asksAbout hashes)) :
    Sources R given t es s :=
  Routine.Only.guarded ht (fun _ => Move.isAsk_of_asksAbout) (fun _ _ _ => trivial)
    fun r _ => by cases r <;> trivial

theorem sources_only_bind {hashes : List String} {T : α → Answers → Prop} {t : Attempt α}
    {f : α → Attempt β} (ht : t.Only (Move.asksAbout hashes))
    (hT : ∀ es', es <+: es' → t.Ensures (heardIn es') R (fun _ _ _ => True) s
      (fun a _ => T a (heardIn es')) fun _ _ => True)
    (hf : ∀ a es', es <+: es' → T a (heardIn es') → Sources R given (f a) es' s) :
    Sources R given (t >>= f) es s :=
  guarded_bind (Only.guarded ht (fun _ => Move.isAsk_of_asksAbout) (fun _ _ _ => trivial) hT
    (fun a es' ha hes' => hf a es' hes' ha) fun _ _ => trivial)

/-! ## Blocks -/

theorem sources_storeBlock {c : Chain.Block} {head : UInt64} (hc : (heardIn es).TellsBlock hash c) :
    Sources R given (storeBlock policy head c) es s := by
  refine sources_access fun key hkey => ?_
  subst hkey
  exact ⟨hash, c, hc, rfl⟩

theorem sources_block : Sources R given (block policy hash) es s := by
  refine Sources.bind (sources_access fun _ => False.elim) fun b? es₁ s₁ _ => ?_
  cases b? with
  | some b => exact sources_pure b
  | none =>
    refine sources_send_bind fun head es₂ _ _ => sources_send_bind fun first es₃ _ hfirst => ?_
    have hsettle : (settleBlock (canonical hash) first).Only (Move.asksAbout []) :=
      only_settleBlock rfl first
    refine sources_only_bind (T := fun c N => N.TellsBlock (canonical hash) c) hsettle
      (fun es' hes' => ?_) fun c es₄ _ hc => ?_
    · exact ensures_settleBlock (fun c hc => .inl (hc ▸ hes'.subset hfirst)) (fun c hc => hc)
        fun _ _ => trivial
    · exact sources_storeBlock hc

/-! ## Transactions -/

theorem sources_receiptAndBlock : Sources R given (receiptAndBlock policy hash) es s := by
  refine sources_send_bind fun first es₁ _ hfirst => ?_
  refine sources_only_bind (T := fun _ _ => True)
    (only_settleReceipt (asksAbout_self [hash]) first) (fun es' hes' => ?_) fun r es₂ _ _ => ?_
  · exact ensures_settleReceipt (fun r hr => .inl (hr ▸ hes'.subset hfirst)) (fun _ _ _ _ => trivial)
      fun _ _ => trivial
  · exact sources_block.bind fun b _ _ _ => sources_pure (r.1, b)

theorem sources_createOrLink {t : Chain.Transaction} {r : Chain.Receipt} {b : Ledger.Block}
    (ht : (heardIn es).TellsTransaction hash t) : Sources R given (createOrLink t r b) es s := by
  have hcreate : Sources R given (Access.createTransaction t r b).perform es s := by
    refine sources_access fun key hkey => ?_
    subst hkey
    exact ⟨hash, t, ht, rfl⟩
  refine guarded_tryCatch (hcreate.mono (fun _ _ _ _ => trivial) fun e es₁ s₁ _ => ?_)
  split
  · exact sources_access fun _ => False.elim
  · exact sources_throw e

theorem sources_transaction : Sources R given (transaction policy hash) es s := by
  refine Sources.bind (sources_access fun _ => False.elim) fun row? es₁ s₁ _ => ?_
  cases row? with
  | some row =>
    show Sources R given (if row.isMined = true then _ else _) es₁ s₁
    split
    · exact sources_pure row
    · exact sources_receiptAndBlock.bind fun _ _ _ _ => sources_access fun _ => False.elim
  | none =>
    refine sources_receiptAndBlock.bind fun rb es₂ s₂ _ => sources_send_bind fun first es₃ _ hfirst => ?_
    refine sources_only_bind (T := fun t N => N.TellsTransaction (canonical hash) t.1)
      (only_settleTransaction (asksAbout_self [canonical hash]) first) (fun es' hes' => ?_)
      fun t es₄ _ ht => sources_createOrLink ht
    exact ensures_settleTransaction (fun t ht => .inl (ht ▸ hes'.subset hfirst)) (fun _ _ ht _ => ht)
      fun _ _ => trivial

/-! ## Many transactions -/

theorem sources_storeFound {g : Gathered} {stored : List (String × Ledger.Block)} {found : List Found}
    (hg : ∀ p ∈ g.blocks, (heardIn es).TellsBlock p.1 p.2)
    (hfound : ∀ f ∈ found, ∃ hash, (heardIn es).TellsTransaction hash f.transaction) :
    Sources R given (storeFound policy g stored found) es s := by
  induction found generalizing es s stored with
  | nil => exact sources_pure []
  | cons f rest ih =>
    -- Once the block is stored, the transaction is stored and then the others are.
    have hnext (stored' b es₁ s₁) (hes₁ : es <+: es₁) : Sources R given (do
        let row ← createOrLink f.transaction f.receipt b
        let rows ← storeFound policy g stored' rest
        return row :: rows) es₁ s₁ := by
      obtain ⟨hash, hf⟩ := hfound f List.mem_cons_self
      refine (sources_createOrLink (hf.mono (heardIn_mono hes₁))).bind fun row es₂ s₂ hes₂ => ?_
      have hgrows := heardIn_mono (hes₁.trans hes₂)
      refine (ih (fun p hp => (hg p hp).mono hgrows) fun f' hf' => ?_).bind fun rows _ _ _ =>
        sources_pure _
      obtain ⟨hash', hf'⟩ := hfound f' (List.mem_cons_of_mem _ hf')
      exact ⟨hash', hf'.mono hgrows⟩
    rw [storeFound]
    split
    · exact hnext _ _ es s (List.prefix_refl es)
    · split
      · exact sources_throw _
      · rename_i c hc
        exact (sources_storeBlock (hg _ (mem_of_lookup hc))).bind fun b es₁ s₁ hes₁ =>
          hnext _ b es₁ s₁ hes₁

theorem Told.tellsTransaction {N : Answers} {hashes : List String} {g : Gathered} (h : Told N hashes g)
    {f : Found} (hf : f ∈ g.found) : ∃ hash, N.TellsTransaction hash f.transaction := by
  obtain ⟨hfound, -, -, -⟩ := h
  generalize g.found = found at hf hfound
  induction hfound with
  | nil => cases hf
  | cons hfor _ ih =>
    rcases List.mem_cons.1 hf with rfl | hf
    · exact ⟨_, hfor.transaction⟩
    · exact ih hf

theorem sources_fetch {hashes : List String} : Sources R given (fetch policy hashes) es s := by
  refine sources_only_bind (T := fun g N => Told N hashes g) (only_gather hashes)
    (fun es' _ => ensures_gather (fun g hg => hg) fun _ _ => trivial) fun g es₁ _ hg => ?_
  exact sources_storeFound hg.blocks fun f hf => hg.tellsTransaction hf

theorem sources_transactions {hashes : List String} :
    Sources R given (transactions policy hashes) es s := by
  show Sources R given (if (distinct hashes).isEmpty then pure [] else _) es s
  split
  · exact sources_pure []
  · refine Sources.bind (sources_access fun _ => False.elim) fun known es₁ s₁ _ => ?_
    show Sources R given (if (missing known hashes).isEmpty then _ else _) es₁ s₁
    split
    · exact sources_of_only (only_rowsOf (Move.asksAbout []) _ _)
    · exact sources_fetch.bind fun fetched es₂ s₂ _ =>
        sources_of_only (only_rowsOf (Move.asksAbout []) _ _)

theorem sources_confirmBlocks : Sources R given (confirmBlocks policy) es s := by
  refine sources_send_bind fun head es₁ _ _ => ?_
  cases policy.tip? head with
  | none => exact sources_pure 0
  | some tip => exact sources_access fun _ => False.elim

end Resolve

end ChainIndex
