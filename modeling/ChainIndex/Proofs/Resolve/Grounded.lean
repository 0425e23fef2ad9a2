import ChainIndex.Proofs.Effect.Guarded
import ChainIndex.Proofs.Resolve.Order
import ChainIndex.Proofs.Store.Ledger

/-!
# What resolving rests on

`Grounded policy` is the guard that every move of the engine passes.  A question is about transactions
that are not linked yet, a block is stored as it was told and confirmed by a head that was told, blocks
are confirmed up to the tip below a head that was told, and a transaction is only linked once, as long as
what the node reports carries the hash that it was asked for.
-/

namespace ChainIndex

open Text (canonical)

/-- What is reported for a hash carries the hash itself, in small letters. -/
structure Answers.Echoes (N : Answers) : Prop where
  transaction : ∀ ⦃hash t⦄, N.TellsTransaction hash t → t.hash = Text.lower hash
  block : ∀ ⦃hash b⦄, N.TellsBlock hash b → b.hash = Text.lower hash

theorem Answers.Echoes.mono {N N' : Answers} (hN : N'.Echoes) (h : ∀ q r, N q r → N' q r) :
    N.Echoes :=
  ⟨fun _ _ ht => hN.transaction (ht.mono h), fun _ _ hb => hN.block (hb.mono h)⟩

/-- What an access to the ledger rests on, after some events. -/
def Access.Grounded (policy : ConfirmationPolicy) (es : List Event) (m : Memory) : Access → Prop
  | .createBlock b confirmed => (∃ asked, (heardIn es).TellsBlock asked b) ∧
    ∃ head, heardIn es .head (.ok head) ∧ confirmed = policy.isConfirmed b.number head
  | .confirmBlocks upTo => ∃ head, heardIn es .head (.ok head) ∧ policy.tip? head = some upTo
  | .linkTransaction hash _ _ => (heardIn es).Echoes → ¬ m.Linked hash
  | _ => True

/-- The guard of the engine's moves.  Accesses wait until no unit of work is open. -/
def Grounded (policy : ConfirmationPolicy) : Guard (Session Memory)
  | _, s, .ask q => ∀ hash ∈ q.wanted, ¬ s.live.Linked hash
  | es, s, .act (.access a) => s.staged = none ∧ a.Grounded policy es s.live
  | _, _, .act _ => True

/-- No unit of work is open, and transactions stand under their own hashes. -/
structure Session.Idle (s : Session Memory) : Prop where
  staged : s.staged = none
  keyed : s.live.Keyed

theorem Session.Idle.access {s : Session Memory} (hs : s.Idle) {a : Access}
    {r : Except Fault a.Reply} {m : Memory} (he : a.Effect s.live r m) :
    Session.Idle { s with live := m } :=
  ⟨hs.staged, he.keyed hs.keyed⟩

/-- A grounded action keeps a session calm, and touches the ledger only if it is an access. -/
theorem Grounded.calm {policy : ConfirmationPolicy} {es : List Event} {s s' : Session Memory} {a : Action}
    {r : Except Fault a.Reply} (h : Grounded policy es s (.act a)) (hs : s.Calm)
    (he : Session.Effect a s r s') :
    s'.Calm ∧ ((∃ b, a = .access b) ∨
      s'.live.blocks = s.live.blocks ∧ s'.live.transactions = s.live.transactions) := by
  refine hs.step (fun b heq => ?_) he
  subst heq
  exact h.1

namespace Resolve

open Attempt

variable {policy : ConfirmationPolicy} {es : List Event} {s : Session Memory} {hash : String} {α : Type}
  {X : Fault → List Event → Session Memory → Prop}

/-! ## Rules for grounded moves -/

theorem guarded_access {a : Access} {Q : a.Reply → List Event → Session Memory → Prop} (hs : s.Idle)
    (ha : a.Grounded policy es s.live)
    (h : ∀ r m, a.Effect s.live r m → Outcome (Q · (es ++ [.did (.access a) r]))
      (X · (es ++ [.did (.access a) r])) r { s with live := m }) :
    Guarded Session.Effect (Grounded policy) a.perform es s Q X := by
  refine guarded_perform (a := .access a) ⟨hs.staged, ha⟩ fun r s' hR => ?_
  obtain ⟨m, he, rfl⟩ := hR
  exact h r m he

theorem guarded_query {q : Query} {Q : q.Reply → List Event → Session Memory → Prop}
    (hq : ∀ hash ∈ q.wanted, ¬ s.live.Linked hash)
    (hQ : ∀ a es', heardIn es' q (.ok a) → Q a es' s) (hX : ∀ e es', X e es' s) :
    Guarded Session.Effect (Grounded policy) q.send es s Q X :=
  guarded_send hq (fun a => hQ a _ (List.mem_append_right _ List.mem_cons_self)) fun e => hX e _

/-- Questions about transactions that are not linked, with what they ensure. -/
theorem guarded_of_only {t : Attempt α} {hashes : List String} {P : α → Answers → Prop}
    {Q : α → List Event → Session Memory → Prop} (ht : t.Only (Move.asksAbout hashes))
    (hfree : ∀ hash ∈ hashes, ¬ s.live.Linked hash)
    (hP : ∀ es', es <+: es' → t.Ensures (heardIn es') Session.Effect (fun _ _ _ => True) s
      (fun a _ => P a (heardIn es')) fun _ _ => True)
    (hQ : ∀ a es', P a (heardIn es') → Q a es' s) (hX : ∀ e es', X e es' s) :
    Guarded Session.Effect (Grounded policy) t es s Q X := by
  refine Only.guarded ht (fun m => Move.isAsk_of_asksAbout) (fun es' q hq hash hmem => ?_) hP hQ hX
  have hall := List.all_eq_true.1 hq hash hmem
  exact hfree hash (List.contains_iff_mem.1 hall)

/-! ## Blocks -/

theorem guarded_storeBlock {c : Chain.Block} {head : UInt64}
    {Q : Ledger.Block → List Event → Session Memory → Prop} (hs : s.Idle)
    (hc : (heardIn es).TellsBlock hash c) (hhead : heardIn es .head (.ok head))
    (hQ : ∀ b es' s', s'.Idle → s'.live.transactions = s.live.transactions → Q b es' s') :
    Guarded Session.Effect (Grounded policy) (storeBlock policy head c) es s Q X := by
  refine guarded_access hs ⟨⟨hash, hc⟩, head, hhead, rfl⟩ fun r m he => ?_
  have hidle := hs.access he
  cases he
  exact hQ _ _ _ hidle rfl

theorem guarded_block {Q : Ledger.Block → List Event → Session Memory → Prop} (hs : s.Idle)
    (hQ : ∀ b es' s', s'.Idle → s'.live.transactions = s.live.transactions → Q b es' s')
    (hX : ∀ e es' s', s'.Idle → s'.live.transactions = s.live.transactions → X e es' s') :
    Guarded Session.Effect (Grounded policy) (block policy hash) es s Q X := by
  have hnone : ∀ h ∈ [], ¬ s.live.Linked h := fun h hmem => absurd hmem List.not_mem_nil
  refine guarded_bind (guarded_access hs trivial fun r m he => ?_)
  cases he
  intro _
  show Guarded Session.Effect _ _ _ s Q X
  cases hb : s.live.blocks.get? (canonical hash) with
  | some b => exact guarded_pure (hQ b _ s hs rfl)
  | none =>
    refine guarded_bind (guarded_query hnone (fun head es₁ hhead _ => ?_) fun e es' => hX e es' s hs rfl)
    refine guarded_bind (guarded_query hnone (fun first es₂ hfirst hes₂ => ?_)
      fun e es' => hX e es' s hs rfl)
    refine guarded_bind (guarded_of_only (P := fun c N => N.TellsBlock (canonical hash) c)
      (only_settleBlock rfl _) hnone (fun es' hes' => ?_) (fun c es₃ hc hes₃ => ?_)
      fun e es' => hX e es' s hs rfl)
    · exact ensures_settleBlock (fun c hc => .inl (hc ▸ hes'.subset hfirst)) (fun c hc => hc)
        fun _ _ => trivial
    · exact guarded_storeBlock hs hc (hes₃.subset (hes₂.subset hhead)) hQ

/-! ## One transaction -/

theorem guarded_receiptAndBlock {Q : Chain.Receipt × Ledger.Block → List Event → Session Memory → Prop}
    (hs : s.Idle) (hfree : ¬ s.live.Linked hash)
    (hQ : ∀ r es' s', s'.Idle → s'.live.transactions = s.live.transactions → Q r es' s')
    (hX : ∀ e es' s', s'.Idle → s'.live.transactions = s.live.transactions → X e es' s') :
    Guarded Session.Effect (Grounded policy) (receiptAndBlock policy hash) es s Q X := by
  have hwanted : ∀ h ∈ [hash], ¬ s.live.Linked h := fun h hmem => List.mem_singleton.1 hmem ▸ hfree
  refine guarded_bind (guarded_query hwanted (fun first es₁ hfirst _ => ?_)
    fun e es' => hX e es' s hs rfl)
  refine guarded_bind (guarded_of_only (P := fun _ _ => True)
    (only_settleReceipt (asksAbout_self _) _) hwanted (fun es' hes' => ?_) (fun r es₂ _ _ => ?_)
    fun e es' => hX e es' s hs rfl)
  · exact ensures_settleReceipt (fun r hr => .inl (hr ▸ hes'.subset hfirst)) (fun _ _ _ _ => trivial)
      fun _ _ => trivial
  · refine guarded_bind (guarded_block hs (fun b es₃ s' hs' hsame _ => ?_) hX)
    exact guarded_pure (hQ (r.1, b) es₃ s' hs' hsame)

/-- A transaction is stored or linked; no other is touched. -/
theorem guarded_createOrLink {t : Chain.Transaction} {r : Chain.Receipt} {b : Ledger.Block}
    {Q : Ledger.Transaction → List Event → Session Memory → Prop} (hs : s.Idle)
    (hfree : (heardIn es).Echoes → ¬ s.live.Linked t.hash)
    (hQ : ∀ row es' s', s'.Idle →
      (∀ h, h ≠ t.hash → s'.live.transactions.get? h = s.live.transactions.get? h) → Q row es' s')
    (hX : ∀ e es' s', s'.Idle → X e es' s') :
    Guarded Session.Effect (Grounded policy) (createOrLink t r b) es s Q X := by
  refine guarded_tryCatch (guarded_access hs trivial fun reply m he => ?_)
  have hidle := hs.access he
  rcases he with he | ⟨-, rfl, rfl⟩
  · rcases Memory.addTransaction_cases he with ⟨t₀, -, rfl, rfl⟩ | ⟨-, rfl, rfl⟩
    · refine guarded_access hs (fun hN => ?_) fun reply m he => ?_
      · exact hfree (hN.mono (heardIn_mono (List.prefix_append _ _)))
      · have hidle := hs.access he
        rcases he with he | ⟨-, rfl, rfl⟩
        · rcases Memory.linkTransaction_cases he with ⟨-, rfl, rfl⟩ | ⟨t₁, -, rfl, rfl⟩
          · exact hX _ _ _ hidle
          · exact hQ _ _ _ hidle fun h hne => by rw [Table.get?_insert, if_neg hne]
        · exact hX _ _ _ hidle
    · exact hQ _ _ _ hidle fun h hne => (Table.get?_insert _ _ _ _).trans (if_neg hne)
  · exact guarded_throw (hX _ _ _ hidle)

theorem guarded_linkStored (hs : s.Idle) (hfree : ¬ s.live.Linked hash) :
    Guarded Session.Effect (Grounded policy) (do
      let (receipt, b) ← receiptAndBlock policy hash
      (Access.linkTransaction hash b receipt).perform) es s (fun _ _ => Session.Idle)
      fun _ _ => Session.Idle := by
  refine guarded_bind (guarded_receiptAndBlock hs hfree (fun r es₁ s₁ hs₁ hsame _ => ?_)
    fun _ _ _ hs₁ _ => hs₁)
  refine guarded_access hs₁ (fun _ => ?_) fun reply m he => ?_
  · rw [Memory.Linked, hsame]
    exact hfree
  · have hidle := hs₁.access he
    cases reply <;> exact hidle

theorem guarded_createMissing (hs : s.Idle) (hfree : ¬ s.live.Linked hash)
    (hlower : Text.lower hash = hash) :
    Guarded Session.Effect (Grounded policy) (do
      let (receipt, b) ← receiptAndBlock policy hash
      let first ← (Query.transaction hash).send
      let (found, _) ← settleTransaction hash first
      createOrLink found receipt b) es s (fun _ _ => Session.Idle) fun _ _ => Session.Idle := by
  refine guarded_bind (guarded_receiptAndBlock hs hfree (fun r es₁ s₁ hs₁ hsame _ => ?_)
    fun _ _ _ hs₁ _ => hs₁)
  have hfree₁ : ¬ s₁.live.Linked hash := by
    rw [Memory.Linked, hsame]
    exact hfree
  have hwanted : ∀ h ∈ [hash], ¬ s₁.live.Linked h :=
    fun h hmem => List.mem_singleton.1 hmem ▸ hfree₁
  refine guarded_bind (guarded_query hwanted (fun first es₂ hfirst _ => ?_) fun _ _ => hs₁)
  refine guarded_bind (guarded_of_only (P := fun t N => N.TellsTransaction hash t.1)
    (only_settleTransaction (asksAbout_self _) _) hwanted (fun es' hes' => ?_)
    (fun t es₃ ht _ => ?_) fun _ _ => hs₁)
  · exact ensures_settleTransaction (fun t ht => .inl (ht ▸ hes'.subset hfirst))
      (fun _ _ ht _ => ht) fun _ _ => trivial
  · refine guarded_createOrLink hs₁ (fun hN => ?_) (fun _ _ _ hs₂ _ => hs₂) fun _ _ _ hs₂ => hs₂
    rw [hN.transaction ht, hlower]
    exact hfree₁

theorem guarded_transaction (hs : s.Idle) :
    Guarded Session.Effect (Grounded policy) (transaction policy hash) es s (fun _ _ => Session.Idle)
      fun _ _ => Session.Idle := by
  refine guarded_bind (guarded_access hs trivial fun r m he => ?_)
  cases he
  intro _
  show Guarded Session.Effect _ _ _ s _ _
  cases hrow : s.live.transactions.get? (canonical hash) with
  | some row =>
    cases hmined : row.isMined with
    | true =>
      simp only [hmined, if_true]
      exact guarded_pure hs
    | false =>
      have hfree : ¬ s.live.Linked (canonical hash) := by
        rintro ⟨t, ht, hlinked⟩
        rw [hrow] at ht
        rw [← Option.some.inj ht, hmined] at hlinked
        cases hlinked
      simp only [hmined]
      exact guarded_linkStored hs hfree
  | none =>
    have hfree : ¬ s.live.Linked (canonical hash) := by
      rintro ⟨t, ht, -⟩
      rw [hrow] at ht
      cases ht
    exact guarded_createMissing hs hfree (Text.lower_canonical hash)

/-! ## Many transactions -/

/-- If what is reported carries the hash that was asked for, so does what was gathered. -/
theorem Told.map_hash {N : Answers} {hashes : List String} {g : Gathered} (h : Told N hashes g)
    (hN : N.Echoes) (hlower : ∀ hash ∈ hashes, Text.lower hash = hash) :
    g.found.map (·.transaction.hash) = hashes := by
  have hmem : List.Forall₂ (fun hash f => hash ∈ hashes ∧ FoundFor N hash f) hashes g.found :=
    (List.forall₂_and_left _ _).2 ⟨fun _ hmem => hmem, h.found⟩
  rw [← List.forall₂_eq_eq_eq, List.forall₂_map_left_iff]
  refine hmem.flip.imp fun f hash hfor => ?_
  rw [hN.transaction hfor.2.transaction, hlower hash hfor.1]

theorem guarded_storeFound {g : Gathered} {stored : List (String × Ledger.Block)} {found : List Found}
    (hs : s.Idle) (hg : ∀ p ∈ g.blocks, (heardIn es).TellsBlock p.1 p.2)
    (hhead : heardIn es .head (.ok g.head))
    (hfree : (heardIn es).Echoes → (found.map (·.transaction.hash)).Nodup ∧
      ∀ f ∈ found, ¬ s.live.Linked f.transaction.hash) :
    Guarded Session.Effect (Grounded policy) (storeFound policy g stored found) es s
      (fun _ _ => Session.Idle) fun _ _ => Session.Idle := by
  induction found generalizing es s stored with
  | nil => exact guarded_pure hs
  | cons f rest ih =>
    -- Once the block is stored, the transaction is stored and then the others are.
    have hnext {stored' b es₁ s₁} (hes₁ : es <+: es₁) (hs₁ : Session.Idle s₁)
        (hsame : s₁.live.transactions = s.live.transactions) :
        Guarded Session.Effect (Grounded policy) (do
          let row ← createOrLink f.transaction f.receipt b
          let rows ← storeFound policy g stored' rest
          return row :: rows) es₁ s₁ (fun _ _ => Session.Idle) fun _ _ => Session.Idle := by
      have hfree₁ (hN : (heardIn es₁).Echoes) := hfree (hN.mono (heardIn_mono hes₁))
      refine guarded_bind (guarded_createOrLink hs₁ (fun hN => ?_) (fun row es₂ s₂ hs₂ hother hes₂ => ?_)
        fun _ _ _ hs₂ => hs₂)
      · rw [Memory.Linked, hsame]
        exact (hfree₁ hN).2 f List.mem_cons_self
      · have hgrows := heardIn_mono (hes₁.trans hes₂)
        refine guarded_bind (Guarded.mono (ih hs₂ (fun p hp => (hg p hp).mono hgrows)
          (hgrows _ _ hhead) fun hN => ?_) (fun rows es₃ s₃ hs₃ _ => guarded_pure hs₃)
          fun _ _ _ hs₃ => hs₃)
        obtain ⟨hnodup, hlinked⟩ := hfree₁ (hN.mono (heardIn_mono hes₂))
        obtain ⟨hnotin, hnodup⟩ := List.nodup_cons.1 hnodup
        refine ⟨hnodup, fun f' hf' => ?_⟩
        have hne : f'.transaction.hash ≠ f.transaction.hash := fun heq =>
          hnotin (List.mem_map.2 ⟨f', hf', heq⟩)
        rw [Memory.Linked, hother _ hne, hsame]
        exact hlinked f' (List.mem_cons_of_mem _ hf')
    rw [storeFound]
    split
    · exact hnext (List.prefix_refl es) hs rfl
    · split
      · exact guarded_throw hs
      · rename_i c hc
        exact guarded_bind (guarded_storeBlock hs (hg _ (mem_of_lookup hc)) hhead
          fun b es₁ s₁ hs₁ hsame hes₁ => hnext hes₁ hs₁ hsame)

theorem guarded_rowsOf {rows : List Ledger.Transaction} {hashes : List String} (hs : s.Idle) :
    Guarded Session.Effect (Grounded policy) (rowsOf rows hashes) es s (fun _ _ => Session.Idle)
      fun _ _ => Session.Idle := by
  refine guarded_of_only (P := fun _ _ => True) (only_rowsOf (Move.asksAbout []) rows hashes)
    (fun h hmem => absurd hmem List.not_mem_nil) (fun es' hes' => ?_) (fun _ _ _ => hs) fun _ _ => hs
  exact ensures_rowsOf (fun _ _ => trivial) fun _ _ _ => trivial

/-- The moves that resolve many transactions are grounded. -/
theorem guarded_transactions {hashes : List String} (hs : s.Idle) :
    Guarded Session.Effect (Grounded policy) (transactions policy hashes) es s (fun _ _ => Session.Idle)
      fun _ _ => Session.Idle := by
  show Guarded _ _ (if (distinct hashes).isEmpty then pure [] else _) es s _ _
  split
  · exact guarded_pure hs
  · refine guarded_bind (guarded_access hs trivial fun r m he => ?_)
    obtain ⟨known, rfl, hknown, rfl⟩ := he
    intro hes₁
    show Guarded _ _ (if (missing known hashes).isEmpty then _ else _) _ s _ _
    split
    · exact guarded_rowsOf hs
    · have hfree : ∀ hash ∈ missing known hashes, ¬ s.live.Linked hash :=
        fun hash hmem => not_linked_of_mem_missing hs.keyed hknown hmem
      have hlower : ∀ hash ∈ missing known hashes, Text.lower hash = hash := fun hash hmem => by
        rw [← canonical_of_mem_distinct (mem_missing.1 hmem).1, Text.lower_canonical]
      refine guarded_bind (guarded_bind (guarded_of_only
        (P := fun g N => Told N (missing known hashes) g) (only_gather _) hfree (fun es' hes' => ?_)
        (fun g es₂ hg _ => ?_) fun _ _ => hs))
      · exact ensures_gather (fun g hg => hg) fun _ _ => trivial
      · refine (guarded_storeFound hs hg.blocks hg.head fun hN => ?_).mono
          (fun rows es₃ s₃ hs₃ _ => guarded_rowsOf hs₃) fun _ _ _ hs₃ => hs₃
        have hmap := hg.map_hash hN hlower
        rw [hmap]
        refine ⟨(nodup_distinct hashes).filter _, fun f hf => hfree _ ?_⟩
        rw [← hmap]
        exact List.mem_map_of_mem hf

theorem guarded_confirmBlocks (hs : s.Idle) :
    Guarded Session.Effect (Grounded policy) (confirmBlocks policy) es s (fun _ _ => Session.Idle)
      fun _ _ => Session.Idle := by
  refine guarded_bind (guarded_query (fun h hmem => absurd hmem List.not_mem_nil)
    (fun head es₁ hhead _ => ?_) fun _ _ => hs)
  cases htip : policy.tip? head with
  | none => exact guarded_pure hs
  | some tip =>
    refine guarded_access hs ⟨head, hhead, htip⟩ fun reply m he => ?_
    have hidle := hs.access he
    cases reply <;> exact hidle

end Resolve

end ChainIndex
