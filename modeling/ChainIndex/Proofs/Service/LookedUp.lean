import ChainIndex.Proofs.Service.Engine
import ChainIndex.Proofs.Service.Grounded
import ChainIndex.Proofs.Service.Merging

/-!
# What is linked was looked up

No operation links a transaction in place that it has not looked up and found without a link, whatever
others do to the store in the meantime (`Operation.fair`).  Between that look-up and the link none
of its own accesses touches the transaction (`FoundUnlinked`).  The exception is a node that told the
transaction when it was asked for another one (`Answers.Renames`).
-/

namespace ChainIndex

open Text (canonical lower_canonical)

/-- The node told a transaction of this hash when it was asked for another hash. -/
def Answers.Renames (N : Answers) (hash : String) : Prop :=
  ∃ asked t, N.TellsTransaction asked t ∧ t.hash = hash ∧ Text.lower asked ≠ hash

/-- An access that looks a transaction up. -/
def Access.LooksUp (hash : String) : Access → Prop
  | .getTransaction asked => asked = hash
  | .getMined hashes => hash ∈ hashes
  | _ => False

namespace Storage

/-- An access leaves what is stored under a hash. -/
def Spares (s : Storage) (a : Access) (hash : String) : Prop :=
  (s.after a).answer (.getTransaction hash) = s.answer (.getTransaction hash)

/-- Blocks and transactions stand under their own hashes, also in the copy that a unit of work changes. -/
def AllTidy (s : Storage) : Prop := ∃ t, s.Represents t ∧ t.Tidy

variable {s : Storage} {hash : String}

theorem Reachable.allTidy (h : s.Reachable) : s.AllTidy := by
  obtain ⟨t, hrep, hs⟩ := h.sound
  exact ⟨t, hrep, hs.live.tidy, fun _ hm => (hs.staged hm).tidy⟩

namespace AllTidy

theorem tidy (h : s.AllTidy) : s.Tidy := by
  obtain ⟨t, hrep, ht⟩ := h
  exact ⟨t.live, ⟨t, hrep, rfl⟩, ht.live⟩

theorem perform (h : s.AllTidy) (a : Action) : (store.perform a s).2.AllTidy := by
  obtain ⟨t, hrep, ht⟩ := h
  obtain ⟨t', he, hrep'⟩ := exists_effect hrep (a := a) rfl
  exact ⟨t', hrep', ht.step he⟩

theorem afterAll (h : s.AllTidy) (as : List Access) : (store.afterAll s as).AllTidy := by
  induction as generalizing s with
  | nil => exact h
  | cons a rest ih => exact ih (h.perform (.access a))

end AllTidy

namespace Tidy

/-- What is stored under a hash stays unless it is written under that hash. -/
theorem spares (h : s.Tidy) {a : Access} (hadds : ¬ a.Adds (.transaction hash))
    (hlink : ∀ b r, a ≠ .linkTransaction hash b r) : s.Spares a hash := by
  obtain ⟨m, hshows, -⟩ := h
  obtain ⟨m', he, hshows'⟩ := hshows.exists_effect a
  rw [Spares, hshows.answer_getTransaction, hshows'.answer_getTransaction, he.get?_transaction hadds hlink]

theorem spares_of_not_writes (h : s.Tidy) {a : Access} (ha : a.writesTransactions = false) :
    s.Spares a hash := by
  refine h.spares (fun hadds => ?_) (fun b r heq => ?_)
  · cases a with
    | createTransaction | createPending => cases ha
    | createBlock => cases hadds
    | insertInternal rows markers =>
      obtain ⟨row, -, heq⟩ := hadds
      cases heq
    | _ => exact hadds.elim
  · subst heq
    cases ha

theorem spares_of_refused (h : s.Tidy) {t : Chain.Transaction} {r : Chain.Receipt} {b : Ledger.Block}
    {fault : Fault} (hrefused : s.answer (.createTransaction t r b) = .error fault) :
    s.Spares (.createTransaction t r b) hash := by
  obtain ⟨m, hshows, -⟩ := h
  obtain ⟨m', he, hshows'⟩ := hshows.exists_effect (.createTransaction t r b)
  rw [Spares, hshows.answer_getTransaction, hshows'.answer_getTransaction]
  rw [hrefused] at he
  rcases he with he | ⟨-, -, rfl⟩
  · rcases Memory.addTransaction_cases he with ⟨-, -, -, rfl⟩ | ⟨-, hok, -⟩
    · rfl
    · cases hok
  · rfl

/-- The row of a linked transaction stays, unless it is linked once more. -/
theorem linked_after (h : s.Tidy) {row : Ledger.Transaction}
    (hrow : s.answer (.getTransaction hash) = .ok (some row)) (a : Access) :
    (s.after a).answer (.getTransaction hash) = .ok (some row) ∨
      ∃ b r, a = .linkTransaction hash b r ∧
        (s.after a).answer (.getTransaction hash) = .ok (some (row.link b r)) := by
  obtain ⟨m, hshows, -⟩ := h
  obtain ⟨m', he, hshows'⟩ := hshows.exists_effect a
  have hget := hshows.get?_transaction hrow
  rw [hshows'.answer_getTransaction]
  rcases he.transaction hash with hsame | ⟨hnone, -⟩ | ⟨b, r, t, rfl, ht, ht'⟩
  · exact .inl (by rw [hsame, hget])
  · rw [hget] at hnone
    cases hnone
  · obtain rfl := Option.some.inj (hget.symm.trans ht)
    exact .inr ⟨b, r, rfl, congrArg Except.ok ht'⟩

end Tidy

end Storage

/-- A look-up found no linked transaction of a hash, and none of the accesses since then has changed what is
stored under it. -/
inductive FoundUnlinked (hash : String) : List (Storage × Access) → Prop
  | lookup {moments : List (Storage × Access)} {before : Storage} {a : Access} (ha : a.LooksUp hash)
    (hunlinked : ¬ before.Linked hash) : FoundUnlinked hash (moments ++ [(before, a)])
  | spared {moments : List (Storage × Access)} {before : Storage} {a : Access}
    (h : FoundUnlinked hash moments) (hspares : before.Spares a hash) :
    FoundUnlinked hash (moments ++ [(before, a)])

/-- After some accesses a transaction may be linked in place. -/
def MayLink (N : Answers) (hash : String) (moments : List (Storage × Access)) : Prop :=
  FoundUnlinked hash moments ∨ N.Renames hash

theorem MayLink.spared {N : Answers} {hash : String} {moments : List (Storage × Access)}
    {before : Storage} {a : Access} (h : MayLink N hash moments) (hspares : before.Spares a hash) :
    MayLink N hash (moments ++ [(before, a)]) :=
  h.imp_left fun hfound => hfound.spared hspares

/-- Every access met a tidy store, and a transaction was linked in place only when it might be. -/
inductive LinksFairly (N : Answers) (hash : String) : List (Storage × Access) → Prop
  | nil : LinksFairly N hash []
  | step {moments : List (Storage × Access)} {before : Storage} {a : Access}
    (h : LinksFairly N hash moments) (htidy : before.Tidy)
    (hlink : ∀ b r, a = .linkTransaction hash b r → MayLink N hash moments) :
    LinksFairly N hash (moments ++ [(before, a)])

theorem LinksFairly.of_prefix {N : Answers} {hash : String} {moments pre : List (Storage × Access)}
    {before : Storage} {a : Access} (h : LinksFairly N hash moments)
    (hpre : pre ++ [(before, a)] <+: moments) :
    before.Tidy ∧ ∀ b r, a = .linkTransaction hash b r → MayLink N hash pre := by
  induction h with
  | nil => exact absurd (List.prefix_nil.1 hpre) (List.append_ne_nil_of_right_ne_nil _ (List.cons_ne_nil _ _))
  | step h htidy hlink ih =>
    rcases List.prefix_concat_iff.1 hpre with heq | hpre
    · obtain ⟨rfl, hlast⟩ := List.append_inj' heq rfl
      obtain ⟨rfl, rfl⟩ := Prod.mk.inj (List.singleton_inj.1 hlast)
      exact ⟨htidy, hlink⟩
    · exact ih hpre

namespace Shared

variable {N : Answers} {s s₁ s' : Shared Storage} {hash : String}

/-- One's own accesses have linked the transaction of a hash only when they might. -/
structure Fair (N : Answers) (hash : String) (s : Shared Storage) : Prop where
  tidy : s.state.AllTidy
  links : LinksFairly N hash s.moments

/-- A shared store that is fair later on; what might be linked before may still be linked. -/
structure Fairly (N : Answers) (hash : String) (s s' : Shared Storage) : Prop where
  fair : s'.Fair N hash
  mayLink : MayLink N hash s.moments → MayLink N hash s'.moments

theorem Fairly.refl (h : s.Fair N hash) : s.Fairly N hash s := ⟨h, id⟩

theorem Fair.access (h : s.Fair N hash) {a : Access} {r : Except Fault a.Reply}
    (ha : ∀ b receipt, a = .linkTransaction hash b receipt → MayLink N hash s.moments)
    (hR : Storage.store.shared.conduct (.access a) s r s') :
    ∃ before : Storage, before.Tidy ∧ r = before.answer a ∧
      s'.moments = s.moments ++ [(before, a)] ∧ s'.Fair N hash := by
  have hbefore := h.tidy.afterAll (s.turns.headD [])
  obtain ⟨rfl, rfl⟩ := Prod.mk.inj hR
  exact ⟨_, hbefore.tidy, rfl, rfl, hbefore.perform (.access a), h.links.step hbefore.tidy ha⟩

/-- What might be linked before an access that spares it may still be linked. -/
theorem Fair.fairly {before : Storage} {a : Access} (h : s'.Fair N hash)
    (hmoments : s'.moments = s.moments ++ [(before, a)]) (hspares : before.Spares a hash) :
    s.Fairly N hash s' := by
  refine ⟨h, fun hmay => ?_⟩
  rw [hmoments]
  exact hmay.spared hspares

theorem Fairly.trans {s₁ s₂ s₃ : Shared Storage} (h : s₁.Fairly N hash s₂) (h' : s₂.Fairly N hash s₃) :
    s₁.Fairly N hash s₃ :=
  ⟨h'.fair, fun hmay => h'.mayLink (h.mayLink hmay)⟩

theorem Fair.act (h : s.Fair N hash) {a : Action} {r : Except Fault a.Reply}
    (ha : (Move.act a).sparesTransactions = true) (hR : Storage.store.shared.conduct a s r s') :
    s.Fairly N hash s' := by
  cases a with
  | access a =>
    have hspares : a.writesTransactions = false := Bool.not_eq_true' _ ▸ ha
    obtain ⟨before, htidy, -, hmoments, hfair⟩ := h.access (fun b receipt heq => by
      subst heq
      cases hspares) hR
    exact hfair.fairly hmoments (htidy.spares_of_not_writes hspares)
  | _ =>
    obtain ⟨-, rfl⟩ := Prod.mk.inj hR
    exact ⟨⟨(h.tidy.afterAll _).perform _, h.links⟩, id⟩

end Shared

/-- Every execution of the attempt links the transaction of a hash only when it might be linked. -/
def Attempt.KeepsFair {α : Type} (N : Answers) (hash : String) (t : Attempt α) : Prop :=
  ∀ ⦃s : Shared Storage⦄, s.Fair N hash →
    t.EnsuresShared N s (fun _ s' => s'.Fair N hash) fun _ s' => s'.Fair N hash

namespace Resolve

open Attempt Shared

variable {N : Answers} {s : Shared Storage} {hash : String} {policy : ConfirmationPolicy}

/-! ## Rules -/

section

variable {α : Type} {X : Fault → Shared Storage → Prop}

theorem ensuresFair_of_only {t : Attempt α} {Q : α → Shared Storage → Prop}
    (ht : t.Only Move.sparesTransactions) (h : s.Fair N hash)
    (hQ : ∀ a s', s.Fairly N hash s' → Q a s') (hX : ∀ e s', s.Fairly N hash s' → X e s') :
    t.EnsuresShared N s Q X := by
  refine fun es r s' hexec => ⟨fun e _ => e.obeys_true, ?_⟩
  obtain ⟨hfairly, -⟩ := Routine.Only.of_exec ht (I := fun s' => s.Fairly N hash s')
    (fun a s₁ r s₂ ha hR h₁ => h₁.trans (h₁.fair.act ha hR)) hexec (.refl h)
  cases r with
  | ok a => exact hQ a s' hfairly
  | error e => exact hX e s' hfairly

theorem keepsFair_of_only {t : Attempt α} (ht : t.Only Move.sparesTransactions) : t.KeepsFair N hash :=
  fun _ hs => ensuresFair_of_only ht hs (fun _ _ hfairly => hfairly.fair) fun _ _ hfairly => hfairly.fair

theorem ensuresFair_perform {a : Access} {Q : a.Reply → Shared Storage → Prop} (h : s.Fair N hash)
    (ha : ∀ b r, a = .linkTransaction hash b r → MayLink N hash s.moments)
    (hQ : ∀ before s', before.Tidy → s'.moments = s.moments ++ [(before, a)] → s'.Fair N hash →
      Outcome Q X (before.answer a) s') : a.perform.EnsuresShared N s Q X := by
  refine ensures_perform (a := .access a) fun r s' hR => ⟨Event.obeys_true _, ?_⟩
  obtain ⟨before, htidy, rfl, hmoments, hfair⟩ := h.access ha hR
  exact hQ before s' htidy hmoments hfair

end

/-! ## Single transactions -/

/-- Whatever is linked in place, other transactions that might be linked still may. -/
theorem ensuresFair_linkTransaction {key : String} {b : Ledger.Block} {r : Chain.Receipt}
    (h : s.Fair N hash) (ha : key = hash → MayLink N hash s.moments) :
    (Access.linkTransaction key b r).perform.EnsuresShared N s
      (fun _ s' => s'.Fair N hash ∧ (key ≠ hash → s.Fairly N hash s'))
      fun _ s' => s'.Fair N hash := by
  refine ensuresFair_perform h (fun b' r' heq => ?_) fun before s' htidy hmoments hfair => ?_
  · injection heq with hkey
    exact ha hkey
  · have hend : s'.Fair N hash ∧ (key ≠ hash → s.Fairly N hash s') := by
      refine ⟨hfair, fun hne => hfair.fairly hmoments (htidy.spares id fun b' r' heq => ?_)⟩
      injection heq with hkey
      exact hne hkey
    cases before.answer (.linkTransaction key b r) with
    | ok row => exact hend
    | error e => exact hfair

theorem ensuresFair_createOrLink {t : Chain.Transaction} {r : Chain.Receipt} {b : Ledger.Block}
    (h : s.Fair N hash) (ht : t.hash = hash → MayLink N hash s.moments) :
    (createOrLink t r b).EnsuresShared N s
      (fun _ s' => s'.Fair N hash ∧ (t.hash ≠ hash → s.Fairly N hash s'))
      fun _ s' => s'.Fair N hash := by
  refine ensures_tryCatch (ensuresFair_perform h nofun fun before s₁ htidy hmoments hfair => ?_)
  cases hanswer : before.answer (.createTransaction t r b) with
  | ok row =>
    refine ⟨hfair, fun hne => hfair.fairly hmoments (htidy.spares (fun hadds => ?_) nofun)⟩
    exact hne (Key.transaction.inj hadds).symm
  | error fault =>
    -- Nothing was stored, so that what was looked up before still counts.
    have hkept : s.Fairly N hash s₁ := hfair.fairly hmoments (htidy.spares_of_refused hanswer)
    show EnsuresShared N (if fault.isDuplicate then _ else _) s₁ _ _
    split
    · exact (ensuresFair_linkTransaction hfair fun heq => hkept.mayLink (ht heq)).mono
        (fun _ s' hend => ⟨hend.1, fun hne => hkept.trans (hend.2 hne)⟩) fun _ _ hend => hend
    · exact ensures_throw hfair

/-- What the node told may be linked if the transaction that it was asked for may. -/
theorem mayLink_of_tells {moments : List (Storage × Access)} {asked : String} {t : Chain.Transaction}
    (ht : N.TellsTransaction asked t) (hasked : Text.lower asked = hash → MayLink N hash moments)
    (heq : t.hash = hash) : MayLink N hash moments := by
  by_cases hlower : Text.lower asked = hash
  · exact hasked hlower
  · exact .inr ⟨asked, t, ht, heq, hlower⟩

theorem keepsFair_transaction (asked : String) : (transaction policy asked).KeepsFair N hash := by
  intro s h
  refine ensures_bind (ensuresFair_perform h nofun fun before s₁ htidy hmoments h₁ => ?_)
  obtain ⟨stored, hanswer, -⟩ := htidy.answer_getTransaction (canonical asked)
  rw [hanswer]
  -- Unless the row is linked, the look-up is why it may be linked later.
  have hlookup (hnone : ∀ row, stored = some row → row.isMined = false) (heq : canonical asked = hash) :
      MayLink N hash s₁.moments := by
    rw [hmoments]
    refine .inl (.lookup heq fun hlinked => ?_)
    obtain ⟨row, hrow, hmined⟩ := hlinked
    subst heq
    have hunmined := hnone row (Except.ok.inj (hanswer.symm.trans hrow))
    rw [hmined] at hunmined
    cases hunmined
  have hsettled {Q : Chain.Receipt × Ledger.Block → Shared Storage → Prop}
      (hQ : ∀ settled s', s₁.Fairly N hash s' → Q settled s') :
      (receiptAndBlock policy (canonical asked)).EnsuresShared N s₁ Q fun _ s' => s'.Fair N hash :=
    ensuresFair_of_only (Routine.Only.imp (only_receiptAndBlock _) Move.sparesTransactions_of_isBlockwise)
      h₁ hQ fun _ _ hfairly => hfairly.fair
  show EnsuresShared N _ s₁ _ _
  cases stored with
  | some row =>
    cases hmined : row.isMined with
    | true =>
      simp only [hmined, if_true]
      exact ensures_pure h₁
    | false =>
      simp only [hmined]
      refine ensures_bind (hsettled fun settled s₂ h₂ => ?_)
      refine (ensuresFair_linkTransaction h₂.fair fun heq => h₂.mayLink (hlookup ?_ heq)).mono
        (fun _ _ hend => hend.1) fun _ _ hend => hend
      exact fun row' hrow' => Option.some.inj hrow' ▸ hmined
  | none =>
    refine ensures_bind (hsettled fun settled s₂ h₂ => ?_)
    refine ensures_bind (ensures_send (fun first hN => ?_) fun _ _ => h₂.fair)
    refine ensures_bind (ensures_settleTransaction (fun t ht => .inl (ht ▸ hN)) (fun t name ht _ => ?_)
      fun _ _ => h₂.fair)
    refine (ensuresFair_createOrLink h₂.fair (mayLink_of_tells ht fun heq => ?_)).mono
      (fun _ _ hend => hend.1) fun _ _ hend => hend
    rw [lower_canonical] at heq
    exact h₂.mayLink (hlookup nofun heq)

/-! ## Many transactions -/

/-- If two of the found transactions have the same hash, the node was asked for one of them by another. -/
def UniqueUpToNames (N : Answers) (hash : String) (found : List Found) : Prop :=
  found.Pairwise fun f f' => f.transaction.hash = hash → f'.transaction.hash = hash → N.Renames hash

theorem uniqueUpToNames {hashes : List String} {found : List Found}
    (h : List.Forall₂ (FoundFor N) hashes found) (hn : hashes.Nodup)
    (hlower : ∀ asked ∈ hashes, Text.lower asked = asked) : UniqueUpToNames N hash found := by
  have hasked {asked : String} {f : Found} (hfor : FoundFor N asked f) (heq : f.transaction.hash = hash)
      (hrenames : ¬ N.Renames hash) : Text.lower asked = hash :=
    Classical.byContradiction fun hne => hrenames ⟨asked, _, hfor.transaction, heq, hne⟩
  induction h with
  | nil => exact .nil
  | @cons asked f rest found hfor hrest ih =>
    obtain ⟨hnotin, hn⟩ := List.nodup_cons.1 hn
    refine List.pairwise_cons.2 ⟨fun f' hf' heq heq' => Classical.byContradiction fun hrenames => ?_,
      ih hn fun asked hmem => hlower asked (List.mem_cons_of_mem _ hmem)⟩
    obtain ⟨asked', hmem, hfor'⟩ := exists_of_mem_right hrest hf'
    have hsame : asked = asked' := by
      rw [← hlower asked List.mem_cons_self, hasked hfor heq hrenames,
        ← hlower asked' (List.mem_cons_of_mem _ hmem), hasked hfor' heq' hrenames]
    exact hnotin (hsame ▸ hmem)

theorem ensuresFair_storeFound {g : Gathered} {stored : List (String × Ledger.Block)} {found : List Found}
    (h : s.Fair N hash) (hunique : UniqueUpToNames N hash found)
    (hfound : ∀ f ∈ found, f.transaction.hash = hash → MayLink N hash s.moments) :
    (storeFound policy g stored found).EnsuresShared N s (fun _ s' => s'.Fair N hash)
      fun _ s' => s'.Fair N hash := by
  induction found generalizing s stored with
  | nil => exact ensures_pure h
  | cons f rest ih =>
    obtain ⟨hfirst, hrest⟩ := List.pairwise_cons.1 hunique
    -- Once the block is there, the transaction is written and then the others are.
    have hnext {stored' : List (String × Ledger.Block)} {b : Ledger.Block} {s₁ : Shared Storage}
        (h₁ : s.Fairly N hash s₁) : EnsuresShared N (do
          let row ← createOrLink f.transaction f.receipt b
          let rows ← storeFound policy g stored' rest
          return row :: rows) s₁ (fun _ s' => s'.Fair N hash) fun _ s' => s'.Fair N hash := by
      refine ensures_bind (Ensures.mono (ensuresFair_createOrLink h₁.fair fun heq =>
        h₁.mayLink (hfound f List.mem_cons_self heq)) (fun row s₂ hend => ?_) fun _ _ hend => hend)
      refine ensures_bind (Ensures.mono (ih hend.1 hrest fun f' hf' heq => ?_)
        (fun rows s₃ h₃ => ensures_pure h₃) fun _ _ h₃ => h₃)
      by_cases hsame : f.transaction.hash = hash
      · exact .inr (hfirst f' hf' hsame heq)
      · exact (hend.2 hsame).mayLink (h₁.mayLink (hfound f' (List.mem_cons_of_mem _ hf') heq))
    rw [storeFound]
    split
    · exact hnext (.refl h)
    · split
      · exact ensures_throw h
      · exact ensures_bind (ensuresFair_of_only (only_perform rfl) h (fun b s₁ h₁ => hnext h₁)
          fun _ _ h₁ => h₁.fair)

theorem keepsFair_transactions (hashes : List String) : (transactions policy hashes).KeepsFair N hash := by
  intro s h
  rw [transactions_eq]
  split
  · exact ensures_pure h
  · refine ensures_bind (ensuresFair_perform h nofun fun before s₁ htidy hmoments h₁ => ?_)
    obtain ⟨m, ⟨t, hrep, rfl⟩, hm⟩ := htidy
    obtain ⟨known, hanswer, hknown⟩ := Storage.exists_answer_getMined hrep (distinct hashes)
    -- What is missing was not linked when the linked rows were looked up.
    have hlookup (hmem : hash ∈ missing known hashes) : MayLink N hash s₁.moments := by
      rw [hmoments]
      refine .inl (.lookup (mem_missing.1 hmem).1 ?_)
      rw [hrep.linked_iff]
      exact not_linked_of_mem_missing hm.txHash hknown hmem
    have hlower : ∀ asked ∈ missing known hashes, Text.lower asked = asked := fun asked hmem => by
      rw [← canonical_of_mem_distinct (mem_missing.1 hmem).1, lower_canonical]
    rw [hanswer]
    dsimp only [Outcome]
    split
    · exact ensures_rowsOf (fun _ _ => h₁) fun _ _ _ => h₁
    · refine ensures_bind (ensures_bind (ensures_gather (fun g hg => ?_) fun _ _ => h₁))
      refine (ensuresFair_storeFound h₁ (uniqueUpToNames hg.found ((nodup_distinct hashes).filter _) hlower)
        fun f hf heq => ?_).mono (fun fetched s₂ h₂ => ensures_rowsOf (fun _ _ => h₂) fun _ _ _ => h₂)
        fun _ _ h₂ => h₂
      obtain ⟨asked, hmem, hfor⟩ := exists_of_mem_right hg.found hf
      refine mayLink_of_tells hfor.transaction (fun hasked => ?_) heq
      rw [hlower asked hmem] at hasked
      exact hlookup (hasked ▸ hmem)

end Resolve

/-! ## Operations -/

open Attempt

variable {α : Type} {N : Answers} {s : Shared Storage} {hash : String} {policy : ConfirmationPolicy}

theorem Move.sparesTransactions_of_isUnit {m : Move} (h : m.isUnit = true) : m.sparesTransactions = true := by
  cases m with
  | ask q => rfl
  | act a =>
    cases a with
    | access a => cases h
    | _ => rfl

/-- Nobody but the engine links a transaction. -/
theorem Access.ne_linkTransaction_of_isFree {a : Access} (h : a.isFree = true) {hash : String}
    {b : Ledger.Block} {r : Chain.Receipt} : a ≠ .linkTransaction hash b r := by
  rintro rfl
  cases h

theorem Attempt.keepsFair_of_isFree {a : Access} (free : a.isFree = true) : a.perform.KeepsFair N hash := by
  intro s h
  refine Resolve.ensuresFair_perform h (fun b r heq => absurd heq (Access.ne_linkTransaction_of_isFree free))
    fun before s' _ _ h' => ?_
  cases before.answer a <;> exact h'

theorem Indexer.keepsFair_store (r : Rows) : (store policy r).KeepsFair N hash := by
  intro s h
  unfold store
  split
  · exact ensures_pure h
  · exact ensures_bind ((Resolve.keepsFair_transactions _ h).mono
      (fun _ _ h₁ => Resolve.keepsFair_of_only (only_perform rfl) h₁) fun _ _ h₁ => h₁)

theorem Operation.Part.fair {p : Routine α} (h : Part policy p) (hs : s.Fair N hash) :
    p.Ensures N Storage.store.shared.conduct (fun _ _ _ => True) s fun _ s' => s'.Fair N hash := by
  have honly {α : Type} {t : Attempt α} (ht : t.Only Move.sparesTransactions) :
      t.run.Ensures N Storage.store.shared.conduct (fun _ _ _ => True) s fun _ s' => s'.Fair N hash :=
    (Resolve.keepsFair_of_only ht hs).routine
  cases h with
  | block hash =>
    exact honly (Routine.Only.imp (Resolve.only_block hash) Move.sparesTransactions_of_isBlockwise)
  | transaction hash => exact (Resolve.keepsFair_transaction hash hs).routine
  | transactions hashes => exact (Resolve.keepsFair_transactions hashes hs).routine
  | confirmBlocks =>
    exact honly (Routine.Only.imp Resolve.only_confirmBlocks Move.sparesTransactions_of_isBlockwise)
  | store _ => exact (Indexer.keepsFair_store _ hs).routine
  | reprocess scope =>
    exact honly (Routine.Only.imp (Reprocess.only_scope scope) Move.sparesTransactions_of_isUnit)
  | send _ => exact honly (only_send rfl)
  | access free _ => exact (keepsFair_of_isFree free hs).routine

/-- Every operation links only what it has found without a link, whatever others do in the meantime. -/
theorem Operation.fair (service : Service) (o : Operation) (hs : s.Fair N hash) :
    (o.attempt service).run.Ensures N Storage.store.shared.conduct (fun _ _ _ => True) s
      fun _ s' => s'.Fair N hash := by
  cases o with
  | access a free => exact (keepsFair_of_isFree free hs).routine
  | _ => exact (Operation.built service rfl).ensures (fun h => h.fair) hs

end ChainIndex
