import ChainIndex.Proofs.Service.Exactness
import ChainIndex.Proofs.Service.Served

/-!
# Replaying twice is replaying once

After a replay that succeeds, the store knows all that was found (`Storage.Knows`): every transaction is
linked, and every row and every marker has its key.  Whatever is known is stored without a question and
without a change (`Service.leads_known`), so that the same replay finds the same elements again and leaves
the store as it is, markers that were processed in the meantime included.
-/

namespace ChainIndex

open Chain (Element)
open Derived (FrameKey Marker)
open Text (canonical canonical_canonical)

/-- The node never answers a question in two ways. -/
def Answers.Fixed (N : Answers) : Prop := ∀ {q r r'}, N q r → N q r' → r = r'

/-- Whatever transaction the node tells carries the hash that it was asked for, in small letters. -/
def Answers.EchoesTransactions (N : Answers) : Prop :=
  ∀ ⦃hash t⦄, N.TellsTransaction hash t → t.hash = Text.lower hash

/-! ## What a replay leaves behind -/

theorem Memory.Linked.mono {m m' : Memory} (h : m.Extends m') {hash : String} (hlinked : m.Linked hash) :
    m'.Linked hash := by
  obtain ⟨t, ht, hmined⟩ := hlinked
  obtain ⟨t', ht', -, hmined'⟩ := h.transactions ht hmined
  exact ⟨t', ht', hmined'⟩

variable {N : Answers} {policy : ConfirmationPolicy} {network : Network}

/-- After many hashes were resolved, the transaction of each is linked. -/
theorem Resolve.ensures_transactions_linked {t : Session Memory} (ht : t.Sound) (hN : N.EchoesTransactions)
    (hashes : List String) : (transactions policy hashes).Ensures N Session.Effect (fun _ _ _ => True) t
      (fun _ t' => t'.Sound ∧ t.live.Extends t'.live ∧ ∀ hash ∈ distinct hashes, t'.live.Linked hash)
      fun _ _ => True := by
  refine ensures_transactions ht (fun _ _ _ => trivial) (fun _ _ _ _ t' hanswered => ?_) fun _ _ _ => trivial
  refine ⟨hanswered.linked.sound.1, hanswered.linked.sound.2, fun hash hmem => ?_⟩
  obtain ⟨row, -, hrow⟩ := exists_of_mem_left hanswered.rowOf hmem
  exact ⟨row, hanswered.get? ht hN hrow⟩

theorem Indexer.ensures_store_linked {t : Session Memory} (ht : t.Sound) (hN : N.EchoesTransactions)
    {r : Rows} (hr : r.Covered) : (store policy r).Ensures N Session.Effect (fun _ _ _ => True) t
      (fun _ t' => t'.Sound ∧ t.live.Extends t'.live ∧
        ∀ row ∈ r.rows, t'.live.Linked (canonical row.key.txHash)) fun _ _ => True := by
  unfold store
  split
  · rename_i hempty
    refine Attempt.ensures_pure ⟨ht, .refl _, fun row hrow => ?_⟩
    rw [List.isEmpty_iff.1 hempty] at hrow
    cases hrow
  · refine Attempt.ensures_bind ((Resolve.ensures_transactions_linked ht hN _).mono
      (fun _ t' hend => ?_) fun _ _ _ => trivial)
    obtain ⟨ht', hextends, hlinked⟩ := hend
    have hrows : ∀ row ∈ r.rows, t'.live.Linked (canonical row.key.txHash) := fun row hrow =>
      hlinked _ (Resolve.mem_distinct.2 ⟨_, List.mem_map_of_mem hrow, rfl⟩)
    have hmined : ∀ row ∈ r.rows, t'.live.HasMined row.key.txHash := fun row hrow => by
      obtain ⟨tx, htx, hmined⟩ := hrows row hrow
      have hhash := ht'.live.txHash htx
      exact ⟨tx, hhash ▸ htx, hmined, by rw [hhash, canonical_canonical]⟩
    have hp : (Access.insertInternal r.rows r.markers).Permitted t'.live := ⟨hmined, hr⟩
    refine Resolve.ensures_access fun n m he => ⟨trivial, ?_⟩
    obtain ⟨hsound, hextends'⟩ := he.sound ht'.live hp
    cases he
    exact ⟨⟨hsound, ht'.staged⟩, hextends.trans hextends', fun row hrow => (hrows row hrow).mono hextends'⟩

namespace Storage

variable {s s' : Storage} {t : Session Memory}

/-- What all executions within `Session.Effect` lead to, those on an open store lead to. -/
theorem leads_of_effect {α : Type} {p : Attempt α} {Q : α → List Event → Session Memory → Prop}
    {X : Fault → List Event → Session Memory → Prop} (hrep : s.Represents t)
    (h : p.Leads N Session.Effect t Q X) : p.Leads N store.conduct s
      (fun a es s' => ∃ t', s'.Represents t' ∧ Q a es t')
      fun e es s' => ∃ t', s'.Represents t' ∧ X e es t' := by
  have hsim : ∀ {a : Action} {s : Storage} {r : Except Fault a.Reply} {s' : Storage} {t},
      s.Represents t → store.conduct a s r s' → ∃ t', Session.Effect a t r t' ∧ s'.Represents t' :=
    fun hrel hact => exists_effect hrel hact
  intro es r s' hexec
  obtain ⟨t', hexec', hrep'⟩ := hexec.simulate hsim hrep
  have hend := h es r t' hexec'
  cases r with
  | ok a => exact ⟨t', hrep', hend⟩
  | error e => exact ⟨t', hrep', hend⟩

/-- All that some elements are stored as is there. -/
structure Knows (s : Storage) (network : Network) (elements : List Element) : Prop where
  linked : ∀ row ∈ (network.rows elements).rows, s.Linked (canonical row.key.txHash)
  rows : ∀ row ∈ (network.rows elements).rows, (s.derived.internalTxs.get? row.key).isSome = true
  markers : ∀ mk ∈ (network.rows elements).markers, (s.derived.markers.get? mk.key).isSome = true

/-- Nothing is lost that is known of a store. -/
structure Retains (s s' : Storage) : Prop where
  linked : ∀ hash, s.Linked hash → s'.Linked hash
  rows : ∀ key, (s.derived.internalTxs.get? key).isSome = true →
    (s'.derived.internalTxs.get? key).isSome = true
  markers : ∀ key, (s.derived.markers.get? key).isSome = true → (s'.derived.markers.get? key).isSome = true

theorem Retains.refl (s : Storage) : s.Retains s := ⟨fun _ => id, fun _ => id, fun _ => id⟩

theorem Retains.trans {s₁ s₂ s₃ : Storage} (h : s₁.Retains s₂) (h' : s₂.Retains s₃) : s₁.Retains s₃ :=
  ⟨fun hash => h'.linked hash ∘ h.linked hash, fun key => h'.rows key ∘ h.rows key,
    fun key => h'.markers key ∘ h.markers key⟩

theorem Knows.mono {elements : List Element} (hknows : s.Knows network elements) (h : s.Retains s') :
    s'.Knows network elements :=
  ⟨fun row hrow => h.linked _ (hknows.linked row hrow), fun row hrow => h.rows _ (hknows.rows row hrow),
    fun mk hmk => h.markers _ (hknows.markers mk hmk)⟩

end Storage

/-- Some elements were stored: afterwards they are known, and nothing was lost. -/
structure Settled (network : Network) (elements : List Element) (s : Storage) (_ : Nat) (_ : List Event)
    (s' : Storage) : Prop where
  knows : s'.Knows network elements
  retains : s.Retains s'
  tracked : ∀ network, s'.tracked network = s.tracked network

variable {s s' : Storage}

theorem Network.leads_settle (network : Network) (elements : List Element) (hN : N.EchoesTransactions)
    (hs : ∃ t, s.Represents t ∧ t.Sound) :
    (Indexer.store policy (network.rows elements)).Leads N Storage.store.conduct s
      (fun n es s' => Settled network elements s n es s' ∧ ∃ t, s'.Represents t ∧ t.Sound)
      fun _ _ _ => True := by
  obtain ⟨t, hrep, ht⟩ := hs
  refine ((network.leads_store elements).and (Storage.leads_of_effect hrep
    (Indexer.ensures_store_linked ht hN (network.covered_rows elements)).leads)).mono
    (fun n es s' hend => ?_) fun _ _ _ _ => trivial
  obtain ⟨hstored, t', hrep', ht', hextends, hlinked⟩ := hend
  refine ⟨⟨⟨fun row hrow => (hrep'.linked_iff _).2 (hlinked row hrow), fun row hrow => ?_, fun mk hmk => ?_⟩,
    ⟨fun hash hl => ?_, fun key hkey => ?_, fun key hkey => ?_⟩, hstored.tracked⟩, t', hrep', ht'⟩
  · rw [network.rows_rows] at hrow
    rw [hstored.gains.internalTxs, Option.isSome_or, List.find?_isSome.2 ⟨row, hrow, decide_eq_true rfl⟩,
      Bool.or_true]
  · rw [network.rows_markers] at hmk
    rw [hstored.gains.markers, Option.isSome_or, List.find?_isSome.2 ⟨mk, hmk, decide_eq_true rfl⟩,
      Bool.or_true]
  · exact (hrep'.linked_iff _).2 (((hrep.linked_iff _).1 hl).mono hextends)
  · rw [hstored.gains.internalTxs, Option.isSome_or, hkey, Bool.true_or]
  · rw [hstored.gains.markers, Option.isSome_or, hkey, Bool.true_or]

/-- After a sweep all that was found is known. -/
theorem Settled.swept {addresses : List String} {stop size cursor : UInt64} {found : List (List Element)}
    {n : Nat} {es : List Event}
    (h : Indexer.Swept (network.Finds N addresses) (Settled network) stop size cursor s found n es s') :
    (∀ elements ∈ found, s'.Knows network elements) ∧ s.Retains s' ∧
      ∀ network, s'.tracked network = s.tracked network := by
  induction h with
  | done h => exact ⟨nofun, .refl _, fun _ => rfl⟩
  | window h hfind hstore rest ih =>
    obtain ⟨hknows, hretains, htracked⟩ := ih
    refine ⟨fun elements hmem => ?_, hstore.retains.trans hretains,
      fun network => (htracked network).trans (hstore.tracked network)⟩
    rcases List.mem_cons.1 hmem with rfl | hmem
    · exact hstore.knows.mono hretains
    · exact hknows elements hmem

/-! ## Doing it again -/

/-- Whether a question is about certain blocks, transactions or receipts. -/
def Query.isFetch : Query → Bool
  | block _ | blocks _ => true
  | transaction _ | transactions _ => true
  | receipt _ | receipts _ => true
  | _ => false

/-- Whether the node was asked about certain blocks, transactions or receipts. -/
def Event.isFetch : Event → Bool
  | asked q _ => q.isFetch
  | did .. => false

theorem Event.isFetch_eq_false {e : Event} (h : e.isQuestion = false) : e.isFetch = false := by
  cases e with
  | asked q r => exact absurd h.symm Bool.false_ne_true
  | did a r => rfl

theorem Network.isFetch_search (network : Network) (addresses : List String) (first last : UInt64)
    (r : Except Fault (network.search addresses first last).Reply) :
    (Event.asked (network.search addresses first last) r).isFetch = false := by
  cases network <;> rfl

theorem Storage.perform_insertInternal_of_known {rows : List Derived.InternalTx} {markers : List Marker}
    (hrows : ∀ row ∈ rows, (s.derived.internalTxs.get? row.key).isSome = true)
    (hmarkers : ∀ mk ∈ markers, (s.derived.markers.get? mk.key).isSome = true) :
    store.perform (.access (.insertInternal rows markers)) s = (.ok 0, s) := by
  have hknown := Derived.Tables.insertInternal_of_known hrows hmarkers
  cases s with
  | memory t =>
    show (Except.ok (t.live.derived.insertInternal rows markers).1, Storage.memory { t with
      live := { t.live with derived := (t.live.derived.insertInternal rows markers).2 } }) = _
    rw [show t.live.derived.insertInternal rows markers = (0, t.live.derived) from hknown]
  | database path? t =>
    show (Except.ok (t.live.derived.insertInternal rows markers).1, Storage.database path? { t with
      live := { t.live with derived := (t.live.derived.insertInternal rows markers).2 } }) = _
    rw [show t.live.derived.insertInternal rows markers = (0, t.live.derived) from hknown]

theorem Operation.IsLocal.leads {service : Service} {o : Operation} {reply : o.Reply}
    (h : o.IsLocal service s reply) : (o.attempt service).Leads N Storage.store.conduct s
      (fun a es s' => a = reply ∧ s' = s ∧ ∀ e ∈ es, e.isQuestion = false) fun _ _ _ => False := by
  obtain ⟨hrun, hlocal⟩ := h Unit Sample.node ()
  refine (Routine.Leads.of_run hlocal).mono fun r es s' hend => ?_
  obtain ⟨rfl, rfl, rfl⟩ := hend
  have hsame : (o.attempt service).run.run Sample.node Storage.store ⟨(), s⟩ = _ := hrun
  rw [hsame]
  exact ⟨rfl, rfl, hlocal⟩

/-- Linked transactions are resolved without a question and without a change. -/
theorem Resolve.leads_transactions_known (hs : s.Reachable) {hashes : List String}
    (hlinked : ∀ hash ∈ distinct hashes, s.Linked hash) :
    (transactions policy hashes).Leads N Storage.store.conduct s
      (fun _ es s' => s' = s ∧ ∀ e ∈ es, e.isFetch = false) fun _ _ _ => False := by
  obtain ⟨t, hrep, -, hidle⟩ := hs.exists_idle
  by_cases hnone : distinct hashes = []
  · rw [transactions_eq, if_pos (List.isEmpty_iff.2 hnone)]
    exact Attempt.leads_pure ⟨rfl, fun e he => absurd he List.not_mem_nil⟩
  · obtain ⟨asked, hasked⟩ := List.exists_mem_of_ne_nil _ hnone
    obtain ⟨row, -⟩ := hlinked asked hasked
    have hnonempty : Nonempty Ledger.Transaction := ⟨row⟩
    choose! f hf using fun hash hmem => (hrep.linked_iff hash).1 (hlinked hash hmem)
    have hlocal : (Operation.transactions hashes).IsLocal ⟨policy, .l1, 0⟩ s _ :=
      Storage.isLocal_transactions hrep hidle hf
    refine (hlocal.leads (N := N)).mono (fun rows es s' hend => ⟨hend.2.1, fun e he => ?_⟩) fun _ _ _ => id
    exact Event.isFetch_eq_false (hend.2.2 e he)

theorem Service.leads_known (service : Service) (exact_ : Bool) (hs : s.Reachable) {elements : List Element}
    (hknows : s.Knows service.network elements) :
    (service.indexer.process elements).Leads N Storage.store.conduct exact_ s
      (fun n i es s' => n = 0 ∧ i = exact_ ∧ s' = s ∧ ∀ e ∈ es, e.isFetch = false)
      fun _ _ _ _ => False := by
  refine service.leads_process exact_ (Indexer.leads_store (fun _ => ?_) fun _ => ?_)
  · exact ⟨rfl, rfl, rfl, fun e he => absurd he List.not_mem_nil⟩
  · have hlinked : ∀ hash ∈ Resolve.distinct ((service.network.rows elements).rows.map
        fun row => row.key.txHash), s.Linked hash := fun hash hmem => by
      obtain ⟨asked, hasked, rfl⟩ := Resolve.mem_distinct.1 hmem
      obtain ⟨row, hrow, rfl⟩ := List.mem_map.1 hasked
      exact hknows.linked row hrow
    refine (Resolve.leads_transactions_known hs hlinked).mono (fun _ es s₁ hend n s' hR => ?_) fun _ _ _ => id
    obtain ⟨rfl, hes⟩ := hend
    obtain ⟨rfl, rfl⟩ := Prod.mk.inj
      (hR.symm.trans (Storage.perform_insertInternal_of_known hknows.rows hknows.markers))
    refine ⟨rfl, rfl, rfl, fun e he => ?_⟩
    rcases List.mem_append.1 he with he | he
    · exact hes e he
    · rw [List.mem_singleton.1 he]
      rfl

/-- When all that was found is known, sweeping the same windows again finds it again, and nothing else
happens. -/
theorem Service.leads_sweep_again {Store : List Element → Storage → Nat → List Event → Storage → Prop}
    (service : Service) (hN : N.Fixed) {exact_ : Bool} {addresses : List String} {stop cursor : UInt64}
    {size : { size : UInt64 // 0 < size }} {found : List (List Element)} {n : Nat} {es : List Event}
    {s₀ s₁ : Storage} (h : Indexer.Swept (service.network.Finds N (service.network.scope exact_ addresses))
      Store stop size cursor s₀ found n es s₁)
    (hs : s.Reachable) (hknows : ∀ elements ∈ found, s.Knows service.network elements) (report : Report) :
    (service.indexer.sweep addresses stop size cursor report).Leads N Storage.store.conduct exact_ s
      (fun report' _ es s' => report' = { report with
          chunks := report.chunks + found.length
          elementsFound := report.elementsFound + found.flatten.length } ∧
        s' = s ∧ ∀ e ∈ es, e.isFetch = false) fun _ _ _ _ => False := by
  induction h generalizing report with
  | done h =>
    rw [Indexer.sweep, if_neg (UInt64.not_lt.2 h)]
    exact StateAttempt.leads_pure ⟨rfl, rfl, fun e he => absurd he List.not_mem_nil⟩
  | @window cursor _ elements _ _ _ _ found _ _ _ h hfind hstore rest ih =>
    obtain ⟨hlt, r, -, hr, hfound⟩ := hfind
    rw [Indexer.sweep, if_pos h]
    refine StateAttempt.leads_bind ((service.leads_find exact_ addresses hlt).mono
      (fun elements' i es s₂ hend => ?_) fun e _ _ _ hfault => ?_)
    · obtain ⟨⟨-, r', rfl, hr', hfound'⟩, rfl, rfl⟩ := hend
      obtain rfl := hN hr hr'
      obtain rfl : elements = elements' := Option.some.inj (hfound.symm.trans hfound')
      refine StateAttempt.leads_bind ((service.leads_known i hs (hknows elements List.mem_cons_self)).mono
        (fun n i' es₁ s₃ hend => ?_) fun _ _ _ _ => id)
      obtain ⟨rfl, rfl, rfl, hes₁⟩ := hend
      refine (ih (fun elements' hmem => hknows elements' (List.mem_cons_of_mem _ hmem)) _).mono
        (fun report' _ es₂ s₄ hend => ?_) fun _ _ _ _ => id
      obtain ⟨rfl, rfl, hes₂⟩ := hend
      refine ⟨?_, rfl, fun e he => ?_⟩
      · simp only [List.length_cons, List.flatten_cons, List.length_append, Nat.add_assoc, Nat.add_comm 1,
          Nat.add_zero]
      · rcases List.mem_append.1 he with he | he
        · rw [List.mem_singleton.1 he]
          exact service.network.isFetch_search _ _ _ _
        · exact (List.mem_append.1 he).elim (hes₁ e) (hes₂ e)
    · rw [hN hr hfault] at hfound
      cases hfound

/-- After a replay that succeeds, the same replay of a store that retains what is known finds the same and
leaves the store as it is. -/
theorem Service.leads_replay_again (service : Service) (exact_ : Bool) (hN : N.Fixed) {r : Request}
    {report : Report} {es : List Event} {s₀ s₁ : Storage}
    (h : Replayed N (Settled service.network) service.network service.indexer.name r s₀ report es s₁)
    (hs : s.Reachable) (hretains : s₁.Retains s)
    (htracked : ∀ network, s.tracked network = s₁.tracked network) :
    (service.indexer.replay r).Leads N Storage.store.conduct exact_ s
      (fun report' _ es s' => report' = { report with elementsProcessed := 0 } ∧ s' = s ∧
        ∀ e ∈ es, e.isFetch = false) fun _ _ _ _ => False := by
  have hchoose {addresses : List String} (hchosen : s₀.chosen service.network r = .ok addresses)
      (hsame : s₁.tracked service.network = s₀.tracked service.network) :
      (service.indexer.chooseAddresses r).Leads N Storage.store.conduct exact_ s
        (fun addresses' i es s' => addresses' = addresses ∧
          service.network.scope i addresses = service.network.targets r addresses ∧ s' = s ∧
          ∀ e ∈ es, e.isFetch = false) fun _ _ _ _ => False := by
    have hagain : s.chosen service.network r = .ok addresses := by
      rw [← hchosen, Storage.chosen, Storage.chosen, htracked, hsame]
    refine (service.leads_chooseAddresses exact_ r).mono (fun addresses' i es s' hend => ?_)
      fun e _ _ _ hfault => by cases hagain.symm.trans hfault
    obtain ⟨⟨hchosen', hscope⟩, rfl, hes⟩ := hend
    obtain rfl := Except.ok.inj (hchosen'.symm.trans hagain)
    exact ⟨rfl, hscope, rfl, fun e he => Event.isFetch_eq_false (hes e he)⟩
  cases h with
  | idle hvalid hnone hes =>
    rw [service.indexer.replay_of_ok hvalid]
    refine StateAttempt.leads_bind ((hchoose hnone rfl).mono (fun addresses i es s₂ hend => ?_)
      fun _ _ _ _ => id)
    obtain ⟨rfl, -, rfl, hes⟩ := hend
    refine StateAttempt.leads_pure ⟨rfl, rfl, ?_⟩
    rw [List.append_nil]
    exact hes
  | @swept size addresses head _ _ found n _ hvalid hchosen hsome hes hhead hswept =>
    obtain ⟨hknows, -, hsame⟩ := Settled.swept hswept
    rw [service.indexer.replay_of_ok hvalid]
    refine StateAttempt.leads_bind ((hchoose hchosen (hsame _)).mono (fun addresses' i es s₂ hend => ?_)
      fun _ _ _ _ => id)
    obtain ⟨rfl, hscope, rfl, hes⟩ := hend
    rw [Indexer.replayFor, if_neg fun hempty => hsome (List.isEmpty_iff.1 hempty)]
    refine StateAttempt.leads_bind (StateAttempt.leads_keeping (Attempt.leads_send
      (fun head' hhead' => ?_) fun e hfault => ?_))
    · obtain rfl := Except.ok.inj (hN hhead hhead')
      rw [← hscope, ← Request.validate_eq_ok hvalid] at hswept
      refine (service.leads_sweep_again hN hswept hs
        (fun elements hmem => (hknows elements hmem).mono hretains) _).mono
        (fun report' _ es' s₃ hend => ?_) fun _ _ _ _ => id
      obtain ⟨rfl, rfl, hes'⟩ := hend
      refine ⟨by simp only [Nat.zero_add], rfl, fun e he => ?_⟩
      rcases List.mem_append.1 he with he | he
      · exact hes e he
      · rcases List.mem_cons.1 he with rfl | he
        · rfl
        · exact hes' e he
    · cases hN hhead hfault

namespace Storage

/-- The store after the decoder has handled some markers. -/
def decoded (s : Storage) (keys : List FrameKey) : Storage :=
  keys.foldl (fun s key => s.after (.setProcessed key)) s

theorem derived_setProcessed (s : Storage) (key : FrameKey) :
    (s.after (.setProcessed key)).derived = s.derived.setProcessed key := by
  cases s <;> rfl

/-- Nothing that is known is lost when the decoder handles markers. -/
theorem retains_decoded (s : Storage) (keys : List FrameKey) : s.Retains (s.decoded keys) := by
  induction keys generalizing s with
  | nil => exact .refl s
  | cons key rest ih =>
    refine Retains.trans ⟨fun hash hlinked => ?_, fun k hk => ?_, fun k hk => ?_⟩ (ih _)
    · cases s <;> exact hlinked
    · rw [derived_setProcessed]
      exact hk
    · rw [derived_setProcessed, Derived.Tables.setProcessed, Table.get?_modify]
      split
      · rwa [Option.isSome_map]
      · exact hk

theorem tracked_decoded (s : Storage) (keys : List FrameKey) (network : Network) :
    (s.decoded keys).tracked network = s.tracked network := by
  induction keys generalizing s with
  | nil => rfl
  | cons key rest ih =>
    refine (ih _).trans ?_
    cases s <;> cases network <;> rfl

theorem Reachable.decoded (hs : s.Reachable) (keys : List FrameKey) : (s.decoded keys).Reachable := by
  induction keys generalizing s with
  | nil => exact hs
  | cons key rest ih => exact ih (.step hs Sample.service (.access (.setProcessed key) rfl) Sample.node ())

theorem processed_decoded (s : Storage) {keys : List FrameKey} {key : FrameKey} {mk : Marker}
    (hkey : key ∈ keys ∨ ∀ mk, s.derived.markers.get? key = some mk → mk.processed = true)
    (hmk : (s.decoded keys).derived.markers.get? key = some mk) : mk.processed = true := by
  induction keys generalizing s with
  | nil => exact hkey.elim (fun h => absurd h List.not_mem_nil) fun h => h mk hmk
  | cons key' rest ih =>
    refine ih (s.after (.setProcessed key')) ?_ hmk
    refine or_iff_not_imp_left.2 fun hrest mk' hmk' => ?_
    rw [derived_setProcessed, Derived.Tables.setProcessed, Table.get?_modify] at hmk'
    split at hmk'
    · obtain ⟨mk₀, -, rfl⟩ := Option.map_eq_some_iff.1 hmk'
      rfl
    · rename_i hne
      rcases hkey with hkey | hkey
      · exact absurd ((List.mem_cons.1 hkey).resolve_right hrest) hne
      · exact hkey mk' hmk'

end Storage

/-- A replay that succeeds settles all that it finds. -/
theorem Operation.settled {ν : Type} {service : Service} {node : Node ν}
    (hN : node.answers.EchoesTransactions) {w : Routine.World ν Storage} (hw : w.store.Reachable)
    {exact_ : Bool} {r : Request} {report : Report}
    (hrun : ((replay service.network exact_ r).run service node w).1 = .ok report) :
    Replayed node.answers (Settled service.network) service.network service.indexer.name r w.store report
      ((replay service.network exact_ r).history service node w)
      ((replay service.network exact_ r).run service node w).2.store := by
  have hstore (exact_ : Bool) (elements : List Element) (s : Storage)
      (hs : ∃ t, s.Represents t ∧ t.Sound) : (service.indexer.process elements).Leads node.answers
        Storage.store.conduct exact_ s (fun n i es s' => Settled service.network elements s n es s' ∧
          i = exact_ ∧ ∃ t, s'.Represents t ∧ t.Sound) fun _ _ _ _ => True :=
    service.leads_process exact_ ((service.network.leads_settle elements hN hs).mono
      (fun n es s' hend => ⟨hend.1, rfl, hend.2⟩) fun _ _ _ _ => trivial)
  exact (of_run_replay (service.leads_replay exact_ r hstore hw.sound) hrun).2

/-- With a node that never changes its answers, and that tells transactions by the hashes that it is asked
for, a replay that succeeded succeeds again and reports the same, but that no elements were new; it fetches
nothing, and leaves the store as it is.  Markers that the decoder has handled in the meantime stay
processed. -/
theorem Operation.reindex_again {ν : Type} {service : Service} {node : Node ν}
    (hfixed : node.answers.Fixed) (hechoes : node.answers.EchoesTransactions)
    {w : Routine.World ν Storage} (hw : w.store.Reachable) {fromBlock : UInt64}
    {toBlock chunkSize : Option UInt64} {addresses : Option (List String)} {report : Report}
    (hrun : ((reindex fromBlock toBlock chunkSize addresses).run service node w).1 = .ok report)
    (keys : List FrameKey) (n : ν) :
    let s := ((reindex fromBlock toBlock chunkSize addresses).run service node w).2.store.decoded keys
    let again := (reindex fromBlock toBlock chunkSize addresses).run service node ⟨n, s⟩
    again.1 = .ok { report with elementsProcessed := 0 } ∧ again.2.store = s ∧
      (∀ e ∈ (reindex fromBlock toBlock chunkSize addresses).history service node ⟨n, s⟩,
        e.isFetch = false) ∧
      ∀ key ∈ keys, ∀ mk, again.2.store.derived.markers.get? key = some mk → mk.processed = true := by
  intro s again
  -- The first run settles everything that it finds.
  let r : Request := { fromBlock, toBlock, chunkSize := chunkSize.getD service.chunkSize, addresses }
  have hreplayed := Operation.settled hechoes hw
    (show ((replay service.network false r).run service node w).1 = .ok report from hrun)
  -- The second run finds it settled.
  have hreach : s.Reachable := Storage.Reachable.decoded (.step hw service _ node _) keys
  have hsecond := (service.leads_replay_again false hfixed hreplayed hreach
    (Storage.retains_decoded _ keys) (Storage.tracked_decoded _ keys)).start
  obtain ⟨report', hok, i, rfl, hsame, hes⟩ := Attempt.Leads.exists_ok (w := ⟨n, s⟩)
    (hsecond.mono (fun _ _ _ hend => hend) fun _ _ _ hend => hend.elim fun _ => id)
  refine ⟨hok, hsame, hes, fun key hkey mk hmk => ?_⟩
  have hstore : again.2.store = s := hsame
  rw [hstore] at hmk
  exact Storage.processed_decoded _ (.inl hkey) hmk

/-! ## On a small chain -/

theorem Sample.fixed_archive : (archive.node snapshot.node).answers.Fixed := by
  rintro q r r' ⟨n, rfl⟩ ⟨n', rfl⟩
  rfl

theorem Sample.echoesTransactions_archive : (archive.node snapshot.node).answers.EchoesTransactions := by
  intro hash t ht
  exact echoes_snapshot.transaction (show snapshot.node.answers.TellsTransaction hash t from ht)

/-- Two events are stored and one of their markers is processed, and then they are found again. -/
theorem Operation.reindex_again_sample :
    let o := reindex 5 (some 8) (some 2) none
    let node := Sample.archive.node Sample.snapshot.node
    let report : Report :=
      { indexer := "safe-events", addresses := 1, chunks := 2, elementsFound := 4, elementsProcessed := 2,
        stopBlock := 8 }
    let start := ((access (.addSafeContract "0x05") rfl).run Sample.service node ⟨(), .inMemory⟩).2
    let key := Indexer.eventKey Sample.event
    let s := (o.run Sample.service node start).2.store.decoded [key]
    (o.run Sample.service node start).1 = .ok report ∧
      (o.run Sample.service node ⟨(), s⟩).1 = .ok { report with elementsProcessed := 0 } ∧
      (o.run Sample.service node ⟨(), s⟩).2.store = s ∧
      (s.derived.markers.get? key).map Marker.processed = some true := by
  intro o node report start key s
  have hrun : (o.run Sample.service node start).1 = .ok report := by decide +kernel
  have hstart : start.store.Reachable := .step .memory Sample.service _ node ()
  obtain ⟨hagain, hsame, -⟩ := Operation.reindex_again Sample.fixed_archive
    Sample.echoesTransactions_archive hstart hrun [key] ()
  exact ⟨hrun, hagain, hsame, by decide +kernel⟩

end ChainIndex
