import ChainIndex.Proofs.Indexer.Search
import ChainIndex.Proofs.Resolve.Order
import ChainIndex.Proofs.Service.Atomic
import ChainIndex.Proofs.Service.Engine
import ChainIndex.Proofs.Store.Faltering

/-!
# What a replay stores

A replay that succeeds has chosen its addresses, asked for the head, and swept the range of blocks
(`Replayed`).  In each window it stores what it finds (`Stored`), so that in the end the derived tables
have gained what all windows found (`Stored.swept`).  The laws hold of every store, also of one that no
operation leads to.
-/

namespace ChainIndex

open Chain (Element)
open Derived (InternalTx Marker)

/-! ## What resolving leaves alone -/

theorem Memory.access_isLedger {a : Access} (h : a.isLedger = true) (m : Memory) :
    ∃ blocks transactions, (Memory.access a m).2 = { m with blocks, transactions } := by
  cases a with
  | createTransaction t r b =>
    rcases addTransaction_cases (m := m) (t := .mined t r b) rfl with ⟨-, -, -, h⟩ | ⟨-, -, h⟩
    · exact ⟨_, _, h⟩
    · exact ⟨_, _, h⟩
  | createPending t =>
    rcases addTransaction_cases (m := m) (t := .pending t) rfl with ⟨-, -, -, h⟩ | ⟨-, -, h⟩
    · exact ⟨_, _, h⟩
    · exact ⟨_, _, h⟩
  | linkTransaction hash b r =>
    have hlink : m.linkTransaction hash b r = (_, _) := rfl
    rcases linkTransaction_cases hlink with ⟨-, -, h⟩ | ⟨t, -, -, h⟩
    · exact ⟨_, _, h⟩
    · exact ⟨_, _, h⟩
  | getBlock | createBlock | confirmBlocks | getTransaction | getMined => exact ⟨_, _, rfl⟩
  | _ => cases h

theorem Relational.addTransaction_eq (d : Relational) (t : Ledger.Transaction) :
    ∃ transactions, (d.addTransaction t).2 = { d with transactions } := by
  unfold Relational.addTransaction
  split
  · exact ⟨_, rfl⟩
  · split <;> exact ⟨_, rfl⟩

theorem Relational.access_isLedger {a : Access} (h : a.isLedger = true) (d : Relational) :
    ∃ blocks transactions, (Relational.access a d).2 = { d with blocks, transactions } := by
  cases a with
  | createTransaction t r b =>
    obtain ⟨transactions, h⟩ := d.addTransaction_eq (.mined t r b)
    exact ⟨_, _, h⟩
  | createPending t =>
    obtain ⟨transactions, h⟩ := d.addTransaction_eq (.pending t)
    exact ⟨_, _, h⟩
  | linkTransaction hash b r =>
    show ∃ blocks transactions, (d.linkTransaction hash b r).2 = _
    unfold Relational.linkTransaction
    split
    · exact ⟨_, _, rfl⟩
    · exact ⟨_, _, rfl⟩
    · dsimp only
      split <;> exact ⟨_, _, rfl⟩
  | getBlock | createBlock | confirmBlocks | getTransaction | getMined => exact ⟨_, _, rfl⟩
  | _ => cases h

namespace Storage

/-- The addresses that a store has for the indexer of a kind of network. -/
def tracked (s : Storage) : Network → Except Fault (List String)
  | .l1 => s.answer .masterCopies
  | .l2 => s.answer .safeContracts

/-- The same derived tables and the same tracked addresses. -/
structure SameFrames (s s' : Storage) : Prop where
  derived : s'.derived = s.derived
  tracked : ∀ network, s'.tracked network = s.tracked network

theorem SameFrames.refl (s : Storage) : s.SameFrames s := ⟨rfl, fun _ => rfl⟩

theorem SameFrames.trans {s₁ s₂ s₃ : Storage} (h : s₁.SameFrames s₂) (h' : s₂.SameFrames s₃) :
    s₁.SameFrames s₃ :=
  ⟨h'.derived.trans h.derived, fun network => (h'.tracked network).trans (h.tracked network)⟩

/-- An access to blocks and transactions leaves everything else alone. -/
theorem sameFrames_access {a : Access} (h : a.isLedger = true) (s : Storage) :
    s.SameFrames (s.after a) := by
  cases s with
  | memory t =>
    obtain ⟨blocks, transactions, heq⟩ := Memory.access_isLedger h t.live
    have hafter : (memory t).after a = .memory { t with live := { t.live with blocks, transactions } } :=
      congrArg (fun m => Storage.memory { t with live := m }) heq
    rw [hafter]
    exact ⟨rfl, fun network => by cases network <;> rfl⟩
  | database path? t =>
    obtain ⟨blocks, transactions, heq⟩ := Relational.access_isLedger h t.live
    have hafter : (database path? t).after a =
        .database path? { t with live := { t.live with blocks, transactions } } :=
      congrArg (fun d => Storage.database path? { t with live := d }) heq
    rw [hafter]
    exact ⟨rfl, fun network => by cases network <;> rfl⟩

theorem perform_insertInternal (s : Storage) (rows : List InternalTx) (markers : List Marker) :
    s.answer (.insertInternal rows markers) = .ok (s.derived.insertInternal rows markers).1 ∧
      (s.after (.insertInternal rows markers)).derived = (s.derived.insertInternal rows markers).2 ∧
      ∀ network, (s.after (.insertInternal rows markers)).tracked network = s.tracked network := by
  cases s <;> exact ⟨rfl, rfl, fun network => by cases network <;> rfl⟩

end Storage

/-! ## What is stored in a window -/

/-- Some elements were stored: their rows and markers were added to the derived tables, and nothing was
searched for. -/
structure Stored (network : Network) (elements : List Element) (s : Storage) (n : Nat) (es : List Event)
    (s' : Storage) : Prop where
  gains : s.derived.Gains (elements.filterMap network.row?) (elements.filterMap network.marker?) n s'.derived
  tracked : ∀ network, s'.tracked network = s.tracked network
  searches : es.filterMap Event.found? = []

variable {N : Answers} {s s' : Storage} {network : Network} {policy : ConfirmationPolicy}

theorem filterMap_found?_eq_nil {es : List Event} (h : ∀ e ∈ es, e.move.isLedger = true) :
    es.filterMap Event.found? = [] :=
  List.filterMap_eq_nil_iff.2 fun e he => Event.found?_eq_none (h e he)

theorem Storage.Falters.sameFrames {a : Access} (ha : a.isLedger = true) {r : Except Fault a.Reply}
    (h : Storage.Falters (.access a) s r s') : s.SameFrames s' := by
  rcases h with h | ⟨-, rfl⟩
  · obtain rfl : s.after a = s' := congrArg Prod.snd h
    exact Storage.sameFrames_access ha s
  · exact .refl s'

/-- Resolving transactions touches neither the derived tables nor what is tracked, whatever fails. -/
theorem Resolve.leads_transactions_sameFrames (hashes : List String) :
    (transactions policy hashes).Leads N Storage.Falters s
      (fun _ es s' => s.SameFrames s' ∧ ∀ e ∈ es, e.move.isLedger = true)
      fun _ _ s' => s.SameFrames s' := by
  have honly : (transactions policy hashes).Only Move.isLedger := only_transactions hashes
  have hkeeps : ∀ (a : Action) (s₁ : Storage) (r : Except Fault a.Reply) (s₂ : Storage),
      (Move.act a).isLedger = true → Storage.Falters a s₁ r s₂ → s.SameFrames s₁ →
      s.SameFrames s₂ := by
    intro a s₁ r s₂ ha hR hs₁
    cases a with
    | access a => exact hs₁.trans (hR.sameFrames ha)
    | _ => cases ha
  exact (honly.leads hkeeps (.refl s)).mono (fun _ _ _ hend => hend) fun _ _ _ hend => hend.1

theorem Network.covered_rows (network : Network) (elements : List Element) :
    (network.rows elements).Covered := by
  cases network with
  | l1 => exact Indexer.covered_frameRows elements
  | l2 => exact Indexer.covered_eventRows elements

theorem Indexer.Rows.Covered.markers_eq_nil {r : Rows} (h : r.Covered) (hrows : r.rows = []) :
    r.markers = [] := by
  refine List.eq_nil_iff_forall_not_mem.2 fun mk hmk => ?_
  obtain ⟨row, hrow, -⟩ := h mk hmk
  rw [hrows] at hrow
  cases hrow

/-- Storing is resolving the transactions of the rows, if there are rows, and adding the rows. -/
theorem Indexer.leads_store {σ : Type} {R : Conduct σ} {s : σ} {r : Rows}
    {Q : Nat → List Event → σ → Prop} {X : Fault → List Event → σ → Prop}
    (hnone : r.rows = [] → Q 0 [] s)
    (hsome : r.rows ≠ [] → (Resolve.transactions policy (r.rows.map fun row => row.key.txHash)).Leads N R s
      (fun _ es s₁ => ∀ n s', R (.access (.insertInternal r.rows r.markers)) s₁ n s' →
        Outcome (fun n => Q n (es ++ [.did (.access (.insertInternal r.rows r.markers)) (.ok n)]))
          (fun e => X e (es ++ [.did (.access (.insertInternal r.rows r.markers)) (.error e)])) n s') X) :
    (store policy r).Leads N R s Q X := by
  unfold store
  split
  · rename_i hempty
    exact Attempt.leads_pure (hnone (List.isEmpty_iff.1 hempty))
  · rename_i hempty
    refine Attempt.leads_bind ((hsome fun hnil => hempty (List.isEmpty_iff.2 hnil)).mono
      (fun _ es s₁ hend => ?_) fun _ _ _ hend => hend)
    refine Attempt.leads_perform (a := .access _) fun n s' hR => ?_
    have hn := hend n s' hR
    cases n with
    | ok n => exact hn
    | error e => exact hn

theorem Service.leads_process {σ : Type} {R : Conduct σ} {s : σ} (service : Service) (exact_ : Bool)
    {elements : List Element} {Q : Nat → Bool → List Event → σ → Prop}
    {X : Fault → Bool → List Event → σ → Prop}
    (h : (Indexer.store service.policy (service.network.rows elements)).Leads N R s (fun n => Q n exact_)
      fun e => X e exact_) : (service.indexer.process elements).Leads N R exact_ s Q X := by
  obtain ⟨policy, network, chunkSize⟩ := service
  cases network <;> exact StateAttempt.leads_keeping h

/-- Elements are stored by nothing but adding their rows and markers, which no fault leaves half done, not
even one of the store. -/
theorem Network.leads_store_faltering (network : Network) (elements : List Element) :
    (Indexer.store policy (network.rows elements)).Leads N Storage.Falters s
      (fun n es s' => Stored network elements s n es s') fun _ _ s' => s'.derived = s.derived := by
  refine Indexer.leads_store (fun hnone => ?_) fun _ => ?_
  · have hrows := (network.rows_rows elements).symm.trans hnone
    have hmarkers := (network.rows_markers elements).symm.trans
      ((network.covered_rows elements).markers_eq_nil hnone)
    refine ⟨?_, fun _ => rfl, rfl⟩
    rw [hrows, hmarkers]
    exact .refl s.derived
  · refine (Resolve.leads_transactions_sameFrames _).mono (fun _ es s₁ hend n s' hR => ?_)
      fun _ _ _ hend => hend.derived
    obtain ⟨hsame, hledger⟩ := hend
    obtain ⟨hn, hderived, htracked⟩ := s₁.perform_insertInternal (network.rows elements).rows
      (network.rows elements).markers
    rcases hR with hR | ⟨⟨fault, rfl⟩, rfl⟩
    · obtain rfl := (congrArg Prod.fst hR).symm.trans hn
      obtain rfl : s₁.after _ = s' := congrArg Prod.snd hR
      refine ⟨?_, fun network => (htracked network).trans (hsame.tracked network), ?_⟩
      · rw [hderived, hsame.derived, ← network.rows_rows, ← network.rows_markers]
        exact Derived.Tables.gains_insertInternal _ _ _
      · rw [List.filterMap_append, filterMap_found?_eq_nil hledger]
        rfl
    · exact hsame.derived

theorem Network.leads_store (network : Network) (elements : List Element) :
    (Indexer.store policy (network.rows elements)).Leads N Storage.store.conduct s
      (fun n es s' => Stored network elements s n es s') fun _ _ s' => s'.derived = s.derived :=
  (network.leads_store_faltering elements).of_conduct .inl

/-- In a sweep the derived tables gain what all windows found. -/
theorem Stored.swept {addresses : List String} {stop size cursor : UInt64} {found : List (List Element)}
    {n : Nat} {es : List Event}
    (h : Indexer.Swept (network.Finds N addresses) (Stored network) stop size cursor s found n es s') :
    s.derived.Gains (found.flatten.filterMap network.row?) (found.flatten.filterMap network.marker?) n
        s'.derived ∧
      (∀ network, s'.tracked network = s.tracked network) ∧ es.filterMap Event.found? = found := by
  induction h with
  | done h => exact ⟨.refl _, fun _ => rfl, rfl⟩
  | window h hfind hstore rest ih =>
    obtain ⟨-, r, rfl, -, hfound⟩ := hfind
    obtain ⟨hgains, htracked, hes⟩ := ih
    refine ⟨?_, fun network => (htracked network).trans (hstore.tracked network), ?_⟩
    · rw [List.flatten_cons, List.filterMap_append, List.filterMap_append]
      exact hstore.gains.append hgains
    · rw [List.filterMap_append, List.filterMap_append, hstore.searches, hes, List.nil_append,
        List.filterMap_cons_some hfound]
      rfl

/-! ## Replays -/

/-- The addresses that a replay looks at: those that the request names, or else the tracked ones. -/
def Storage.chosen (s : Storage) (network : Network) (r : Request) : Except Fault (List String) :=
  match r.explicit? with
  | some list => .ok list
  | none => s.tracked network

/-- The addresses that a replay searches for: for events those that the request names, or else any. -/
def Network.targets (network : Network) (r : Request) (addresses : List String) : List String :=
  match network with
  | .l1 => addresses
  | .l2 => r.explicit?.getD []

/-- How a replay ends that succeeds: there are no addresses to look at, or the head was asked for and the
range was swept. -/
inductive Replayed (N : Answers) (Store : List Element → Storage → Nat → List Event → Storage → Prop)
    (network : Network) (name : String) (r : Request) (s : Storage) :
    Report → List Event → Storage → Prop
  | idle {size es} (hvalid : r.validate = .ok size) (hchosen : s.chosen network r = .ok [])
    (hes : ∀ e ∈ es, e.isQuestion = false) :
    Replayed N Store network name r s { indexer := name, addresses := 0 } es s
  | swept {size addresses head es es' found n s'} (hvalid : r.validate = .ok size)
    (hchosen : s.chosen network r = .ok addresses) (hsome : addresses ≠ [])
    (hes : ∀ e ∈ es, e.isQuestion = false) (hhead : N .head (.ok head))
    (h : Indexer.Swept (network.Finds N (network.targets r addresses)) Store (r.stopAt head) r.chunkSize
      r.fromBlock s found n es' s') :
    Replayed N Store network name r s
      { indexer := name
        addresses := addresses.length
        chunks := found.length
        elementsFound := found.flatten.length
        elementsProcessed := n
        stopBlock := r.stopAt head } (es ++ .asked .head (.ok head) :: es') s'

theorem Request.validate_eq_ok {r : Request} {size : { size : UInt64 // 0 < size }}
    (h : r.validate = .ok size) : size.val = r.chunkSize := by
  have hsize (h : (if h : 0 < r.chunkSize then pure ⟨r.chunkSize, h⟩ else throw .invalidChunkSize :
      Except Fault { size : UInt64 // 0 < size }) = .ok size) : size.val = r.chunkSize := by
    split at h
    · cases h
      rfl
    · cases h
  unfold validate at h
  dsimp only at h
  split at h
  · split at h
    · cases h
    · exact hsize h
  · exact hsize h

theorem Storage.leads_lookup {a : Access} (h : (Action.access a).isLookup = true) (s : Storage) :
    (Action.access a).perform.Leads N store.conduct s
      (fun x es s' => s.answer a = .ok x ∧ s' = s ∧ ∀ e ∈ es, e.isQuestion = false)
      fun e _ _ => s.answer a = .error e := by
  refine Attempt.leads_perform (a := .access a) fun x s' hR => ?_
  obtain rfl : s = s' := (perform_of_isLookup h s).symm.trans (congrArg Prod.snd hR)
  cases x with
  | ok x => exact ⟨congrArg Prod.fst hR, rfl, fun e he => by rw [List.mem_singleton.1 he]; rfl⟩
  | error e => exact congrArg Prod.fst hR

/-- The addresses are chosen without a question, and the indexer is then in the mode in which it searches
for those that it should. -/
theorem Service.leads_chooseAddresses (service : Service) (exact_ : Bool) (r : Request) :
    (service.indexer.chooseAddresses r).Leads N Storage.store.conduct exact_ s
      (fun addresses i es s' => (s.chosen service.network r = .ok addresses ∧
        service.network.scope i addresses = service.network.targets r addresses) ∧ s' = s ∧
        ∀ e ∈ es, e.isQuestion = false) fun e _ _ _ => s.chosen service.network r = .error e := by
  obtain ⟨policy, network, chunkSize⟩ := service
  unfold Indexer.chooseAddresses Storage.chosen Network.targets
  cases hlist : r.explicit? with
  | some list =>
    refine StateAttempt.leads_bind (StateAttempt.leads_modify (StateAttempt.leads_pure ?_))
    exact ⟨⟨rfl, by cases network <;> rfl⟩, rfl, fun e he => absurd he List.not_mem_nil⟩
  | none =>
    refine StateAttempt.leads_bind (StateAttempt.leads_modify ?_)
    cases network with
    | l1 => exact StateAttempt.leads_keeping ((s.leads_lookup (a := .masterCopies) rfl).mono
        (fun addresses es s' hend => ⟨⟨hend.1, rfl⟩, hend.2⟩) fun _ _ _ => id)
    | l2 => exact StateAttempt.leads_keeping ((s.leads_lookup (a := .safeContracts) rfl).mono
        (fun addresses es s' hend => ⟨⟨hend.1, rfl⟩, hend.2⟩) fun _ _ _ => id)

/-- What is done for some addresses. -/
def Indexer.replayFor {ι : Type} (ix : Indexer ι) (r : Request) (size : { size : UInt64 // 0 < size })
    (addresses : List String) : StateAttempt ι Report := do
  if addresses.isEmpty then return { indexer := ix.name, addresses := addresses.length }
  let head ← Query.head.send
  ix.sweep addresses (r.stopAt head) size r.fromBlock
    { indexer := ix.name, addresses := addresses.length, stopBlock := r.stopAt head }

theorem Indexer.replay_of_ok {ι : Type} (ix : Indexer ι) {r : Request} {size : { size : UInt64 // 0 < size }}
    (h : r.validate = .ok size) : ix.replay r = ix.chooseAddresses r >>= ix.replayFor r size := by
  unfold replay
  rw [h]
  rfl

theorem Indexer.replay_of_error {ι : Type} (ix : Indexer ι) {r : Request} {e : Fault}
    (h : r.validate = .error e) : ix.replay r = throw e := by
  unfold replay
  rw [h]
  rfl

/-- Whatever is known of storing in one window, a replay is made of. -/
theorem Service.leads_replay {Store : List Element → Storage → Nat → List Event → Storage → Prop}
    {I : Storage → Prop} (service : Service) (exact_ : Bool) (r : Request)
    (hstore : ∀ exact_ elements s, I s → (service.indexer.process elements).Leads N Storage.store.conduct
      exact_ s (fun n i es s' => Store elements s n es s' ∧ i = exact_ ∧ I s') fun _ _ _ _ => True)
    (hs : I s) : (service.indexer.replay r).Leads N Storage.store.conduct exact_ s
      (fun report _ es s' => I s' ∧
        Replayed N Store service.network service.indexer.name r s report es s') fun _ _ _ _ => True := by
  cases hvalid : r.validate with
  | error e =>
    rw [service.indexer.replay_of_error hvalid]
    exact StateAttempt.leads_throw trivial
  | ok size =>
    rw [service.indexer.replay_of_ok hvalid]
    refine StateAttempt.leads_bind ((service.leads_chooseAddresses exact_ r).mono
      (fun addresses i es s₁ hend => ?_) fun _ _ _ _ _ => trivial)
    obtain ⟨⟨hchosen, hscope⟩, rfl, hes⟩ := hend
    unfold Indexer.replayFor
    split
    · rename_i hempty
      obtain rfl := List.isEmpty_iff.1 hempty
      refine StateAttempt.leads_pure ⟨hs, ?_⟩
      rw [List.append_nil]
      exact .idle hvalid hchosen hes
    · rename_i hsome
      refine StateAttempt.leads_bind (StateAttempt.leads_keeping (Attempt.leads_send
        (fun head hhead => ?_) fun _ _ => trivial))
      refine (Indexer.leads_sweep (fun first next s₂ hlt => (service.leads_find i addresses hlt).mono
        (fun _ _ _ _ hend => hend) fun _ _ _ _ _ => trivial) (hstore i) _ hs).mono
        (fun report _ es' s₂ hend => ?_) fun _ _ _ _ _ => trivial
      obtain ⟨hs₂, found, n, hswept, rfl⟩ := hend
      rw [hscope, Request.validate_eq_ok hvalid] at hswept
      refine ⟨hs₂, ?_⟩
      simp only [Nat.zero_add]
      exact .swept hvalid hchosen (fun hnil => hsome (List.isEmpty_iff.2 hnil)) hes hhead hswept

namespace Operation

variable {ν : Type} {service : Service} {node : Node ν} {w : Routine.World ν Storage} {exact_ : Bool}
  {r : Request} {report : Report}

/-- What every replay by the indexer leads to, a replay that succeeds has led to. -/
theorem of_run_replay {Q : Report → List Event → Storage → Prop}
    (h : (({ service with network } : Service).indexer.replay r).Leads node.answers Storage.store.conduct
      exact_ w.store (fun report _ => Q report) fun _ _ _ _ => True)
    (hrun : ((replay network exact_ r).run service node w).1 = .ok report) :
    Q report ((replay network exact_ r).history service node w)
      ((replay network exact_ r).run service node w).2.store := by
  have hend := Routine.Leads.run (w := w) h.start
  obtain ⟨i, hQ⟩ := (hrun ▸ hend :)
  exact hQ

/-- A replay that succeeds stores what it finds, window after window. -/
theorem replayed (hrun : ((replay network exact_ r).run service node w).1 = .ok report) :
    Replayed node.answers (Stored network) network ({ service with network } : Service).indexer.name r
      w.store report ((replay network exact_ r).history service node w)
      ((replay network exact_ r).run service node w).2.store := by
  have hleads := Service.leads_replay (N := node.answers) (I := fun _ => True) (s := w.store)
    ({ service with network } : Service) exact_ r (fun exact_ elements s _ =>
      Service.leads_process _ exact_ ((network.leads_store elements).mono
        (fun n es s' hstored => ⟨hstored, rfl, trivial⟩) fun _ _ _ _ => trivial)) trivial
  exact (of_run_replay hleads hrun).2

end Operation

end ChainIndex
