import ChainIndex.Proofs.Resolve.Spelling
import ChainIndex.Proofs.Service.Course

/-!
# The keys of a store are spelled as they came

Along a course of the engine and the indexers a store gains a key only for a hash that was told, or that an
element carries, letter by letter (`Course.sourced`).  So the keys are canonical as long as these hashes
are, and then a row is found under any spelling of its hash.

Nothing brings a hash into canonical form before a row is stored under it: the row of a block that a node
tells in capital letters is not found again.
-/

namespace ChainIndex

open Text (canonical)

variable {σ ι α β : Type} {given : Chain.Element → Prop} {R : Conduct σ} {es : List Event} {s : σ}
  {policy : ConfirmationPolicy}

/-! ## Indexers -/

namespace StateAttempt

/-- Every move adds rows under hashes as they came. -/
def Sources (R : Conduct σ) (given : Chain.Element → Prop) (t : StateAttempt ι α) (es : List Event)
    (s : σ) : Prop :=
  t.Guarded R (Sourced given) es s (fun _ _ _ => True) fun _ _ _ => True

variable {t : StateAttempt ι α}

theorem sources_keeping {t : Attempt α} (h : Resolve.Sources R given t es s) :
    Sources R given (t.keeping : StateAttempt ι α) es s := guarded_keeping h

theorem Sources.bind {f : α → StateAttempt ι β} (ht : Sources R given t es s)
    (hf : ∀ a es' s', Sources R given (f a) es' s') : Sources R given (t >>= f) es s :=
  guarded_bind (ht.mono (fun a es' s' _ _ => hf a es' s') fun _ _ _ _ => trivial)

end StateAttempt

namespace Indexer

open StateAttempt (Sources sources_keeping)

theorem txHash_of_mem_frameRows {elements : List Chain.Element} {row : Derived.InternalTx}
    (h : row ∈ (frameRows elements).rows) : ∃ e ∈ elements, e.txHash = row.key.txHash := by
  obtain ⟨t, ht, rfl⟩ := List.mem_map.1 h
  obtain ⟨e, he, heq⟩ := List.mem_filterMap.1 ht
  cases e with
  | trace t' =>
    cases heq
    exact ⟨.trace t, he, rfl⟩
  | log l => cases heq

theorem txHash_of_mem_eventRows {elements : List Chain.Element} {row : Derived.InternalTx}
    (h : row ∈ (eventRows elements).rows) : ∃ e ∈ elements, e.txHash = row.key.txHash := by
  obtain ⟨l, hl, rfl⟩ := List.mem_map.1 h
  obtain ⟨e, he, heq⟩ := List.mem_filterMap.1 (List.mem_of_mem_filter hl)
  cases e with
  | trace t => cases heq
  | log l' =>
    cases heq
    exact ⟨.log l, he, rfl⟩

/-- Rows that carry the hashes of elements are stored under them. -/
theorem sources_store {r : Rows} {elements : List Chain.Element}
    (hr : ∀ row ∈ r.rows, ∃ e ∈ elements, e.txHash = row.key.txHash)
    (helements : ∀ e ∈ elements, given e ∨ (heardIn es).TellsElement e) :
    Resolve.Sources R given (store policy r) es s := by
  unfold store
  split
  · exact Resolve.sources_pure 0
  · refine Resolve.sources_transactions.bind fun _ es₁ s₁ hes₁ =>
      Resolve.sources_access fun key hkey => ?_
    obtain ⟨row, hrow, rfl⟩ := hkey
    obtain ⟨e, he, heq⟩ := hr row hrow
    exact ⟨e, (helements e he).imp_right (·.mono (heardIn_mono hes₁)), heq⟩

/-- The indexer finds elements that were told, and stores elements under the hashes that they carry. -/
structure Spelled (R : Conduct σ) (given : Chain.Element → Prop) (ix : Indexer ι) : Prop where
  find : ∀ addresses first stop {es s}, (ix.find addresses first stop).Guarded R (Sourced given) es s
    (fun elements es' _ => ∀ e ∈ elements, (heardIn es').TellsElement e) fun _ _ _ => True
  process : ∀ {elements es s}, (∀ e ∈ elements, given e ∨ (heardIn es).TellsElement e) →
    Sources R given (ix.process elements) es s
  tracked : ∀ {es s}, Sources R given ix.tracked es s

theorem spelled_frames : (frames policy).Spelled R given where
  find addresses first stop {es s} := by
    unfold frames
    dsimp only
    split
    · exact StateAttempt.guarded_pure nofun
    · refine StateAttempt.guarded_bind (StateAttempt.guarded_keeping
        (Attempt.guarded_send trivial (fun traces _ => StateAttempt.guarded_pure fun e he => ?_)
          fun _ => trivial))
      obtain ⟨t, ht, rfl⟩ := List.mem_map.1 he
      exact ⟨addresses, _, _, traces, List.mem_append_right _ List.mem_cons_self, ht⟩
  process helements := sources_keeping (sources_store (fun _ => txHash_of_mem_frameRows) helements)
  tracked := sources_keeping (Resolve.sources_access fun _ => False.elim)

theorem spelled_events : (events policy).Spelled R given where
  find addresses first stop {es s} := by
    unfold events
    dsimp only
    split
    · exact StateAttempt.guarded_pure nofun
    · refine StateAttempt.guarded_bind (StateAttempt.guarded_get fun exact_ _ => ?_)
      refine StateAttempt.guarded_bind (StateAttempt.guarded_keeping
        (Attempt.guarded_send trivial (fun logs _ => StateAttempt.guarded_pure fun e he => ?_)
          fun _ => trivial))
      obtain ⟨l, hl, rfl⟩ := List.mem_map.1 he
      exact ⟨_, _, _, _, logs, List.mem_append_right _ List.mem_cons_self, hl⟩
  process helements := sources_keeping (sources_store (fun _ => txHash_of_mem_eventRows) helements)
  tracked := sources_keeping (Resolve.sources_access fun _ => False.elim)

variable {ix : Indexer ι}

/-- What is stored window by window was found in the same window. -/
theorem Spelled.sweep (h : ix.Spelled R given) (addresses : List String) (stop : UInt64)
    (size : { size : UInt64 // 0 < size }) (cursor : UInt64) (report : Report) (es : List Event) (s : σ) :
    Sources R given (ix.sweep addresses stop size cursor report) es s := by
  fun_induction Indexer.sweep ix addresses stop size cursor report generalizing es s with
  | case1 cursor report hlt next =>
    rename_i ih
    refine StateAttempt.guarded_bind ((h.find addresses cursor next).mono
      (fun elements es₁ s₁ htold _ => ?_) fun _ _ _ _ => trivial)
    exact Sources.bind (h.process fun e he => .inr (htold e he)) fun processed es₂ s₂ =>
      ih elements processed es₂ s₂
  | case2 cursor report hle => exact StateAttempt.guarded_pure trivial

theorem Spelled.chooseAddresses (h : ix.Spelled R given) (r : Request) :
    Sources R given (ix.chooseAddresses r) es s := by
  unfold Indexer.chooseAddresses
  split
  · exact Sources.bind (StateAttempt.guarded_modify trivial) fun _ _ _ => StateAttempt.guarded_pure trivial
  · exact Sources.bind (StateAttempt.guarded_modify trivial) fun _ _ _ => h.tracked

theorem Spelled.replay (h : ix.Spelled R given) (r : Request) :
    Sources R given (ix.replay r) es s := by
  have hvalid : Sources R given (ExceptT.mk (pure r.validate) : StateAttempt ι _) es s :=
    StateAttempt.guarded_except (by cases r.validate <;> trivial)
  refine hvalid.bind fun size es₁ s₁ => (h.chooseAddresses r).bind fun addresses es₂ s₂ => ?_
  split
  · exact StateAttempt.guarded_pure trivial
  · have hsend : Resolve.Sources R given Query.head.send es₂ s₂ :=
      Attempt.guarded_send trivial (fun _ => trivial) fun _ => trivial
    exact (sources_keeping hsend).bind fun head es₃ s₃ => h.sweep _ _ _ _ _ es₃ s₃

end Indexer

/-! ## Operations -/

theorem Service.spelled_indexer (service : Service) : service.indexer.Spelled R given := by
  unfold Service.indexer
  split
  · exact Indexer.spelled_frames
  · exact Indexer.spelled_events

theorem Routine.Only.sources {p : Routine α} (h : p.Only Move.isUnit) :
    p.Guarded R (Sourced given) es s fun _ _ _ => True := by
  induction p generalizing es s with
  | done a => trivial
  | ask q next => exact absurd h.1 Bool.false_ne_true
  | act a next ih =>
    refine ⟨?_, fun r s' _ => ih r (h.2 r)⟩
    cases a with
    | access b => exact absurd h.1 Bool.false_ne_true
    | _ => trivial

namespace Operation

/-- The operation goes through the engine or an indexer, and stores given elements only. -/
def Gives (given : Chain.Element → Prop) : Operation → Prop
  | process _ _ elements => ∀ e ∈ elements, given e
  | access .. => False
  | _ => True

theorem sources (service : Service) {o : Operation} (h : o.Gives given) :
    Resolve.Sources R given (o.attempt service) es s := by
  have hunit {α : Type} {t : Attempt α} (ht : t.Only Move.isUnit) : Resolve.Sources R given t es s :=
    (Routine.Only.sources ht).mono fun r _ _ _ => by cases r <;> trivial
  have hindexer (network : Network) : ({ service with network } : Service).indexer.Spelled R given :=
    Service.spelled_indexer _
  cases o with
  | block hash => exact Resolve.sources_block
  | transaction hash => exact Resolve.sources_transaction
  | transactions hashes => exact Resolve.sources_transactions
  | confirmBlocks => exact Resolve.sources_confirmBlocks
  | process network exact_ elements =>
    exact ((hindexer network).process fun e he => .inl (h e he)).start exact_
  | replay network exact_ request => exact ((hindexer network).replay request).start exact_
  | reindex fromBlock toBlock chunkSize addresses => exact (service.spelled_indexer.replay _).start false
  | reprocess addresses => exact hunit (Reprocess.only_addresses addresses)
  | reprocessAll => exact hunit (Reprocess.only_scope .all)
  | access a free => exact h.elim

end Operation

/-! ## Courses -/

/-- The key with its hash in canonical form. -/
def Key.canonical : Key → Key
  | block hash => block (Text.canonical hash)
  | transaction hash => transaction (Text.canonical hash)
  | internalTx key => internalTx { key with txHash := Text.canonical key.txHash }

/-- All hashes that are told or that elements carry are in canonical form. -/
structure Answers.Canonical (N : Answers) (given : Chain.Element → Prop) : Prop where
  block : ∀ {asked b}, N.TellsBlock asked b → canonical b.hash = b.hash
  transaction : ∀ {asked t}, N.TellsTransaction asked t → canonical t.hash = t.hash
  element : ∀ {e}, given e ∨ N.TellsElement e → canonical e.txHash = e.txHash

theorem Key.Sourced.canonical_eq {N : Answers} {key : Key} (h : key.Sourced given N)
    (hN : N.Canonical given) : key.canonical = key := by
  cases key with
  | block hash =>
    obtain ⟨asked, b, hb, rfl⟩ := h
    exact congrArg Key.block (hN.block hb)
  | transaction hash =>
    obtain ⟨asked, t, ht, rfl⟩ := h
    exact congrArg Key.transaction (hN.transaction ht)
  | internalTx key =>
    obtain ⟨e, he, heq⟩ := h
    have hhash : Text.canonical key.txHash = key.txHash := heq ▸ hN.element he
    show Key.internalTx { key with txHash := Text.canonical key.txHash } = _
    rw [hhash]

/-- Every key is an old one or came with what was told or given. -/
def Session.KeysFrom (old : Key → Prop) (given : Chain.Element → Prop) (es : List Event)
    (t : Session Memory) : Prop :=
  ∀ key, t.Holds key → old key ∨ key.Sourced given (heardIn es)

namespace Session.KeysFrom

variable {old : Key → Prop} {t t' : Session Memory}

theorem mono (h : t.KeysFrom old given es) {e : Event} : t.KeysFrom old given (es ++ [e]) :=
  fun key hkey => (h key hkey).imp_right (·.mono (heardIn_mono (List.prefix_append _ _)))

theorem did (h : t.KeysFrom old given es) {a : Action} {r : Except Fault a.Reply}
    (ha : Sourced given es t (.act a)) (he : Session.Effect a t r t') :
    t'.KeysFrom old given (es ++ [.did a r]) := by
  intro key hkey
  rcases he.holds hkey with hkey | ⟨b, rfl, hadds⟩
  · exact h.mono key hkey
  · exact .inr ((ha key hadds).mono (heardIn_mono (List.prefix_append _ _)))

end Session.KeysFrom

namespace Storage

variable {s s' : Storage}

/-- A look-up finds the row under a key. -/
def Finds (s : Storage) : Key → Prop
  | .block hash => ∃ b, s.answer (.getBlock hash) = .ok (some b)
  | .transaction hash => ∃ t, s.answer (.getTransaction hash) = .ok (some t)
  | .internalTx key => ∃ row, s.derived.internalTxs.get? key = some row

theorem Represents.finds_iff {t : Session Memory} (h : s.Represents t) (key : Key) :
    s.Finds key ↔ s.has key = true := by
  rw [h.has]
  cases key with
  | block hash =>
    rw [Memory.has_block, Option.isSome_iff_exists, Finds, answer_getBlock h]
    simp only [Except.ok.injEq]
  | transaction hash =>
    rw [Memory.has_transaction, Option.isSome_iff_exists, Finds, answer_getTransaction h]
    simp only [Except.ok.injEq]
  | internalTx key => rw [Memory.has_internalTx, Option.isSome_iff_exists, Finds, derived_eq h]

/-- Every key along a course was there before or is one that came. -/
theorem Course.sourced (hs : s.Reachable) (h : Course (fun _ o => o.Gives given) s es s') {key : Key}
    (hkey : s'.has key = true) : s.has key = true ∨ key.Sourced given (heardIn es) := by
  obtain ⟨t, hrep, -, hidle⟩ := hs.exists_idle
  have hstart : t.KeysFrom (fun key => s.has key = true) given [] := by
    rintro key (hkey | ⟨m, hm, -⟩)
    · exact .inl (hrep.has.trans hkey)
    · rw [hidle.staged] at hm
      cases hm
  have hguarded {service : Service} {o : Operation} (ho : o.Gives given) {es : List Event}
      {t : Session Memory} (ht : t.Idle) : (o.attempt service).run.Guarded Session.Effect
        (fun es t m => Sourced given es t m ∧ True) es t fun _ _ t' => t'.Idle :=
    ((o.sources service ho).and (o.guarded_idle service ht)).mono fun _ _ _ hend => hend.2
  obtain ⟨t', hrep', -, hkeys⟩ := Course.keeps
    (fun {_ s _ _ t} (hrel : s.Represents t) hR => exists_effect hrel hR) hguarded
    (fun hI _ => hI.mono) (fun hI hG he => hI.did hG.1 he) h hrep hidle hstart
  rw [hrep'.has] at hkey
  exact hkeys key (.inl hkey)

/-- Along a course of the engine and the indexers every new row lies under a hash as it was told, or as an
element carries it, letter by letter.  If all these hashes are canonical, and the keys were to begin with,
then all keys are: every row is found in whatever way its hash is spelled, by looking for the canonical
form, and no two keys are spellings of the same. -/
theorem Course.spelling (hs : s.Reachable) (h : Course (fun _ o => o.Gives given) s es s') :
    (∀ key, s'.Finds key → s.Finds key ∨ key.Sourced given (heardIn es)) ∧
    ((heardIn es).Canonical given → (∀ key, s.Finds key → key.canonical = key) →
      (∀ key, s'.Finds key → key.canonical = key) ∧
      (∀ key asked : Key, s'.Finds key → asked.canonical = key.canonical → s'.Finds asked.canonical) ∧
      ∀ key key', s'.Finds key → s'.Finds key' → key.canonical = key'.canonical → key = key') := by
  obtain ⟨t, hrep, -⟩ := hs.sound
  obtain ⟨t', hrep', -⟩ := (h.reachable hs).sound
  have hsourced (key : Key) (hkey : s'.Finds key) : s.Finds key ∨ key.Sourced given (heardIn es) :=
    (h.sourced hs ((hrep'.finds_iff key).1 hkey)).imp_left (hrep.finds_iff key).2
  refine ⟨hsourced, fun hN hold => ?_⟩
  have hcanon (key : Key) (hkey : s'.Finds key) : key.canonical = key :=
    (hsourced key hkey).elim (hold key) fun hkey => hkey.canonical_eq hN
  refine ⟨hcanon, fun key asked hkey heq => ?_, fun key key' hkey hkey' heq => ?_⟩
  · rw [heq, hcanon key hkey]
    exact hkey
  · rw [← hcanon key hkey, heq, hcanon key' hkey']

end Storage

/-! ## On a small chain -/

theorem Answers.Canonical.mono {N N' : Answers} (hN : N'.Canonical given) (h : ∀ q r, N q r → N' q r) :
    N.Canonical given where
  block hb := hN.block (hb.mono h)
  transaction ht := hN.transaction (ht.mono h)
  element he := hN.element (he.imp_right (·.mono h))

theorem Sample.canonical_answers :
    snapshot.node.answers.Canonical (· = .log { log with txHash := "0xaa" }) where
  block {asked b} hb := by
    have hanswer := Snapshot.block_of_tells (hb.mono fun _ _ => Snapshot.answers_of_node)
    have hif : (if asked = "0xb7" then some block else none) = some b := Except.ok.inj hanswer
    split at hif
    · cases hif
      decide +kernel
    · cases hif
  transaction {asked t} ht := by
    have hanswer := Snapshot.transaction_of_tells (ht.mono fun _ _ => Snapshot.answers_of_node)
    have hif : (if asked = "0xaa" then some transaction else none) = some t := Except.ok.inj hanswer
    split at hif
    · cases hif
      decide +kernel
    · cases hif
  element {e} he := by
    rcases he with rfl | he
    · decide +kernel
    · cases e with
      | trace t =>
        obtain ⟨_, _, _, _, ⟨_, heq⟩, hmem⟩ := he
        cases heq
        cases hmem
      | log l =>
        obtain ⟨_, _, _, _, _, ⟨_, heq⟩, hmem⟩ := he
        cases heq
        cases hmem

namespace Storage

theorem inMemory_not_finds (key : Key) : ¬ inMemory.Finds key := by
  rw [represents_inMemory.finds_iff]
  cases key <;> exact Bool.false_ne_true

/-- The transaction of an event is found under another spelling of its hash. -/
theorem Course.spelling_sample :
    let stored := ((Operation.process .l2 false [.log { Sample.log with txHash := "0xaa" }]).run
      Sample.service Sample.snapshot.node ⟨(), .inMemory⟩).2.store
    stored.Finds (.transaction "0xaa") ∧ stored.Finds (Key.transaction " 0xAA").canonical ∧
      ∀ key, stored.Finds key → key.canonical = key := by
  intro stored
  have hcourse : Course (fun _ o => o.Gives (· = .log { Sample.log with txHash := "0xaa" })) .inMemory
      ([] ++ (Operation.process .l2 false [.log { Sample.log with txHash := "0xaa" }]).history
        Sample.service Sample.snapshot.node ⟨(), .inMemory⟩) stored :=
    .step .nil (fun e he => List.mem_singleton.1 he) Sample.snapshot.node ()
  obtain ⟨hcanon, hfinds, -⟩ := (Course.spelling .memory hcourse).2
    (Sample.canonical_answers.mono fun _ _ hmem => Routine.answers_of_mem_history hmem)
    fun key hkey => absurd hkey (inMemory_not_finds key)
  have hstored : stored.Finds (.transaction "0xaa") := ⟨Sample.row, by decide +kernel⟩
  have hspelled : canonical " 0xAA" = "0xaa" := by decide +kernel
  have hkey : Key.canonical (.transaction " 0xAA") = Key.canonical (.transaction "0xaa") :=
    (congrArg Key.transaction hspelled).trans (hcanon _ hstored).symm
  exact ⟨hstored, hfinds _ _ hstored hkey, hcanon⟩

end Storage

/-- The block of the small chain, its hash in capital letters. -/
def Sample.capitalBlock : Chain.Block := { block with hash := "0xB7" }

/-- A node that spells the hash of its block in capital letters. -/
def Sample.capitals : Snapshot where
  head := .ok 20
  block hash := .ok (if hash = "0xb7" then some capitalBlock else none)
  transaction _ := .ok none
  receipt _ := .ok none

/-- A block whose hash is told in capital letters is stored under them: it is not found in canonical form,
and is stored once more when its hash is told in small letters. -/
theorem Storage.key_of_capitals :
    let first :=
      ((Operation.block "0xB7").run Sample.service Sample.capitals.node ⟨(), .inMemory⟩).2.store
    let second := ((Operation.block "0xb7").run Sample.service Sample.snapshot.node ⟨(), first⟩).2.store
    first.Finds (.block "0xB7") ∧ Key.canonical (.block "0xB7") ≠ .block "0xB7" ∧
      ¬ first.Finds (Key.canonical (.block "0xB7")) ∧
      second.Finds (.block "0xB7") ∧ second.Finds (Key.canonical (.block "0xB7")) := by
  intro first second
  have hmissing : first.answer (.getBlock (canonical "0xB7")) = .ok none := by decide +kernel
  refine ⟨⟨.ofChain Sample.capitalBlock true, by decide +kernel⟩, by decide +kernel, ?_,
    ⟨.ofChain Sample.capitalBlock true, by decide +kernel⟩,
    ⟨.ofChain Sample.block true, by decide +kernel⟩⟩
  rintro ⟨b, hb⟩
  rw [hmissing] at hb
  cases hb

end ChainIndex
