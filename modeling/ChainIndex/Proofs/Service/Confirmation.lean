import ChainIndex.Proofs.Service.Course
import ChainIndex.Proofs.Store.Confirmation

/-!
# Confirmation over whole courses

A store in memory starts empty and is operated on through the engine, while the node never reports two
numbers for one block.  Then a block is never confirmed before a head was reported that lies deep enough
above it, and never stops being confirmed; and confirming blocks confirms every block that lies deep
enough below the head, and does nothing else.
-/

namespace ChainIndex

/-- No two numbers are reported for the hash of a block. -/
def Answers.Numbered (N : Answers) : Prop :=
  ∀ ⦃asked b asked' b'⦄, N.TellsBlock asked b → N.TellsBlock asked' b' → b.hash = b'.hash →
    b.number = b'.number

theorem Answers.Numbered.mono {N N' : Answers} (hN : N'.Numbered) (h : ∀ q r, N q r → N' q r) :
    N.Numbered :=
  fun _ _ _ _ hb hb' heq => hN (hb.mono h) (hb'.mono h) heq

/-! ## Founded rows -/

section

variable {policy : ConfirmationPolicy} {es es' : List Event} {hash : String}

/-- The row of a block was told with its number, and it is confirmed only if it lies deep enough below a
head that was told.  At depth zero it is confirmed. -/
structure Ledger.Block.Founded (policy : ConfirmationPolicy) (es : List Event) (hash : String)
    (b : Block) : Prop where
  told : ∃ asked c, (heardIn es).TellsBlock asked c ∧ c.hash = hash ∧ c.number = b.number
  deep : b.confirmed = true →
    ∃ head, heardIn es .head (.ok head) ∧ policy.isConfirmed b.number head = true
  zero : policy.reorgDepth = 0 → b.confirmed = true

namespace Ledger.Block.Founded

variable {b : Block}

theorem mono (h : b.Founded policy es hash) (hes : es <+: es') : b.Founded policy es' hash where
  told := by
    obtain ⟨asked, c, hc, hhash, hnumber⟩ := h.told
    exact ⟨asked, c, hc.mono (heardIn_mono hes), hhash, hnumber⟩
  deep hconfirmed := by
    obtain ⟨head, hhead, hdeep⟩ := h.deep hconfirmed
    exact ⟨head, hes.subset hhead, hdeep⟩
  zero := h.zero

theorem ofChain {asked : String} {c : Chain.Block} (hc : (heardIn es).TellsBlock asked c)
    {head : UInt64} (hhead : heardIn es .head (.ok head)) :
    (Block.ofChain c (policy.isConfirmed c.number head)).Founded policy es c.hash where
  told := ⟨asked, c, hc, rfl, rfl⟩
  deep hconfirmed := ⟨head, hhead, hconfirmed⟩
  zero hzero := by
    show policy.isConfirmed c.number head = true
    rw [policy.isConfirmed_iff, hzero]
    exact Nat.zero_le _

theorem raise (h : b.Founded policy es hash) {head : UInt64} (hhead : heardIn es .head (.ok head)) :
    (b.raise policy head).Founded policy es hash where
  told := h.told
  deep hconfirmed := by
    rcases (Bool.or_eq_true _ _).mp hconfirmed with hbefore | hnew
    · have hdeep := h.deep hbefore
      exact hdeep
    · exact ⟨head, hhead, hnew⟩
  zero hzero := by
    show (b.confirmed || _) = true
    rw [h.zero hzero, Bool.true_or]

end Ledger.Block.Founded

/-- Every stored block is founded. -/
def Memory.Founded (policy : ConfirmationPolicy) (es : List Event) (m : Memory) : Prop :=
  ∀ ⦃hash b⦄, m.blocks.get? hash = some b → b.Founded policy es hash

namespace Memory.Founded

variable {m : Memory}

theorem allConfirmedAtZero (h : m.Founded policy es) : m.AllConfirmedAtZero policy :=
  fun hzero _ _ hb => (h hb).zero hzero

/-- A block that was told is stored as final if it lies deep enough below the head: a row that is there
already has its number, and is raised. -/
theorem createBlock (h : m.Founded policy es) (hN : (heardIn es).Numbered) {asked : String}
    {c : Chain.Block} (hc : (heardIn es).TellsBlock asked c) {head : UInt64}
    (hhead : heardIn es .head (.ok head)) :
    (m.createBlock c (policy.isConfirmed c.number head)).2.Founded policy es := by
  have hrow : (m.createBlock c (policy.isConfirmed c.number head)).1.Founded policy es c.hash := by
    cases hold : m.blocks.get? c.hash with
    | none =>
      rw [Memory.createBlock, hold]
      simpa [Ledger.Block.ofChain] using Ledger.Block.Founded.ofChain hc hhead
    | some b =>
      obtain ⟨asked', c', hc', hhash, hnumber⟩ := (h hold).told
      have hsame : c.number = b.number := (hN hc hc' hhash.symm).trans hnumber
      rw [m.createBlock_eq c _ hold, hsame]
      exact (h hold).raise hhead
  intro hash b hb
  rw [get?_createBlock] at hb
  by_cases heq : hash = c.hash
  · rw [if_pos heq] at hb
    rw [heq, ← Option.some.inj hb]
    exact hrow
  · rw [if_neg heq] at hb
    exact h hb

theorem raise (h : m.Founded policy es) {head : UInt64} (hhead : heardIn es .head (.ok head)) :
    (m.raise policy head).2.Founded policy es := by
  intro hash b hb
  rw [get?_raise, Option.map_eq_some_iff] at hb
  obtain ⟨b₀, hb₀, rfl⟩ := hb
  exact (h hb₀).raise hhead

theorem congr {m' : Memory} (h : m.Founded policy es) (hblocks : m'.blocks = m.blocks) :
    m'.Founded policy es :=
  fun _ _ hb => h (hblocks ▸ hb)

/-- A grounded access leaves founded blocks founded. -/
theorem access (h : m.Founded policy es) (hN : (heardIn es).Numbered) {a : Access}
    (ha : a.Grounded policy es m) : (Memory.access a m).2.Founded policy es := by
  have hadd (t : Ledger.Transaction) : (m.addTransaction t).2.blocks = m.blocks := by
    unfold Memory.addTransaction
    split <;> rfl
  have hlink (hash : String) (b : Ledger.Block) (r : Chain.Receipt) :
      (m.linkTransaction hash b r).2.blocks = m.blocks := by
    unfold Memory.linkTransaction
    split <;> rfl
  cases a with
  | createBlock c confirmed =>
    obtain ⟨⟨asked, hc⟩, head, hhead, rfl⟩ := ha
    exact h.createBlock hN hc hhead
  | confirmBlocks upTo =>
    obtain ⟨head, hhead, htip⟩ := ha
    show Founded policy es (m.confirmBlocks upTo).2
    rw [confirmBlocks_tip h.allConfirmedAtZero htip]
    exact h.raise hhead
  | createTransaction t r b => exact h.congr (hadd _)
  | createPending t => exact h.congr (hadd _)
  | linkTransaction hash b r => exact h.congr (hlink hash b r)
  | _ => exact h.congr rfl

end Memory.Founded

end

/-! ## Courses -/

/-- A session over tables in memory behaves as a session may. -/
theorem Memory.effect_of_conduct {a : Action} {s s' : Session Memory} {r : Except Fault a.Reply}
    (h : Memory.backend.store.conduct a s r s') : Session.Effect a s r s' := by
  obtain ⟨live, staged⟩ := s
  cases a with
  | access a =>
    cases h
    exact ⟨_, a.effect_memory live, rfl⟩
  | beginUnit | rollback | abandon =>
    cases h
    exact ⟨rfl, rfl⟩
  | invalidate step scope =>
    cases staged with
    | none =>
      cases h
      exact .inl ⟨rfl, rfl, rfl⟩
    | some m =>
      cases h
      exact .inr ⟨m, _, _, rfl, rfl, m.derived.sameFrames_invalidate step scope, rfl⟩
  | commit =>
    cases staged with
    | none =>
      cases h
      exact .inl ⟨rfl, rfl, rfl⟩
    | some m =>
      cases h
      exact .inr ⟨m, rfl, rfl, rfl⟩

namespace Storage

variable {policy : ConfirmationPolicy} {es : List Event} {t t' : Session Memory}

/-- From each point of a course to each later one, a confirmed block stays as it is, and the first point
comes after a head was told that it lies deep enough below. -/
def ConfirmsSoundly (policy : ConfirmationPolicy) (s : Storage) (es : List Event) : Prop :=
  ∀ ⦃es₁⦄, es₁ <+: es → ∀ ⦃hash b⦄, (s.following es₁).answer (.getBlock hash) = .ok (some b) →
    b.confirmed = true →
      (∃ head, .asked .head (.ok head) ∈ es₁ ∧
        policy.reorgDepth.toNat ≤ head.toNat - b.number.toNat) ∧
      ∀ ⦃es₂⦄, es₁ <+: es₂ → es₂ <+: es →
        (s.following es₂).answer (.getBlock hash) = .ok (some b)

/-- What is known after some events of a course from the empty store in memory. -/
structure Audited (policy : ConfirmationPolicy) (es : List Event) (t : Session Memory) : Prop where
  follows : inMemory.following es = .memory t
  calm : t.Calm
  founded : t.live.Founded policy es
  sound : ConfirmsSoundly policy .inMemory es

theorem Audited.snoc (h : Audited policy es t) {e : Event}
    (hfollows : (Storage.memory t).following [e] = .memory t') (hcalm : t'.Calm)
    (hfounded : t'.live.Founded policy (es ++ [e]))
    (hrises : ∀ {hash b}, t.live.blocks.get? hash = some b →
      ∃ b', t'.live.blocks.get? hash = some b' ∧ b.RisesTo b') :
    Audited policy (es ++ [e]) t' := by
  have hend : inMemory.following (es ++ [e]) = .memory t' := by
    rw [following_append, h.follows, hfollows]
  refine ⟨hend, hcalm, hfounded, fun es₁ hes₁ hash b hb hconfirmed => ?_⟩
  rcases List.prefix_concat_iff.1 hes₁ with rfl | hes₁
  · -- The point after the last event.
    have hget : t'.live.blocks.get? hash = some b := by
      rw [hend] at hb
      exact Except.ok.inj hb
    obtain ⟨head, hhead, hdeep⟩ := (hfounded hget).deep hconfirmed
    refine ⟨⟨head, hhead, (policy.isConfirmed_iff _ _).1 hdeep⟩, fun es₂ hes₂ hes₂' => ?_⟩
    rw [← hes₂.eq_of_length_le hes₂'.length_le]
    exact hb
  · obtain ⟨hhead, hkept⟩ := h.sound hes₁ hb hconfirmed
    refine ⟨hhead, fun es₂ hes₂ hes₂' => ?_⟩
    rcases List.prefix_concat_iff.1 hes₂' with rfl | hes₂'
    · have hbefore := hkept hes₁ (List.prefix_refl es)
      rw [h.follows] at hbefore
      obtain ⟨b', hb', hrise⟩ := hrises (Except.ok.inj hbefore)
      rw [hrise.eq_of_confirmed hconfirmed] at hb'
      rw [hend]
      exact congrArg Except.ok hb'
    · exact hkept hes₂ hes₂'

theorem Audited.ask (h : Audited policy es t) (q : Query) (r : Except Fault q.Reply) :
    Audited policy (es ++ [.asked q r]) t := by
  have hes : es <+: es ++ [.asked q r] := List.prefix_append _ _
  exact h.snoc rfl h.calm (fun _ _ hb => (h.founded hb).mono hes) fun hb => ⟨_, hb, .refl _⟩

/-- A grounded action keeps what is known, as long as no block is told with two numbers. -/
theorem Audited.act (h : Audited policy es t) (hN : (heardIn es).Numbered) {a : Action}
    {r : Except Fault a.Reply} (hguard : Grounded policy es t (.act a))
    (hact : Memory.backend.store.conduct a t r t') : Audited policy (es ++ [.did a r]) t' := by
  have hes : es <+: es ++ [.did a r] := List.prefix_append _ _
  have hfollows : (Storage.memory t).following [.did a r] = .memory t' := by
    have hnext : (Memory.backend.store.perform a t).2 = t' := congrArg Prod.snd hact
    exact congrArg Storage.memory hnext
  obtain ⟨hcalm, haccess | ⟨hblocks, -⟩⟩ := hguard.calm h.calm (Memory.effect_of_conduct hact)
  · obtain ⟨b, rfl⟩ := haccess
    obtain ⟨m, he, rfl⟩ := Memory.effect_of_conduct hact
    have hfounded := h.founded.access hN hguard.2
    cases hact
    exact h.snoc hfollows hcalm (fun _ _ hb => (hfounded hb).mono hes) fun hb => he.block hb
  · refine h.snoc hfollows hcalm (fun _ _ hb => ?_) fun hb => ⟨_, hblocks ▸ hb, .refl _⟩
    exact (h.founded (hblocks ▸ hb)).mono hes

/-- What is known of a course stays known, as long as no block is told with two numbers. -/
theorem Course.audited {s : Storage}
    (h : Course (fun service o => service.policy = policy ∧ o.isCall = true) .inMemory es s)
    (hnumbers : (heardIn es).Numbered) : ∃ t, s = .memory t ∧ Audited policy es t := by
  have hsim {a : Action} {s : Storage} {r : Except Fault a.Reply} {s' : Storage} {t : Session Memory}
      (hrel : s = .memory t) (hact : store.conduct a s r s') :
      ∃ t', Memory.backend.store.conduct a t r t' ∧ s' = .memory t' := by
    cases hrel
    cases hact
    exact ⟨_, rfl, rfl⟩
  have hG {service : Service} {o : Operation} (ho : service.policy = policy ∧ o.isCall = true)
      {es : List Event} {t : Session Memory} (ht : t.Idle) :
      (o.attempt service).run.Guarded Memory.backend.store.conduct (Grounded policy) es t
        fun _ _ t' => t'.Idle := by
    obtain ⟨rfl, hcall⟩ := ho
    exact (o.grounded service hcall ht).imp Memory.effect_of_conduct fun hG => hG
  have hstart : Audited policy [] { live := {} } := by
    refine ⟨rfl, Session.calm_of_none rfl, fun _ _ hb => ?_, fun es₁ hes₁ hash b hb => ?_⟩
    · cases hb
    · rw [List.prefix_nil.1 hes₁] at hb
      cases hb
  have hbefore {es : List Event} {e : Event} (hN : (heardIn (es ++ [e])).Numbered) :
      (heardIn es).Numbered := hN.mono (heardIn_mono (List.prefix_append _ _))
  obtain ⟨t, rfl, -, haudited⟩ := h.keeps (I := fun es t => (heardIn es).Numbered → Audited policy es t)
    hsim hG (fun hI _ hN => (hI (hbefore hN)).ask _ _)
    (fun hI hguard hact hN => (hI (hbefore hN)).act (hbefore hN) hguard hact) rfl
    ⟨rfl, fun ht => by cases ht⟩ fun _ => hstart
  exact ⟨t, rfl, haudited hnumbers⟩

/-- Confirming blocks of a store in memory raises them. -/
theorem run_confirmBlocks {ν : Type} {service : Service} {node : Node ν} {n : ν}
    (hzero : t.live.AllConfirmedAtZero service.policy) {head : UInt64}
    (hhead : (node.answer .head n).1 = .ok head) :
    Operation.confirmBlocks.run service node ⟨n, .memory t⟩ =
      (.ok (t.live.raise service.policy head).1, ⟨(node.answer .head n).2,
        .memory { t with live := (t.live.raise service.policy head).2 }⟩) := by
  show (Resolve.confirmBlocks service.policy).run.run node store ⟨n, .memory t⟩ = _
  unfold Resolve.confirmBlocks
  rw [Attempt.run_send_bind hhead]
  cases htip : service.policy.tip? head with
  | none =>
    rw [Memory.raise_of_tip?_eq_none htip]
    rfl
  | some tip =>
    rw [← Memory.confirmBlocks_tip hzero htip]
    rfl

/-- A course of the engine from the empty store in memory, with one depth throughout and a node that never
tells two numbers for one block.  A confirmed block lies deep enough below a head that was told before, and
stays confirmed.  Confirming blocks after the course confirms every block that lies deep enough below the
head, answers how many rows changed, and changes no other field of any row; doing it again with the same
head changes nothing. -/
theorem Course.confirmation {s : Storage}
    (h : Course (fun service o => service.policy = policy ∧ o.isCall = true) .inMemory es s)
    (hnumbers : (heardIn es).Numbered) :
    inMemory.following es = s ∧ ConfirmsSoundly policy .inMemory es ∧
    ∃ t : Session Memory, s = .memory t ∧
      ∀ {ν : Type} (service : Service) (node : Node ν) (n : ν) (head : UInt64),
        service.policy = policy → (node.answer .head n).1 = .ok head →
        ∃ c t', Operation.confirmBlocks.run service node ⟨n, s⟩ =
            (.ok c, ⟨(node.answer .head n).2, .memory t'⟩) ∧
          (∀ hash b, t'.live.blocks.get? hash = some b →
            policy.reorgDepth.toNat ≤ head.toNat - b.number.toNat → b.confirmed = true) ∧
          c = (t.live.blocks.count fun hash b => decide (t'.live.blocks.get? hash ≠ some b)) ∧
          (∀ hash, Option.Rel Ledger.Block.RisesTo (t.live.blocks.get? hash)
            (t'.live.blocks.get? hash)) ∧
          t' = { t with live := { t.live with blocks := t'.live.blocks } } ∧
          ∀ {ν' : Type} (node' : Node ν') (n' : ν'), (node'.answer .head n').1 = .ok head →
            Operation.confirmBlocks.run service node' ⟨n', .memory t'⟩ =
              (.ok 0, ⟨(node'.answer .head n').2, .memory t'⟩) := by
  obtain ⟨t, rfl, haudited⟩ := h.audited hnumbers
  refine ⟨haudited.follows, haudited.sound, t, rfl, fun {ν} service node n head hpolicy hhead => ?_⟩
  subst hpolicy
  have hzero := haudited.founded.allConfirmedAtZero
  refine ⟨_, _, run_confirmBlocks hzero hhead, fun hash b hb hdeep => ?_, t.live.count_raise _ _,
    t.live.rel_raise _ _, rfl, fun {ν'} node' n' hhead' => ?_⟩
  · exact Memory.confirmed_of_get?_raise hb ((service.policy.isConfirmed_iff _ _).2 hdeep)
  · rw [run_confirmBlocks (hzero.raise head) hhead', Memory.raise_raise]

/-! ## On a small chain -/

theorem numbered_steady (head : UInt64) (b : Chain.Block) (t : Chain.Transaction) (r : Chain.Receipt) :
    (Node.steady head b t r).answers.Numbered := by
  intro asked c asked' c' hc hc' _
  rw [Node.eq_of_tellsBlock_steady hc, Node.eq_of_tellsBlock_steady hc']

/-- A block that is not deep enough when it is stored is confirmed ten blocks later. -/
theorem Course.confirmation_sample :
    let young := Node.steady 10 Sample.block Sample.transaction Sample.receipt
    let stored := ((Operation.block "0xb7").run Sample.service young ⟨(), .inMemory⟩).2.store
    let confirmed := Operation.confirmBlocks.run Sample.service Sample.node ⟨(), stored⟩
    ConfirmsSoundly Sample.service.policy .inMemory
        ((Operation.block "0xb7").history Sample.service young ⟨(), .inMemory⟩) ∧
      confirmed.1 = .ok 1 ∧
      (Operation.confirmBlocks.run Sample.service Sample.node confirmed.2).1 = .ok 0 := by
  intro young stored confirmed
  have hcourse : Course (fun service o => service.policy = Sample.service.policy ∧ o.isCall = true)
      .inMemory ([] ++ (Operation.block "0xb7").history Sample.service young ⟨(), .inMemory⟩) stored :=
    .step .nil ⟨rfl, rfl⟩ young ()
  have hnumbers : (heardIn ([] ++ (Operation.block "0xb7").history Sample.service young
      ⟨(), .inMemory⟩)).Numbered :=
    (numbered_steady _ _ _ _).mono fun q r hmem => Routine.answers_of_mem_history hmem
  obtain ⟨-, hsound, t, hstored, hconfirm⟩ := Course.confirmation hcourse hnumbers
  obtain ⟨c, t', hrun, -, -, -, -, hagain⟩ := hconfirm Sample.service Sample.node () 20 rfl rfl
  refine ⟨hsound, by decide +kernel, ?_⟩
  have hafter : confirmed.2 = ⟨(), .memory t'⟩ := congrArg Prod.snd hrun
  rw [hafter, hagain Sample.node () rfl]

end Storage

end ChainIndex
