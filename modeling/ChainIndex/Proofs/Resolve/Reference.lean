import ChainIndex.Proofs.Resolve.Counting
import ChainIndex.Proofs.Resolve.Snapshot
import ChainIndex.Proofs.Store.Alike

/-!
# What a snapshot resolves hashes to

A snapshot is `Coherent` if what it reports about a transaction, its receipt and its block fits together.
`Snapshot.resolve?` says in terms of tables what becomes of them when a hash is resolved from a coherent
snapshot, and `Snapshot.resolveAll?` does the same for many hashes, one after the other: a linked
transaction stays as it is, and another one is stored with its block, or cannot be resolved.

Whether a hash can be resolved does not depend on the others, and all blocks and transactions may as well
be looked up before anything is stored (`Snapshot.resolveAll?_eq`).  The head matters to the confirmation of
blocks only, but is read on the way: `Snapshot.Provides` includes that it can be read where it has to be.
-/

namespace ChainIndex

open Text (canonical)

/-! ## What is reported -/

/-- A mined transaction with its receipt and its block. -/
structure Mined where
  transaction : Chain.Transaction
  receipt : Chain.Receipt
  block : Chain.Block

namespace Snapshot

variable {S : Snapshot} {hash : String}

/-- What an answer tells, if it tells anything. -/
def told? {α : Type} : Except Fault (Option α) → Option α
  | .ok a => a
  | .error _ => none

theorem told?_eq_some {α : Type} {r : Except Fault (Option α)} {a : α} :
    told? r = some a ↔ r = .ok (some a) := by
  cases r <;> simp [told?]

/-- The mined receipt of a hash, with the name of its block. -/
def receipt? (S : Snapshot) (hash : String) : Option (Chain.Receipt × String) :=
  (told? (S.receipt hash)).bind Resolve.minedReceipt?

/-- The transaction of a hash, with the name of its block. -/
def transaction? (S : Snapshot) (hash : String) : Option (Chain.Transaction × String) :=
  (told? (S.transaction hash)).bind Resolve.minedTransaction?

/-- All that is reported about a hash. -/
def mined? (S : Snapshot) (hash : String) : Option Mined :=
  (S.receipt? hash).bind fun r => (S.transaction? hash).bind fun t =>
    (told? (S.block (canonical t.2))).map fun block => { transaction := t.1, receipt := r.1, block }

/-- For every hash in its canonical form, the receipt is mined exactly if the transaction names a block,
and then both name the same one, the transaction carries the hash, and the block is reported under its name
and carries it.  The name of a block is taken in its canonical form, in which the block is asked for. -/
structure Coherent (S : Snapshot) : Prop where
  mined_iff : ∀ {hash}, canonical hash = hash →
    ((∃ r, S.receipt hash = .ok (some r) ∧ r.isMined = true) ↔
      ∃ t, S.transaction hash = .ok (some t) ∧ t.blockHash.isSome = true)
  agrees : ∀ {hash r t}, canonical hash = hash → S.receipt hash = .ok (some r) → r.isMined = true →
    S.transaction hash = .ok (some t) → t.blockHash.isSome = true →
      t.hash = hash ∧ ∃ name b, r.blockHash.map canonical = some name ∧
        t.blockHash.map canonical = some name ∧ S.block name = .ok (some b) ∧ b.hash = name

/-- Everything is reported about a hash, and fits together. -/
structure Reports (S : Snapshot) (hash : String) (f : Mined) : Prop where
  receipt : S.receipt hash = .ok (some f.receipt)
  minedIn : f.receipt.minedIn?.map canonical = some f.block.hash
  transaction : S.transaction hash = .ok (some f.transaction)
  named : f.transaction.blockHash.map canonical = some f.block.hash
  hash_eq : f.transaction.hash = hash
  block : S.block f.block.hash = .ok (some f.block)

theorem Reports.mined?_eq {f : Mined} (h : S.Reports hash f) : S.mined? hash = some f := by
  obtain ⟨name, hname, -⟩ := Option.map_eq_some_iff.1 h.minedIn
  obtain ⟨name', hname', hcanon⟩ := Option.map_eq_some_iff.1 h.named
  have hreceipt : S.receipt? hash = some (f.receipt, name) := by
    rw [receipt?, h.receipt]
    simp [told?, Resolve.minedReceipt?, hname]
  have htransaction : S.transaction? hash = some (f.transaction, name') := by
    rw [transaction?, h.transaction]
    simp [told?, Resolve.minedTransaction?, hname']
  simp [mined?, hreceipt, htransaction, hcanon, h.block, told?]

theorem map_hash_of_reports {hashes : List String} {fs : List Mined}
    (h : List.Forall₂ S.Reports hashes fs) : fs.map (·.transaction.hash) = hashes := by
  rw [← List.forall₂_eq_eq_eq, List.forall₂_map_left_iff]
  exact h.flip.imp fun _ _ hf => hf.hash_eq

/-- What a coherent snapshot reports about a hash whose receipt is mined. -/
theorem Coherent.exists_reports (hS : S.Coherent) (hcanon : canonical hash = hash) {r : Chain.Receipt}
    (hr : S.receipt hash = .ok (some r)) (hmined : r.isMined = true) :
    ∃ f, S.Reports hash f ∧ f.receipt = r := by
  obtain ⟨t, ht, hnamed⟩ := (hS.mined_iff hcanon).1 ⟨r, hr, hmined⟩
  obtain ⟨hhash, name, b, hrname, htname, hblock, hbhash⟩ := hS.agrees hcanon hr hmined ht hnamed
  subst hbhash
  refine ⟨⟨t, r, b⟩, ⟨hr, ?_, ht, htname, hhash, hblock⟩, rfl⟩
  rw [← hrname, Chain.Receipt.minedIn?, if_pos]
  rw [Chain.Receipt.isMined, Bool.and_eq_true] at hmined
  exact hmined.2

/-- If anything can be resolved, then what is reported fits together. -/
theorem Coherent.reports (hS : S.Coherent) (hcanon : canonical hash = hash) {f : Mined}
    (h : S.mined? hash = some f) : S.Reports hash f := by
  obtain ⟨⟨r, name⟩, hr, -⟩ := Option.bind_eq_some_iff.1 h
  obtain ⟨r', hr', hmined⟩ := Option.bind_eq_some_iff.1 hr
  have hisMined : r'.isMined = true := by
    obtain ⟨name', hname', -⟩ := Option.map_eq_some_iff.1 hmined
    rw [← r'.isSome_minedIn?, hname']
    rfl
  obtain ⟨f', hf', -⟩ := hS.exists_reports hcanon (told?_eq_some.1 hr') hisMined
  rw [hf'.mined?_eq] at h
  rwa [← Option.some.inj h]

theorem mined?_eq_none_of_receipt (h : S.receipt? hash = none) : S.mined? hash = none := by
  rw [mined?, h, Option.bind_none]

theorem mined?_eq_none_of_transaction (h : S.transaction? hash = none) : S.mined? hash = none := by
  rw [mined?, h]
  cases S.receipt? hash <;> rfl

end Snapshot

/-! ## Tables -/

namespace Memory

variable {m m' : Memory} {hash : String}

/-- Whether the transaction of a hash is stored and linked to a block. -/
def isLinked (m : Memory) (hash : String) : Bool :=
  (m.transactions.get? hash).any Ledger.Transaction.isMined

theorem isLinked_iff : m.isLinked hash = true ↔ m.Linked hash := Option.any_eq_true _ _

/-- The row of a mined transaction, linked to its block. -/
def settledRow (m : Memory) (f : Mined) : Ledger.Transaction :=
  m.linkedRow f.transaction f.receipt (m.createBlock f.block false).1

/-- The tables after a block and a transaction in it were stored. -/
def settle (m : Memory) (f : Mined) : Memory :=
  { (m.createBlock f.block false).2 with
    transactions := m.transactions.insert f.transaction.hash (m.settledRow f) }

theorem get?_settle (m : Memory) (f : Mined) (hash : String) :
    (m.settle f).transactions.get? hash =
      if hash = f.transaction.hash then some (m.settledRow f) else m.transactions.get? hash :=
  Table.get?_insert _ _ _ _

theorem isLinked_settle (m : Memory) (f : Mined) (hash : String) :
    (m.settle f).isLinked hash = (decide (hash = f.transaction.hash) || m.isLinked hash) := by
  rw [isLinked, get?_settle]
  by_cases heq : hash = f.transaction.hash
  · rw [if_pos heq, decide_eq_true heq, Bool.true_or]
    rfl
  · rw [if_neg heq, decide_eq_false heq, Bool.false_or]
    rfl

theorem Alike.isLinked (h : m.Alike m') (hash : String) : m.isLinked hash = m'.isLinked hash := by
  rw [Memory.isLinked, Memory.isLinked, h.transactions]

theorem Alike.settledRow (h : m.Alike m') (f : Mined) : m.settledRow f = m'.settledRow f := by
  have hrow : m.linkedRow f.transaction f.receipt = m'.linkedRow f.transaction f.receipt := by
    funext b
    rw [linkedRow, linkedRow, h.transactions]
  rw [Memory.settledRow, Memory.settledRow, hrow, linkedRow, linkedRow,
    ← Ledger.Transaction.link_bare _ (m.createBlock f.block false).1, h.bare_createBlock f.block _ false,
    Ledger.Transaction.link_bare]

theorem Alike.settle (h : m.Alike m') (f : Mined) : (m.settle f).Alike (m'.settle f) := by
  have hrow := h.settledRow f
  refine ⟨?_, (h.createBlock f.block false false).blocks⟩
  rw [Memory.settle, Memory.settle, h.transactions, hrow]

theorem Alike.foldl_settle (h : m.Alike m') (fs : List Mined) :
    (fs.foldl Memory.settle m).Alike (fs.foldl Memory.settle m') := by
  induction fs generalizing m m' with
  | nil => exact h
  | cons f rest ih => exact ih (h.settle f)

theorem get?_foldl_settle {fs : List Mined} (h : hash ∉ fs.map (·.transaction.hash)) (m : Memory) :
    (fs.foldl settle m).transactions.get? hash = m.transactions.get? hash := by
  induction fs generalizing m with
  | nil => rfl
  | cons f rest ih =>
    rw [List.map_cons, List.mem_cons, not_or] at h
    rw [List.foldl_cons, ih h.2, get?_settle, if_neg h.1]

end Memory

/-! ## Resolving -/

namespace Snapshot

variable {S : Snapshot} {m m' : Memory} {hash : String} {hashes : List String}

/-- The tables after a hash was resolved, if it can be resolved. -/
def resolve? (S : Snapshot) (m : Memory) (hash : String) : Option Memory :=
  if m.isLinked hash then some m else (S.mined? hash).map m.settle

/-- The tables after some hashes were resolved one after the other, if all of them can be resolved. -/
def resolveAll? (S : Snapshot) (m : Memory) (hashes : List String) : Option Memory :=
  hashes.foldlM S.resolve? m

theorem resolve?_of_linked (h : m.isLinked hash = true) : S.resolve? m hash = some m := if_pos h

theorem resolve?_of_not_linked (h : m.isLinked hash = false) :
    S.resolve? m hash = (S.mined? hash).map m.settle :=
  if_neg (Bool.eq_false_iff.1 h)

theorem resolveAll?_cons (m : Memory) (hash : String) (rest : List String) :
    S.resolveAll? m (hash :: rest) = (S.resolve? m hash).bind fun m => S.resolveAll? m rest :=
  List.foldlM_cons

theorem resolveAll?_append (m : Memory) (hashes hashes' : List String) :
    S.resolveAll? m (hashes ++ hashes') =
      (S.resolveAll? m hashes).bind fun m => S.resolveAll? m hashes' :=
  List.foldlM_append

theorem rel_resolve? (h : m.Alike m') (hash : String) :
    Option.Rel Memory.Alike (S.resolve? m hash) (S.resolve? m' hash) := by
  rw [resolve?, resolve?, h.isLinked hash]
  split
  · exact .some h
  · cases S.mined? hash with
    | none => exact .none
    | some f => exact .some (h.settle f)

theorem rel_resolveAll? (h : m.Alike m') (hashes : List String) :
    Option.Rel Memory.Alike (S.resolveAll? m hashes) (S.resolveAll? m' hashes) := by
  induction hashes generalizing m m' with
  | nil => exact .some h
  | cons hash rest ih =>
    rw [resolveAll?_cons, resolveAll?_cons]
    have hfirst := S.rel_resolve? h hash
    revert hfirst
    cases S.resolve? m hash <;> cases S.resolve? m' hash <;> intro hfirst <;> cases hfirst
    · exact .none
    · rename_i h₁
      exact ih h₁

/-- Resolving hashes leaves a linked transaction as it is. -/
theorem Coherent.get?_resolveAll? (hS : S.Coherent) (hcanon : ∀ hash ∈ hashes, canonical hash = hash)
    (hm : S.resolveAll? m hashes = some m') {row : Ledger.Transaction}
    (hrow : m.transactions.get? hash = some row) (hmined : row.isMined = true) :
    m'.transactions.get? hash = some row := by
  induction hashes generalizing m with
  | nil =>
    cases hm
    exact hrow
  | cons first rest ih =>
    rw [resolveAll?_cons] at hm
    obtain ⟨m₁, hfirst, hrest⟩ := Option.bind_eq_some_iff.1 hm
    refine ih (fun hash hmem => hcanon hash (List.mem_cons_of_mem _ hmem)) hrest ?_
    cases hlinked : m.isLinked first with
    | true =>
      rw [resolve?_of_linked hlinked] at hfirst
      cases hfirst
      exact hrow
    | false =>
      rw [resolve?_of_not_linked hlinked, Option.map_eq_some_iff] at hfirst
      obtain ⟨f, hf, rfl⟩ := hfirst
      have hhash := (hS.reports (hcanon first List.mem_cons_self) hf).hash_eq
      have hne : hash ≠ f.transaction.hash := by
        rintro rfl
        rw [← hhash, Memory.isLinked, hrow, Option.any_some, hmined] at hlinked
        cases hlinked
      rw [Memory.get?_settle, if_neg hne, hrow]

/-- All transactions that are not linked yet may be looked up before any of them is stored. -/
theorem Coherent.resolveAll?_eq (hS : S.Coherent) (hcanon : ∀ hash ∈ hashes, canonical hash = hash)
    (hnodup : hashes.Nodup) (m : Memory) : S.resolveAll? m hashes =
      ((hashes.filter fun hash => !m.isLinked hash).mapM S.mined?).map (·.foldl Memory.settle m) := by
  induction hashes generalizing m with
  | nil => rfl
  | cons first rest ih =>
    obtain ⟨hfirst, hnodup⟩ := List.nodup_cons.1 hnodup
    replace ih := ih (fun hash hmem => hcanon hash (List.mem_cons_of_mem _ hmem)) hnodup
    rw [resolveAll?_cons]
    cases hlinked : m.isLinked first with
    | true =>
      rw [resolve?_of_linked hlinked, Option.bind_some, ih, List.filter_cons_of_neg (by simp [hlinked])]
    | false =>
      rw [resolve?_of_not_linked hlinked, List.filter_cons_of_pos (by simp [hlinked]), List.mapM_cons]
      cases hf : S.mined? first with
      | none => rfl
      | some f =>
        have hhash := (hS.reports (hcanon first List.mem_cons_self) hf).hash_eq
        -- The others are linked afterwards if they were before.
        have hothers : rest.filter (fun hash => !(m.settle f).isLinked hash) =
            rest.filter fun hash => !m.isLinked hash := by
          refine List.filter_congr fun hash hmem => ?_
          have hne : hash ≠ f.transaction.hash := by
            rw [hhash]
            rintro rfl
            exact hfirst hmem
          rw [Memory.isLinked_settle, decide_eq_false hne, Bool.false_or]
        show S.resolveAll? (m.settle f) rest = _
        rw [ih, hothers]
        cases (rest.filter fun hash => !m.isLinked hash).mapM S.mined? <;> rfl

/-- The snapshot has all that resolving some hashes at once takes.  The head is asked for unless all of them
are linked. -/
structure Provides (S : Snapshot) (m : Memory) (hashes : List String) : Prop where
  resolves : S.resolveAll? m hashes ≠ none
  head : (∃ head, S.head = .ok head) ∨ ∀ hash ∈ hashes, m.isLinked hash = true

theorem not_provides_of_head {fault : Fault} (hhead : S.head = .error fault) (hmem : hash ∈ hashes)
    (hfree : m.isLinked hash = false) : ¬ S.Provides m hashes := by
  rintro ⟨-, ⟨head, hok⟩ | hlinked⟩
  · exact absurd (hhead.symm.trans hok) nofun
  · exact absurd (hfree.symm.trans (hlinked hash hmem)) Bool.false_ne_true

theorem not_provides_of_not_linked {fault : Fault} (hfree : m.isLinked hash = false)
    (h : S.mined? hash = none ∨ S.head = .error fault) : ¬ S.Provides m [hash] := by
  rcases h with hnone | hhead
  · refine fun hprovides => hprovides.resolves ?_
    rw [resolveAll?_cons, resolve?_of_not_linked hfree, hnone]
    rfl
  · exact not_provides_of_head hhead List.mem_cons_self hfree

theorem Provides.head_of_cons {rest : List String} (h : S.Provides m (hash :: rest)) :
    S.Provides m [hash] := by
  refine ⟨fun hnone => h.resolves ?_, h.head.imp_right fun hlinked other hmem =>
    hlinked other (List.mem_singleton.1 hmem ▸ List.mem_cons_self)⟩
  rw [← List.singleton_append, resolveAll?_append, hnone, Option.bind_none]

end Snapshot

end ChainIndex
