import ChainIndex.Proofs.Resolve.Together
import ChainIndex.Proofs.Service.Integrity
import ChainIndex.Proofs.Service.Local

/-!
# One after the other, or all at once

Many hashes may be resolved by an operation on each of them, one after the other, or by one operation on
all.  With a node that answers as a coherent snapshot, both return the same rows if they succeed, and leave
the same transactions, and the same blocks but for their confirmation (`Storage.Reachable.agreement`).  Where
the head of the node can be read, the one succeeds exactly if the other does.  Where it cannot, resolving all
at once fails unless there is nothing to ask, and one after the other may still work on blocks that are stored
(`Storage.headless_disagreement`).
-/

namespace ChainIndex

open Text (canonical)
open Resolve (ResolvesTo distinct)

namespace Operation

variable {ν : Type}

/-- Hashes are resolved by an operation on each, one after the other, and none of them fails. -/
inductive InTurn (service : Service) (node : Node ν) : Routine.World ν Storage → List String →
    List Ledger.Transaction → Routine.World ν Storage → Prop
  | nil (w : Routine.World ν Storage) : InTurn service node w [] [] w
  | cons {w w₁ w' : Routine.World ν Storage} {hash : String} {row : Ledger.Transaction}
    {hashes : List String} {rows : List Ledger.Transaction}
    (hfirst : (transaction hash).run service node w = (.ok row, w₁))
    (hrest : InTurn service node w₁ hashes rows w') :
    InTurn service node w (hash :: hashes) (row :: rows) w'

variable {S : Snapshot} {service : Service} {node : Node ν} {w w' : Routine.World ν Storage}
  {hashes : List String} {rows : List Ledger.Transaction} {t : Session Memory}

theorem exists_outcome_transaction (service : Service) (hS : S.Coherent)
    (hN : ∀ q r, node.answers q r → S.answers q r) (hrep : w.store.Represents t) (hs : t.Sound)
    {hash : String} (hcanon : canonical hash = hash) :
    ∃ t', ((transaction hash).run service node w).2.store.Represents t' ∧
      Outcome (fun row => ResolvesTo S t [hash] [row]) (fun _ _ => ¬ S.Provides t.live [hash])
        ((transaction hash).run service node w).1 t' :=
  Storage.exists_outcome (fun q r hheard => hN q r hheard.2) hrep
    (Resolve.ensures_transaction_resolves hs hS hcanon)

/-- Resolving hashes one after the other comes to what the snapshot says. -/
theorem InTurn.resolvesTo (h : InTurn service node w hashes rows w') (hS : S.Coherent)
    (hN : ∀ q r, node.answers q r → S.answers q r) (hcanon : ∀ hash ∈ hashes, canonical hash = hash)
    (hrep : w.store.Represents t) (hs : t.Sound) :
    ∃ t', w'.store.Represents t' ∧ ResolvesTo S t hashes rows t' := by
  induction h generalizing t with
  | nil w => exact ⟨t, hrep, hs, ⟨t.live, rfl, .refl _⟩, .nil⟩
  | @cons w w₁ w' hash row hashes rows hfirst _ ih =>
    have hrest : ∀ hash ∈ hashes, canonical hash = hash :=
      fun hash hmem => hcanon hash (List.mem_cons_of_mem _ hmem)
    obtain ⟨t₁, hrep₁, hend⟩ := exists_outcome_transaction service hS hN hrep hs
      (hcanon hash List.mem_cons_self)
    rw [hfirst] at hrep₁ hend
    obtain ⟨t', hrep', hresolves⟩ := ih hrest hrep₁ hend.sound
    exact ⟨t', hrep', hend.append hS hrest hresolves⟩

/-- Hashes can be resolved one after the other if the snapshot provides what it takes. -/
theorem exists_inTurn (hS : S.Coherent) (hN : ∀ q r, node.answers q r → S.answers q r)
    (hcanon : ∀ hash ∈ hashes, canonical hash = hash) (hrep : w.store.Represents t) (hs : t.Sound)
    (hprovides : S.Provides t.live hashes) : ∃ rows w', InTurn service node w hashes rows w' := by
  induction hashes generalizing w t with
  | nil => exact ⟨[], w, .nil w⟩
  | cons hash hashes ih =>
    obtain ⟨hfirst, hrest⟩ := List.forall_mem_cons.1 hcanon
    obtain ⟨t₁, hrep₁, hend⟩ := exists_outcome_transaction service hS hN hrep hs hfirst
    cases hrun : (transaction hash).run service node w with
    | mk reply w₁ =>
      rw [hrun] at hrep₁ hend
      cases reply with
      | error fault => exact absurd hprovides.head_of_cons hend
      | ok row =>
        obtain ⟨rows, w', hturn⟩ := ih hrest hrep₁ hend.sound
          (hend.provides hS (List.forall_mem_singleton.2 hfirst) hprovides)
        exact ⟨row :: rows, w', .cons hrun hturn⟩

theorem exists_outcome_transactions (service : Service) (hS : S.Coherent)
    (hN : ∀ q r, node.answers q r → S.answers q r) (hrep : w.store.Represents t) (hs : t.Sound)
    (hashes : List String) :
    ∃ t', ((transactions hashes).run service node w).2.store.Represents t' ∧
      Outcome (fun rows t' => ResolvesTo S t (distinct hashes) rows t' ∧ S.Provides t.live (distinct hashes))
        (fun _ _ => ¬ S.Provides t.live (distinct hashes))
        ((transactions hashes).run service node w).1 t' :=
  Storage.exists_outcome (fun q r hheard => hN q r hheard.2) hrep
    (Resolve.ensures_transactions_resolves hs hS hashes)

/-- Many hashes can be resolved at once exactly if the snapshot provides what it takes. -/
theorem exists_ok_transactions_iff (service : Service) (hS : S.Coherent)
    (hN : ∀ q r, node.answers q r → S.answers q r) (hrep : w.store.Represents t) (hs : t.Sound)
    (hashes : List String) :
    (∃ rows, ((transactions hashes).run service node w).1 = .ok rows) ↔
      S.Provides t.live (distinct hashes) := by
  obtain ⟨t', -, hend⟩ := exists_outcome_transactions service hS hN hrep hs hashes
  cases hreply : ((transactions hashes).run service node w).1 with
  | ok rows =>
    rw [hreply] at hend
    exact ⟨fun _ => hend.2, fun _ => ⟨rows, rfl⟩⟩
  | error fault =>
    rw [hreply] at hend
    exact ⟨fun ⟨rows, hok⟩ => absurd hok nofun, fun hprovides => absurd hprovides hend⟩

end Operation

namespace Storage

open Operation (InTurn)

/-- Two stores hold the same transactions, and the same blocks but for their confirmation. -/
structure Alike (s s' : Storage) : Prop where
  transaction : ∀ hash, s.answer (.getTransaction hash) = s'.answer (.getTransaction hash)
  block : ∀ hash, (s.answer (.getBlock hash)).map (Option.map Ledger.Block.bare) =
    (s'.answer (.getBlock hash)).map (Option.map Ledger.Block.bare)

theorem alike_of_represents {s s' : Storage} {t t' : Session Memory} (hrep : s.Represents t)
    (hrep' : s'.Represents t') (h : t.live.Alike t'.live) : s.Alike s' where
  transaction hash := by
    rw [answer_getTransaction hrep, answer_getTransaction hrep', h.transactions]
  block hash := by
    rw [answer_getBlock hrep, answer_getBlock hrep']
    exact congrArg Except.ok (h.blocks hash)

/-- With a node that answers as a coherent snapshot, many hashes can be resolved at once from a reachable
store exactly if they can be resolved one after the other and the head can be read, which a node is not asked
for if all of them are linked already.  If both ways succeed, they return the same rows and leave stores that
are alike, whatever the node answers about its head. -/
theorem Reachable.agreement {S : Snapshot} (hS : S.Coherent) {s : Storage} (h : s.Reachable)
    (service : Service) {ν : Type} {node : Node ν} (hN : ∀ q r, node.answers q r → S.answers q r)
    (n n' : ν) (hashes : List String) :
    ((∃ rows, ((Operation.transactions hashes).run service node ⟨n, s⟩).1 = .ok rows) ↔
      (∃ rows w, InTurn service node ⟨n', s⟩ (distinct hashes) rows w) ∧
        ((∃ head, S.head = .ok head) ∨ ∀ hash ∈ distinct hashes, s.Linked hash)) ∧
    ∀ rows rows' w, ((Operation.transactions hashes).run service node ⟨n, s⟩).1 = .ok rows →
      InTurn service node ⟨n', s⟩ (distinct hashes) rows' w →
      rows = rows' ∧ ((Operation.transactions hashes).run service node ⟨n, s⟩).2.store.Alike w.store := by
  obtain ⟨t, hrep, hs⟩ := h.sound
  have hcanon : ∀ hash ∈ distinct hashes, canonical hash = hash :=
    fun _ => Resolve.canonical_of_mem_distinct
  have hlinked (hash : String) : s.Linked hash ↔ t.live.isLinked hash = true :=
    (hrep.linked_iff hash).trans Memory.isLinked_iff.symm
  constructor
  · rw [Operation.exists_ok_transactions_iff (w := ⟨n, s⟩) service hS hN hrep hs hashes]
    simp only [hlinked]
    constructor
    · exact fun hprovides => ⟨Operation.exists_inTurn hS hN hcanon hrep hs hprovides, hprovides.head⟩
    · rintro ⟨⟨rows, w, hturn⟩, hhead⟩
      obtain ⟨t', -, hresolves⟩ := hturn.resolvesTo hS hN hcanon hrep hs
      exact ⟨hresolves.ne_none, hhead⟩
  · intro rows rows' w hok hturn
    obtain ⟨t₁, hrep₁, hresolves⟩ :=
      Operation.exists_outcome_transactions (w := ⟨n, s⟩) service hS hN hrep hs hashes
    rw [hok] at hresolves
    obtain ⟨t₂, hrep₂, hresolves'⟩ := hturn.resolvesTo hS hN hcanon hrep hs
    obtain ⟨heq, halike⟩ := ResolvesTo.agree hresolves.1 hresolves'
    exact ⟨heq, alike_of_represents hrep₁ hrep₂ halike⟩

end Storage

/-! ## On a small chain -/

/-- What the snapshot of the chain reports fits together. -/
theorem Sample.coherent_snapshot : Sample.snapshot.Coherent where
  mined_iff {hash} _ := by
    by_cases heq : hash = "0xaa"
    · subst heq
      exact ⟨fun _ => ⟨Sample.transaction, rfl, rfl⟩, fun _ => ⟨Sample.receipt, rfl, by decide +kernel⟩⟩
    · simp [Sample.snapshot, heq]
  agrees {hash r t} _ hr _ ht _ := by
    replace hr := Except.ok.inj hr
    replace ht := Except.ok.inj ht
    split at hr
    · rename_i heq
      subst heq
      cases hr
      cases ht
      exact ⟨rfl, "0xb7", Sample.block, by decide +kernel, by decide +kernel, rfl, rfl⟩
    · cases hr

/-- Two spellings of one hash: both ways store the transaction. -/
theorem Storage.agreement_sample :
    ((Operation.transactions ["0xaa ", " 0xaa"]).run Sample.service Sample.snapshot.node
        ⟨(), .inMemory⟩).1 = .ok [Sample.row] ∧
      ∃ w, Operation.InTurn Sample.service Sample.snapshot.node ⟨(), .inMemory⟩
          (distinct ["0xaa ", " 0xaa"]) [Sample.row] w ∧
        ((Operation.transactions ["0xaa ", " 0xaa"]).run Sample.service Sample.snapshot.node
          ⟨(), .inMemory⟩).2.store.Alike w.store := by
  have hok : ((Operation.transactions ["0xaa ", " 0xaa"]).run Sample.service Sample.snapshot.node
      ⟨(), .inMemory⟩).1 = .ok [Sample.row] := by decide +kernel
  obtain ⟨hiff, hagree⟩ := Storage.Reachable.agreement Sample.coherent_snapshot .memory Sample.service
    (fun _ _ => Snapshot.answers_of_node) () () ["0xaa ", " 0xaa"]
  obtain ⟨⟨rows, w, hturn⟩, -⟩ := hiff.1 ⟨_, hok⟩
  obtain ⟨rfl, halike⟩ := hagree _ _ _ hok hturn
  exact ⟨hok, w, hturn, halike⟩

namespace Sample

/-- What a node reports that knows the small chain, but not its head. -/
def headless : Snapshot :=
  { snapshot with head := .error (.rpc "no head") }

/-- A store that holds the block of the small chain. -/
def stocked : Storage :=
  ((Operation.block "0xb7").run service snapshot.node ⟨(), .inMemory⟩).2.store

end Sample

/-- Where the head cannot be read, a transaction whose block is stored can be resolved alone, but not in a
list. -/
theorem Storage.headless_disagreement :
    Sample.headless.Coherent ∧ Sample.stocked.Reachable ∧
      (∃ w, Operation.InTurn Sample.service Sample.headless.node ⟨(), Sample.stocked⟩ (distinct ["0xaa"])
        [Sample.row] w) ∧
      ((Operation.transactions ["0xaa"]).run Sample.service Sample.headless.node ⟨(), Sample.stocked⟩).1 =
        .error (.rpc "no head") := by
  have hdistinct : distinct ["0xaa"] = ["0xaa"] := by decide +kernel
  have hrun : ((Operation.transaction "0xaa").run Sample.service Sample.headless.node
      ⟨(), Sample.stocked⟩).1 = .ok Sample.row := by decide +kernel
  refine ⟨⟨Sample.coherent_snapshot.mined_iff, Sample.coherent_snapshot.agrees⟩,
    .step .memory Sample.service (.block "0xb7") Sample.snapshot.node (), ?_, by decide +kernel⟩
  rw [hdistinct]
  exact ⟨_, .cons (Prod.ext hrun rfl) (.nil _)⟩

end ChainIndex
