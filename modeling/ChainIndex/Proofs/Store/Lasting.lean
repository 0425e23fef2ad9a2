import ChainIndex.Proofs.Derived.Tables
import ChainIndex.Proofs.Store.Faltering
import ChainIndex.Proofs.Store.Growth

/-!
# Rows that last

`Storage.Tries` is the conduct of a store in which any action may fail, with whatever it has done of its
work by then: an access all or nothing, a step of a unit of work some of its statements, a commit all or
nothing.  Within it, whatever is tried, blocks and transactions stay but for being confirmed and linked,
internal transactions stay as they are, and markers stay but for what has been processed
(`Storage.Tries.lasts`), as long as accesses wait while a unit of work is open.
-/

namespace ChainIndex

open Derived (Invalidation AddressScope)

/-! ## Tables -/

/-- Internal transactions stay as they are, and markers stay but for what has been processed. -/
structure Derived.Tables.FramesLast (d d' : Tables) : Prop where
  internalTx : ∀ {key row}, d.internalTxs.get? key = some row → d'.internalTxs.get? key = some row
  marker : ∀ {key mk}, d.markers.get? key = some mk →
    ∃ mk', d'.markers.get? key = some mk' ∧ mk'.key = mk.key ∧ mk'.selector = mk.selector

namespace Derived.Tables.FramesLast

variable {d₁ d₂ d₃ : Tables}

theorem trans (h : d₁.FramesLast d₂) (h' : d₂.FramesLast d₃) : d₁.FramesLast d₃ where
  internalTx hrow := h'.internalTx (h.internalTx hrow)
  marker hmk := by
    obtain ⟨mk', hmk', hkey, hselector⟩ := h.marker hmk
    obtain ⟨mk'', hmk'', hkey', hselector'⟩ := h'.marker hmk'
    exact ⟨mk'', hmk'', hkey'.trans hkey, hselector'.trans hselector⟩

theorem of_sameFrames (h : d₁.SameFrames d₂) : d₁.FramesLast d₂ where
  internalTx hrow := h.internalTxs ▸ hrow
  marker {key mk} hmk := by
    have hsame := h.markers key
    rw [hmk, Option.map_some, Option.map_eq_some_iff] at hsame
    obtain ⟨mk', hmk', heq⟩ := hsame
    rw [Prod.mk.injEq] at heq
    exact ⟨mk', hmk', heq⟩

theorem refl (d : Tables) : d.FramesLast d := of_sameFrames (.refl d)

theorem of_gains {rows : List InternalTx} {markers : List Marker} {n : Nat}
    (h : d₁.Gains rows markers n d₂) : d₁.FramesLast d₂ where
  internalTx hrow := by rw [h.internalTxs, hrow, Option.some_or]
  marker {key mk} hmk := ⟨mk, by rw [h.markers, hmk, Option.some_or], rfl, rfl⟩

end Derived.Tables.FramesLast

open Derived.Tables (FramesLast)

/-- All that is known of the chain lasts. -/
structure Memory.Lasts (m m' : Memory) : Prop where
  grows : m.Grows m'
  frames : m.derived.FramesLast m'.derived

theorem Memory.Lasts.refl (m : Memory) : m.Lasts m :=
  ⟨⟨fun hb => ⟨_, hb, .refl _⟩, fun ht => ⟨_, ht, .refl _⟩⟩, .refl _⟩

/-- The frames last in whatever an access does. -/
theorem Access.Effect.frames {m m' : Memory} {a : Access} {r : Except Fault a.Reply}
    (he : a.Effect m r m') : m.derived.FramesLast m'.derived := by
  have hadd {t : Ledger.Transaction} {reply : Except Fault Ledger.Transaction}
      (he : m.addTransaction t = (reply, m')) : m.derived.FramesLast m'.derived := by
    rcases Memory.addTransaction_cases he with ⟨-, -, -, rfl⟩ | ⟨-, -, rfl⟩ <;> exact .refl _
  cases a with
  | createTransaction t receipt b =>
    rcases he with he | ⟨-, -, rfl⟩
    · exact hadd he
    · exact .refl _
  | createPending t => exact hadd he
  | linkTransaction hash b receipt =>
    rcases he with he | ⟨-, -, rfl⟩
    · rcases Memory.linkTransaction_cases he with ⟨-, -, rfl⟩ | ⟨t, -, -, rfl⟩ <;> exact .refl _
    · exact .refl _
  | confirmBlocks upTo =>
    obtain ⟨n, final, -, rfl⟩ := he
    exact .refl _
  | getMined hashes =>
    obtain ⟨rows, -, -, rfl⟩ := he
    exact .refl _
  | insertInternal rows markers =>
    cases he
    exact .of_gains (m.derived.gains_insertInternal rows markers)
  | setProcessed key =>
    cases he
    exact .of_sameFrames (.setProcessed m.derived key)
  | _ =>
    cases he
    exact ⟨id, fun hmk => ⟨_, hmk, rfl, rfl⟩⟩

/-! ## Sessions -/

namespace Session

/-- An open unit of work has changed derived tables only, and none of the frames. -/
def Quiet (s : Session Memory) : Prop :=
  ∀ m, s.staged = some m →
    m.blocks = s.live.blocks ∧ m.transactions = s.live.transactions ∧ s.live.derived.SameFrames m.derived

variable {s s' : Session Memory} {a : Action}

theorem quiet_of_none (h : s.staged = none) : s.Quiet := by
  intro m hm
  rw [h] at hm
  cases hm

/-- The frames last in a unit that is committed, as the ledger does. -/
theorem Quiet.lasts (h : s.Quiet) {m : Memory} (hm : s.staged = some m) : s.live.Lasts m := by
  obtain ⟨hblocks, htransactions, hframes⟩ := h m hm
  exact ⟨⟨fun hb => ⟨_, hblocks ▸ hb, .refl _⟩, fun ht => ⟨_, htransactions ▸ ht, .refl _⟩⟩,
    .of_sameFrames hframes⟩

theorem Quiet.invalidate (h : s.Quiet) {m : Memory} (hm : s.staged = some m) {d : Derived.Tables}
    (hd : m.derived.SameFrames d) : Quiet { s with staged := some { m with derived := d } } := by
  intro m' hm'
  obtain rfl := Option.some.inj hm'
  obtain ⟨hblocks, htransactions, hframes⟩ := h m hm
  exact ⟨hblocks, htransactions, hframes.trans hd⟩

end Session

/-- Whether an action waits while a unit of work is open. -/
def Action.waits : Action → Bool
  | access _ | beginUnit => true
  | _ => false

/-- What is known of the chain lasts, whatever is done to a session in due order. -/
theorem Session.Quiet.step {s s' : Session Memory} {a : Action} {r : Except Fault a.Reply} (h : s.Quiet)
    (ha : a.waits = true → s.staged = none) (he : Effect a s r s') : s'.Quiet ∧ s.live.Lasts s'.live := by
  have hsame : s.live.Lasts s.live := .refl _
  cases a with
  | access b =>
    obtain ⟨m, he, rfl⟩ := he
    exact ⟨quiet_of_none (ha rfl), he.grows, he.frames⟩
  | beginUnit =>
    obtain ⟨-, rfl⟩ := he
    exact ⟨fun m hm => Option.some.inj hm ▸ ⟨rfl, rfl, .refl _⟩, hsame⟩
  | invalidate step scope =>
    rcases he with ⟨-, -, rfl⟩ | ⟨m, n, d, hm, -, hd, rfl⟩
    · exact ⟨h, hsame⟩
    · exact ⟨h.invalidate hm hd, hsame⟩
  | commit =>
    rcases he with ⟨-, -, rfl⟩ | ⟨m, hm, -, rfl⟩
    · exact ⟨h, hsame⟩
    · exact ⟨quiet_of_none rfl, h.lasts hm⟩
  | rollback | abandon =>
    obtain ⟨-, rfl⟩ := he
    exact ⟨quiet_of_none rfl, hsame⟩

/-! ## Stores -/

namespace Storage

/-- An open store after some of the statements of a step within a unit of work.  Tables in memory take a
step at once. -/
def partly (s : Storage) (step : Invalidation) (scope : AddressScope) (count : Nat) : Storage :=
  match s with
  | .memory s => .memory s
  | .database path? s =>
    .database path? { s with staged := s.staged.map fun d =>
      { d with derived :=
          (Relational.runAll ((Relational.statements step scope).take count) d.derived).2 } }

/-- What a store may do in which any action may fail, with whatever it has done of its work by then. -/
def Tries : Conduct Storage := fun a s r s' =>
  store.perform a s = (r, s') ∨
    (∃ fault, r = .error fault) ∧ match a with
      | .access b => s' = s ∨ s' = (store.perform (.access b) s).2
      | .beginUnit => s' = s
      | .invalidate step scope => ∃ count, s' = s.partly step scope count
      | .commit => s' = s.closed ∨ s' = (store.perform .commit s).2
      | .rollback | .abandon => s' = s.closed

variable {s s' : Storage} {t : Session Memory}

theorem Represents.closed (h : s.Represents t) : s.closed.Represents { live := t.live } := by
  cases s with
  | memory s => exact ⟨h.live, .none⟩
  | database path? s => exact ⟨h.live, .none⟩

theorem Represents.staged_eq_none (h : s.Represents t) (hs : s.closed = s) : t.staged = none := by
  rw [← hs] at h
  obtain ⟨live, staged⟩ := t
  cases s with
  | memory s =>
    obtain ⟨-, hstaged⟩ := h
    cases hstaged
    rfl
  | database path? s =>
    obtain ⟨-, hstaged⟩ := h
    cases hstaged
    rfl

/-- Some of the statements of a step leave the frames alone, too. -/
theorem Represents.partly (h : s.Represents t) (step : Invalidation) (scope : AddressScope)
    (count : Nat) : (s.partly step scope count).Represents t ∨
      ∃ m d, t.staged = some m ∧ m.derived.SameFrames d ∧
        (s.partly step scope count).Represents { t with staged := some { m with derived := d } } := by
  obtain ⟨live, staged⟩ := t
  rcases s with s | ⟨path?, live', staged'⟩
  · exact .inl h
  · obtain ⟨hlive, hstaged⟩ := h
    cases hstaged with
    | none => exact .inl ⟨hlive, .none⟩
    | some hrel =>
      obtain ⟨d, hd, hrel'⟩ := hrel.runAll fun s hs =>
        Relational.keepsFrames_of_mem_statements (List.mem_of_mem_take (i := count) hs)
      exact .inr ⟨_, d, rfl, hd, hlive, .some hrel'⟩

/-- What is known of the chain lasts, whatever is tried in due order. -/
theorem Tries.lasts {a : Action} {r : Except Fault a.Reply} (h : Tries a s r s') (hrep : s.Represents t)
    (hquiet : t.Quiet) (ha : a.waits = true → s.closed = s) :
    ∃ t', s'.Represents t' ∧ t'.Quiet ∧ t.live.Lasts t'.live := by
  have hsame : t.live.Lasts t.live := .refl _
  have hperform : ∃ t', (store.perform a s).2.Represents t' ∧ t'.Quiet ∧ t.live.Lasts t'.live := by
    obtain ⟨t', he, hrep'⟩ := exists_effect hrep (a := a) rfl
    exact ⟨t', hrep', hquiet.step (fun hwaits => hrep.staged_eq_none (ha hwaits)) he⟩
  have hclosed : ∃ t', s.closed.Represents t' ∧ t'.Quiet ∧ t.live.Lasts t'.live :=
    ⟨_, hrep.closed, Session.quiet_of_none rfl, hsame⟩
  rcases h with h | ⟨-, h⟩
  · rwa [h] at hperform
  · cases a with
    | access b =>
      rcases h with rfl | rfl
      · exact ⟨t, hrep, hquiet, hsame⟩
      · exact hperform
    | beginUnit =>
      obtain rfl := h
      exact ⟨t, hrep, hquiet, hsame⟩
    | invalidate step scope =>
      obtain ⟨count, rfl⟩ := h
      rcases hrep.partly step scope count with hrep' | ⟨m, d, hm, hd, hrep'⟩
      · exact ⟨t, hrep', hquiet, hsame⟩
      · exact ⟨_, hrep', hquiet.invalidate hm hd, hsame⟩
    | commit =>
      rcases h with rfl | rfl
      · exact hclosed
      · exact hperform
    | rollback | abandon =>
      obtain rfl := h
      exact hclosed

end Storage

end ChainIndex
