import ChainIndex.Proofs.Derived.Composition
import ChainIndex.Proofs.Service.Reprocess

/-!
# Reprocessing several lists of addresses

To reprocess one list of addresses and then another is to reprocess the list of both
(`Operation.reprocess_append`): a long list may be worked off in parts, in any order, and a part that was
worked off already is no harm.  Reprocessing every address makes up for all of them.
-/

namespace ChainIndex

open Derived (AddressScope Owners Summary Tables stepsInTurn)
open Text (lower)

namespace Storage

@[simp] theorem derived_withDerived (s : Storage) (d : Tables) : (s.withDerived d).derived = d := by
  cases s <;> rfl

@[simp] theorem withDerived_withDerived (s : Storage) (d d' : Tables) :
    (s.withDerived d).withDerived d' = s.withDerived d' := by
  cases s <;> rfl

end Storage

namespace Reprocess

variable {ν : Type}

/-- Of every store, an attempt takes back the rows of some owners. -/
def TakesBack (node : Node ν) (n : ν) (a : Attempt Summary) (p : Owners) : Prop :=
  ∀ s : Storage, ∃ summary derived,
    a.run.run node Storage.store ⟨n, s⟩ = (.ok summary, ⟨n, s.withDerived derived⟩) ∧
      s.derived.Invalidated p summary derived

variable {node : Node ν} {n : ν} {p q : Owners} {a b c : Attempt Summary}

theorem takesBack_scope {scope : AddressScope} (h : scope.IsCanonical) :
    TakesBack node n (Reprocess.scope scope) scope.owners :=
  fun s => ⟨_, _, run_scope h node n s, s.derived.invalidated_takeBack _⟩

theorem takesBack_addresses {addresses : List String} (h : addresses ≠ []) :
    TakesBack node n (Reprocess.addresses addresses) (.among addresses) := by
  have hscope : Reprocess.addresses addresses = Reprocess.scope (.ofAddresses addresses) :=
    if_neg (by rwa [List.isEmpty_iff])
  rw [hscope, ← AddressScope.owners_ofAddresses]
  exact takesBack_scope (.inr ⟨addresses, rfl⟩)

theorem takesBack_all : TakesBack node n Reprocess.all .all := takesBack_scope (.inl rfl)

theorem run_unique {x : Except Fault Summary × Routine.World ν Storage} {first second : Summary}
    {s₁ s₂ : Storage} (h₁ : x = (.ok first, ⟨n, s₁⟩)) (h₂ : x = (.ok second, ⟨n, s₂⟩)) :
    first = second ∧ s₁ = s₂ := by
  cases h₁.symm.trans h₂
  exact ⟨rfl, rfl⟩

/-- Two attempts that take back the rows of some owners each do what one attempt does that takes back the
rows of both. -/
theorem TakesBack.followed (ha : TakesBack node n a p) (hb : TakesBack node n b q)
    (hc : TakesBack node n c (p.or q)) {s s₁ s₂ : Storage} {first second : Summary}
    (h₁ : a.run.run node Storage.store ⟨n, s⟩ = (.ok first, ⟨n, s₁⟩))
    (h₂ : b.run.run node Storage.store ⟨n, s₁⟩ = (.ok second, ⟨n, s₂⟩)) :
    ∃ whole, c.run.run node Storage.store ⟨n, s⟩ = (.ok whole, ⟨n, s₂⟩) ∧ first.Adds second whole ∧
      ((∀ owner, p owner = true → q owner = false) →
        whole.internalTxsMarked = first.internalTxsMarked + second.internalTxsMarked) := by
  obtain ⟨_, d₁, hrun₁, hd₁⟩ := ha s
  obtain ⟨rfl, rfl⟩ := run_unique h₁ hrun₁
  obtain ⟨_, d₂, hrun₂, hd₂⟩ := hb (s.withDerived d₁)
  obtain ⟨rfl, rfl⟩ := run_unique h₂ hrun₂
  obtain ⟨whole, d₂', hrun, hd⟩ := hc s
  rw [Storage.derived_withDerived] at hd₂
  obtain ⟨whole', hd', hadds, hmarked⟩ := hd₁.trans hd₂
  obtain ⟨rfl, rfl⟩ := hd.unique hd'
  exact ⟨whole, by rw [hrun, Storage.withDerived_withDerived], hadds, hmarked⟩

/-- Taking back the same rows again changes nothing. -/
theorem TakesBack.again (ha : TakesBack node n a p) {s s₁ : Storage} {first : Summary}
    (h₁ : a.run.run node Storage.store ⟨n, s⟩ = (.ok first, ⟨n, s₁⟩)) :
    ∃ again, a.run.run node Storage.store ⟨n, s₁⟩ = (.ok again, ⟨n, s₁⟩) ∧ again.DeletesNothing := by
  obtain ⟨again, d₂, h₂, -⟩ := ha s₁
  obtain ⟨whole, hrun, hadds, -⟩ := ha.followed ha (by rwa [Owners.or_self]) h₁ h₂
  obtain ⟨rfl, hs⟩ := run_unique h₁ hrun
  rw [← hs] at h₂
  exact ⟨again, h₂, hadds.deletesNothing⟩

end Reprocess

namespace Operation

variable {ν : Type}

open Reprocess

/-- To reprocess one list of addresses and then another is to reprocess both in one, in either order; a
list that is reprocessed again finds nothing to delete, and one that is reprocessed before or after all
addresses are makes no difference. -/
theorem reprocess_append (service : Service) (node : Node ν) (n : ν) (s : Storage) {xs ys : List String}
    (hxs : xs ≠ []) (hys : ys ≠ []) :
    ∃ first second whole s₁ s₂,
      (reprocess xs).run service node ⟨n, s⟩ = (.ok first, ⟨n, s₁⟩) ∧
      (reprocess ys).run service node ⟨n, s₁⟩ = (.ok second, ⟨n, s₂⟩) ∧
      (reprocess (xs ++ ys)).run service node ⟨n, s⟩ = (.ok whole, ⟨n, s₂⟩) ∧
      first.Adds second whole ∧
      ((∀ x ∈ xs, ∀ y ∈ ys, lower x ≠ lower y) →
        whole.internalTxsMarked = first.internalTxsMarked + second.internalTxsMarked) ∧
      (∃ first' second' s₁',
        (reprocess ys).run service node ⟨n, s⟩ = (.ok first', ⟨n, s₁'⟩) ∧
        (reprocess xs).run service node ⟨n, s₁'⟩ = (.ok second', ⟨n, s₂⟩) ∧
        first'.Adds second' whole) ∧
      (∃ again, (reprocess xs).run service node ⟨n, s₁⟩ = (.ok again, ⟨n, s₁⟩) ∧
        again.DeletesNothing) ∧
      ∃ all all' none sAll,
        reprocessAll.run service node ⟨n, s⟩ = (.ok all, ⟨n, sAll⟩) ∧
        reprocessAll.run service node ⟨n, s₁⟩ = (.ok all', ⟨n, sAll⟩) ∧
        (reprocess xs).run service node ⟨n, sAll⟩ = (.ok none, ⟨n, sAll⟩) := by
  have hx : TakesBack node n (Reprocess.addresses xs) (.among xs) := takesBack_addresses hxs
  have hy : TakesBack node n (Reprocess.addresses ys) (.among ys) := takesBack_addresses hys
  have hboth : TakesBack node n (Reprocess.addresses (xs ++ ys)) ((Owners.among xs).or (.among ys)) := by
    rw [← Owners.among_append]
    exact takesBack_addresses (List.append_ne_nil_of_left_ne_nil hxs ys)
  have hall : TakesBack node n Reprocess.all .all := takesBack_all
  obtain ⟨first, _, h₁, -⟩ := hx s
  obtain ⟨second, _, h₂, -⟩ := hy (s.withDerived _)
  obtain ⟨whole, h, hadds, hmarked⟩ := hx.followed hy hboth h₁ h₂
  refine ⟨first, second, whole, _, _, h₁, h₂, h, hadds,
    fun happart => hmarked fun _ => Owners.among_eq_false happart, ?_, hx.again h₁, ?_⟩
  · obtain ⟨first', _, h₁', -⟩ := hy s
    obtain ⟨second', _, h₂', -⟩ := hx (s.withDerived _)
    obtain ⟨whole', h', hadds', -⟩ := hy.followed hx (by rwa [Owners.or_comm]) h₁' h₂'
    obtain ⟨rfl, hs⟩ := run_unique h h'
    exact ⟨first', second', _, h₁', hs ▸ h₂', hadds'⟩
  · obtain ⟨all', _, hafter, -⟩ := hall (s.withDerived _)
    obtain ⟨all, hrun, -⟩ := hx.followed hall (by rwa [Owners.or_all]) h₁ hafter
    obtain ⟨none, _, hthen, -⟩ := hx (Storage.withDerived _ _)
    obtain ⟨_, hrun', -⟩ := hall.followed hx (by rwa [Owners.all_or]) hrun hthen
    obtain ⟨-, hs⟩ := run_unique hrun hrun'
    rw [← hs] at hthen
    exact ⟨all, all', none, _, hrun, hafter, hthen⟩

theorem reprocess_append_sample :
    ["0xA1"] ≠ [] ∧ ["0xb1", "0xB1"] ≠ [] ∧
      (∀ x ∈ ["0xA1"], ∀ y ∈ ["0xb1", "0xB1"], lower x ≠ lower y) ∧
      ∃ first second whole s₁ s₂,
        (reprocess ["0xA1"]).run Sample.service Sample.node
          ⟨(), .memory { live := { derived := Sample.decoded } }⟩ = (.ok first, ⟨(), s₁⟩) ∧
        (reprocess ["0xb1", "0xB1"]).run Sample.service Sample.node ⟨(), s₁⟩ = (.ok second, ⟨(), s₂⟩) ∧
        (reprocess ["0xA1", "0xb1", "0xB1"]).run Sample.service Sample.node
          ⟨(), .memory { live := { derived := Sample.decoded } }⟩ = (.ok whole, ⟨(), s₂⟩) ∧
        first.Adds second whole ∧
        whole.internalTxsMarked = first.internalTxsMarked + second.internalTxsMarked := by
  have happart : ∀ x ∈ ["0xA1"], ∀ y ∈ ["0xb1", "0xB1"], lower x ≠ lower y := by decide +kernel
  obtain ⟨first, second, whole, s₁, s₂, h₁, h₂, h, hadds, hmarked, -⟩ :=
    reprocess_append Sample.service Sample.node () (.memory { live := { derived := Sample.decoded } })
      (show ["0xA1"] ≠ [] by decide) (show ["0xb1", "0xB1"] ≠ [] by decide)
  exact ⟨by decide, by decide, happart, first, second, whole, s₁, s₂, h₁, h₂, h, hadds, hmarked happart⟩

example : ((reprocess ["0xA1", "0xb1"]).run Sample.service Sample.node
    ⟨(), .memory { live := { derived := Sample.decoded } }⟩).1 = .ok
      { confirmationsDeleted := 2, multisigTxsDeleted := 2, safeStatusesDeleted := 2,
        internalTxsMarked := 2 } := by
  decide +kernel

end Operation

end ChainIndex
