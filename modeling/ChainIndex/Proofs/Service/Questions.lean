import ChainIndex.Proofs.Resolve.Script
import ChainIndex.Proofs.Service.Operation
import Mathlib.Data.List.Flatten

/-!
# How often a node is asked

Whatever a store knows and however a node behaves, also one whose replies have too few entries or too many:
the questions about many hashes are those of the script for what is missing, up to the one at which the call
ends, and a single hash takes at most two questions of each kind and one about the head.
-/

namespace ChainIndex

namespace Resolve

/-- A call about many hashes follows the script, to its end if it succeeds. -/
theorem scripted_transactions {ν σ : Type} (policy : ConfirmationPolicy) (node : Node ν) (store : Store σ)
    (w : Routine.World ν σ) (hashes : List String) :
    let es := (transactions policy hashes).run.history node store w
    let answer := (store.perform (.access (.getMined (distinct hashes))) w.store).1
    Scripted BrokenOff hashes es answer ∧
      ∀ rows, ((transactions policy hashes).run.run node store w).1 = .ok rows →
        Scripted Followed hashes es answer := by
  have hleads : (transactions policy hashes).Leads node.answers store.conduct w.store _ _ :=
    leads_transactions store hashes w.store
  rcases hleads.run with ⟨_, -, hfollowed⟩ | ⟨_, herror, hbrokenOff⟩
  · exact ⟨hfollowed.brokenOff, fun _ _ => hfollowed⟩
  · exact ⟨hbrokenOff, fun rows hrows => nomatch hrows.symm.trans herror⟩

/-- Many hashes: a store that knows them all, or that fails, leaves nothing to ask.  Otherwise the script for
what is missing is followed, to its end if the call succeeds; nothing is asked twice, and an answer that
settles nothing is the fault of the call.  A single hash: what is asked is a series of look-ups, in which a
question is repeated exactly if the first answer settled nothing. -/
theorem questions_bounded {ν σ : Type} (policy : ConfirmationPolicy) (node : Node ν) (store : Store σ)
    (w : Routine.World ν σ) :
    (∀ hashes : List String,
      let es := (transactions policy hashes).run.history node store w
      let result := ((transactions policy hashes).run.run node store w).1
      let answer := (store.perform (.access (.getMined (distinct hashes))) w.store).1
      (questions es).Nodup ∧ (∀ e ∈ es, ∀ fault, e.fault? = some fault → result = .error fault) ∧
        (∀ fault, answer = .error fault → questions es = []) ∧
        ∀ known, answer = .ok known →
          (missing known hashes = [] → questions es = []) ∧
          (missing known hashes ≠ [] → ∃ told : Telling, told.Agrees es ∧
            questions es <+: told.script (missing known hashes) ∧
            ∀ rows, result = .ok rows → questions es = told.script (missing known hashes))) ∧
    ∀ asked : String,
      let hash := Text.canonical asked
      let es := (transaction policy asked).run.history node store w
      let result := ((transaction policy asked).run.run node store w).1
      ∃ name qs out, qs.Sublist [.receipt hash, .head, .block name, .transaction hash] ∧ Series qs es out ∧
        (∀ fault, out = some fault → result = .error fault) ∧
        (questions es).Sublist [.receipt hash, .receipt hash, .head, .block name, .block name,
          .transaction hash, .transaction hash] := by
  constructor
  · intro hashes es result answer
    have hscripted : Scripted BrokenOff hashes es answer ∧
        ∀ rows, result = .ok rows → Scripted Followed hashes es answer :=
      scripted_transactions policy node store w hashes
    obtain ⟨hbrokenOff, hfollowed⟩ := hscripted
    have hnodup := hbrokenOff.nodup
    refine ⟨hnodup, fun e he fault hfault => (stopsAtFault_transactions hashes).run_eq_error he hfault,
      fun fault hanswer => ?_, fun known hanswer => ⟨fun hnone => ?_, fun hsome => ?_⟩⟩ <;>
        rw [hanswer] at hbrokenOff
    · exact hbrokenOff.questions_of_error
    · exact hbrokenOff.questions_of_none_missing hnone
    -- No question has two answers, and so the history itself says how the script goes on.
    · obtain ⟨told, htold⟩ := Telling.exists_agrees hnodup
      refine ⟨told, htold, ?_, fun rows hrows => ?_⟩
      · obtain ⟨names, hpart⟩ := hbrokenOff.of_some_missing hsome
        exact hpart.part told htold
      · have hwhole := hfollowed rows hrows
        rw [hanswer] at hwhole
        obtain ⟨names, hwhole⟩ := hwhole.of_some_missing hsome
        exact hwhole.eq told htold
  · intro asked hash es result
    have hattempts (name : String) {qs : List Query} {out : Option Fault} (hseries : Series qs es out)
        (hqs : qs.Sublist [.receipt hash, .head, .block name, .transaction hash]) :=
      hseries.sublist.trans (hqs.flatMap Query.attempts)
    have hseeks : (transaction policy asked).Seeks node.answers store.conduct w.store (LooksUp hash) :=
      seeks_transaction asked w.store
    rcases hseeks.run with ⟨_, -, qs, ⟨name, hqs⟩, hseries⟩ |
      ⟨fault, hresult, qs, out, ⟨name, hqs⟩, hseries, hout⟩
    · exact ⟨name, qs, none, hqs, hseries, nofun, hattempts name hseries hqs⟩
    · refine ⟨name, qs, out, hqs, hseries, fun fault hfault => ?_, hattempts name hseries hqs⟩
      rw [hout fault hfault]
      exact hresult

end Resolve

/-- A node that has nothing to say about many hashes at once, nor about the second of two transactions. -/
def Sample.terse : Node Unit where
  answer
    | .receipts _, n => (.ok [], n)
    | .transactions _, n => (.ok [], n)
    | .blocks _, n => (.ok [], n)
    | .transaction hash, n => (.ok (if hash = "0xbb" then none else some transaction), n)
    | q, n => node.answer q n

/-- One hash is resolved though everything has to be asked once more.  With a second hash, the call ends where
nothing is known of its transaction. -/
theorem Resolve.questions_bounded_sample :
    let es (hashes : List String) :=
      (transactions Sample.service.policy hashes).run.history Sample.terse Storage.store ⟨(), .inMemory⟩
    (∃ told : Telling, told.Agrees (es ["0xaa"]) ∧ questions (es ["0xaa"]) = told.script ["0xaa"]) ∧
      questions (es ["0xaa"]) = [.receipts ["0xaa"], .receipt "0xaa", .transactions ["0xaa"],
        .transaction "0xaa", .blocks ["0xb7"], .block "0xb7", .head] ∧
      (∃ told : Telling, told.Agrees (es ["0xaa", "0xbb"]) ∧
        questions (es ["0xaa", "0xbb"]) <+: told.script ["0xaa", "0xbb"]) ∧
      questions (es ["0xaa", "0xbb"]) = [.receipts ["0xaa", "0xbb"], .receipt "0xaa", .receipt "0xbb",
        .transactions ["0xaa", "0xbb"], .transaction "0xaa", .transaction "0xbb"] ∧
      ((transactions Sample.service.policy ["0xaa", "0xbb"]).run.run Sample.terse Storage.store
        ⟨(), .inMemory⟩).1 = .error (.transactionNotFound "0xbb") := by
  intro es
  obtain ⟨hmany, -⟩ := questions_bounded Sample.service.policy Sample.terse Storage.store ⟨(), .inMemory⟩
  have hok : ((transactions Sample.service.policy ["0xaa"]).run.run Sample.terse Storage.store
      ⟨(), .inMemory⟩).1 = .ok [Sample.row] := by decide +kernel
  obtain ⟨-, -, -, hone⟩ := hmany ["0xaa"]
  obtain ⟨-, hfaults, -, htwo⟩ := hmany ["0xaa", "0xbb"]
  have hmissing : missing [] ["0xaa"] = ["0xaa"] ∧ missing [] ["0xaa", "0xbb"] = ["0xaa", "0xbb"] := by
    decide +kernel
  obtain ⟨told, htold, -, hscript⟩ := (hone [] (by decide +kernel)).2 (by decide +kernel)
  obtain ⟨told', htold', hpart, -⟩ := (htwo [] (by decide +kernel)).2 (by decide +kernel)
  rw [hmissing.1] at hscript
  rw [hmissing.2] at hpart
  have hunknown : Fault.transactionNotFound "0xbb" ∈ (es ["0xaa", "0xbb"]).filterMap Event.fault? := by
    decide +kernel
  obtain ⟨e, he, hfault⟩ := List.mem_filterMap.1 hunknown
  exact ⟨⟨told, htold, hscript _ hok⟩, by decide +kernel, ⟨told', htold', hpart⟩, by decide +kernel,
    hfaults e he _ hfault⟩

end ChainIndex
