import ChainIndex.Proofs.Json.Equality
import ChainIndex.Proofs.Rpc.Numbering
import Mathlib.Control.Monad.Basic

/-!
# Matching the replies of a batch

Within a batch the numbers of the calls are different, so that taking the replies one after the other comes to
looking each of them up on its own (`takeAll_eq`): the reply that counts for a call is the last one that names it.
Put together again, the batches have an entry for every call, in the order of the calls, whatever the node sent
for each of them (`callBatch_eq`).
-/

namespace ChainIndex.Rpc

/-! ## One array of replies -/

/-- The reply that counts for the call of a number: the last of those that name it. -/
def replyTo? (replies : List Reply) (id : UInt64) : Option Reply :=
  (replies.filter fun r => r.id? = some id).getLast?

/-- The result of a call; a refused call has none. -/
def Outcome.value? : Outcome → Option Json
  | found v => some v
  | absent => none
  | failed _ => none

theorem results_eq (outcomes : List Outcome) : results outcomes = outcomes.map Outcome.value? :=
  List.map_congr_left fun o _ => by cases o <;> rfl

theorem fst_take (replies : List Reply) (id : UInt64) :
    (take replies id).1 = ((replyTo? replies id).map Reply.outcome).getD .absent := rfl

/-- The entry of a batch for a call, by the replies to its batch. -/
def entry (replies : List Reply) (call : Call) : Option Json := (take replies call.id).1.value?

theorem value?_outcome_eq_some {r : Reply} {v : Json} :
    r.outcome.value? = some v ↔ r.error = none ∧ r.result = v ∧ v ≠ .null := by
  rcases r with ⟨_, result, _ | refusal⟩
  · cases result <;> simp [Reply.outcome, Outcome.value?] <;> rintro rfl <;> simp
  · simp [Reply.outcome, Outcome.value?]

theorem entry_eq_some {replies : List Reply} {call : Call} {v : Json} :
    entry replies call = some v ↔
      ∃ r, replyTo? replies call.id = some r ∧ r.error = none ∧ r.result = v ∧ v ≠ .null := by
  rw [entry, fst_take]
  cases replyTo? replies call.id with
  | none => simp [Outcome.value?]
  | some r => simp [value?_outcome_eq_some]

/-- What was taken for one call is not missed for another one. -/
theorem take_snd_take {replies : List Reply} {id id' : UInt64} (h : id' ≠ id) :
    (take (take replies id).2 id').1 = (take replies id').1 := by
  have hfilter : ((replies.filter fun r => r.id? ≠ some id).filter fun r => r.id? = some id') =
      replies.filter fun r => r.id? = some id' := by
    rw [List.filter_filter]
    refine List.filter_congr fun r _ => ?_
    grind
  rw [take, take]
  exact congrArg (fun rs : List Reply => (rs.getLast?.map Reply.outcome).getD .absent) hfilter

theorem takeAll_eq {ids : List UInt64} (h : ids.Nodup) (replies : List Reply) :
    takeAll replies ids = ids.map fun id => (take replies id).1 := by
  induction ids generalizing replies with
  | nil => rfl
  | cons id ids ih =>
    obtain ⟨hid, hids⟩ := List.nodup_cons.1 h
    change _ :: takeAll (take replies id).2 ids = _
    rw [List.map_cons, ih hids]
    exact congrArg _ (List.map_congr_left fun id' hid' => take_snd_take fun heq => hid (heq ▸ hid'))

theorem results_takeAll {calls : List Call} (h : (calls.map Call.id).Nodup) (replies : List Reply) :
    results (takeAll replies (calls.map Call.id)) = calls.map (entry replies) := by
  rw [results_eq, takeAll_eq h, List.map_map, List.map_map]
  rfl

/-! ## All batches -/

variable {τ : Type} {t : Transport τ}

/-- What a transport answers to some messages, posted one after the other. -/
def Transport.responses (t : Transport τ) : List Json → τ → List Response
  | [], _ => []
  | message :: rest, s => (t.post message s).1 :: responses t rest (t.post message s).2

@[simp] theorem length_responses (messages : List Json) (s : τ) :
    (t.responses messages s).length = messages.length := by
  induction messages generalizing s with
  | nil => rfl
  | cons message rest ih => rw [Transport.responses, List.length_cons, ih, List.length_cons]

/-- The messages that some calls are sent in. -/
def batches (batchSize : Nat) (calls : List Call) : List Json :=
  (chunks batchSize calls).map (.ofList Call.toJson)

/-- What was read of the answers to the batches, if all of it could be read. -/
def ReadAs (t : Transport τ) (messages : List Json) (s : τ) (arrays : List (List Reply)) : Prop :=
  (t.responses messages s).map (Response.read (Json.Reader.list Reply.reader)) = arrays.map .ok

theorem sendChunks_eq {css : List (List Call)} {c : Client τ} {arrays : List (List Reply)}
    (h : ReadAs t (css.map (.ofList Call.toJson)) c.transport arrays)
    (hids : ∀ calls ∈ css, (calls.map Call.id).Nodup) :
    (sendChunks t css c).1 = (arrays.zipWith (fun rs calls => calls.map (entry rs)) css).map .ok := by
  induction css generalizing c arrays with
  | nil => simp [sendChunks]
  | cons calls rest ih =>
    rw [ReadAs, List.map_cons, Transport.responses, List.map_cons] at h
    obtain ⟨replies, arrays, rfl, hfirst, hrest⟩ := List.map_eq_cons_iff.1 h.symm
    have hsent : (sendChunk t calls c).1 = .ok (calls.map (entry replies)) := by
      rw [← results_takeAll (hids calls List.mem_cons_self) replies]
      exact congrArg (Except.map _) hfirst.symm
    rw [sendChunks, List.zipWith_cons_cons, List.map_cons, ← hsent]
    exact congrArg _ (ih (c := (sendChunk t calls c).2) hrest.symm fun cs hcs =>
      hids cs (List.mem_cons_of_mem _ hcs))

theorem mapM_id_ok {α : Type} (xs : List α) :
    (xs.map (Except.ok (ε := Fault))).mapM id = .ok xs := by
  induction xs with
  | nil => rfl
  | cons x rest ih =>
    rw [List.map_cons, List.mapM_cons, ih]
    rfl

/-- A batched call has the entries of its batches, each of them by the replies to that batch. -/
theorem callBatch_eq {batchSize : Nat} {method : String} {params : List (List Json)} {c : Client τ}
    {arrays : List (List Reply)}
    (h : ReadAs t (batches batchSize (number method c.nextId params).1) c.transport arrays)
    (hsize : ∀ calls ∈ chunks batchSize (number method c.nextId params).1, calls.length ≤ UInt64.size) :
    (callBatch t batchSize method params c).1 =
      .ok (arrays.zipWith (fun rs calls => calls.map (entry rs))
        (chunks batchSize (number method c.nextId params).1)).flatten := by
  have hsent := sendChunks_eq (c := { c with nextId := (number method c.nextId params).2 }) h
    fun calls hcalls => nodup_of_mem_chunks hcalls (hsize calls hcalls)
  refine (congrArg (fun sent => (sent.mapM id).map List.flatten) hsent).trans ?_
  rw [mapM_id_ok]
  rfl

theorem length_eq_of_readAs {batchSize : Nat} {calls : List Call} {s : τ} {arrays : List (List Reply)}
    (h : ReadAs t (batches batchSize calls) s arrays) :
    arrays.length = (chunks batchSize calls).length := by
  have hlength := congrArg List.length h
  rw [List.length_map, length_responses, batches, List.length_map, List.length_map] at hlength
  exact hlength.symm

/-- The entry of a call is by the replies to its own batch. -/
theorem getElem?_callBatch {batchSize : Nat} {method : String} {params : List (List Json)} {c : Client τ}
    {arrays : List (List Reply)}
    (h : ReadAs t (batches batchSize (number method c.nextId params).1) c.transport arrays)
    (hsize : ∀ calls ∈ chunks batchSize (number method c.nextId params).1, calls.length ≤ UInt64.size) :
    ∃ entries, (callBatch t batchSize method params c).1 = .ok entries ∧ entries.length = params.length ∧
      ∀ i, entries[i]? = arrays[i / max 1 batchSize]?.bind fun replies =>
        (number method c.nextId params).1[i]?.map (entry replies) := by
  have hlength := length_eq_of_readAs h
  refine ⟨_, callBatch_eq h hsize, ?_, getElem?_flatten_chunks entry hlength⟩
  rw [length_flatten_zipWith entry hlength, flatten_chunks, length_number]

/-- Whatever a node sends for each batch of calls, as long as it reads as an array of replies: a batched call has
an entry for every call, in their order, and the entry of a call is the result of the last reply, of those that
were sent for its own batch, that names it.  No reply names two calls of it, and no two calls that a client
posts over its life have one number. -/
theorem callBatch_answers (t : Transport τ) (batchSize : Nat) (method : String)
    (params : List (List Json)) (c : Client τ) (arrays : List (List Reply))
    (hfew : params.length < UInt64.size)
    (hread : ReadAs t (batches batchSize (number method c.nextId params).1) c.transport arrays) :
    (∃ entries, (callBatch t batchSize method params c).1 = .ok entries ∧
      entries.length = params.length ∧
      ∀ {i}, i < params.length → ∃ replies, arrays[i / max 1 batchSize]? = some replies ∧
        ∀ v, entries[i]? = some (some v) ↔ ∃ r, replyTo? replies (c.nextId + UInt64.ofNat i) = some r ∧
          r.error = none ∧ r.result = v ∧ v ≠ .null) ∧
    (∀ {i j} {r : Reply}, i < params.length → j < params.length →
      r.id? = some (c.nextId + UInt64.ofNat i) → r.id? = some (c.nextId + UInt64.ofNat j) → i = j) ∧
    ∀ (life : List Query) (s : τ), (life.map Query.calls).sum < UInt64.size →
      (((node t.recorded batchSize).after life { transport := (s, []) }).transport.2.flatMap
        calledNumbers).Nodup := by
  refine ⟨?_, fun hi hj h₁ h₂ => ?_, fun life s hlife => ?_⟩
  · have hsize : ∀ calls ∈ chunks batchSize (number method c.nextId params).1,
        calls.length ≤ UInt64.size := fun calls hcalls => by
      have hle := (infix_of_mem_chunks hcalls).length_le
      rw [length_number] at hle
      omega
    obtain ⟨entries, hok, hlength, hentry⟩ := getElem?_callBatch hread hsize
    refine ⟨entries, hok, hlength, fun {i} hi => ?_⟩
    have hchunk : i / max 1 batchSize < arrays.length := by
      rw [length_eq_of_readAs hread]
      exact div_lt_length_chunks (by rwa [length_number])
    refine ⟨arrays[i / max 1 batchSize], List.getElem?_eq_getElem hchunk, fun v => ?_⟩
    rw [hentry, getElem?_number, List.getElem?_eq_getElem hchunk, List.getElem?_eq_getElem hi,
      Option.bind_some, Option.map_some, Option.map_some, Option.some_inj]
    exact entry_eq_some
  · exact (add_ofNat_inj (Nat.lt_trans hi hfew) (Nat.lt_trans hj hfew)).1
      (Option.some.inj (h₁.symm.trans h₂))
  · rw [((counted_new s).after batchSize life).posted, Nat.zero_add]
    exact nodup_numbers 1 (Nat.le_of_lt hlife)

/-! ## Two batches -/

deriving instance DecidableEq for Refusal, Reply, Outcome

namespace Sample

/-- A node that sends two arrays of replies, one after the other: to the first batch in the wrong order, with
numbers as texts, a foreign one and one twice, to the second batch a refusal. -/
def disorderly : Transport Bool where
  post _ s :=
    let body := if s then
      "[\x7b\"id\":3,\"error\":\x7b\"code\":-32000,\"message\":\"header not found\"\x7d\x7d]"
    else
      "[\x7b\"id\":\"2\",\"result\":\"0x2\"\x7d,\x7b\"id\":9,\"result\":\"0x9\"\x7d," ++
      "\x7b\"id\":1,\"result\":\"0x0\"\x7d,\x7b\"id\":1,\"result\":\"0x1\"\x7d]"
    (.answer 200 body, true)

/-- What its arrays are read as. -/
def replies : List (List Reply) := [
  [{ id := .str "2", result := .str "0x2", error := none },
    { id := .ofNat 9, result := .str "0x9", error := none },
    { id := .ofNat 1, result := .str "0x0", error := none },
    { id := .ofNat 1, result := .str "0x1", error := none }],
  [{ id := .ofNat 3, result := .null,
     error := some { code := -32000, message := "header not found", data := none } }]]

def threeParams : List (List Json) := [[.str "0xb1"], [.str "0xb2"], [.str "0xb3"]]

end Sample

open ChainIndex.Rpc.Sample in
theorem callBatch_answers_sample :
    threeParams.length < UInt64.size ∧
    ReadAs disorderly (batches 2 (number blockMethod 1 threeParams).1) false replies ∧
    ∃ entries, (callBatch disorderly 2 blockMethod threeParams { transport := false }).1 = .ok entries ∧
      entries.length = 3 ∧ entries[0]? = some (some (.str "0x1")) ∧
      entries[1]? = some (some (.str "0x2")) ∧ ∀ v, entries[2]? ≠ some (some v) := by
  have hread : ReadAs disorderly (batches 2 (number blockMethod 1 threeParams).1) false replies := by
    unfold ReadAs
    decide +kernel
  obtain ⟨⟨entries, hok, hlength, hentry⟩, -⟩ := callBatch_answers disorderly 2 blockMethod
    threeParams { transport := false } replies (by decide) hread
  obtain ⟨_, hfirst, h₁⟩ := hentry (i := 0) (by decide)
  obtain ⟨_, hsecond, h₂⟩ := hentry (i := 1) (by decide)
  obtain ⟨_, hthird, h₃⟩ := hentry (i := 2) (by decide)
  cases hfirst
  cases hsecond
  cases hthird
  refine ⟨by decide, hread, entries, hok, hlength, (h₁ _).2 ⟨_, rfl, rfl, rfl, by simp⟩,
    (h₂ _).2 ⟨_, rfl, rfl, rfl, by simp⟩, fun v hv => ?_⟩
  obtain ⟨r, hr, herror, -⟩ := (h₃ v).1 hv
  cases hr
  cases herror

end ChainIndex.Rpc
