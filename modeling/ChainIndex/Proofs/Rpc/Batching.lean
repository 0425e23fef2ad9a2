import ChainIndex.Proofs.Json.Reading
import ChainIndex.Proofs.Rpc.Matching

/-!
# Batches against single calls

A transport serves results (`Transport.Serves`) if the node behind it answers calls by their method and parameters
alone, refuses none, and all that it sends can be read.  Then a look-up of many hashes comes to the same
whether it is sent in batches, of whatever size, or hash by hash: either way it is the decoded result of each
hash in turn, up to the first that is malformed (`lookUps_eq`).

A result can be readable on its own and yet be nested too deeply within a batch (`nested_in_batch`).
-/

namespace ChainIndex.Rpc

/-- The result of a call as a client sees it, `null` being none. -/
def present? : Json → Option Json
  | .null => none
  | v => some v

/-- Whether the reply that counts for a call, if there is one, says the given result. -/
def Settles (v : Json) : Option Reply → Prop
  | some r => r.error = none ∧ r.result = v
  | none => v = .null

theorem value?_outcome_of_result {r : Reply} (herror : r.error = none) :
    r.outcome.value? = present? r.result := by
  rcases r with ⟨_, result, _ | refusal⟩
  · cases result <;> rfl
  · cases herror

theorem optional_outcome_of_result {r : Reply} (herror : r.error = none) (method : String) :
    r.outcome.optional method = .ok (present? r.result) := by
  rcases r with ⟨_, result, _ | refusal⟩
  · cases result <;> rfl
  · cases herror

theorem entry_of_settles {replies : List Reply} {call : Call} {v : Json}
    (h : Settles v (replyTo? replies call.id)) : entry replies call = present? v := by
  rw [entry, fst_take]
  cases hr : replyTo? replies call.id with
  | none =>
    rw [hr] at h
    subst h
    rfl
  | some r =>
    rw [hr] at h
    rw [← h.2]
    exact value?_outcome_of_result h.1

variable {τ : Type} {t : Transport τ} {result : String → List Json → Json} {served : UInt64 → Prop}

/-- A transport to a node that has a result for every method and parameters, whatever it was asked before and by
whatever call, as long as the numbers of the calls are `served`.  It refuses none of them, and all that it sends
can be read. -/
structure Transport.Serves (t : Transport τ) (result : String → List Json → Json)
    (served : UInt64 → Prop) : Prop where
  single : ∀ (call : Call) (s : τ), served call.id →
    ∃ r, (t.post call.toJson s).1.read Reply.reader = .ok r ∧
      Settles (result call.method call.params) (some r)
  batch : ∀ (calls : List Call) (s : τ), (∀ call ∈ calls, served call.id) →
    (calls.map Call.id).Nodup →
    ∃ replies, (t.post (.ofList Call.toJson calls) s).1.read (Json.Reader.list Reply.reader) =
        .ok replies ∧
      ∀ call ∈ calls, Settles (result call.method call.params) (replyTo? replies call.id)

namespace Transport.Serves

variable (h : t.Serves result served) {c : Client τ} {what : String} {α : Type}
  {decode? : Json → Option α} {batchSize : Nat} {method : String}

include h

theorem call_eq {params : List Json} (hid : served c.nextId) :
    ((call t method params c).1 >>= Outcome.optional method) = .ok (present? (result method params)) := by
  obtain ⟨r, hread, herror, hresult⟩ := h.single { id := c.nextId, method, params } c.transport hid
  have hcall : (call t method params c).1 = .ok r.outcome := congrArg (Except.map Reply.outcome) hread
  rw [hcall, ← hresult]
  exact optional_outcome_of_result herror method

theorem each_eq {params : String → List Json} {ask : String → Client τ → Except Fault (Option α) × Client τ}
    (hask : ∀ hash c, (ask hash c).1 = ((call t method (params hash) c).1 >>= Outcome.optional method) >>=
      decodeOptional what decode?)
    (hnext : ∀ hash c, (ask hash c).2.nextId = c.nextId + 1) {hashes : List String}
    (hids : ∀ id ∈ numbers c.nextId hashes.length, served id) :
    (Node.each ask hashes c).1 =
      hashes.mapM fun hash => decodeOptional what decode? (present? (result method (params hash))) := by
  induction hashes generalizing c with
  | nil => rfl
  | cons hash rest ih =>
    rw [List.length_cons, numbers, List.forall_mem_cons] at hids
    have hfirst : (ask hash c).1 = decodeOptional what decode? (present? (result method (params hash))) := by
      rw [hask, h.call_eq hids.1]
      rfl
    have hrest := ih (c := (ask hash c).2) (by rw [hnext]; exact hids.2)
    rw [Node.each, List.mapM_cons, ← hfirst, ← hrest]
    rcases ask hash c with ⟨_ | a, c⟩
    · rfl
    · dsimp only
      rcases Node.each ask rest c with ⟨_ | as, c⟩ <;> rfl

/-- The batches can be read, and every reply that counts says the result of its call. -/
theorem exists_readAs {css : List (List Call)} (hids : ∀ calls ∈ css, ∀ call ∈ calls, served call.id)
    (hnodup : ∀ calls ∈ css, (calls.map Call.id).Nodup) (s : τ) :
    ∃ arrays, ReadAs t (css.map (.ofList Call.toJson)) s arrays ∧
      arrays.zipWith (fun rs calls => calls.map (entry rs)) css =
        css.map fun calls => calls.map fun call => present? (result call.method call.params) := by
  induction css generalizing s with
  | nil => exact ⟨[], rfl, rfl⟩
  | cons calls rest ih =>
    rw [List.forall_mem_cons] at hids hnodup
    obtain ⟨replies, hread, hsettles⟩ := h.batch calls s hids.1 hnodup.1
    obtain ⟨arrays, hrest, hentries⟩ := ih hids.2 hnodup.2 (t.post (.ofList Call.toJson calls) s).2
    have hfirst := List.map_congr_left fun call hcall => entry_of_settles (hsettles call hcall)
    refine ⟨replies :: arrays, ?_, ?_⟩
    · exact List.cons_eq_cons.2 ⟨hread, hrest⟩
    · rw [List.zipWith_cons_cons, hentries, hfirst, List.map_cons]

/-- A batched call has the results of its calls, however they are cut into batches. -/
theorem callBatch_eq (hsize : batchSize < UInt64.size) {params : List (List Json)}
    (hids : ∀ id ∈ numbers c.nextId params.length, served id) :
    (callBatch t batchSize method params c).1 = .ok (params.map fun p => present? (result method p)) := by
  have hserved : ∀ calls ∈ chunks batchSize (number method c.nextId params).1,
      ∀ call ∈ calls, served call.id := fun calls hcalls call hcall => by
    refine hids call.id (map_id_number method c.nextId params ▸ List.mem_map_of_mem ?_)
    exact (infix_of_mem_chunks hcalls).subset hcall
  have hshort : ∀ calls ∈ chunks batchSize (number method c.nextId params).1,
      calls.length ≤ UInt64.size := fun calls hcalls => by
    have hle := length_le_of_mem_chunks hcalls
    have hword : 1 ≤ UInt64.size := by decide
    omega
  obtain ⟨arrays, hread, hentries⟩ := h.exists_readAs hserved
    (fun calls hcalls => nodup_of_mem_chunks hcalls (hshort calls hcalls)) c.transport
  rw [Rpc.callBatch_eq hread hshort, hentries, ← List.map_flatten, flatten_chunks,
    map_number fun method p => present? (result method p)]

/-- A look-up of many hashes comes to the same in batches and hash by hash. -/
theorem lookUps_eq (hsize : batchSize < UInt64.size) {params : String → List Json}
    {ask : String → Client τ → Except Fault (Option α) × Client τ}
    (hask : ∀ hash c, (ask hash c).1 = ((call t method (params hash) c).1 >>= Outcome.optional method) >>=
      decodeOptional what decode?)
    (hnext : ∀ hash c, (ask hash c).2.nextId = c.nextId + 1) {hashes : List String}
    (hids : ∀ id ∈ numbers c.nextId hashes.length, served id) :
    ((callBatch t batchSize method (hashes.map params) c).1 >>= fun vs =>
      vs.mapM (decodeOptional what decode?)) = (Node.each ask hashes c).1 := by
  rw [h.each_eq hask hnext hids, h.callBatch_eq hsize (by rwa [List.length_map]), List.map_map]
  exact List.mapM_map

end Transport.Serves

/-- Of a node that serves results, in batches of any size, the same is heard as hash by hash, faults included. -/
theorem answer_eq_sequential (h : t.Serves result served) {batchSize : Nat}
    (hsize : batchSize < UInt64.size) (c : Client τ) (q : Query)
    (hids : ∀ id ∈ numbers c.nextId q.calls, served id) :
    ((node t batchSize).answer q c).1 = ((node t batchSize).sequential.answer q c).1 ∧
    ∀ {size}, size < UInt64.size → ((node t size).answer q c).1 = ((node t batchSize).answer q c).1 := by
  have hall {size : Nat} (hsize : size < UInt64.size) :
      ((node t size).answer q c).1 = ((node t batchSize).sequential.answer q c).1 := by
    cases q with
    | blocks hashes => exact h.lookUps_eq hsize (fun _ _ => rfl) (fun _ _ => rfl) hids
    | transactions hashes => exact h.lookUps_eq hsize (fun _ _ => rfl) (fun _ _ => rfl) hids
    | receipts hashes => exact h.lookUps_eq hsize (fun _ _ => rfl) (fun _ _ => rfl) hids
    | _ => rfl
  exact ⟨hall hsize, fun hother => (hall hother).trans (hall hsize).symm⟩

namespace Sample

/-- A node that always sends one text to a single call, and one to a batch. -/
def constant (single batch : List Char) : Transport Unit where
  post message s := (.answer 200 (String.ofList (if message.arr?.isSome then batch else single)), s)

/-- What a client reads of characters. -/
def readChars {α : Type} (r : Json.Reader α) (cs : List Char) : Except Fault α :=
  match Json.ofChars? r cs with
  | some a => .ok a
  | none => .error (.rpc "error decoding response body")

section

variable {α : Type} (single batch : List Char) (r : Json.Reader α) (s : Unit)

theorem read_single (call : Call) :
    ((constant single batch).post call.toJson s).1.read r = readChars r single := by
  simp only [constant, Call.toJson, Json.arr?, Option.isSome_none, Bool.false_eq_true, if_false,
    Response.read, Json.ofText?_ofList]
  rfl

theorem read_batch (calls : List Call) :
    ((constant single batch).post (.ofList Call.toJson calls) s).1.read r = readChars r batch := by
  simp only [constant, Json.ofList, Json.arr?, Option.isSome_some, if_true, Response.read,
    Json.ofText?_ofList]
  rfl

end

def block : Chain.Block := { number := 7, hash := "0xb7", parentHash := "0xb6", timestamp := 7 }

def blockResult : Json := .obj [
  ("hash", .str "0xb7"), ("number", .str "0x7"), ("parentHash", .str "0xb6"), ("timestamp", .str "0x7")]

/-- The fields of the block in a text. -/
def blockFields : List Char :=
  "\"hash\":\"0xb7\",\"number\":\"0x7\",\"parentHash\":\"0xb6\",\"timestamp\":\"0x7\"\x7d".toList

/-- A node that sends the block to the calls 1 and 2. -/
def twoCalls : Transport Unit := constant ("\x7b\"result\":\x7b".toList ++ blockFields ++ ['\x7d'])
  ("[\x7b\"id\":1,\"result\":\x7b".toList ++ blockFields ++
    "\x7d,\x7b\"id\":2,\"result\":\x7b".toList ++ blockFields ++ "\x7d]".toList)

theorem serves_twoCalls : twoCalls.Serves (fun _ _ => blockResult) fun id => id = 1 ∨ id = 2 where
  single call s _ := by
    refine ⟨{ id := .null, result := blockResult, error := none }, ?_, rfl, rfl⟩
    rw [twoCalls, read_single]
    decide +kernel
  batch calls s hids _ := by
    refine ⟨[{ id := .ofNat 1, result := blockResult, error := none },
      { id := .ofNat 2, result := blockResult, error := none }], ?_, fun call hcall => ?_⟩
    · rw [twoCalls, read_batch]
      decide +kernel
    · rcases hids call hcall with h | h
      · rw [h]
        exact ⟨rfl, rfl⟩
      · rw [h]
        exact ⟨rfl, rfl⟩

end Sample

open ChainIndex.Rpc.Sample in
theorem answer_eq_sequential_sample :
    twoCalls.Serves (fun _ _ => blockResult) (fun id => id = 1 ∨ id = 2) ∧ 1 < UInt64.size ∧
    (∀ id ∈ numbers 1 (Query.blocks ["0xb7", "0xb8"]).calls, id = 1 ∨ id = 2) ∧
    ((node twoCalls 1).answer (.blocks ["0xb7", "0xb8"]) { transport := () }).1 =
      ((node twoCalls 1).sequential.answer (.blocks ["0xb7", "0xb8"]) { transport := () }).1 ∧
    ((node twoCalls 100).answer (.blocks ["0xb7", "0xb8"]) { transport := () }).1 =
      ((node twoCalls 1).answer (.blocks ["0xb7", "0xb8"]) { transport := () }).1 ∧
    ((node twoCalls 1).sequential.answer (.blocks ["0xb7", "0xb8"]) { transport := () }).1 =
      .ok [some block, some block] := by
  have hids : ∀ id ∈ numbers 1 (Query.blocks ["0xb7", "0xb8"]).calls, id = 1 ∨ id = 2 :=
    fun id hid => by simpa [numbers, Query.calls] using hid
  obtain ⟨hsequential, hsizes⟩ := answer_eq_sequential serves_twoCalls (by decide : 1 < UInt64.size)
    { transport := () } (.blocks ["0xb7", "0xb8"]) hids
  refine ⟨serves_twoCalls, by decide, hids, hsequential, hsizes (by decide), ?_⟩
  refine (serves_twoCalls.each_eq (fun _ _ => rfl) (fun _ _ => rfl) hids).trans ?_
  decide +kernel

namespace Sample

/-- The text of a block with lists in lists in a field that nobody reads. -/
def deepText : List Char :=
  "\x7b\"extra\":".toList ++ List.replicate 125 '[' ++ List.replicate 125 ']' ++ [','] ++ blockFields

/-- A node that sends this block to the call 1. -/
def deepBlock : Transport Unit := constant ("\x7b\"result\":".toList ++ deepText ++ ['\x7d'])
  ("[\x7b\"id\":1,\"result\":".toList ++ deepText ++ "\x7d]".toList)

end Sample

open ChainIndex.Rpc.Sample in
/-- A result can be read where it is sent alone, and be too deep where it is sent within a batch. -/
theorem nested_in_batch :
    ((node deepBlock 100).sequential.answer (.blocks ["0xb7"]) { transport := () }).1 =
      .ok [some block] ∧
    ((node deepBlock 100).answer (.blocks ["0xb7"]) { transport := () }).1 =
      .error (.rpc "error decoding response body") := by
  constructor
  · simp only [Node.sequential, Node.each, node, call, post, deepBlock, read_single]
    decide +kernel
  · have hcalls : chunks 100 (number blockMethod 1 [blockParams "0xb7"]).1 =
        [[{ id := 1, method := blockMethod, params := blockParams "0xb7" }]] := by
      simp [chunks, number]
    simp only [node, callBatch, List.map_cons, List.map_nil, hcalls, sendChunks, sendChunk, post, deepBlock,
      read_batch]
    decide +kernel

end ChainIndex.Rpc
