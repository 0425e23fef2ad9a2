import ChainIndex.Rpc.Client
import Mathlib.Algebra.GroupWithZero.Nat

/-!
# The numbers of calls

A client counts its calls.  Whatever it is asked over its life, the messages that it posts carry the numbers
from 1 on, in their order (`Counted.after`).  Fewer than `2^64` of them never repeat (`nodup_numbers`), and
neither do the numbers within one batch (`nodup_of_mem_chunks`), wherever the counter stands.
-/

namespace ChainIndex

/-- How many calls a question comes to. -/
def Query.calls : Query → Nat
  | blocks hashes => hashes.length
  | transactions hashes => hashes.length
  | receipts hashes => hashes.length
  | _ => 1

/-- The state of a node after some questions. -/
def Node.after {ν : Type} (n : Node ν) (qs : List Query) (s : ν) : ν :=
  qs.foldl (fun s q => (n.answer q s).2) s

namespace Rpc

/-! ## Numbers in a row -/

/-- The numbers of `n` calls in a row. -/
def numbers (first : UInt64) : Nat → List UInt64
  | 0 => []
  | n + 1 => first :: numbers (first + 1) n

@[simp] theorem length_numbers (first : UInt64) (n : Nat) : (numbers first n).length = n := by
  induction n generalizing first with
  | zero => rfl
  | succ n ih => rw [numbers, List.length_cons, ih]

theorem add_ofNat_succ (first : UInt64) (n : Nat) :
    first + UInt64.ofNat (n + 1) = first + 1 + UInt64.ofNat n := by
  rw [UInt64.ofNat_add, UInt64.add_assoc, UInt64.add_comm (UInt64.ofNat n)]
  rfl

theorem numbers_add (first : UInt64) (m n : Nat) :
    numbers first (m + n) = numbers first m ++ numbers (first + UInt64.ofNat m) n := by
  induction m generalizing first with
  | zero => simp [numbers]
  | succ m ih => rw [Nat.add_right_comm, numbers, ih, numbers, List.cons_append, add_ofNat_succ]

theorem mem_numbers {first id : UInt64} {n : Nat} :
    id ∈ numbers first n ↔ ∃ k < n, id = first + UInt64.ofNat k := by
  induction n generalizing first with
  | zero => simp [numbers]
  | succ n ih =>
    rw [numbers, List.mem_cons, ih]
    constructor
    · rintro (rfl | ⟨k, hk, rfl⟩)
      · exact ⟨0, Nat.succ_pos n, by simp⟩
      · exact ⟨k + 1, Nat.succ_lt_succ hk, (add_ofNat_succ first k).symm⟩
    · rintro ⟨k, hk, rfl⟩
      cases k with
      | zero => exact .inl (by simp)
      | succ k => exact .inr ⟨k, Nat.lt_of_succ_lt_succ hk, add_ofNat_succ first k⟩

theorem add_ofNat_inj {first : UInt64} {i j : Nat} (hi : i < UInt64.size) (hj : j < UInt64.size) :
    first + UInt64.ofNat i = first + UInt64.ofNat j ↔ i = j := by
  rw [UInt64.add_right_inj, ← UInt64.toNat_inj, UInt64.toNat_ofNat_of_lt' hi,
    UInt64.toNat_ofNat_of_lt' hj]

/-- Numbers in a row do not repeat before all words are used up. -/
theorem nodup_numbers (first : UInt64) {n : Nat} (h : n ≤ UInt64.size) : (numbers first n).Nodup := by
  induction n generalizing first with
  | zero => exact List.nodup_nil
  | succ n ih =>
    refine List.nodup_cons.2 ⟨fun hmem => ?_, ih (first + 1) (by omega)⟩
    obtain ⟨k, hk, heq⟩ := mem_numbers.1 hmem
    have hfirst : first + UInt64.ofNat 0 = first + UInt64.ofNat (k + 1) := by
      rw [add_ofNat_succ, ← heq]
      simp
    exact Nat.succ_ne_zero k ((add_ofNat_inj (by decide) (by omega)).1 hfirst).symm

theorem eq_numbers_of_append {first : UInt64} {n : Nat} {xs ys : List UInt64}
    (h : numbers first n = xs ++ ys) :
    xs = numbers first xs.length ∧ ys = numbers (first + UInt64.ofNat xs.length) ys.length := by
  have hn : n = xs.length + ys.length := by rw [← length_numbers first n, h, List.length_append]
  rw [hn, numbers_add] at h
  obtain ⟨hxs, hys⟩ := List.append_inj h (length_numbers first xs.length)
  exact ⟨hxs.symm, hys.symm⟩

theorem map_id_number (method : String) (first : UInt64) (params : List (List Json)) :
    (number method first params).1.map Call.id = numbers first params.length := by
  induction params generalizing first with
  | nil => rfl
  | cons p rest ih => rw [number, List.map_cons, ih, List.length_cons, numbers]

theorem snd_number (method : String) (first : UInt64) (params : List (List Json)) :
    (number method first params).2 = first + UInt64.ofNat params.length := by
  induction params generalizing first with
  | nil => simp [number]
  | cons p rest ih => rw [number, ih, List.length_cons, add_ofNat_succ]

theorem length_number (method : String) (first : UInt64) (params : List (List Json)) :
    (number method first params).1.length = params.length := by
  rw [← List.length_map (f := Call.id), map_id_number, length_numbers]

theorem getElem?_number (method : String) (first : UInt64) (params : List (List Json)) (i : Nat) :
    (number method first params).1[i]? =
      params[i]?.map fun p => { id := first + UInt64.ofNat i, method, params := p } := by
  induction params generalizing first i with
  | nil => rfl
  | cons p rest ih =>
    cases i with
    | zero => simp [number]
    | succ i => exact (ih (first + 1) i).trans (by rw [add_ofNat_succ, List.getElem?_cons_succ])

theorem map_number {α : Type} (f : String → List Json → α) (method : String) (first : UInt64)
    (params : List (List Json)) :
    (number method first params).1.map (fun call => f call.method call.params) = params.map (f method) := by
  induction params generalizing first with
  | nil => rfl
  | cons p rest ih => rw [number, List.map_cons, ih, List.map_cons]

/-- The calls of one batch have different numbers. -/
theorem nodup_of_mem_chunks {batchSize : Nat} {method : String} {first : UInt64}
    {params : List (List Json)} {calls : List Call}
    (h : calls ∈ chunks batchSize (number method first params).1) (hsize : calls.length ≤ UInt64.size) :
    (calls.map Call.id).Nodup := by
  obtain ⟨before, after, heq⟩ := infix_of_mem_chunks h
  have hids := map_id_number method first params
  rw [← heq, List.map_append, List.map_append] at hids
  have hrow := (eq_numbers_of_append (eq_numbers_of_append hids.symm).1.symm).2
  rw [hrow]
  exact nodup_numbers _ (by rwa [List.length_map])

/-! ## What a client posts -/

variable {τ : Type} {t : Transport τ} {c : Client (τ × List Json)}

/-- A transport that also keeps the messages it posts. -/
def Transport.recorded (t : Transport τ) : Transport (τ × List Json) where
  post message s := ((t.post message s.1).1, (t.post message s.1).2, s.2 ++ [message])

/-- The numbers of the calls that a message holds, one or many. -/
def calledNumbers (message : Json) : List UInt64 :=
  (message.arr?.getD [message]).filterMap fun call => (call.get "id").uint64?

theorem uint64?_ofUInt64 (n : UInt64) : (Json.ofUInt64 n).uint64? = some n := by
  have hlt : (n.toNat : Int) < Json.wordLimit := Int.ofNat_lt.2 n.toNat_lt
  rw [Json.ofUInt64, Json.ofNat, Json.uint64?, Json.Number.toUInt64?, if_pos ⟨Int.natCast_nonneg _, hlt⟩,
    Int.toNat_natCast, UInt64.ofNat_toNat]

theorem get_id_toJson (call : Call) : call.toJson.get "id" = .ofUInt64 call.id := by
  simp [Call.toJson, Json.get, Json.lookup]

theorem calledNumbers_toJson (call : Call) : calledNumbers call.toJson = [call.id] := by
  have hone : call.toJson.arr?.getD [call.toJson] = [call.toJson] := rfl
  rw [calledNumbers, hone, List.filterMap_cons_some (by rw [get_id_toJson, uint64?_ofUInt64]),
    List.filterMap_nil]

theorem calledNumbers_ofList (calls : List Call) :
    calledNumbers (.ofList Call.toJson calls) = calls.map Call.id := by
  have hitem : (fun call => (call.get "id").uint64?) ∘ Call.toJson = some ∘ Call.id :=
    funext fun call => by
      rw [Function.comp_apply, get_id_toJson, uint64?_ofUInt64, Function.comp_apply]
  rw [calledNumbers, Json.ofList, Json.arr?, Option.getD_some, List.filterMap_map, hitem,
    List.filterMap_eq_map]

/-- A client that has called `n` times: its counter is past the numbers from 1 on, and these are the
numbers that it posted. -/
structure Counted (c : Client (τ × List Json)) (n : Nat) : Prop where
  nextId : c.nextId = 1 + UInt64.ofNat n
  posted : c.transport.2.flatMap calledNumbers = numbers 1 n

theorem counted_new (s : τ) : Counted ({ transport := (s, []) } : Client (τ × List Json)) 0 :=
  ⟨by simp, rfl⟩

variable {n : Nat}

theorem Counted.call (h : Counted c n) (method : String) (params : List Json) :
    Counted (Rpc.call t.recorded method params c).2 (n + 1) where
  nextId := by
    change c.nextId + 1 = _
    rw [h.nextId, UInt64.ofNat_add, UInt64.add_assoc]
    rfl
  posted := by
    change (c.transport.2 ++ [({ id := c.nextId, method, params } : Call).toJson]).flatMap _ = _
    rw [List.flatMap_append, h.posted, List.flatMap_singleton, calledNumbers_toJson, h.nextId, numbers_add]
    rfl

theorem nextId_sendChunks (css : List (List Call)) (c : Client (τ × List Json)) :
    (sendChunks t.recorded css c).2.nextId = c.nextId := by
  induction css generalizing c with
  | nil => rfl
  | cons calls rest ih => exact ih _

theorem posted_sendChunks (css : List (List Call)) (c : Client (τ × List Json)) :
    (sendChunks t.recorded css c).2.transport.2 = c.transport.2 ++ css.map (.ofList Call.toJson) := by
  induction css generalizing c with
  | nil => exact (List.append_nil _).symm
  | cons calls rest ih =>
    refine (ih _).trans ?_
    rw [List.map_cons, ← List.append_cons]

theorem Counted.callBatch (h : Counted c n) (batchSize : Nat) (method : String)
    (params : List (List Json)) :
    Counted (Rpc.callBatch t.recorded batchSize method params c).2 (n + params.length) where
  nextId := by
    refine (nextId_sendChunks _ _).trans ((snd_number method c.nextId params).trans ?_)
    rw [h.nextId, UInt64.ofNat_add, UInt64.add_assoc]
  posted := by
    refine (congrArg (List.flatMap calledNumbers) (posted_sendChunks _ _)).trans ?_
    have hchunks : ((chunks batchSize (number method c.nextId params).1).map
        (Json.ofList Call.toJson)).flatMap calledNumbers = numbers c.nextId params.length := by
      simp only [List.flatMap_map, calledNumbers_ofList]
      rw [← List.map_flatMap, List.flatMap_id', flatten_chunks, map_id_number]
    rw [List.flatMap_append, h.posted, hchunks, h.nextId, numbers_add]

theorem Counted.answer (h : Counted c n) (batchSize : Nat) (q : Query) :
    Counted ((node t.recorded batchSize).answer q c).2 (n + q.calls) := by
  have hbatch (method : String) (params : String → List Json) (hashes : List String) :
      Counted (Rpc.callBatch t.recorded batchSize method (hashes.map params) c).2 (n + hashes.length) := by
    simpa using h.callBatch (t := t) batchSize method (hashes.map params)
  cases q with
  | head => exact h.call _ _
  | block hash => exact h.call _ _
  | transaction hash => exact h.call _ _
  | receipt hash => exact h.call _ _
  | logs addresses topics first last => exact h.call _ _
  | traces recipients first last => exact h.call _ _
  | blocks hashes => exact hbatch blockMethod blockParams hashes
  | transactions hashes => exact hbatch transactionMethod hashParams hashes
  | receipts hashes => exact hbatch receiptMethod hashParams hashes

/-- A client posts the numbers from 1 on, whatever it is asked. -/
theorem Counted.after (h : Counted c n) (batchSize : Nat) (qs : List Query) :
    Counted ((node t.recorded batchSize).after qs c) (n + (qs.map Query.calls).sum) := by
  induction qs generalizing c n with
  | nil => exact h
  | cons q rest ih =>
    rw [List.map_cons, List.sum_cons, ← Nat.add_assoc]
    exact ih (h.answer batchSize q)

end Rpc

end ChainIndex
