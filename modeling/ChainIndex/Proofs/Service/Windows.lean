import Mathlib.Algebra.Order.Floor.Div
import ChainIndex.Proofs.Service.Exactness

/-!
# A range of blocks is cut into windows, and each is swept once

`windowCount first stop size` is the number of windows that it takes from the first block up to the end of
a range.  So many windows, side by side, hold each block of the range once (`existsUnique_window`), also
where the next one would begin beyond the last number there is.

`Passed` relates what an indexer, whatever it is, finds and stores in one window after the other.  A replay
either passes all windows or stops in one of them, at the first call that fails (`Indexer.replay_windows`).
-/

namespace ChainIndex

open Chain (Element)

/-! ## Cutting a range -/

namespace Indexer

variable {first stop size : UInt64} {i j : Nat}

/-- How many windows of a size it takes from the first block up to the end of a range. -/
def windowCount (first stop size : UInt64) : Nat := (stop.toNat - first.toNat) ⌈/⌉ size.toNat

theorem windowStart_lt_iff (hsize : 0 < size) :
    windowStart first size i < stop ↔ i < windowCount first stop size := by
  have hstop : stop.toNat < UInt64.size := stop.toNat_lt
  have hcount : windowCount first stop size ≤ i ↔ stop.toNat - first.toNat ≤ size.toNat * i :=
    ceilDiv_le_iff_le_smul (UInt64.lt_iff_toNat_lt.1 hsize)
  rw [UInt64.lt_iff_toNat_lt, toNat_windowStart, ← Nat.not_le, ← Nat.not_le, hcount, Nat.mul_comm]
  omega

theorem windowStart_lt_succ (hsize : 0 < size) (hi : windowStart first size i < stop) :
    windowStart first size i < windowStart first size (i + 1) := by
  have hstop : stop.toNat < UInt64.size := stop.toNat_lt
  have hpos : 0 < size.toNat := UInt64.lt_iff_toNat_lt.1 hsize
  rw [UInt64.lt_iff_toNat_lt] at hi ⊢
  rw [toNat_windowStart] at hi ⊢
  rw [toNat_windowStart, Nat.succ_mul]
  omega

/-- The next window begins one size further, or at the last number there is. -/
theorem advance_windowStart (first size : UInt64) (i : Nat) :
    advance (windowStart first size i) size = windowStart first size (i + 1) := by
  rw [← UInt64.toNat_inj, toNat_advance, toNat_windowStart, toNat_windowStart, Nat.succ_mul]
  omega

/-- Each block of a range is in one of the windows. -/
theorem existsUnique_window (hsize : 0 < size) {b : UInt64} (hfirst : first ≤ b) (hstop : b < stop) :
    ∃! i, i < windowCount first stop size ∧ windowStart first size i ≤ b ∧
      b < windowStart first size (i + 1) := by
  have hpos : 0 < size.toNat := UInt64.lt_iff_toNat_lt.1 hsize
  have hlast : stop.toNat < UInt64.size := stop.toNat_lt
  have hle : first.toNat ≤ b.toNat := UInt64.le_iff_toNat_le.1 hfirst
  have hlt : b.toNat < stop.toNat := UInt64.lt_iff_toNat_lt.1 hstop
  -- A block is in the window whose number is its distance from the first one in sizes.
  have hmem (i : Nat) : windowStart first size i ≤ b ∧ b < windowStart first size (i + 1) ↔
      (b.toNat - first.toNat) / size.toNat = i := by
    rw [UInt64.le_iff_toNat_le, UInt64.lt_iff_toNat_lt, toNat_windowStart, toNat_windowStart,
      Nat.div_eq_iff hpos, Nat.succ_mul]
    omega
  refine ⟨(b.toNat - first.toNat) / size.toNat, ⟨?_, (hmem _).2 rfl⟩, fun i hi => ((hmem i).1 hi.2).symm⟩
  exact (windowStart_lt_iff hsize).1 (UInt64.lt_of_le_of_lt ((hmem _).2 rfl).1 hstop)

end Indexer

theorem Request.validate_of_progress {r : Request}
    (hrange : ∀ stop, r.toBlock = some stop → r.fromBlock < stop) (hsize : 0 < r.chunkSize) :
    r.validate = .ok ⟨r.chunkSize, hsize⟩ := by
  unfold validate
  cases hto : r.toBlock with
  | none =>
    rw [dif_pos hsize]
    rfl
  | some stop =>
    have hle : ¬ stop ≤ r.fromBlock := UInt64.not_le.2 (hrange stop hto)
    dsimp only
    rw [if_neg hle, dif_pos hsize]
    rfl

/-! ## Calls -/

section

variable {ν σ ι α β : Type} {node : Node ν} {store : Store σ}

/-- Where the calls of an indexer begin and end: in a state of its own, and with states of the node and of
the store. -/
abbrev Standing (ι ν σ : Type) := ι × Routine.World ν σ

namespace StateAttempt

/-- The result of an attempt, and where it ends. -/
def call (t : StateAttempt ι α) (node : Node ν) (store : Store σ) (s : Standing ι ν σ) :
    Except Fault α × Standing ι ν σ :=
  let ((r, i), w) := (t.start s.1).run node store s.2
  (r, i, w)

variable {t : StateAttempt ι α} {f : α → StateAttempt ι β} {s s₁ : Standing ι ν σ}

theorem call_keeping (t : Attempt α) : (t.keeping : StateAttempt ι α).call node store s =
    ((t.run.run node store s.2).1, s.1, (t.run.run node store s.2).2) := by
  show (let ((r, i), w) := (t.run >>= fun r => pure (r, s.1) : Routine _).run node store s.2
    (r, i, w)) = _
  rw [Routine.run_bind]
  rfl

theorem call_bind (t : StateAttempt ι α) (f : α → StateAttempt ι β) (s : Standing ι ν σ) :
    (t >>= f).call node store s = match t.call node store s with
      | (.ok a, s₁) => (f a).call node store s₁
      | (.error e, s₁) => (.error e, s₁) := by
  show (let ((r, i), w) := (t.start s.1 >>= fun p => (ExceptT.bindCont f p.1).run p.2).run node store s.2
    (r, i, w)) = _
  rw [Routine.run_bind]
  unfold call
  obtain ⟨⟨r, i⟩, w⟩ := (t.start s.1).run node store s.2
  cases r <;> rfl

theorem call_bind_of_ok {a : α} (h : t.call node store s = (.ok a, s₁)) :
    (t >>= f).call node store s = (f a).call node store s₁ := by
  rw [call_bind, h]

theorem call_bind_of_error {e : Fault} (h : t.call node store s = (.error e, s₁)) :
    (t >>= f).call node store s = (.error e, s₁) := by
  rw [call_bind, h]

end StateAttempt

/-! ## Passing windows -/

/-- What was found in a window, and how many of it were new. -/
structure Pass where
  elements : List Element
  stored : Nat

/-- A report after some more windows. -/
def Report.after (report : Report) (passes : List Pass) : Report :=
  { report with
    chunks := report.chunks + passes.length
    elementsFound := report.elementsFound + (passes.map fun p => p.elements.length).sum
    elementsProcessed := report.elementsProcessed + (passes.map Pass.stored).sum }

namespace Indexer

variable (ix : Indexer ι) (node : Node ν) (store : Store σ) (addresses : List String)
  (first size : UInt64)

/-- The elements of the window of a number are looked for. -/
def findIn (n : Nat) : StateAttempt ι (List Element) :=
  ix.find addresses (windowStart first size n) (windowStart first size (n + 1))

/-- Windows are passed from the one of a number on: in each, elements are found, and then these are
processed. -/
inductive Passed : Nat → Standing ι ν σ → List Pass → Standing ι ν σ → Prop
  | nil {n s} : Passed n s [] s
  | cons {n s elements s₁ stored s₂ passes s'}
    (hfind : (ix.findIn addresses first size n).call node store s = (.ok elements, s₁))
    (hprocess : (ix.process elements).call node store s₁ = (.ok stored, s₂))
    (rest : Passed (n + 1) s₂ passes s') : Passed n s (⟨elements, stored⟩ :: passes) s'

/-- In the window of a number, finding fails, or processing what was found. -/
inductive Failed (n : Nat) (s : Standing ι ν σ) (fault : Fault) (s' : Standing ι ν σ) : Prop
  | find (h : (ix.findIn addresses first size n).call node store s = (.error fault, s'))
  | process {elements s₁}
    (hfind : (ix.findIn addresses first size n).call node store s = (.ok elements, s₁))
    (hprocess : (ix.process elements).call node store s₁ = (.error fault, s'))

/-- No call of the indexer fails, wherever it begins. -/
structure Succeeds : Prop where
  find : ∀ addresses first stop s, ∃ elements s', (ix.find addresses first stop).call node store s =
    (.ok elements, s')
  process : ∀ elements s, ∃ n s', (ix.process elements).call node store s = (.ok n, s')

variable {ix node store addresses first size}

theorem Succeeds.not_failed (h : ix.Succeeds node store) {n : Nat} {s s' : Standing ι ν σ} {fault : Fault} :
    ¬ ix.Failed node store addresses first size n s fault s' := by
  intro hfailed
  cases hfailed with
  | find hfails =>
    obtain ⟨elements, s₁, hok⟩ := h.find addresses _ _ s
    cases (Prod.mk.inj (hok.symm.trans hfails)).1
  | @process elements s₁ hfind hfails =>
    obtain ⟨stored, s₂, hok⟩ := h.process elements s₁
    cases (Prod.mk.inj (hok.symm.trans hfails)).1

variable (ix node store addresses) in
/-- From a window on, a sweep passes all windows that are left, or fails in one of them. -/
theorem call_sweep {stop cursor : UInt64} {size : { size : UInt64 // 0 < size }} {n : Nat}
    (hn : n ≤ windowCount first stop size) (hcursor : cursor = windowStart first size n) (report : Report)
    (s : Standing ι ν σ) :
    (∃ passes s', ix.Passed node store addresses first size n s passes s' ∧
      n + passes.length = windowCount first stop size ∧
      (ix.sweep addresses stop size cursor report).call node store s = (.ok (report.after passes), s')) ∨
    ∃ passes s₁ fault s', ix.Passed node store addresses first size n s passes s₁ ∧
      n + passes.length < windowCount first stop size ∧
      ix.Failed node store addresses first size (n + passes.length) s₁ fault s' ∧
      (ix.sweep addresses stop size cursor report).call node store s = (.error fault, s') := by
  fun_induction Indexer.sweep ix addresses stop size cursor report generalizing n s with
  | case1 cursor report hlt next =>
    rename_i ih
    have hcount : n < windowCount first stop size := (windowStart_lt_iff size.2).1 (hcursor ▸ hlt)
    have hnext : next = windowStart first size (n + 1) := by
      show advance cursor size = _
      rw [hcursor, advance_windowStart]
    have hfindIn : ix.find addresses cursor next = ix.findIn addresses first size n := by
      rw [findIn, ← hnext, ← hcursor]
    rw [hfindIn]
    rcases hfind : (ix.findIn addresses first size n).call node store s with ⟨_ | elements, s₁⟩
    · exact .inr ⟨[], s, _, s₁, .nil, hcount, .find hfind, StateAttempt.call_bind_of_error hfind⟩
    rw [StateAttempt.call_bind_of_ok hfind]
    rcases hprocess : (ix.process elements).call node store s₁ with ⟨_ | stored, s₂⟩
    · exact .inr ⟨[], s, _, s₂, .nil, hcount, .process hfind hprocess,
        StateAttempt.call_bind_of_error hprocess⟩
    rw [StateAttempt.call_bind_of_ok hprocess]
    rcases ih elements stored hcount hnext s₂ with
      ⟨passes, s', hpassed, hlength, hcall⟩ | ⟨passes, s₃, fault, s', hpassed, hlength, hfailed, hcall⟩
    · refine .inl ⟨_, s', .cons hfind hprocess hpassed, ?_, hcall.trans ?_⟩
      · rw [List.length_cons, ← hlength]
        omega
      · simp only [Report.after, List.length_cons, List.map_cons, List.sum_cons, Nat.add_assoc,
          Nat.add_comm 1]
    · refine .inr ⟨_, s₃, fault, s', .cons hfind hprocess hpassed, ?_, ?_, hcall⟩
      · rw [List.length_cons]
        omega
      · rw [List.length_cons, Nat.add_comm passes.length 1, ← Nat.add_assoc]
        exact hfailed
  | case2 cursor report hle =>
    have hcount : ¬ n < windowCount first stop size := fun hlt =>
      hle (hcursor ▸ (windowStart_lt_iff size.2).2 hlt)
    exact .inl ⟨[], s, .nil, Nat.le_antisymm hn (Nat.not_lt.1 hcount), rfl⟩

/-- Whatever the indexer is: so many windows as it takes hold each block of the range once.  A replay of some
addresses passes them all, the one after the other, and reports the sums; or it fails in one of them as a
call of the indexer does, after the windows before it were passed. -/
theorem replay_windows (ix : Indexer ι) {r : Request} {s s₁ : Standing ι ν σ} {addresses : List String}
    {head : UInt64} {n : ν} (hrange : ∀ stop, r.toBlock = some stop → r.fromBlock < stop)
    (hsize : 0 < r.chunkSize)
    (hchosen : (ix.chooseAddresses r).call node store s = (.ok addresses, s₁)) (hsome : addresses ≠ [])
    (hhead : node.answer .head s₁.2.node = (.ok head, n)) :
    let stop := r.stopAt head
    let count := windowCount r.fromBlock stop r.chunkSize
    let start (i : Nat) := windowStart r.fromBlock r.chunkSize i
    let s₂ : Standing ι ν σ := (s₁.1, { s₁.2 with node := n })
    let report : Report := { indexer := ix.name, addresses := addresses.length, stopBlock := stop }
    ((∀ i, (start i).toNat = min (r.fromBlock.toNat + i * r.chunkSize.toNat) (2 ^ 64 - 1)) ∧
      (∀ i < count, start i < stop ∧ start i < start (i + 1)) ∧
      ∀ b, r.fromBlock ≤ b → b < stop → ∃! i, i < count ∧ start i ≤ b ∧ b < start (i + 1)) ∧
    ((∃ passes s', ix.Passed node store addresses r.fromBlock r.chunkSize 0 s₂ passes s' ∧
        passes.length = count ∧ (ix.replay r).call node store s = (.ok (report.after passes), s')) ∨
      ∃ passes s₃ fault s', ix.Passed node store addresses r.fromBlock r.chunkSize 0 s₂ passes s₃ ∧
        passes.length < count ∧
        ix.Failed node store addresses r.fromBlock r.chunkSize passes.length s₃ fault s' ∧
        (ix.replay r).call node store s = (.error fault, s')) ∧
    (ix.Succeeds node store → ∃ report s', (ix.replay r).call node store s = (.ok report, s')) := by
  intro stop count start s₂ report
  have hreplay : (ix.replay r).call node store s =
      (ix.sweep addresses stop ⟨r.chunkSize, hsize⟩ r.fromBlock report).call node store s₂ := by
    rw [ix.replay_of_ok (Request.validate_of_progress hrange hsize), StateAttempt.call_bind_of_ok hchosen]
    unfold replayFor
    rw [if_neg fun hnil => hsome (List.isEmpty_iff.1 hnil)]
    refine StateAttempt.call_bind_of_ok ((StateAttempt.call_keeping _).trans ?_)
    show ((node.answer .head s₁.2.node).1, s₁.1, { s₁.2 with node := (node.answer .head s₁.2.node).2 }) = _
    rw [hhead]
  let size : { size : UInt64 // 0 < size } := ⟨r.chunkSize, hsize⟩
  have hstart : r.fromBlock = windowStart r.fromBlock size 0 := (windowStart_zero _ _).symm
  have hswept := ix.call_sweep node store addresses (Nat.zero_le (windowCount r.fromBlock stop size)) hstart
    report s₂
  simp only [Nat.zero_add] at hswept
  rw [← hreplay] at hswept
  refine ⟨⟨toNat_windowStart _ _, fun i hi => ?_, fun b => existsUnique_window hsize⟩, hswept,
    fun hix => ?_⟩
  · have hlt := (windowStart_lt_iff hsize).2 hi
    exact ⟨hlt, windowStart_lt_succ hsize hlt⟩
  · rcases hswept with ⟨passes, s', -, -, hok⟩ | ⟨passes, s₃, fault, s', -, -, hfailed, -⟩
    · exact ⟨_, s', hok⟩
    · exact absurd hfailed hix.not_failed

end Indexer

/-- An indexer that finds one event in each window, and keeps where the windows begin and end. -/
def Sample.watcher : Indexer (List (UInt64 × UInt64)) where
  name := "watcher"
  exact _ := false
  setExact _ windows := windows
  find _ first stop := do
    modifyThe (List (UInt64 × UInt64)) fun windows => windows ++ [(first, stop)]
    return [.log event]
  process elements := return elements.length
  tracked := return ["0x05"]

theorem Sample.succeeds_watcher (node : Node ν) (store : Store σ) : watcher.Succeeds node store where
  find _ _ _ _ := ⟨_, _, rfl⟩
  process _ _ := ⟨_, _, rfl⟩

/-- The first window ends two blocks before the last number there is, and so the second one ends early. -/
theorem Indexer.replay_windows_sample :
    let last : UInt64 := 18446744073709551615
    let r : Request := { fromBlock := last - 6, chunkSize := 4 }
    let node := Node.steady last Sample.block Sample.transaction Sample.receipt
    let edge := windowStart (last - 6) 4
    let report : Report :=
      { indexer := "watcher", addresses := 1, chunks := 2, elementsFound := 2, elementsProcessed := 2,
        stopBlock := last }
    windowCount (last - 6) last 4 = 2 ∧ [edge 0, edge 1, edge 2] = [last - 6, last - 2, last] ∧
      (Sample.watcher.replay r).call node Storage.store ([], ⟨(), .inMemory⟩) =
        (.ok report, [(edge 0, edge 1), (edge 1, edge 2)], ⟨(), .inMemory⟩) := by
  intro last r node edge report
  have hcount : windowCount (last - 6) last 4 = 2 := by
    rw [windowCount, Nat.ceilDiv_eq_add_pred_div]
    decide
  have hchosen : (Sample.watcher.chooseAddresses r).call node Storage.store ([], ⟨(), .inMemory⟩) =
      (.ok ["0x05"], [], ⟨(), .inMemory⟩) := rfl
  have hhead : node.answer .head () = (.ok last, ()) := rfl
  have hrange : ∀ stop, r.toBlock = some stop → r.fromBlock < stop := nofun
  obtain ⟨-, hswept, hok⟩ :=
    Sample.watcher.replay_windows hrange (by decide) hchosen (List.cons_ne_nil _ _) hhead
  obtain ⟨done, s', hdone⟩ := hok (Sample.succeeds_watcher node Storage.store)
  obtain ⟨passes, s₁, hpassed, hlength, hcall⟩ | ⟨_, _, fault, s₁, -, -, -, hcall⟩ := hswept
  · refine ⟨hcount, by decide, hcall.trans ?_⟩
    have hlength : passes.length = 2 := hlength.trans hcount
    -- The calls of the indexer are carried out window by window.
    cases hpassed with
    | nil => cases hlength
    | cons hfind hprocess rest =>
      cases hfind
      cases hprocess
      cases rest with
      | nil => cases hlength
      | cons hfind hprocess rest =>
        cases hfind
        cases hprocess
        cases rest with
        | nil => rfl
        | cons => cases hlength
  · cases (Prod.mk.inj (hdone.symm.trans hcall)).1

end

end ChainIndex
