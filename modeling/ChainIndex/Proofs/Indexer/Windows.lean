import ChainIndex.Indexer.Reindex
import ChainIndex.Proofs.Effect.Trace

/-!
# Window after window

A range of blocks is replayed window by window.  `windowStart first size i` is where the window of a
number begins; the windows lie side by side, until one of them reaches the end of the range or the last
number there is.

`Swept Find Store stop size` relates what is done in the windows one after the other to what is done
altogether.  Whatever is known of finding and of storing in one window, a sweep is made of
(`leads_sweep`).
-/

namespace ChainIndex.Indexer

open Chain (Element)

variable {σ ι : Type}

/-! ## Where windows begin -/

/-- Where the window of a number begins: so many sizes after the first block, or at the last number there
is. -/
def windowStart (first size : UInt64) (i : Nat) : UInt64 :=
  UInt64.ofNat (min (first.toNat + i * size.toNat) (UInt64.size - 1))

theorem toNat_windowStart (first size : UInt64) (i : Nat) :
    (windowStart first size i).toNat = min (first.toNat + i * size.toNat) (UInt64.size - 1) := by
  have hsize : 0 < UInt64.size := by decide
  rw [windowStart, UInt64.toNat_ofNat_of_lt' (by omega)]

theorem windowStart_zero (first size : UInt64) : windowStart first size 0 = first := by
  have hfirst : first.toNat < UInt64.size := first.toNat_lt
  rw [← UInt64.toNat_inj, toNat_windowStart]
  omega

theorem windowStart_advance (first size : UInt64) (i : Nat) :
    windowStart (advance first size) size i = windowStart first size (i + 1) := by
  have hsize : 0 < UInt64.size := by decide
  rw [← UInt64.toNat_inj, toNat_windowStart, toNat_windowStart, toNat_advance, Nat.succ_mul]
  omega

theorem windowStart_mono (first size : UInt64) {i j : Nat} (h : i ≤ j) :
    windowStart first size i ≤ windowStart first size j := by
  rw [UInt64.le_iff_toNat_le, toNat_windowStart, toNat_windowStart]
  have hmul : i * size.toNat ≤ j * size.toNat := Nat.mul_le_mul_right _ h
  omega

theorem lt_advance {cursor stop size : UInt64} (hsize : 0 < size) (h : cursor < stop) :
    cursor < advance cursor size := by
  rw [UInt64.lt_iff_toNat_lt] at *
  have hstop : stop.toNat < UInt64.size := stop.toNat_lt
  have hzero : (0 : UInt64).toNat = 0 := rfl
  rw [toNat_advance]
  omega

/-! ## A sweep is made of windows -/

/-- What is done from a window on until the end is reached: the elements that are found in each window, how
many rows are stored, all that happens, and the state that is left.  `Find` is what finding in a window may
lead to, and `Store` is what storing elements may lead to. -/
inductive Swept (Find : UInt64 → UInt64 → List Element → List Event → Prop)
    (Store : List Element → σ → Nat → List Event → σ → Prop) (stop size : UInt64) :
    UInt64 → σ → List (List Element) → Nat → List Event → σ → Prop
  | done {cursor s} (h : stop ≤ cursor) : Swept Find Store stop size cursor s [] 0 [] s
  | window {cursor s elements es n es₁ s₁ found m es₂ s₂} (h : cursor < stop)
    (hfind : Find cursor (advance cursor size) elements es) (hstore : Store elements s n es₁ s₁)
    (rest : Swept Find Store stop size (advance cursor size) s₁ found m es₂ s₂) :
    Swept Find Store stop size cursor s (elements :: found) (n + m) (es ++ (es₁ ++ es₂)) s₂

section

variable {Find : UInt64 → UInt64 → List Element → List Event → Prop}
  {Store : List Element → σ → Nat → List Event → σ → Prop} {stop size cursor : UInt64} {s s' : σ}
  {found : List (List Element)} {n : Nat} {es : List Event}

/-- Each window but the last ends before the end of the range, and the last one reaches it. -/
theorem Swept.bounds (h : Swept Find Store stop size cursor s found n es s') :
    (∀ i < found.length, windowStart cursor size i < stop) ∧
      stop ≤ windowStart cursor size found.length := by
  induction h with
  | done h => exact ⟨nofun, by rwa [List.length_nil, windowStart_zero]⟩
  | @window cursor _ _ _ _ _ _ _ _ _ _ h hfind hstore rest ih =>
    refine ⟨fun i hi => ?_, by rw [List.length_cons, ← windowStart_advance]; exact ih.2⟩
    cases i with
    | zero => rwa [windowStart_zero]
    | succ i =>
      rw [← windowStart_advance]
      exact ih.1 i (Nat.lt_of_succ_lt_succ hi)

/-- What is found in a window is found from its beginning to the beginning of the next one. -/
theorem Swept.exists_find (h : Swept Find Store stop size cursor s found n es s') {i : Nat}
    {elements : List Element} (hi : found[i]? = some elements) :
    ∃ es, Find (windowStart cursor size i) (windowStart cursor size (i + 1)) elements es := by
  induction h generalizing i with
  | done h => cases hi
  | @window cursor _ _ es _ _ _ _ _ _ _ h hfind hstore rest ih =>
    cases i with
    | zero =>
      obtain rfl := Option.some.inj hi
      rw [← windowStart_advance, windowStart_zero, windowStart_zero]
      exact ⟨es, hfind⟩
    | succ i =>
      rw [← windowStart_advance, ← windowStart_advance]
      exact ih hi

/-- What is known of finding and of storing in one window, a sweep is made of. -/
theorem leads_sweep {N : Answers} {R : Conduct σ} {ix : Indexer ι} {addresses : List String} {i : ι}
    {I : σ → Prop} {size : { size : UInt64 // 0 < size }}
    (hfind : ∀ first next s, first < next → (ix.find addresses first next).Leads N R i s
      (fun elements i' es s' => Find first next elements es ∧ i' = i ∧ s' = s) fun _ _ _ _ => True)
    (hstore : ∀ elements s, I s → (ix.process elements).Leads N R i s
      (fun n i' es s' => Store elements s n es s' ∧ i' = i ∧ I s') fun _ _ _ _ => True)
    (report : Report) (hs : I s) : (ix.sweep addresses stop size cursor report).Leads N R i s
      (fun report' _ es s' => I s' ∧ ∃ found n, Swept Find Store stop size cursor s found n es s' ∧
        report' = { report with
          chunks := report.chunks + found.length
          elementsFound := report.elementsFound + found.flatten.length
          elementsProcessed := report.elementsProcessed + n }) fun _ _ _ _ => True := by
  fun_induction Indexer.sweep ix addresses stop size cursor report generalizing s with
  | case1 cursor report hlt next =>
    rename_i ih
    refine StateAttempt.leads_bind ((hfind cursor next s (lt_advance size.2 hlt)).mono
      (fun elements i' es s₁ hend => ?_) fun _ _ _ _ _ => trivial)
    obtain ⟨hfound, rfl, rfl⟩ := hend
    refine StateAttempt.leads_bind ((hstore elements s₁ hs).mono
      (fun n i'' es₁ s₂ hend => ?_) fun _ _ _ _ _ => trivial)
    obtain ⟨hstored, rfl, hs₂⟩ := hend
    refine (ih elements n hs₂).mono (fun report' _ es₂ s₃ hend => ?_) fun _ _ _ _ _ => trivial
    obtain ⟨hs₃, found, m, hswept, rfl⟩ := hend
    refine ⟨hs₃, elements :: found, n + m, .window hlt hfound hstored hswept, ?_⟩
    simp only [List.length_cons, List.flatten_cons, List.length_append, Nat.add_assoc, Nat.add_comm 1]
  | case2 cursor report hle =>
    exact StateAttempt.leads_pure ⟨hs, [], 0, .done (UInt64.not_lt.1 hle), rfl⟩

end

end ChainIndex.Indexer
