/-!
# Cutting a list into chunks

`chunks size xs` cuts a list into consecutive lists of at most `size` items, none of them empty.  A size
of zero counts as one.
-/

namespace ChainIndex

/-- Consecutive pieces of at most `size` items; a size of zero counts as one. -/
def chunks {α : Type} (size : Nat) : List α → List (List α)
  | [] => []
  | x :: rest => (x :: rest.take (size - 1)) :: chunks size (rest.drop (size - 1))
termination_by xs => xs.length
decreasing_by simp only [List.length_cons, List.length_drop]; omega

theorem flatten_chunks {α : Type} (size : Nat) (xs : List α) : (chunks size xs).flatten = xs := by
  fun_induction chunks size xs with
  | case1 => rfl
  | case2 x rest ih => rw [List.flatten_cons, ih, List.cons_append, List.take_append_drop]

theorem length_le_of_mem_chunks {α : Type} {size : Nat} {xs c : List α} (h : c ∈ chunks size xs) :
    c.length ≤ max 1 size := by
  fun_induction chunks size xs with
  | case1 => simp at h
  | case2 x rest ih =>
    rcases List.mem_cons.1 h with rfl | h
    · simp only [List.length_cons, List.length_take]
      omega
    · exact ih h

theorem infix_of_mem_chunks {α : Type} {size : Nat} {xs c : List α} (h : c ∈ chunks size xs) : c <:+: xs := by
  have hinfix := List.infix_of_mem_flatten h
  rwa [flatten_chunks] at hinfix

theorem div_lt_length_chunks {α : Type} {size : Nat} {xs : List α} {i : Nat} (h : i < xs.length) :
    i / max 1 size < (chunks size xs).length := by
  fun_induction chunks size xs generalizing i with
  | case1 => exact absurd h (Nat.not_lt_zero i)
  | case2 x rest ih =>
    rw [List.length_cons]
    by_cases hi : i < max 1 size
    · rw [Nat.div_eq_of_lt hi]
      exact Nat.succ_pos _
    · rw [Nat.div_eq_sub_div (by omega) (by omega)]
      have := ih (i := i - max 1 size) (by rw [List.length_drop]; simp at h; omega)
      omega

theorem length_flatten_zipWith {α β γ : Type} (f : β → α → γ) {css : List (List α)} {bs : List β}
    (h : bs.length = css.length) :
    (bs.zipWith (fun b c => c.map (f b)) css).flatten.length = css.flatten.length := by
  induction css generalizing bs with
  | nil => simp
  | cons c css ih =>
    obtain ⟨b, bs, rfl⟩ := List.exists_cons_of_length_eq_add_one h
    rw [List.zipWith_cons_cons, List.flatten_cons, List.flatten_cons, List.length_append,
      List.length_append, List.length_map, ih (Nat.succ.inj h)]

/-- Where every chunk is mapped by a value of its own, an item goes with the value of the chunk it is in. -/
theorem getElem?_flatten_chunks {α β γ : Type} (f : β → α → γ) {size : Nat} {xs : List α} {bs : List β}
    (h : bs.length = (chunks size xs).length) (i : Nat) :
    (bs.zipWith (fun b c => c.map (f b)) (chunks size xs)).flatten[i]? =
      bs[i / max 1 size]?.bind fun b => xs[i]?.map (f b) := by
  fun_induction chunks size xs generalizing bs i with
  | case1 =>
    rw [List.length_eq_zero_iff.1 h]
    rfl
  | case2 x rest ih =>
    obtain ⟨b, bs, rfl⟩ := List.exists_cons_of_length_eq_add_one h
    have hchunk : (x :: rest.take (size - 1)).length = min (max 1 size) (rest.length + 1) := by
      rw [List.length_cons, List.length_take]
      omega
    rw [List.zipWith_cons_cons, List.flatten_cons, List.getElem?_append, List.length_map, hchunk,
      ih (Nat.succ.inj h)]
    split
    next hi =>
      have hfirst : i / max 1 size = 0 := Nat.div_eq_of_lt (by omega)
      rw [hfirst]
      cases i with
      | zero => rfl
      | succ i =>
        have : i < size - 1 := by omega
        simp [this]
    next hi =>
      by_cases hlast : i < rest.length + 1
      · have hi' : max 1 size ≤ i := by omega
        have hnext : i / max 1 size = (i - max 1 size) / max 1 size + 1 := by
          rw [Nat.div_eq_sub_div (by omega) hi']
        have hrest : (x :: rest)[i]? = rest[i - 1]? := by
          rw [List.getElem?_cons, if_neg (by omega)]
        have hmin : min (max 1 size) (rest.length + 1) = max 1 size := by omega
        have hindex : size - 1 + (i - max 1 size) = i - 1 := by omega
        rw [hmin, hnext, List.getElem?_cons_succ, hrest, List.getElem?_drop, hindex]
      · have h₁ : (x :: rest)[i]? = none := List.getElem?_eq_none (by simp; omega)
        have h₂ : (rest.drop (size - 1))[i - min (max 1 size) (rest.length + 1)]? = none :=
          List.getElem?_eq_none (by rw [List.length_drop]; omega)
        simp [h₁, h₂]

end ChainIndex
