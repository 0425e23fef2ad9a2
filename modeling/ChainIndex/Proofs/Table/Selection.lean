import ChainIndex.Table

/-!
# Deleting and changing the rows with a property

`Removed` and `Changed` say what deleting and changing some rows of a table does, through look-ups and
numbers of rows.  Doing it to the rows with one property or another is the same as doing it to the rows
with the first and then to those with the second (`deleteWhere_or`, `updateWhere_or`, `Removed.trans`,
`Changed.trans`).
-/

namespace ChainIndex.Table

open Std

variable {κ α : Type} [Ord κ]

/-- A table is another one without its doomed rows, of which there are `n`. -/
structure Removed (t : Table κ α) (doomed : κ → α → Bool) (n : Nat) (t' : Table κ α) : Prop where
  get?_iff : ∀ {key a}, t'.get? key = some a ↔ t.get? key = some a ∧ doomed key a = false
  size : t'.size + n = t.size

/-- A table is another one with its chosen rows changed, of which there are `n`. -/
structure Changed (t : Table κ α) (chosen : κ → α → Bool) (f : α → α) (n : Nat) (t' : Table κ α) :
    Prop where
  get? : ∀ {key}, t'.get? key = (t.get? key).map fun a => if chosen key a then f a else a
  count : n = t.count chosen

/-! ## Numbers of rows -/

theorem count_eq_zero {t : Table κ α} {p : κ → α → Bool} (h : ∀ key a, p key a = false) :
    t.count p = 0 := by
  unfold count
  rw [List.countP_eq_zero]
  intro r _
  rw [h]
  exact Bool.false_ne_true

theorem size_filter_add_count (t : Table κ α) (p : κ → α → Bool) :
    (t.filter fun key a => !p key a).size + t.count p = t.size := by
  have h := t.rows.length_eq_countP_add_countP (p := fun r => p r.1 r.2)
  simp only [Bool.not_eq_true, Bool.decide_eq_false] at h
  unfold size count filter
  rw [← List.countP_eq_length_filter, h, Nat.add_comm]

/-- The rows with one of two properties are those with the first, and among the others those with the
second. -/
theorem count_or (t : Table κ α) (p q : κ → α → Bool) :
    (t.count fun key a => p key a || q key a) =
      t.count p + (t.filter fun key a => !p key a).count q := by
  unfold count filter
  rw [List.countP_eq_countP_filter_add t.rows _ fun r => p r.1 r.2]
  congr 1
  · rw [List.countP_filter]
    refine List.countP_congr fun r _ => ?_
    rw [Bool.and_eq_true]
    exact and_iff_right_of_imp fun hp => by simp only [hp, Bool.true_or]
  · refine List.countP_congr fun r hr => ?_
    have hp : p r.1 r.2 = false := by simpa using (List.mem_filter.1 hr).2
    simp only [hp, Bool.false_or]

theorem count_map (t : Table κ α) (f : κ → α → α) (p : κ → Bool) :
    ((t.map f).count fun key _ => p key) = t.count fun key _ => p key := by
  unfold count map mapRows
  rw [List.countP_map]
  rfl

/-! ## One after the other -/

/-- What a second deletion decides on needs to be known of the rows that a first one left only. -/
theorem Removed.trans {t t' t'' : Table κ α} {p q q' : κ → α → Bool} {n m : Nat} (h₁ : t.Removed p n t')
    (h₂ : t'.Removed q' m t'') (hq : ∀ {key a}, t'.get? key = some a → q' key a = q key a) :
    t.Removed (fun key a => p key a || q key a) (n + m) t'' where
  get?_iff {key a} := by
    rw [h₂.get?_iff, h₁.get?_iff, Bool.or_eq_false_iff, and_assoc]
    refine and_congr_right fun ha => and_congr_right fun hp => ?_
    rw [hq (h₁.get?_iff.2 ⟨ha, hp⟩)]
  size := by rw [← h₁.size, ← h₂.size, Nat.add_comm n, Nat.add_assoc]

/-- A change that makes no difference the second time may be made to rows of two kinds at once. -/
theorem Changed.trans {t t' t'' : Table κ α} {p q : κ → Bool} {f : α → α} {n m : Nat}
    (hf : ∀ a, f (f a) = f a) (h₁ : t.Changed (fun key _ => p key) f n t')
    (h₂ : t'.Changed (fun key _ => q key) f m t'') :
    t.Changed (fun key _ => p key || q key) f (t.count fun key _ => p key || q key) t'' where
  get? {key} := by
    rw [h₂.get?, h₁.get?, Option.map_map]
    refine congrArg (Option.map · _) (funext fun a => ?_)
    cases hp : p key <;> cases hq : q key <;> simp [hf]
  count := rfl

/-! ## Deleting and changing -/

section Laws

variable [LawfulEqOrd κ] [DecidableEq κ]

theorem removed_deleteWhere (t : Table κ α) (doomed : κ → α → Bool) :
    t.Removed doomed (t.deleteWhere doomed).1 (t.deleteWhere doomed).2 where
  get?_iff {key a} := by
    unfold deleteWhere
    rw [get?_filter, Option.filter_eq_some_iff, Bool.not_eq_true']
  size := t.size_filter_add_count doomed

theorem get?_of_deleteWhere {t : Table κ α} {doomed : κ → α → Bool} {key : κ} {a : α}
    (h : (t.deleteWhere doomed).2.get? key = some a) : t.get? key = some a :=
  ((t.removed_deleteWhere doomed).get?_iff.1 h).1

theorem changed_updateWhere (t : Table κ α) (chosen : κ → α → Bool) (f : α → α) :
    t.Changed chosen f (t.updateWhere chosen f).1 (t.updateWhere chosen f).2 where
  get? := get?_map t _ _
  count := rfl

variable [TransOrd κ]

/-- The doomed rows tell what is left. -/
theorem Removed.eq_deleteWhere {t t' : Table κ α} {doomed : κ → α → Bool} {n : Nat}
    (h : t.Removed doomed n t') : t.deleteWhere doomed = (n, t') := by
  have hd := t.removed_deleteWhere doomed
  have htable : (t.deleteWhere doomed).2 = t' :=
    ext_get? fun key => Option.ext fun a => by rw [hd.get?_iff, h.get?_iff]
  have hsize := hd.size
  rw [htable, ← h.size] at hsize
  exact Prod.ext (Nat.add_left_cancel hsize) htable

theorem Removed.unique {t t' t'' : Table κ α} {doomed : κ → α → Bool} {n m : Nat}
    (h₁ : t.Removed doomed n t') (h₂ : t.Removed doomed m t'') : n = m ∧ t' = t'' :=
  Prod.mk.inj (h₁.eq_deleteWhere.symm.trans h₂.eq_deleteWhere)

/-- The chosen rows tell what becomes of the table. -/
theorem Changed.eq_updateWhere {t t' : Table κ α} {chosen : κ → α → Bool} {f : α → α} {n : Nat}
    (h : t.Changed chosen f n t') : t.updateWhere chosen f = (n, t') := by
  refine Prod.ext h.count.symm (ext_get? fun key => ?_)
  rw [(t.changed_updateWhere chosen f).get?, h.get?]

theorem Changed.unique {t t' t'' : Table κ α} {chosen : κ → α → Bool} {f : α → α} {n m : Nat}
    (h₁ : t.Changed chosen f n t') (h₂ : t.Changed chosen f m t'') : n = m ∧ t' = t'' :=
  Prod.mk.inj (h₁.eq_updateWhere.symm.trans h₂.eq_updateWhere)

theorem deleteWhere_none {t : Table κ α} {doomed : κ → α → Bool} (h : ∀ key a, doomed key a = false) :
    t.deleteWhere doomed = (0, t) := by
  unfold deleteWhere
  rw [count_eq_zero h]
  congr
  refine ext_get? fun key => ?_
  rw [get?_filter]
  cases t.get? key with
  | none => rfl
  | some a => rw [Option.filter_some, h, Bool.not_false, if_pos rfl]

theorem updateWhere_none {t : Table κ α} {chosen : κ → α → Bool} (h : ∀ key a, chosen key a = false)
    (f : α → α) : t.updateWhere chosen f = (0, t) := by
  unfold updateWhere
  rw [count_eq_zero h]
  congr
  refine ext_get? fun key => ?_
  rw [get?_map]
  simp only [h, Bool.false_eq_true, if_false, Option.map_id']

theorem filter_filter (t : Table κ α) (p q : κ → α → Bool) :
    (t.filter p).filter q = t.filter fun key a => p key a && q key a := by
  refine ext_get? fun key => ?_
  rw [get?_filter, get?_filter, get?_filter, Option.filter_filter]

/-- What a first deletion leaves of the doomed rows, a second one finds. -/
theorem deleteWhere_or (t : Table κ α) (p q : κ → α → Bool) :
    (t.deleteWhere fun key a => p key a || q key a) =
      ((t.deleteWhere p).1 + ((t.deleteWhere p).2.deleteWhere q).1,
        ((t.deleteWhere p).2.deleteWhere q).2) := by
  unfold deleteWhere
  rw [count_or, filter_filter]
  simp only [Bool.not_or]

/-- Rows that are chosen by their keys, each by one property at most, may be changed one property after
the other. -/
theorem updateWhere_or (t : Table κ α) {p q : κ → Bool} (h : ∀ key, p key = true → q key = false)
    (f : α → α) :
    t.updateWhere (fun key _ => p key || q key) f =
      ((t.updateWhere (fun key _ => p key) f).1 +
          ((t.updateWhere (fun key _ => p key) f).2.updateWhere (fun key _ => q key) f).1,
        ((t.updateWhere (fun key _ => p key) f).2.updateWhere (fun key _ => q key) f).2) := by
  have hcount : (t.filter fun key _ => !p key).count (fun key _ => q key) =
      t.count fun key _ => q key := by
    unfold count filter
    rw [List.countP_filter]
    refine List.countP_congr fun r _ => ?_
    by_cases hp : p r.1 = true
    · simp only [h r.1 hp, Bool.false_and]
    · simp only [Bool.eq_false_iff.2 hp, Bool.not_false, Bool.and_true]
  unfold updateWhere
  rw [count_or, hcount, count_map]
  refine Prod.ext rfl (ext_get? fun key => ?_)
  simp only [get?_map, Option.map_map]
  refine congrArg (Option.map · _) (funext fun a => ?_)
  by_cases hp : p key = true
  · simp only [Function.comp_apply, hp, h key hp, Bool.true_or, if_true, Bool.false_eq_true, if_false]
  · simp only [Function.comp_apply, Bool.eq_false_iff.2 hp, Bool.false_or, Bool.false_eq_true, if_false]

theorem Changed.count_or {t t' t'' : Table κ α} {p q : κ → Bool} {f : α → α} {n m : Nat}
    (h₁ : t.Changed (fun key _ => p key) f n t') (h₂ : t'.Changed (fun key _ => q key) f m t'')
    (h : ∀ key, p key = true → q key = false) : (t.count fun key _ => p key || q key) = n + m := by
  have hor := congrArg Prod.fst (t.updateWhere_or h f)
  rw [h₁.eq_updateWhere, h₂.eq_updateWhere] at hor
  exact hor

end Laws

end ChainIndex.Table
