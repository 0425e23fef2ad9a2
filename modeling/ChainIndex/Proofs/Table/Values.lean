import ChainIndex.Table

/-!
# Tables of other rows

`mapValues` applies a function to every row of a table; looking up and inserting commute with it, so that
two tables that hold the same things in different forms can be followed side by side.  Two choices of rows of
a table make the same change of it exactly if they choose the same rows (`updateWhere_eq_iff`).
-/

namespace ChainIndex.Table

open Std

variable {κ α β : Type} [Ord κ]

theorem pairwise_values (f : α → β) {rows : List (κ × α)} (h : rows.Pairwise KeyLt) :
    (rows.map fun r => (r.1, f r.2)).Pairwise KeyLt :=
  List.pairwise_map.2 (h.imp fun h => h)

/-- The table with a function applied to every row. -/
def mapValues (f : α → β) (t : Table κ α) : Table κ β where
  rows := t.rows.map fun r => (r.1, f r.2)
  sorted := pairwise_values f t.sorted

@[simp] theorem size_mapValues (f : α → β) (t : Table κ α) : (t.mapValues f).size = t.size :=
  List.length_map _

@[simp] theorem get?_mapValues (f : α → β) (t : Table κ α) (key : κ) :
    (t.mapValues f).get? key = (t.get? key).map f := by
  obtain ⟨rows, sorted⟩ := t
  unfold get? mapValues
  simp only
  clear sorted
  induction rows with
  | nil => rfl
  | cons r rest ih =>
    rw [List.map_cons, find, find, ih]
    split <;> rfl

@[simp] theorem values_mapValues (f : α → β) (t : Table κ α) :
    (t.mapValues f).values = t.values.map f := by
  rw [values, values, mapValues, List.map_map, List.map_map]
  rfl

theorem count_mapValues (f : α → β) (t : Table κ α) (p : κ → β → Bool) :
    (t.mapValues f).count p = t.count fun key a => p key (f a) := List.countP_map

theorem contains_eq_isSome (t : Table κ α) (key : κ) : t.contains key = (t.get? key).isSome := rfl

section Laws

variable [TransOrd κ] [LawfulEqOrd κ] [DecidableEq κ]

theorem mapValues_insert (f : α → β) (t : Table κ α) (key : κ) (a : α) :
    (t.insert key a).mapValues f = (t.mapValues f).insert key (f a) := by
  refine ext_get? fun k => ?_
  rw [get?_mapValues, get?_insert, get?_insert, get?_mapValues]
  split <;> rfl

/-- A change of rows that a function does not see happens before it as well as after it. -/
theorem mapValues_map {f : α → β} {g : κ → α → α} {h : κ → β → β}
    (hfg : ∀ key a, f (g key a) = h key (f a)) (t : Table κ α) :
    (t.map g).mapValues f = (t.mapValues f).map h := by
  refine ext_get? fun k => ?_
  rw [get?_mapValues, get?_map, get?_map, get?_mapValues, Option.map_map, Option.map_map]
  exact congrArg (Option.map · _) (funext (hfg k))

theorem filter_mapValues (f : α → β) (t : Table κ α) (p : κ → β → Bool) :
    (t.mapValues f).filter p = (t.filter fun key a => p key (f a)).mapValues f := by
  refine ext_get? fun k => ?_
  rw [get?_filter, get?_mapValues, get?_mapValues, get?_filter, Option.filter_map]
  rfl

omit [TransOrd κ] in
theorem mem_values {t : Table κ α} {a : α} : a ∈ t.values ↔ ∃ key, t.get? key = some a := by
  simp only [values, List.mem_map, get?_eq_some_iff, Prod.exists, exists_eq_right]

omit [TransOrd κ] in
theorem count_congr {t : Table κ α} {p q : κ → α → Bool}
    (h : ∀ {key a}, t.get? key = some a → p key a = q key a) : t.count p = t.count q :=
  List.countP_congr fun r hr => by rw [h (get?_eq_some_iff.2 hr)]

omit [TransOrd κ] in
/-- Rows that tell their keys stand in the table once each. -/
theorem nodup_values {t : Table κ α} {f : α → κ} (h : ∀ {key a}, t.get? key = some a → f a = key) :
    t.values.Nodup := by
  refine List.pairwise_map.2 (t.sorted.imp_of_mem fun {r r'} hr hr' hlt heq => ?_)
  have hkey : r.1 = r'.1 := by rw [← h (get?_eq_some_iff.2 hr), heq, h (get?_eq_some_iff.2 hr')]
  rw [KeyLt, hkey] at hlt
  cases ReflCmp.compare_self.symm.trans hlt

/-- A change of chosen rows may be made before or after a function that hides nothing of it. -/
theorem updateWhere_mapValues {t : Table κ α} {f : α → β} {g : α → α} {h : β → β}
    (hfg : ∀ a, f (g a) = h (f a)) (p : κ → β → Bool) :
    (t.mapValues f).updateWhere p h =
      ((t.updateWhere (fun key a => p key (f a)) g).1,
        (t.updateWhere (fun key a => p key (f a)) g).2.mapValues f) := by
  refine Prod.ext (count_mapValues f t p) (mapValues_map (fun key a => ?_) t).symm
  rw [apply_ite f, hfg]

/-! ## Choosing rows -/

/-- Which rows are chosen matters for the rows of the table only. -/
theorem updateWhere_congr {t : Table κ α} {p q : κ → α → Bool} (f : α → α)
    (h : ∀ {key a}, t.get? key = some a → p key a = q key a) : t.updateWhere p f = t.updateWhere q f := by
  refine Prod.ext (count_congr h) (ext_get? fun key => ?_)
  show (t.map _).get? key = (t.map _).get? key
  rw [get?_map, get?_map]
  cases ha : t.get? key with
  | none => rfl
  | some a => rw [Option.map_some, Option.map_some, h ha]

/-- Two choices of rows come to the same change exactly if they choose the same rows, as long as the change
shows in every row that is chosen. -/
theorem updateWhere_eq_iff {t : Table κ α} {p q : κ → α → Bool} {f : α → α}
    (hf : ∀ key a, (p key a || q key a) = true → f a ≠ a) :
    t.updateWhere p f = t.updateWhere q f ↔ ∀ {key a}, t.get? key = some a → p key a = q key a := by
  refine ⟨fun h key a ha => ?_, updateWhere_congr f⟩
  have hrow : (if p key a then f a else a) = if q key a then f a else a := by
    have hget := congrArg (fun u : Nat × Table κ α => u.2.get? key) h
    simpa only [updateWhere, get?_map, ha, Option.map_some, Option.some.injEq] using hget
  cases hp : p key a <;> cases hq : q key a
  · rfl
  · rw [hp, hq, if_neg Bool.false_ne_true, if_pos rfl] at hrow
    exact absurd hrow.symm (hf key a (by rw [hq, Bool.or_true]))
  · rw [hp, hq, if_pos rfl, if_neg Bool.false_ne_true] at hrow
    exact absurd hrow (hf key a (by rw [hp, Bool.true_or]))
  · rfl

theorem insertIfNew_unit (t : Table κ Unit) (key : κ) : t.insertIfNew key () = t.insert key () := by
  refine ext_get? fun k => ?_
  rw [get?_insertIfNew, get?_insert]
  split <;> cases t.get? k <;> rfl

/-! ## The number of rows -/

omit [LawfulEqOrd κ] [TransOrd κ] [DecidableEq κ] in
theorem length_put {key : κ} {rows : List (κ × α)} (h : rows.Pairwise KeyLt) (a : α)
    (hnew : find key rows = none) : (put key a rows).length = rows.length + 1 := by
  induction rows with
  | nil => rfl
  | cons b rest ih =>
    obtain ⟨k, b⟩ := b
    rw [find] at hnew
    unfold put
    split
    · rfl
    · rename_i heq
      rw [if_pos heq] at hnew
      cases hnew
    · rename_i hgt
      rw [if_neg (by simp [hgt])] at hnew
      rw [List.length_cons, ih (List.pairwise_cons.1 h).2 hnew, List.length_cons]

omit [DecidableEq κ] in
theorem size_insertIfNew (t : Table κ α) (key : κ) (a : α) :
    (t.insertIfNew key a).size = t.size + if t.contains key then 0 else 1 := by
  unfold insertIfNew contains
  cases hkey : t.get? key with
  | none => exact length_put t.sorted a hkey
  | some b => rfl

omit [DecidableEq κ] in
theorem insertIfNew_of_contains {t : Table κ α} {key : κ} (h : (t.get? key).isSome = true) (a : α) :
    t.insertIfNew key a = t := if_pos h

/-- A table has as many rows as a larger one has under its keys. -/
theorem size_filter_contains {t : Table κ α} {u : Table κ β}
    (h : ∀ key, t.contains key = true → u.contains key = true) :
    (u.filter fun key _ => t.contains key).size = t.size := by
  -- With the rows left out, the two are the same table.
  have hsame : (u.filter fun key _ => t.contains key).mapValues (fun _ => ()) =
      t.mapValues fun _ => () := by
    refine ext_get? fun key => ?_
    rw [get?_mapValues, get?_mapValues, get?_filter]
    have hkey := h key
    rw [contains_eq_isSome, contains_eq_isSome] at hkey
    cases ht : t.get? key with
    | none =>
      have hnot : t.contains key = false := by rw [contains_eq_isSome, ht, Option.isSome_none]
      cases u.get? key with
      | none => rfl
      | some b =>
        rw [Option.filter_some, hnot, if_neg Bool.false_ne_true]
        rfl
    | some a =>
      have hthere : t.contains key = true := by rw [contains_eq_isSome, ht, Option.isSome_some]
      obtain ⟨b, hb⟩ := Option.isSome_iff_exists.1 (hkey hthere)
      rw [hb, Option.filter_some, hthere, if_pos rfl, Option.map_some, Option.map_some]
  rw [← size_mapValues (fun _ => ()), hsame, size_mapValues]

end Laws

end ChainIndex.Table
