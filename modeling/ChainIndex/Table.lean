/-!
# Tables

A `Table κ α` holds rows of type `α` under keys of type `κ`: a list of pairs whose keys increase
strictly.  Two tables with the same rows are therefore equal (`Table.ext_get?`), and whatever lists a
table lists it in the order of its keys.  Each operation is described through `get?`.
-/

namespace ChainIndex

open Std

variable {κ α : Type} [Ord κ]

/-- One row stands under a smaller key than another. -/
def KeyLt (a b : κ × α) : Prop := compare a.1 b.1 = .lt

/-- Rows under strictly increasing keys. -/
structure Table (κ α : Type) [Ord κ] where
  rows : List (κ × α)
  sorted : rows.Pairwise KeyLt

namespace Table

/-! ## Operations on the list of rows -/

/-- The row under a key. -/
def find (key : κ) : List (κ × α) → Option α
  | [] => none
  | (k, a) :: rest => if compare key k = .eq then some a else find key rest

/-- Puts a row under a key, in place of a row that is there already. -/
def put (key : κ) (a : α) : List (κ × α) → List (κ × α)
  | [] => [(key, a)]
  | (k, b) :: rest =>
    match compare key k with
    | .lt => (key, a) :: (k, b) :: rest
    | .eq => (key, a) :: rest
    | .gt => (k, b) :: put key a rest

/-- Changes every row; the keys stay. -/
def mapRows (f : κ → α → α) (rows : List (κ × α)) : List (κ × α) :=
  rows.map fun r => (r.1, f r.1 r.2)

theorem mem_put {key : κ} {a : α} {rows : List (κ × α)} {r : κ × α} (h : r ∈ put key a rows) :
    r = (key, a) ∨ r ∈ rows := by
  induction rows with
  | nil => simpa [put] using h
  | cons b rest ih =>
    obtain ⟨k, b⟩ := b
    unfold put at h
    split at h
    · simpa using h
    · rcases List.mem_cons.1 h with h | h
      · exact .inl h
      · exact .inr (List.mem_cons_of_mem _ h)
    · rcases List.mem_cons.1 h with h | h
      · exact .inr (h ▸ List.mem_cons_self)
      · exact (ih h).imp id (List.mem_cons_of_mem _)

theorem pairwise_put [TransOrd κ] [LawfulEqOrd κ] (key : κ) (a : α) {rows : List (κ × α)}
    (h : rows.Pairwise KeyLt) : (put key a rows).Pairwise KeyLt := by
  induction rows with
  | nil => simp [put]
  | cons b rest ih =>
    obtain ⟨k, b⟩ := b
    obtain ⟨hk, hrest⟩ := List.pairwise_cons.1 h
    unfold put
    split
    case h_1 hlt =>
      refine List.pairwise_cons.2 ⟨fun r hr => ?_, h⟩
      rcases List.mem_cons.1 hr with rfl | hr
      · exact hlt
      · exact TransCmp.lt_trans hlt (hk r hr)
    case h_2 heq =>
      have hkey : key = k := LawfulEqCmp.compare_eq_iff_eq.1 heq
      exact List.pairwise_cons.2 ⟨fun r hr => hkey ▸ hk r hr, hrest⟩
    case h_3 hgt =>
      refine List.pairwise_cons.2 ⟨fun r hr => ?_, ih hrest⟩
      rcases mem_put hr with rfl | hr
      · exact OrientedCmp.gt_iff_lt.1 hgt
      · exact hk r hr

theorem pairwise_mapRows (f : κ → α → α) {rows : List (κ × α)} (h : rows.Pairwise KeyLt) :
    (mapRows f rows).Pairwise KeyLt :=
  List.pairwise_map.2 (h.imp fun h => h)

/-! ## Operations -/

/-- The table without rows. -/
def empty : Table κ α := ⟨[], .nil⟩

instance : EmptyCollection (Table κ α) := ⟨empty⟩

instance : Inhabited (Table κ α) := ⟨empty⟩

/-- The row under a key. -/
def get? (t : Table κ α) (key : κ) : Option α := find key t.rows

/-- Whether there is a row under a key. -/
def contains (t : Table κ α) (key : κ) : Bool := (t.get? key).isSome

/-- The keys, in increasing order. -/
def keys (t : Table κ α) : List κ := t.rows.map Prod.fst

/-- The rows, in the order of their keys. -/
def values (t : Table κ α) : List α := t.rows.map Prod.snd

/-- The number of rows. -/
def size (t : Table κ α) : Nat := t.rows.length

/-- The number of rows with a property. -/
def count (t : Table κ α) (p : κ → α → Bool) : Nat := t.rows.countP fun r => p r.1 r.2

/-- The rows with a property. -/
def filter (t : Table κ α) (p : κ → α → Bool) : Table κ α where
  rows := t.rows.filter fun r => p r.1 r.2
  sorted := t.sorted.filter _

/-- Changes every row. -/
def map (t : Table κ α) (f : κ → α → α) : Table κ α where
  rows := mapRows f t.rows
  sorted := pairwise_mapRows f t.sorted

/-- Puts a row under a key, in place of a row that is there already. -/
def insert [TransOrd κ] [LawfulEqOrd κ] (t : Table κ α) (key : κ) (a : α) : Table κ α where
  rows := put key a t.rows
  sorted := pairwise_put key a t.sorted

/-- Puts a row under a key unless there is one. -/
def insertIfNew [TransOrd κ] [LawfulEqOrd κ] (t : Table κ α) (key : κ) (a : α) : Table κ α :=
  if t.contains key then t else t.insert key a

/-- Changes the row under a key, if there is one. -/
def modify [TransOrd κ] [LawfulEqOrd κ] (t : Table κ α) (key : κ) (f : α → α) : Table κ α :=
  match t.get? key with
  | some a => t.insert key (f a)
  | none => t

/-- The table without the rows that have a property, and the number of those. -/
def deleteWhere (t : Table κ α) (doomed : κ → α → Bool) : Nat × Table κ α :=
  (t.count doomed, t.filter fun key a => !doomed key a)

/-- Changes the rows with a property; the number of those comes first. -/
def updateWhere (t : Table κ α) (chosen : κ → α → Bool) (f : α → α) : Nat × Table κ α :=
  (t.count chosen, t.map fun key a => if chosen key a then f a else a)

/-! ## What the operations do to a look-up -/

@[simp] theorem get?_empty (key : κ) : (∅ : Table κ α).get? key = none := rfl

section Laws

variable [TransOrd κ] [LawfulEqOrd κ] [DecidableEq κ]

omit [TransOrd κ] in
theorem find_cons (key k : κ) (a : α) (rest : List (κ × α)) :
    find key ((k, a) :: rest) = if key = k then some a else find key rest := by
  simp only [find, LawfulEqCmp.compare_eq_iff_eq]

omit [TransOrd κ] in
theorem find_put (key k : κ) (a : α) (rows : List (κ × α)) :
    find k (put key a rows) = if k = key then some a else find k rows := by
  induction rows with
  | nil => simp [put, find_cons, find]
  | cons b rest ih =>
    obtain ⟨k', b⟩ := b
    unfold put
    split
    · rw [find_cons]
    · rename_i heq
      have hkey : key = k' := LawfulEqCmp.compare_eq_iff_eq.1 heq
      subst hkey
      simp only [find_cons]
      split <;> rfl
    · rename_i hgt
      have hne : key ≠ k' := by
        rintro rfl
        simp [ReflCmp.compare_self] at hgt
      simp only [find_cons, ih]
      by_cases h : k = k'
      · subst h
        simp [Ne.symm hne]
      · simp [h]

omit [TransOrd κ] in
/-- A look-up finds a row exactly if the row is in the table. -/
theorem find_eq_some_iff {rows : List (κ × α)} (h : rows.Pairwise KeyLt) {key : κ} {a : α} :
    find key rows = some a ↔ (key, a) ∈ rows := by
  induction rows with
  | nil => simp [find]
  | cons b rest ih =>
    obtain ⟨k, b⟩ := b
    obtain ⟨hk, hrest⟩ := List.pairwise_cons.1 h
    rw [find_cons]
    by_cases hkey : key = k
    · subst hkey
      simp only [if_pos, Option.some.injEq, List.mem_cons, Prod.mk.injEq, true_and]
      refine ⟨fun h => .inl h.symm, fun h => h.elim Eq.symm fun h => ?_⟩
      have := hk _ h
      simp [KeyLt, ReflCmp.compare_self] at this
    · simp [hkey, ih hrest]

@[simp] theorem get?_insert (t : Table κ α) (key k : κ) (a : α) :
    (t.insert key a).get? k = if k = key then some a else t.get? k :=
  find_put key k a t.rows

omit [TransOrd κ] in
theorem get?_eq_some_iff {t : Table κ α} {key : κ} {a : α} :
    t.get? key = some a ↔ (key, a) ∈ t.rows :=
  find_eq_some_iff t.sorted

@[simp] theorem get?_insertIfNew (t : Table κ α) (key k : κ) (a : α) :
    (t.insertIfNew key a).get? k = (t.get? k).or (if k = key then some a else none) := by
  unfold insertIfNew contains
  by_cases h : k = key
  · subst h
    cases hk : t.get? k <;> simp [hk]
  · cases hkey : t.get? key <;> simp [h]

@[simp] theorem get?_modify (t : Table κ α) (key k : κ) (f : α → α) :
    (t.modify key f).get? k = if k = key then (t.get? k).map f else t.get? k := by
  unfold modify
  split
  · rename_i a ha
    by_cases h : k = key
    · subst h
      simp [ha]
    · simp [h]
  · rename_i hnone
    by_cases h : k = key
    · subst h
      simp [hnone]
    · simp [h]

omit [TransOrd κ] in
@[simp] theorem get?_map (t : Table κ α) (f : κ → α → α) (key : κ) :
    (t.map f).get? key = (t.get? key).map (f key) := by
  obtain ⟨rows, sorted⟩ := t
  unfold get? map
  simp only
  clear sorted
  induction rows with
  | nil => rfl
  | cons b rest ih =>
    obtain ⟨k, b⟩ := b
    rw [mapRows, List.map_cons, find_cons, find_cons]
    by_cases h : key = k
    · simp [h]
    · simpa [h, mapRows] using ih

omit [TransOrd κ] in
@[simp] theorem get?_filter (t : Table κ α) (p : κ → α → Bool) (key : κ) :
    (t.filter p).get? key = (t.get? key).filter (p key) := by
  ext a
  rw [Option.filter_eq_some_iff, get?_eq_some_iff, get?_eq_some_iff]
  simp [filter]

/-- Tables that answer every look-up alike are the same. -/
theorem ext_get? {t u : Table κ α} (h : ∀ key, t.get? key = u.get? key) : t = u := by
  obtain ⟨rows, sorted⟩ := t
  obtain ⟨rows', sorted'⟩ := u
  congr
  have hmem : ∀ r, r ∈ rows ↔ r ∈ rows' := fun r => by
    have := h r.1
    simp only [get?] at this
    rw [show r = (r.1, r.2) from rfl, ← find_eq_some_iff sorted, ← find_eq_some_iff sorted', this]
  clear h
  induction rows generalizing rows' with
  | nil =>
    cases rows' with
    | nil => rfl
    | cons r rest => exact absurd ((hmem r).2 List.mem_cons_self) (by simp)
  | cons r rest ih =>
    cases rows' with
    | nil => exact absurd ((hmem r).1 List.mem_cons_self) (by simp)
    | cons r' rest' =>
      obtain ⟨hr, hrest⟩ := List.pairwise_cons.1 sorted
      obtain ⟨hr', hrest'⟩ := List.pairwise_cons.1 sorted'
      have irrefl (x : κ × α) : ¬ KeyLt x x := by simp [KeyLt, ReflCmp.compare_self]
      have heq : r = r' := by
        rcases List.mem_cons.1 ((hmem r).1 List.mem_cons_self) with h | h
        · exact h
        · rcases List.mem_cons.1 ((hmem r').2 List.mem_cons_self) with h' | h'
          · exact h'.symm
          · exact absurd (TransCmp.lt_trans (hr _ h') (hr' _ h)) (irrefl r)
      subst heq
      congr
      refine ih hrest rest' hrest' fun x => ⟨fun hx => ?_, fun hx => ?_⟩
      · rcases List.mem_cons.1 ((hmem x).1 (List.mem_cons_of_mem _ hx)) with rfl | h
        · exact absurd (hr _ hx) (irrefl _)
        · exact h
      · rcases List.mem_cons.1 ((hmem x).2 (List.mem_cons_of_mem _ hx)) with rfl | h
        · exact absurd (hr' _ hx) (irrefl _)
        · exact h

end Laws

end Table

end ChainIndex
