import Mathlib.Data.List.Forall2

/-!
# Lists side by side

What follows for the items of two lists that are related one by one; and when a list can be read item by item,
all of it (`mapM_eq_some_iff`, `mapM_eq_none_iff`, `mapM_eq_ok_iff`) or what is readable of it
(`filterMap_eq_iff`).
-/

namespace ChainIndex

/-! ## Related items -/

/-- The second of two related lists holds nothing that is not related to an item of the first. -/
theorem exists_of_mem_right {α β : Type} {P : α → β → Prop} {as : List α} {bs : List β}
    (h : List.Forall₂ P as bs) {b : β} (hb : b ∈ bs) : ∃ a ∈ as, P a b := by
  induction h with
  | nil => cases hb
  | cons hab _ ih =>
    rcases List.mem_cons.1 hb with rfl | hb
    · exact ⟨_, List.mem_cons_self, hab⟩
    · obtain ⟨a, ha, hP⟩ := ih hb
      exact ⟨a, List.mem_cons_of_mem _ ha, hP⟩

theorem exists_of_mem_left {α β : Type} {P : α → β → Prop} {as : List α} {bs : List β}
    (h : List.Forall₂ P as bs) {a : α} (ha : a ∈ as) : ∃ b ∈ bs, P a b :=
  exists_of_mem_right h.flip ha

theorem exists_mem_zip {α β : Type} {P : α → β → Prop} {as : List α} {bs : List β}
    (h : List.Forall₂ P as bs) {a : α} (ha : a ∈ as) : ∃ b, (a, b) ∈ as.zip bs ∧ P a b := by
  induction h with
  | nil => cases ha
  | cons hab _ ih =>
    rcases List.mem_cons.1 ha with rfl | ha
    · exact ⟨_, List.mem_cons_self, hab⟩
    · obtain ⟨b, hb, hP⟩ := ih ha
      exact ⟨b, List.mem_cons_of_mem _ hb, hP⟩

theorem exists_forall₂ {α β : Type} {P : α → β → Prop} {as : List α} (h : ∀ a ∈ as, ∃ b, P a b) :
    ∃ bs, List.Forall₂ P as bs := by
  induction as with
  | nil => exact ⟨[], .nil⟩
  | cons a as ih =>
    obtain ⟨b, hb⟩ := h a List.mem_cons_self
    obtain ⟨bs, hbs⟩ := ih fun a ha => h a (List.mem_cons_of_mem _ ha)
    exact ⟨b :: bs, .cons hb hbs⟩

/-- Lists that hold what belongs to the items of other lists hold, joined together, what belongs to the items
of those. -/
theorem mem_flatten_iff {α β : Type} {P : α → β → Prop} {parts : List (List α)} {lists : List (List β)}
    (h : List.Forall₂ (fun part list => ∀ b, b ∈ list ↔ ∃ a ∈ part, P a b) parts lists) {b : β} :
    b ∈ lists.flatten ↔ ∃ a ∈ parts.flatten, P a b := by
  induction h with
  | nil => simp
  | cons hpart _ ih =>
    rw [List.flatten_cons, List.flatten_cons, List.mem_append, hpart, ih]
    simp only [List.mem_append, or_and_right, exists_or]

/-! ## Reading the items of a list -/

section

variable {α β : Type} {f : α → Option β} {xs : List α}

theorem mapM_eq_some_iff {ys : List β} :
    xs.mapM f = some ys ↔ List.Forall₂ (fun x y => f x = some y) xs ys := by
  induction xs generalizing ys with
  | nil => simp [eq_comm]
  | cons x rest ih =>
    simp only [List.mapM_cons, Option.bind_eq_bind, Option.bind_eq_some_iff, Option.pure_def,
      Option.some.injEq, ih, List.forall₂_cons_left_iff]
    constructor
    · rintro ⟨y, hy, ys, hys, rfl⟩
      exact ⟨y, ys, hy, hys, rfl⟩
    · rintro ⟨y, ys, hy, hys, rfl⟩
      exact ⟨y, hy, ys, hys, rfl⟩

theorem mapM_eq_none_iff : xs.mapM f = none ↔ ∃ x ∈ xs, f x = none := by
  induction xs with
  | nil => simp
  | cons x rest ih =>
    rw [List.mapM_cons, List.exists_mem_cons_iff, ← ih]
    cases f x with
    | none => simp
    | some y => cases rest.mapM f <;> simp

theorem exists_mapM_eq_some (h : ∀ x ∈ xs, (f x).isSome) : ∃ ys, xs.mapM f = some ys := by
  obtain ⟨ys, hys⟩ := exists_forall₂ fun x hx => Option.isSome_iff_exists.1 (h x hx)
  exact ⟨ys, mapM_eq_some_iff.2 hys⟩

theorem mapM_eq_ok_iff {ε : Type} {f : α → Except ε β} {ys : List β} :
    xs.mapM f = .ok ys ↔ List.Forall₂ (fun x y => f x = .ok y) xs ys := by
  induction xs generalizing ys with
  | nil => simp [pure, Except.pure, eq_comm]
  | cons x rest ih =>
    rw [List.mapM_cons, List.forall₂_cons_left_iff]
    simp only [← ih]
    cases f x with
    | error e => simp [bind, Except.bind]
    | ok y => cases rest.mapM f <;> simp [bind, Except.bind, pure, Except.pure, eq_comm]

theorem exists_mapM_eq_ok {ε : Type} {f : α → Except ε β} (h : ∀ x ∈ xs, ∃ y, f x = .ok y) :
    ∃ ys, xs.mapM f = .ok ys :=
  (exists_forall₂ h).imp fun _ => mapM_eq_ok_iff.2

/-- What can be read of a list is all that it is read as, if there is nothing else in it. -/
theorem filterMap_eq_of_forall₂ {ys : List β} (h : List.Forall₂ (fun x y => f x = some y) xs ys) :
    xs.filterMap f = ys := by
  induction h with
  | nil => rfl
  | cons hx _ ih => rw [List.filterMap_cons_some hx, ih]

/-- What can be read of a list is what its readable items are read as, one by one. -/
theorem filterMap_eq_iff {ys : List β} :
    xs.filterMap f = ys ↔ List.Forall₂ (fun x y => f x = some y) (xs.filter fun x => (f x).isSome) ys := by
  have hread : xs.filterMap f = (xs.filter fun x => (f x).isSome).filterMap f := by
    rw [List.filterMap_filter]
    congr 1
    funext x
    cases f x <;> rfl
  obtain ⟨zs, hzs⟩ : ∃ zs, (xs.filter fun x => (f x).isSome).mapM f = some zs :=
    exists_mapM_eq_some fun x hx => (List.mem_filter.1 hx).2
  rw [hread, filterMap_eq_of_forall₂ (mapM_eq_some_iff.1 hzs), ← mapM_eq_some_iff, hzs, Option.some.injEq]

end

end ChainIndex
