import ChainIndex.Derived.Tables
import ChainIndex.Proofs.Table.Values

/-!
# Looking up what was added to the derived tables

Adding internal transactions and markers leaves the rows that are there as they are; under a new key
stands the first of the added rows that has it (`get?_addInternalTxs`, `get?_addMarkers`).  `Gains` says so
of all derived tables and counts the new rows; what is gained in several steps is gained at once
(`Gains.append`).
-/

namespace ChainIndex.Derived.Tables

theorem or_find?_cons {α : Type} (key : α → FrameKey) (old : Option α) (row : α) (rest : List α)
    (k : FrameKey) :
    (old.or (if k = key row then some row else none)).or (rest.find? fun r => key r = k) =
      old.or ((row :: rest).find? fun r => key r = k) := by
  rw [Option.or_assoc, List.find?_cons]
  by_cases h : k = key row
  · simp [h]
  · simp [h, Ne.symm h]

theorem get?_addInternalTxs (t : Table FrameKey InternalTx) (rows : List InternalTx) (key : FrameKey) :
    (addInternalTxs t rows).2.get? key = (t.get? key).or (rows.find? fun row => row.key = key) := by
  induction rows generalizing t with
  | nil => simp [addInternalTxs]
  | cons row rest ih =>
    have hstep : (addInternalTxs t (row :: rest)).2 =
        (addInternalTxs (t.insertIfNew row.key row) rest).2 := rfl
    rw [hstep, ih, Table.get?_insertIfNew, or_find?_cons]

theorem get?_addMarkers (t : Table FrameKey Marker) (markers : List Marker) (key : FrameKey) :
    (addMarkers t markers).get? key = (t.get? key).or (markers.find? fun m => m.key = key) := by
  induction markers generalizing t with
  | nil => simp [addMarkers]
  | cons m rest ih =>
    have hstep : addMarkers t (m :: rest) = addMarkers (t.insertIfNew m.key m) rest := rfl
    rw [hstep, ih, Table.get?_insertIfNew, or_find?_cons]

theorem isSome_get?_addInternalTxs {t : Table FrameKey InternalTx} {rows : List InternalTx}
    {row : InternalTx} (h : row ∈ rows) :
    ((addInternalTxs t rows).2.get? row.key).isSome = true := by
  rw [get?_addInternalTxs, Option.isSome_or, Bool.or_eq_true]
  right
  rw [List.find?_isSome]
  exact ⟨row, h, decide_eq_true rfl⟩

/-! ## What is gained -/

theorem addInternalTxs_cons (t : Table FrameKey InternalTx) (row : InternalTx) (rest : List InternalTx) :
    addInternalTxs t (row :: rest) =
      ((addInternalTxs (t.insertIfNew row.key row) rest).1 + if t.contains row.key then 0 else 1,
        (addInternalTxs (t.insertIfNew row.key row) rest).2) := by
  show (if t.contains row.key then _ else _, _) = _
  split <;> rfl

theorem size_addInternalTxs (t : Table FrameKey InternalTx) (rows : List InternalTx) :
    (addInternalTxs t rows).2.size = t.size + (addInternalTxs t rows).1 := by
  induction rows generalizing t with
  | nil => rfl
  | cons row rest ih =>
    rw [addInternalTxs_cons]
    dsimp only
    rw [ih, Table.size_insertIfNew, Nat.add_assoc, Nat.add_comm (addInternalTxs _ rest).1]

/-- The tables after some rows and markers were added, each unless there was one of its key already; so
many of the rows are new. -/
structure Gains (d : Tables) (rows : List InternalTx) (markers : List Marker) (n : Nat) (d' : Tables) :
    Prop where
  internalTxs : ∀ key, d'.internalTxs.get? key =
    (d.internalTxs.get? key).or (rows.find? fun row => row.key = key)
  markers : ∀ key, d'.markers.get? key = (d.markers.get? key).or (markers.find? fun mk => mk.key = key)
  size : d'.internalTxs.size = d.internalTxs.size + n
  rest : d' = { d with internalTxs := d'.internalTxs, markers := d'.markers }

theorem Gains.refl (d : Tables) : d.Gains [] [] 0 d :=
  ⟨fun _ => Option.or_none.symm, fun _ => Option.or_none.symm, rfl, rfl⟩

theorem gains_insertInternal (d : Tables) (rows : List InternalTx) (markers : List Marker) :
    d.Gains rows markers (d.insertInternal rows markers).1 (d.insertInternal rows markers).2 where
  internalTxs := get?_addInternalTxs d.internalTxs rows
  markers := get?_addMarkers d.markers markers
  size := size_addInternalTxs d.internalTxs rows
  rest := rfl

/-- What is gained in two steps is gained at once. -/
theorem Gains.append {d₁ d₂ d₃ : Tables} {rows rows' : List InternalTx} {markers markers' : List Marker}
    {n m : Nat} (h : d₁.Gains rows markers n d₂) (h' : d₂.Gains rows' markers' m d₃) :
    d₁.Gains (rows ++ rows') (markers ++ markers') (n + m) d₃ where
  internalTxs key := by rw [h'.internalTxs, h.internalTxs, Option.or_assoc, List.find?_append]
  markers key := by rw [h'.markers, h.markers, Option.or_assoc, List.find?_append]
  size := by rw [h'.size, h.size, Nat.add_assoc]
  rest := by rw [h'.rest, h.rest]

theorem Gains.unique {d d₁ d₂ : Tables} {rows : List InternalTx} {markers : List Marker} {n m : Nat}
    (h₁ : d.Gains rows markers n d₁) (h₂ : d.Gains rows markers m d₂) : d₁ = d₂ ∧ n = m := by
  have hrows : d₁.internalTxs = d₂.internalTxs :=
    Table.ext_get? fun key => by rw [h₁.internalTxs, h₂.internalTxs]
  have hmarkers : d₁.markers = d₂.markers := Table.ext_get? fun key => by rw [h₁.markers, h₂.markers]
  refine ⟨by rw [h₁.rest, h₂.rest, hrows, hmarkers], ?_⟩
  have hsize := h₁.size.symm.trans ((congrArg Table.size hrows).trans h₂.size)
  exact Nat.add_left_cancel hsize

/-- Rows and markers whose keys are all there change nothing. -/
theorem insertInternal_of_known {d : Tables} {rows : List InternalTx} {markers : List Marker}
    (hrows : ∀ row ∈ rows, (d.internalTxs.get? row.key).isSome = true)
    (hmarkers : ∀ mk ∈ markers, (d.markers.get? mk.key).isSome = true) :
    d.insertInternal rows markers = (0, d) := by
  have hadd : addInternalTxs d.internalTxs rows = (0, d.internalTxs) := by
    induction rows with
    | nil => rfl
    | cons row rest ih =>
      have hrow : d.internalTxs.contains row.key = true := hrows row List.mem_cons_self
      rw [addInternalTxs_cons, Table.insertIfNew_of_contains hrow,
        ih fun row' hrow' => hrows row' (List.mem_cons_of_mem _ hrow'), if_pos hrow]
  have hmark : addMarkers d.markers markers = d.markers := by
    induction markers with
    | nil => rfl
    | cons mk rest ih =>
      show addMarkers (d.markers.insertIfNew mk.key mk) rest = d.markers
      rw [Table.insertIfNew_of_contains (hmarkers mk List.mem_cons_self)]
      exact ih fun mk' hmk' => hmarkers mk' (List.mem_cons_of_mem _ hmk')
  rw [insertInternal, hadd, hmark]

end ChainIndex.Derived.Tables
