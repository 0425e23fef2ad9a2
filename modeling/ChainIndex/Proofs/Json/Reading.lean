import ChainIndex.Json.Record

/-!
# Reading back what was written

A word reads back as itself, and a list as the list of what its items read back as.  A field that stands
once in an object is found there wherever it stands (`field_bind`), which is how a record is read back
field by field.
-/

namespace ChainIndex.Json

/-! ## Words and lists -/

theorem uint64_ofUInt64 (depth : Nat) (n : UInt64) :
    Reader.uint64 depth (Document.ofJson (ofUInt64 n)) = some n := by
  have h : n.toNat < UInt64.size := n.toNat_lt
  have hl : (0 : Int) ≤ n.toNat ∧ (n.toNat : Int) < wordLimit := by
    rw [wordLimit]
    omega
  rw [ofUInt64, ofNat, Document.ofJson, Reader.uint64, Number.toUInt64?, if_pos hl, Int.toNat_natCast,
    UInt64.ofNat_toNat]

theorem uint32_ofUInt32 (depth : Nat) (n : UInt32) :
    Reader.uint32 depth (Document.ofJson (ofUInt32 n)) = some n := by
  have h : n.toNat < UInt32.size := n.toNat_lt
  have hl : (0 : Int) ≤ n.toNat ∧ (n.toNat : Int) < UInt32.size := by omega
  rw [ofUInt32, ofNat, Document.ofJson, Reader.uint32, Number.toUInt32?, if_pos hl, Int.toNat_natCast,
    UInt32.ofNat_toNat]

theorem ofItems_eq_map (vs : List Json) : Document.ofItems vs = vs.map Document.ofJson := by
  induction vs with
  | nil => rfl
  | cons v rest ih => rw [Document.ofItems, ih, List.map_cons]

theorem list_ofList {α : Type} {r : Reader α} {f : α → Json} {depth : Nat}
    (h : ∀ a, r depth (Document.ofJson (f a)) = some a) (xs : List α) :
    r.list (depth + 1) (Document.ofJson (ofList f xs)) = some xs := by
  rw [ofList, Document.ofJson, ofItems_eq_map, Reader.list, List.map_map]
  induction xs with
  | nil => rfl
  | cons a rest ih => simp [h, ih]

/-! ## Nesting -/

theorem depth_ofList {α : Type} {f : α → Json} {n : Nat} (h : ∀ a, (f a).depth = n) {xs : List α}
    (hne : xs ≠ []) : (ofList f xs).depth = n + 1 := by
  have hle : ∀ ys : List α, depthOfItems (ys.map f) ≤ n := fun ys => by
    induction ys with
    | nil => exact Nat.zero_le _
    | cons y ys ih => simp [depthOfItems, h, ih]
  cases xs with
  | nil => exact absurd rfl hne
  | cons x rest => rw [ofList, depth, List.map_cons, depthOfItems, h, Nat.max_eq_left (hle rest)]

theorem depth_ofStrings (xs : List String) : (ofStrings xs).depth = 1 := by
  cases xs with
  | nil => rfl
  | cons x rest => exact depth_ofList (n := 0) (fun s => by rw [depth.eq_def]) (List.cons_ne_nil _ _)

/-! ## Fields -/

theorem occurrences_eq {name : String} {d : Document} {fields : List (String × Document)}
    (hn : (fields.map Prod.fst).Nodup) (h : (name, d) ∈ fields) :
    RecordM.occurrences name fields = [d] := by
  unfold RecordM.occurrences
  induction fields with
  | nil => simp at h
  | cons f rest ih =>
    obtain ⟨hf, hrest⟩ := List.nodup_cons.1 hn
    rcases List.mem_cons.1 h with rfl | h
    · have hnone : rest.filter (fun f => f.1 == name) = [] := by
        rw [List.filter_eq_nil_iff]
        intro g hg hname
        exact hf (List.mem_map.2 ⟨g, hg, beq_iff_eq.1 hname⟩)
      simp [hnone]
    · have hne : f.1 ≠ name := fun e => hf (e ▸ List.mem_map_of_mem (f := Prod.fst) h)
      simp [hne, ih hrest h]

theorem field_bind {α β : Type} {name : String} {absent missing : Option α} {r : Reader α}
    {fields : List (String × Document)} {depth i : Nat} {d : Document} {a : α}
    (hn : (fields.map Prod.fst).Nodup) (h : fields[i]? = some (name, d)) (hr : r depth d = some a)
    (f : α → RecordM β) :
    (RecordM.field name absent missing r >>= f) ⟨depth, .named fields⟩ =
      f a ⟨depth, .named fields⟩ := by
  show (RecordM.field name absent missing r ⟨depth, .named fields⟩).bind (fun p => f p.1 p.2) = _
  rw [RecordM.field]
  simp only [occurrences_eq hn (List.mem_of_getElem? h), hr, Option.map_some, Option.bind_some]

/-! ## Look-ups -/

theorem lookup_putField (name key : String) (v : Json) (fields : List (String × Json)) :
    lookup name (putField key v fields) = if key = name then v else lookup name fields := by
  induction fields with
  | nil => rfl
  | cons f rest ih =>
    obtain ⟨key', w⟩ := f
    rw [putField]
    cases hc : compare key key' with
    | lt => rfl
    | eq =>
      obtain rfl := Std.LawfulEqOrd.eq_of_compare hc
      by_cases hname : key = name
      · simp only [lookup, if_pos hname]
      · simp only [lookup, if_neg hname]
    | gt =>
      have hne : key ≠ key' := fun heq => by
        rw [heq, Std.ReflOrd.compare_self] at hc
        cases hc
      simp only [lookup, ih]
      by_cases hname : key' = name
      · rw [if_pos hname, if_pos hname, if_neg (hname ▸ hne)]
      · rw [if_neg hname, if_neg hname]

theorem lookup_append {name : String} {fields : List (String × Json)} (h : ∀ f ∈ fields, f.1 ≠ name)
    (rest : List (String × Json)) : lookup name (fields ++ rest) = lookup name rest := by
  induction fields with
  | nil => rfl
  | cons f fields ih =>
    rw [List.cons_append, lookup, if_neg (h f List.mem_cons_self)]
    exact ih fun g hg => h g (List.mem_cons_of_mem f hg)

/-- Of the fields that an object is made of, the last one of a name is found. -/
theorem get_ofFields (fields : List (String × Json)) (name : String) :
    (ofFields fields).get name = lookup name fields.reverse := by
  rw [ofFields, get, List.foldl_eq_foldr_reverse]
  induction fields.reverse with
  | nil => rfl
  | cons f rest ih => rw [List.foldr_cons, lookup_putField, ih, lookup]

/-! ## Texts given by their characters -/

/-- What a text of some characters is read as, without the text itself. -/
def ofChars? {α : Type} (r : Reader α) (cs : List Char) : Option α := do
  let (d, rest) ← Document.takeDocument (2 * cs.length + 2) cs
  if (Document.skipSpace rest).isEmpty then r nestingLimit d else none

theorem ofText?_ofList {α : Type} (r : Reader α) (cs : List Char) :
    r.ofText? (String.ofList cs) = ofChars? r cs := by
  rw [Reader.ofText?, Document.parse, String.toList_ofList, ofChars?]
  cases Document.takeDocument (2 * cs.length + 2) cs with
  | none => rfl
  | some p =>
    dsimp
    split <;> rfl

end ChainIndex.Json
