import ChainIndex.Json.Value

/-!
# Equality of JSON values

Whether two values are the same can be decided, though a value holds lists of values: `same` goes through
both of them in step (`same_iff`).
-/

namespace ChainIndex.Json

mutual

/-- Whether two values are the same. -/
def same : Json → Json → Bool
  | null, null => true
  | bool a, bool b => decide (a = b)
  | num a, num b => decide (a = b)
  | str a, str b => decide (a = b)
  | arr vs, arr ws => sameItems vs ws
  | obj fields, obj fields' => sameFields fields fields'
  | _, _ => false

def sameItems : List Json → List Json → Bool
  | [], [] => true
  | v :: vs, w :: ws => same v w && sameItems vs ws
  | _, _ => false

def sameFields : List (String × Json) → List (String × Json) → Bool
  | [], [] => true
  | (name, v) :: rest, (name', w) :: rest' => decide (name = name') && same v w && sameFields rest rest'
  | _, _ => false

end

mutual

theorem same_iff : ∀ v w : Json, same v w = true ↔ v = w
  | null, w | bool _, w | num _, w | str _, w => by cases w <;> simp [same]
  | arr vs, w => by cases w <;> simp [same, sameItems_iff vs]
  | obj fields, w => by cases w <;> simp [same, sameFields_iff fields]

theorem sameItems_iff : ∀ vs ws : List Json, sameItems vs ws = true ↔ vs = ws
  | [], ws => by cases ws <;> simp [sameItems]
  | v :: vs, ws => by cases ws <;> simp [sameItems, same_iff v, sameItems_iff vs]

theorem sameFields_iff : ∀ fields fields' : List (String × Json),
    sameFields fields fields' = true ↔ fields = fields'
  | [], fields' => by cases fields' <;> simp [sameFields]
  | (name, v) :: rest, fields' => by
    rcases fields' with _ | ⟨⟨name', w⟩, rest'⟩
    · simp [sameFields]
    · simp [sameFields, same_iff v, sameFields_iff rest]

end

instance : DecidableEq Json := fun v w => decidable_of_iff _ (same_iff v w)

end ChainIndex.Json
