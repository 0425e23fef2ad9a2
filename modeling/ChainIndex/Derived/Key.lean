import ChainIndex.Derived.Basic

/-!
# The order of derived keys

Keys of two texts are ordered by the first text, then by the second, both bytewise.
-/

namespace ChainIndex.Derived

open Std

/-- The order by two texts tells keys apart that differ in one of them. -/
theorem lawfulEqCmp_compareLex {κ : Type} {f g : κ → String}
    (h : ∀ {a b}, f a = f b → g a = g b → a = b) :
    LawfulEqCmp (compareLex (compareOn f) (compareOn g)) where
  compare_self {k} := by
    show (compare (f k) (f k)).then (compare (g k) (g k)) = .eq
    rw [ReflOrd.compare_self, ReflOrd.compare_self]
    rfl
  eq_of_compare {a b} hab := by
    have hab : (compare (f a) (f b)).then (compare (g a) (g b)) = .eq := hab
    rw [Ordering.then_eq_eq] at hab
    exact h (LawfulEqCmp.eq_of_compare hab.1) (LawfulEqCmp.eq_of_compare hab.2)

instance : Ord FrameKey := ⟨compareLex (compareOn FrameKey.txHash) (compareOn FrameKey.traceAddress)⟩

instance : TransOrd FrameKey :=
  inferInstanceAs (TransCmp (compareLex (compareOn FrameKey.txHash) (compareOn FrameKey.traceAddress)))

instance : LawfulEqOrd FrameKey :=
  lawfulEqCmp_compareLex fun {a b} h₁ h₂ => by cases a; cases b; simp_all

instance : Ord ConfirmationKey :=
  ⟨compareLex (compareOn ConfirmationKey.multisigHash) (compareOn ConfirmationKey.owner)⟩

instance : TransOrd ConfirmationKey :=
  inferInstanceAs
    (TransCmp (compareLex (compareOn ConfirmationKey.multisigHash) (compareOn ConfirmationKey.owner)))

instance : LawfulEqOrd ConfirmationKey :=
  lawfulEqCmp_compareLex fun {a b} h₁ h₂ => by cases a; cases b; simp_all

end ChainIndex.Derived
