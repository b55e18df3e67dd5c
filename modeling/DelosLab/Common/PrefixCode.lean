import Mathlib.Data.List.Basic

/-!
# Prefix codes

A code whose words can be told from each other wherever they stand. A sequence of words can
then be read back, also in front of a separator that begins no word.
-/

namespace DelosLab

variable {α β : Type} {code : α → List β}

/-- No word of `code` is empty or begins another one. -/
structure PrefixCode (code : α → List β) : Prop where
  ne_nil : ∀ a, code a ≠ []
  unique : ∀ a b l r, code a ++ l = code b ++ r → a = b ∧ l = r

/-- `separator` begins no word of `code`. -/
def Separates (code : α → List β) (separator : β) : Prop :=
  ∀ a l r, code a ++ l ≠ separator :: r

namespace PrefixCode

/-- What is written before a separator can be read back, and so can what follows it. -/
theorem split (h : PrefixCode code) {separator : β} (hsep : Separates code separator)
    (xs ys : List α) (l r : List β)
    (heq : xs.flatMap code ++ separator :: l = ys.flatMap code ++ separator :: r) :
    xs = ys ∧ l = r := by
  induction xs generalizing ys with
  | nil =>
      cases ys with
      | nil =>
          cases heq
          exact ⟨rfl, rfl⟩
      | cons y ys =>
          rw [List.flatMap_cons, List.append_assoc] at heq
          exact absurd heq.symm (hsep y _ l)
  | cons x xs ih =>
      rw [List.flatMap_cons, List.append_assoc] at heq
      cases ys with
      | nil => exact absurd heq (hsep x _ r)
      | cons y ys =>
          rw [List.flatMap_cons, List.append_assoc] at heq
          obtain ⟨rfl, hrest⟩ := h.unique x y _ _ heq
          obtain ⟨rfl, rfl⟩ := ih ys hrest
          exact ⟨rfl, rfl⟩

/-- A sequence of words can be read back. -/
theorem flatMap_inj (h : PrefixCode code) (xs ys : List α)
    (heq : xs.flatMap code = ys.flatMap code) : xs = ys := by
  induction xs generalizing ys with
  | nil =>
      cases ys with
      | nil => rfl
      | cons y ys =>
          rw [List.flatMap_cons] at heq
          exact absurd (List.append_eq_nil_iff.mp heq.symm).1 (h.ne_nil y)
  | cons x xs ih =>
      cases ys with
      | nil =>
          rw [List.flatMap_cons] at heq
          exact absurd (List.append_eq_nil_iff.mp heq).1 (h.ne_nil x)
      | cons y ys =>
          rw [List.flatMap_cons, List.flatMap_cons] at heq
          obtain ⟨rfl, hrest⟩ := h.unique x y _ _ heq
          rw [ih ys hrest]

end PrefixCode

end DelosLab
