import Mathlib.Data.List.Range

/-!
# The first value in a range of positions

A partial map of positions is searched from the bottom of a half-open range upwards.
-/

namespace DelosLab

variable {α : Type} {f g : Nat → Option α} {start stop : Nat}

/-- The value at the least position of `[start, stop)` that has one. -/
def firstIn (f : Nat → Option α) (start stop : Nat) : Option α :=
  ((List.range' start (stop - start)).find? fun p => (f p).isSome).bind f

theorem firstIn_eq_none :
    firstIn f start stop = none ↔ ∀ q, start ≤ q → q < stop → f q = none := by
  rw [firstIn]
  cases hfind : (List.range' start (stop - start)).find? fun p => (f p).isSome with
  | none =>
      have hnone := List.find?_range'_eq_none.mp hfind
      simp only [Option.bind_none, true_iff]
      intro q hq hq'
      have := hnone q hq (by omega)
      simpa using this
  | some p =>
      obtain ⟨hp, hmem, -⟩ := List.find?_range'_eq_some.mp hfind
      obtain ⟨hle, hlt⟩ := List.mem_range'_1.mp hmem
      obtain ⟨a, ha⟩ := Option.isSome_iff_exists.mp hp
      simp only [Option.bind_some, ha, reduceCtorEq, false_iff]
      intro hall
      rw [hall p hle (by omega)] at ha
      cases ha

theorem firstIn_eq_some {a : α} :
    firstIn f start stop = some a ↔
      ∃ p, start ≤ p ∧ p < stop ∧ f p = some a ∧ ∀ q, start ≤ q → q < p → f q = none := by
  rw [firstIn, Option.bind_eq_some_iff]
  constructor
  · rintro ⟨p, hfind, ha⟩
    obtain ⟨-, hmem, hbefore⟩ := List.find?_range'_eq_some.mp hfind
    obtain ⟨hle, hlt⟩ := List.mem_range'_1.mp hmem
    refine ⟨p, hle, by omega, ha, fun q hq hq' => ?_⟩
    simpa using hbefore q hq hq'
  · rintro ⟨p, hle, hlt, ha, hbefore⟩
    refine ⟨p, List.find?_range'_eq_some.mpr ⟨by rw [ha]; rfl, ?_, fun q hq hq' => ?_⟩, ha⟩
    · exact List.mem_range'_1.mpr ⟨hle, by omega⟩
    · simp [hbefore q hq hq']

theorem firstIn_singleton (p : Nat) : firstIn f p (p + 1) = f p := by
  have hrange : ∀ q, p ≤ q → q < p + 1 → q = p := fun q hq hq' => by omega
  cases hf : f p with
  | none =>
      rw [firstIn_eq_none]
      intro q hq hq'
      rw [hrange q hq hq', hf]
  | some a =>
      rw [firstIn_eq_some]
      exact ⟨p, Nat.le_refl p, Nat.lt_succ_self p, hf, fun q hq hq' => by omega⟩

end DelosLab
