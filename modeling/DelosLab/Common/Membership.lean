import Mathlib.Data.List.Nodup

/-!
# Names and fixed memberships
-/

namespace DelosLab

/-- A task of the event loop of one process (or of one client instance). -/
@[ext] structure TaskId where
  node : String
  number : Nat
deriving DecidableEq

/-- `quorum_size`; `none` is the `ValueError` for fewer than three members. -/
def quorumSize (count : Nat) : Option Nat :=
  if count < 3 then none else some (count / 2 + 1)

/-- What `validate_fixed_members` accepts. -/
structure FixedMembers where
  members : List String
  size : 3 ≤ members.length
  nodup : members.Nodup
  named : ∀ m ∈ members, m ≠ ""
deriving DecidableEq

/-- The quorum of a validated membership. -/
def FixedMembers.quorum (m : FixedMembers) : Nat := m.members.length / 2 + 1

/-! ## The names in the example deployments -/

theorem a_named : "a" ≠ "" := by decide

theorem b_named : "b" ≠ "" := by decide

theorem c_named : "c" ≠ "" := by decide

theorem initial_named : "initial" ≠ "" := by decide

theorem three_positive : 1 ≤ 3 := by decide

/-- Three nodes. -/
def FixedMembers.abc : FixedMembers := ⟨["a", "b", "c"], by decide, by decide, by decide⟩

theorem FixedMembers.a_mem_abc : "a" ∈ abc.members := by decide

end DelosLab
