import Mathlib.Data.List.Forall2
import Mathlib.Data.List.Nodup
import Mathlib.Logic.Function.Basic
import Mathlib.Data.List.Perm.Subperm

/-!
# Majorities of a fixed list of members

Two majorities of one list share a member. Everything that a protocol concludes
from the answers of a majority goes through that fact.
-/

namespace Consensus

variable {A : Type}

/-- `Q` is a majority of `members`. -/
structure IsQuorum (members Q : List A) : Prop where
  nodup : Q.Nodup
  subset : Q ⊆ members
  large : members.length < 2 * Q.length

/-- Some majority satisfies `p`. -/
def Majority (members : List A) (p : A → Prop) : Prop :=
  ∃ Q, IsQuorum members Q ∧ ∀ a ∈ Q, p a

/-- Two majorities share a member. -/
theorem IsQuorum.inter {members Q R : List A} (hQ : IsQuorum members Q)
    (hR : IsQuorum members R) : ∃ a, a ∈ Q ∧ a ∈ R := by
  by_contra hne
  have hdisjoint : Q.Disjoint R := fun a ha hb => hne ⟨a, ha, hb⟩
  have hnodup : (Q ++ R).Nodup := hQ.nodup.append hR.nodup hdisjoint
  have hsubset : Q ++ R ⊆ members := List.append_subset.mpr ⟨hQ.subset, hR.subset⟩
  have hlen := (hnodup.subperm hsubset).length_le
  rw [List.length_append] at hlen
  have := hQ.large
  have := hR.large
  omega

theorem Majority.mono {members : List A} {p q : A → Prop} (h : Majority members p)
    (hpq : ∀ a ∈ members, p a → q a) : Majority members q := by
  obtain ⟨Q, hQ, hp⟩ := h
  exact ⟨Q, hQ, fun a ha => hpq a (hQ.subset ha) (hp a ha)⟩

/-- What holds on two majorities holds together somewhere. -/
theorem Majority.inter {members : List A} {p q : A → Prop} (hp : Majority members p)
    (hq : Majority members q) : ∃ a ∈ members, p a ∧ q a := by
  obtain ⟨Q, hQ, hpQ⟩ := hp
  obtain ⟨R, hR, hqR⟩ := hq
  obtain ⟨a, ha, hb⟩ := hQ.inter hR
  exact ⟨a, hQ.subset ha, hpQ a ha, hqR a hb⟩

/-- The members that pass a test are a majority when there are enough of them. -/
theorem isQuorum_filter {members : List A} (hnodup : members.Nodup) {p : A → Bool}
    (h : members.length / 2 + 1 ≤ (members.filter p).length) :
    IsQuorum members (members.filter p) where
  nodup := hnodup.filter p
  subset := List.filter_subset_self members
  large := by omega

theorem majority_of_filter {members : List A} (hnodup : members.Nodup) {p : A → Bool}
    (h : members.length / 2 + 1 ≤ (members.filter p).length) :
    Majority members fun a => p a = true :=
  ⟨_, isQuorum_filter hnodup h, fun _ ha => (List.mem_filter.mp ha).2⟩

/-- A majority satisfies a test exactly when enough members pass it. -/
theorem majority_iff_filter {members : List A} (hnodup : members.Nodup) {p : A → Prop}
    [DecidablePred p] :
    Majority members p ↔ members.length / 2 + 1 ≤ (members.filter fun a => p a).length := by
  constructor
  · rintro ⟨Q, hQ, hp⟩
    have hsubset : Q ⊆ members.filter fun a => p a := fun a ha =>
      List.mem_filter.mpr ⟨hQ.subset ha, decide_eq_true (hp a ha)⟩
    have hle := (hQ.nodup.subperm hsubset).length_le
    have hlarge := hQ.large
    omega
  · intro hlen
    exact (majority_of_filter hnodup hlen).mono fun _ _ ha => of_decide_eq_true ha

/-! ## Gathered answers

A call to every member gives one answer a member, or none where the call failed. -/

/-- What the answers of the members say, each about the member that gave it. -/
abbrev Gathered {R : Type} (p : A → R → Prop) : List A → List (Option R) → Prop :=
  List.Forall₂ fun a answer => ∀ r, answer = some r → p a r

/-- The members whose answers pass a test, and those answers, member by member. -/
theorem Gathered.responders {R : Type} {p : A → R → Prop} {members : List A}
    {answers : List (Option R)} (h : Gathered p members answers) (hnodup : members.Nodup)
    (test : R → Bool) :
    ∃ (Q : List A) (answer : A → Option R), Q.Sublist members ∧
      Q.map answer = ((answers.filterMap id).filter test).map some ∧
      ∀ a ∈ Q, ∀ r, answer a = some r → p a r ∧ test r = true := by
  classical
  induction h with
  | nil => exact ⟨[], fun _ => none, List.Sublist.refl _, rfl, nofun⟩
  | @cons a o members answers ha _ ih =>
      obtain ⟨hnotin, hnodup⟩ := List.nodup_cons.mp hnodup
      obtain ⟨Q, answer, hsub, hmap, hp⟩ := ih hnodup
      by_cases htest : ∃ r, o = some r ∧ test r = true
      · obtain ⟨r, rfl, hr⟩ := htest
        -- `a` joins; nobody else has its name.
        have hne : ∀ b ∈ Q, b ≠ a := fun b hb hba => hnotin (hba ▸ hsub.subset hb)
        refine ⟨a :: Q, Function.update answer a (some r), hsub.cons_cons a, ?_, ?_⟩
        · have hrest : Q.map (Function.update answer a (some r)) = Q.map answer :=
            List.map_congr_left fun b hb => Function.update_of_ne (hne b hb) _ _
          rw [List.map_cons, Function.update_self, hrest, hmap]
          simp [hr]
        · intro b hb r' hr'
          rcases List.mem_cons.mp hb with rfl | hb
          · rw [Function.update_self] at hr'
            obtain rfl := Option.some.inj hr'
            exact ⟨ha r rfl, hr⟩
          · rw [Function.update_of_ne (hne b hb)] at hr'
            exact hp b hb r' hr'
      · refine ⟨Q, answer, hsub.cons a, ?_, hp⟩
        rw [hmap]
        cases o with
        | none => rfl
        | some r =>
            have hr : test r = false := Bool.of_not_eq_true fun hr => htest ⟨r, rfl, hr⟩
            simp [hr]

/-- Enough answers that pass a test come from a majority. -/
theorem Gathered.quorum {R : Type} {p : A → R → Prop} {members : List A}
    {answers : List (Option R)} (h : Gathered p members answers) (hnodup : members.Nodup)
    {test : R → Bool}
    (hlen : members.length / 2 + 1 ≤ ((answers.filterMap id).filter test).length) :
    ∃ (Q : List A) (answer : A → Option R), IsQuorum members Q ∧
      Q.map answer = ((answers.filterMap id).filter test).map some ∧
      ∀ a ∈ Q, ∀ r, answer a = some r → p a r ∧ test r = true := by
  obtain ⟨Q, answer, hsub, hmap, hp⟩ := h.responders hnodup test
  have hQ : Q.length = ((answers.filterMap id).filter test).length := by
    have := congrArg List.length hmap
    rwa [List.length_map, List.length_map] at this
  exact ⟨Q, answer, ⟨hsub.nodup hnodup, hsub.subset, by omega⟩, hmap, hp⟩

theorem Gathered.mem {R : Type} {p : A → R → Prop} {members : List A}
    {answers : List (Option R)} (h : Gathered p members answers) {r : R}
    (hr : r ∈ answers.filterMap id) : ∃ a ∈ members, p a r := by
  induction h with
  | nil => cases hr
  | @cons a o members answers ha _ ih =>
      rcases List.mem_filterMap.mp hr with ⟨o', ho', heq⟩
      rcases List.mem_cons.mp ho' with rfl | ho'
      · exact ⟨a, List.mem_cons_self, ha r heq⟩
      · obtain ⟨b, hb, hp⟩ := ih (List.mem_filterMap.mpr ⟨o', ho', heq⟩)
        exact ⟨b, List.mem_cons_of_mem _ hb, hp⟩

theorem Gathered.mono {R : Type} {p q : A → R → Prop} {members : List A}
    {answers : List (Option R)} (h : Gathered p members answers) (hpq : ∀ a r, p a r → q a r) :
    Gathered q members answers :=
  h.imp fun a _ ha r hr => hpq a r (ha r hr)

end Consensus
