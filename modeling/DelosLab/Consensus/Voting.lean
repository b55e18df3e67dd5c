import Mathlib.Order.Basic
import Mathlib.Order.Lattice
import DelosLab.Consensus.Quorum

/-!
# Voting by ballots

What acceptors have voted for and which ballots they have closed. A value is safe
at a ballot when no other value can ever be chosen at a lower one; a protocol that
proposes only safe values, one at each ballot, chooses at most one value.
-/

namespace Consensus

variable {A B V : Type}

/-- The votes cast so far, and for each acceptor the ballots it votes at no more. -/
structure Votes (A B V : Type) where
  voted : A → B → V → Prop
  closed : A → B → Prop

/-- A majority voted for `v` at `b`. -/
def Chosen (members : List A) (s : Votes A B V) (b : B) (v : V) : Prop :=
  Majority members fun a => s.voted a b v

/-- At every lower ballot a majority has voted for `v` or will never vote. -/
def SafeAt [LT B] (members : List A) (s : Votes A B V) (b : B) (v : V) : Prop :=
  ∀ c < b, Majority members fun a => s.voted a c v ∨ (s.closed a c ∧ ∀ u, ¬s.voted a c u)

/-- Votes and closed ballots stay, and no vote is cast at a closed ballot. -/
structure Votes.Grow (s s' : Votes A B V) : Prop where
  voted : ∀ a b v, s.voted a b v → s'.voted a b v
  closed : ∀ a b, s.closed a b → s'.closed a b
  late : ∀ a b v, s'.voted a b v → s.closed a b → s.voted a b v

/-- Proposals are safe, one value at each ballot, and all that is voted for. -/
structure Disciplined [LT B] (members : List A) (proposed : B → V → Prop) (s : Votes A B V) :
    Prop where
  unique : ∀ b v u, proposed b v → proposed b u → v = u
  safe : ∀ b v, proposed b v → SafeAt members s b v
  voted : ∀ a b v, s.voted a b v → proposed b v

theorem Votes.Grow.refl (s : Votes A B V) : s.Grow s :=
  ⟨fun _ _ _ h => h, fun _ _ h => h, fun _ _ _ h _ => h⟩

theorem Votes.Grow.trans {s₁ s₂ s₃ : Votes A B V} (h : s₁.Grow s₂) (h' : s₂.Grow s₃) :
    s₁.Grow s₃ where
  voted := fun a b v hv => h'.voted a b v (h.voted a b v hv)
  closed := fun a b hc => h'.closed a b (h.closed a b hc)
  late := fun a b v hv hc => h.late a b v (h'.late a b v hv (h.closed a b hc)) hc

theorem Chosen.mono {members : List A} {s s' : Votes A B V} {b : B} {v : V}
    (h : Chosen members s b v) (hg : s.Grow s') : Chosen members s' b v :=
  Majority.mono h fun a _ hv => hg.voted a b v hv

section Order

variable [LinearOrder B] {members : List A} {s s' : Votes A B V} {proposed : B → V → Prop}

theorem SafeAt.mono {b : B} {v : V} (h : SafeAt members s b v) (hg : s.Grow s') :
    SafeAt members s' b v := by
  intro c hc
  refine (h c hc).mono fun a _ ha => ?_
  rcases ha with hv | ⟨hclosed, hnone⟩
  · exact .inl (hg.voted a c v hv)
  · exact .inr ⟨hg.closed a c hclosed, fun u hu => hnone u (hg.late a c u hu hclosed)⟩

/-- A safe value at a higher ballot is the chosen one. -/
theorem Disciplined.eq_of_safeAt (h : Disciplined members proposed s) {b c : B} {v u : V}
    (hchosen : Chosen members s c v) (hsafe : SafeAt members s b u) (hcb : c < b) : u = v := by
  obtain ⟨a, -, hv, ha⟩ := Majority.inter hchosen (hsafe c hcb)
  rcases ha with hu | ⟨-, hnone⟩
  · exact h.unique c u v (h.voted a c u hu) (h.voted a c v hv)
  · exact absurd hv (hnone v)

/-- What a majority voted for was proposed. -/
theorem Disciplined.proposed_of_chosen (h : Disciplined members proposed s) {b : B} {v : V}
    (hchosen : Chosen members s b v) : proposed b v := by
  obtain ⟨a, -, hv, -⟩ := Majority.inter hchosen hchosen
  exact h.voted a b v hv

/-- **At most one value is chosen**, whatever the ballots. -/
theorem Disciplined.agreement (h : Disciplined members proposed s) {b c : B} {v u : V}
    (hv : Chosen members s b v) (hu : Chosen members s c u) : v = u := by
  have hpv := h.proposed_of_chosen hv
  have hpu := h.proposed_of_chosen hu
  rcases lt_trichotomy b c with hbc | rfl | hcb
  · exact (h.eq_of_safeAt hv (h.safe c u hpu) hbc).symm
  · exact h.unique b v u hpv hpu
  · exact h.eq_of_safeAt hu (h.safe b v hpv) hcb

/-- What an acceptor that has closed everything below `b` reports: its last vote
below `b`, if it has one. -/
def Reports (s : Votes A B V) (b : B) (a : A) : Option (B × V) → Prop
  | none => ∀ c < b, s.closed a c ∧ ∀ u, ¬s.voted a c u
  | some (c, v) => (∀ d < b, s.closed a d) ∧ s.voted a c v ∧
      ∀ d < b, c < d → ∀ u, ¬s.voted a d u

theorem Reports.closed {b : B} {a : A} {r : Option (B × V)} (h : Reports s b a r) :
    ∀ c < b, s.closed a c := by
  cases r with
  | none => exact fun c hc => (h c hc).1
  | some r => exact h.1

/-- A report stays true, since the ballots it is about are closed. -/
theorem Reports.mono {b : B} {a : A} {r : Option (B × V)} (h : Reports s b a r)
    (hg : s.Grow s') : Reports s' b a r := by
  have hclosed : ∀ c < b, s'.closed a c := fun c hc => hg.closed a c (h.closed c hc)
  cases r with
  | none =>
      intro c hc
      exact ⟨hclosed c hc, fun u hu => (h c hc).2 u (hg.late a c u hu (h.closed c hc))⟩
  | some r =>
      refine ⟨hclosed, hg.voted a r.1 r.2 h.2.1, fun d hd hlt u hu => ?_⟩
      exact h.2.2 d hd hlt u (hg.late a d u hu (h.closed d hd))

/-- What a proposer may adopt from the reports of a majority: the value of a
highest reported vote, or anything when there is none. -/
inductive Adopts (Q : List A) (report : A → Option (B × V)) (b : B) (v : V) : Prop
  | free (h : ∀ a ∈ Q, report a = none)
  | highest (c : B) (a : A) (ha : a ∈ Q) (hr : report a = some (c, v)) (hcb : c < b)
      (hmax : ∀ a' ∈ Q, ∀ c' v', report a' = some (c', v') → c' ≤ c)

/-- Nobody in `Q` has voted above the highest report. -/
theorem not_voted_above {Q : List A} {report : A → Option (B × V)} {b c : B} {a : A}
    (ha : a ∈ Q) (hr : Reports s b a (report a))
    (hmax : ∀ a' ∈ Q, ∀ c' v', report a' = some (c', v') → c' ≤ c) {d : B} (hcd : c < d)
    (hdb : d < b) : ∀ u, ¬s.voted a d u := by
  cases hrep : report a with
  | none =>
      rw [hrep] at hr
      exact (hr d hdb).2
  | some r =>
      rw [hrep] at hr
      exact hr.2.2 d hdb (lt_of_le_of_lt (hmax a ha r.1 r.2 hrep) hcd)

/-- **An adopted value is safe.** -/
theorem Disciplined.safeAt_of_adopts (h : Disciplined members proposed s) {Q : List A}
    (hQ : IsQuorum members Q) {report : A → Option (B × V)} {b : B} {v : V}
    (hr : ∀ a ∈ Q, Reports s b a (report a)) (ha : Adopts Q report b v) :
    SafeAt members s b v := by
  cases ha with
  | free hnone =>
      refine fun c hc => ⟨Q, hQ, fun a ha => .inr ?_⟩
      have hra := hr a ha
      rw [hnone a ha] at hra
      exact hra c hc
  | highest c a ha hrep hcb hmax =>
      have hvote : s.voted a c v := by
        have hra := hr a ha
        rw [hrep] at hra
        exact hra.2.1
      intro d hd
      rcases lt_trichotomy d c with hdc | rfl | hcd
      · -- Below the adopted vote: its own proposal was safe.
        exact h.safe c v (h.voted a c v hvote) d hdc
      · -- At its ballot everybody voted for the adopted value or not at all.
        refine ⟨Q, hQ, fun a' ha' => ?_⟩
        by_cases hvoted : ∃ u, s.voted a' d u
        · obtain ⟨u, hu⟩ := hvoted
          rw [h.unique d u v (h.voted a' d u hu) (h.voted a d v hvote)] at hu
          exact .inl hu
        · exact .inr ⟨(hr a' ha').closed d hd, fun u hu => hvoted ⟨u, hu⟩⟩
      · -- Above it nobody has voted or will.
        exact ⟨Q, hQ, fun a' ha' => .inr ⟨(hr a' ha').closed d hd,
          not_voted_above ha' (hr a' ha') hmax hcd hd⟩⟩

end Order

end Consensus
