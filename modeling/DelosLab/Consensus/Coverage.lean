import DelosLab.Consensus.Quorum

/-!
# Replicated prefixes

Replicas hold entries at the positions of a log. A tail is known when a majority
covers every position below it. Replicas learn entries out of order, so what one of
them says about its own tail is weaker: every position below it is covered there
or on a majority.
-/

namespace Consensus

variable {A : Type}

/-- A majority covers every position below `tail`. -/
def KnownTail (members : List A) (covers : A → Nat → Prop) (tail : Nat) : Prop :=
  ∀ p < tail, Majority members fun a => covers a p

/-- `a` itself or a majority covers each position below `tail`. -/
def DenseTo (members : List A) (covers : A → Nat → Prop) (a : A) (tail : Nat) : Prop :=
  ∀ p < tail, covers a p ∨ Majority members fun b => covers b p

variable {members : List A} {covers covers' : A → Nat → Prop}

theorem KnownTail.mono {tail : Nat} (h : KnownTail members covers tail)
    (hc : ∀ a p, covers a p → covers' a p) : KnownTail members covers' tail :=
  fun p hp => (h p hp).mono fun a _ ha => hc a p ha

theorem DenseTo.mono {a : A} {tail : Nat} (h : DenseTo members covers a tail)
    (hc : ∀ a p, covers a p → covers' a p) : DenseTo members covers' a tail := by
  intro p hp
  rcases h p hp with ha | hm
  · exact .inl (hc a p ha)
  · exact .inr (hm.mono fun b _ hb => hc b p hb)

theorem knownTail_zero : KnownTail members covers 0 := fun _ hp => absurd hp (Nat.not_lt_zero _)

theorem KnownTail.le {tail tail' : Nat} (h : KnownTail members covers tail) (hle : tail' ≤ tail) :
    KnownTail members covers tail' :=
  fun p hp => h p (Nat.lt_of_lt_of_le hp hle)

theorem KnownTail.max {tail tail' : Nat} (h : KnownTail members covers tail)
    (h' : KnownTail members covers tail') : KnownTail members covers (max tail tail') := by
  intro p hp
  have hor : p < tail ∨ p < tail' := by omega
  rcases hor with hp | hp
  · exact h p hp
  · exact h' p hp

/-- A known tail grows by the position behind it. -/
theorem KnownTail.succ {tail : Nat} (h : KnownTail members covers tail)
    (hp : Majority members fun a => covers a tail) : KnownTail members covers (tail + 1) := by
  intro p hlt
  rcases Nat.lt_succ_iff_lt_or_eq.mp hlt with hlt | rfl
  · exact h p hlt
  · exact hp

theorem KnownTail.denseTo {tail : Nat} (h : KnownTail members covers tail) (a : A) :
    DenseTo members covers a tail := fun p hp => .inr (h p hp)

theorem DenseTo.le {a : A} {tail tail' : Nat} (h : DenseTo members covers a tail)
    (hle : tail' ≤ tail) : DenseTo members covers a tail' :=
  fun p hp => h p (Nat.lt_of_lt_of_le hp hle)

/-- A tail that a majority has reached is known. -/
theorem knownTail_of_denseTo {tail : Nat}
    (h : Majority members fun a => DenseTo members covers a tail) :
    KnownTail members covers tail := by
  obtain ⟨Q, hQ, hdense⟩ := h
  intro p hp
  by_cases hall : ∀ a ∈ Q, covers a p
  · exact ⟨Q, hQ, hall⟩
  · -- A replica that lacks the position knows that a majority covers it.
    simp only [not_forall] at hall
    obtain ⟨a, ha, hnot⟩ := hall
    exact (hdense a ha p hp).resolve_left hnot

end Consensus
