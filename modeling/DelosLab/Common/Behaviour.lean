import Mathlib.Logic.Relation

/-!
# Specifications and simulations

A specification says in which states its behaviours begin and which steps they take. An
inductive invariant holds in every reachable state, and a simulation has a behaviour of the
one specification follow each path of the other.
-/

namespace Behaviour

/-- `Init ∧ □[Next]`. -/
structure Spec (σ : Type) where
  Init : σ → Prop
  Next : σ → σ → Prop

namespace Spec

variable {σ τ : Type}

/-- Some steps lead from one state to the other. -/
def Leads (S : Spec σ) : σ → σ → Prop := Relation.ReflTransGen S.Next

def Reachable (S : Spec σ) (s : σ) : Prop := ∃ s₀, S.Init s₀ ∧ S.Leads s₀ s

theorem Reachable.init {S : Spec σ} {s : σ} (h : S.Init s) : S.Reachable s := ⟨s, h, .refl⟩

theorem Reachable.leads {S : Spec σ} {s s' : σ} (h : S.Reachable s) (hl : S.Leads s s') :
    S.Reachable s' := by
  obtain ⟨s₀, hinit, hleads⟩ := h
  exact ⟨s₀, hinit, hleads.trans hl⟩

theorem Reachable.next {S : Spec σ} {s s' : σ} (h : S.Reachable s) (hn : S.Next s s') :
    S.Reachable s' :=
  h.leads (.single hn)

/-- A property that every behaviour begins with and every step keeps. -/
structure Inductive (S : Spec σ) (I : σ → Prop) : Prop where
  init : ∀ s, S.Init s → I s
  next : ∀ s s', I s → S.Next s s' → I s'

theorem Inductive.reachable {S : Spec σ} {I : σ → Prop} (hI : S.Inductive I) {s : σ}
    (h : S.Reachable s) : I s := by
  obtain ⟨s₀, hinit, hleads⟩ := h
  induction hleads with
  | refl => exact hI.init s₀ hinit
  | tail _ hn ih => exact hI.next _ _ ih hn

/-- Every step of `S` is answered by steps of `T`, from related states to related states. -/
structure Simulation (S : Spec σ) (T : Spec τ) (R : σ → τ → Prop) : Prop where
  init : ∀ s, S.Init s → ∃ t, T.Init t ∧ R s t
  next : ∀ s s' t, T.Reachable t → R s t → S.Next s s' → ∃ t', T.Leads t t' ∧ R s' t'

namespace Simulation

variable {S : Spec σ} {T : Spec τ} {R : σ → τ → Prop}

/-- A whole path of `S` is followed by a behaviour of `T`. -/
theorem path (h : S.Simulation T R) (a : Nat → σ) (hinit : S.Init (a 0)) (n : Nat)
    (hnext : ∀ i < n, S.Next (a i) (a (i + 1))) :
    ∃ b : Nat → τ, T.Init (b 0) ∧ (∀ i ≤ n, T.Reachable (b i) ∧ R (a i) (b i)) ∧
      ∀ i < n, T.Leads (b i) (b (i + 1)) := by
  induction n with
  | zero =>
      obtain ⟨t, ht, hr⟩ := h.init (a 0) hinit
      refine ⟨fun _ => t, ht, fun i hi => ?_, fun i hi => absurd hi (Nat.not_lt_zero i)⟩
      obtain rfl := Nat.le_zero.mp hi
      exact ⟨.init ht, hr⟩
  | succ n ih =>
      obtain ⟨b, hb, hrel, hleads⟩ := ih fun i hi => hnext i (Nat.lt_succ_of_lt hi)
      obtain ⟨hreach, hr⟩ := hrel n (Nat.le_refl n)
      obtain ⟨t, hl, hr'⟩ := h.next _ _ (b n) hreach hr (hnext n (Nat.lt_succ_self n))
      let b' : Nat → τ := fun i => if i ≤ n then b i else t
      have hold : ∀ i ≤ n, b' i = b i := fun i hi => if_pos hi
      have hnew : b' (n + 1) = t := if_neg (Nat.not_succ_le_self n)
      refine ⟨b', by rwa [hold 0 (Nat.zero_le n)], fun i hi => ?_, fun i hi => ?_⟩
      · rcases Nat.lt_or_eq_of_le hi with hlt | rfl
        · rw [hold i (Nat.le_of_lt_succ hlt)]
          exact hrel i (Nat.le_of_lt_succ hlt)
        · rw [hnew]
          exact ⟨hreach.leads hl, hr'⟩
      · rw [hold i (Nat.le_of_lt_succ hi)]
        rcases Nat.lt_or_eq_of_le (Nat.le_of_lt_succ hi) with hlt | rfl
        · rw [hold (i + 1) hlt]
          exact hleads i hlt
        · rw [hnew]
          exact hl

end Simulation

end Spec

end Behaviour
