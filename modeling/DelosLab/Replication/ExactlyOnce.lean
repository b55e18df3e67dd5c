import Mathlib.Logic.Function.Basic

/-!
# Replaying a log exactly once

A replica applies the commands of a log in the order of their positions. A log may
hold one command more than once; the first command of each identity takes effect, and
every later one of that identity gets the first one's result. The log may be sparse.
-/

namespace Replication

/-- A deterministic state machine whose commands carry an identity. -/
structure Machine (σ Cmd Id R : Type) where
  init : σ
  step : σ → Cmd → σ × R
  identity : Cmd → Id

/-- What a replay has made of a prefix of the log: the state, the first command of each
identity, and what was applied at each position, with the results. -/
structure Replay (σ Cmd Id R : Type) where
  state : σ
  first : Id → Option (Cmd × R)
  applied : Nat → Option (Cmd × R)

variable {σ Cmd Id R : Type} [DecidableEq Id]

namespace Machine

variable (M : Machine σ Cmd Id R)

def start : Replay σ Cmd Id R := ⟨M.init, fun _ => none, fun _ => none⟩

/-- Apply the command at position `p`. -/
def apply (r : Replay σ Cmd Id R) (p : Nat) (c : Cmd) : Replay σ Cmd Id R :=
  match r.first (M.identity c) with
  | some prior => { r with applied := Function.update r.applied p (some (c, prior.2)) }
  | none =>
      let outcome := M.step r.state c
      { state := outcome.1
        first := Function.update r.first (M.identity c) (some (c, outcome.2))
        applied := Function.update r.applied p (some (c, outcome.2)) }

/-- Replay the positions below `n`. -/
def replay (log : Nat → Option Cmd) : Nat → Replay σ Cmd Id R
  | 0 => M.start
  | n + 1 =>
      match log n with
      | some c => M.apply (replay log n) n c
      | none => replay log n

variable {M} {log log' : Nat → Option Cmd}

/-! ## One command -/

/-- The result of a command is that of the first command of its identity. -/
theorem apply_first (r : Replay σ Cmd Id R) (p : Nat) (c : Cmd) :
    ∃ prior, (M.apply r p c).first (M.identity c) = some prior ∧
      (M.apply r p c).applied p = some (c, prior.2) ∧
        (∀ x, r.first (M.identity c) = some x → x = prior) := by
  cases h : r.first (M.identity c) with
  | some prior =>
      refine ⟨prior, ?_, ?_, fun x hx => (Option.some.inj hx).symm⟩
      · rw [apply, h]
        exact h
      · rw [apply, h]
        exact Function.update_self _ _ _
  | none =>
      refine ⟨(c, (M.step r.state c).2), ?_, ?_, nofun⟩
      · rw [apply, h]
        exact Function.update_self _ _ _
      · rw [apply, h]
        exact Function.update_self _ _ _

/-- The first command of an identity stays the first one. -/
theorem first_apply {r : Replay σ Cmd Id R} {id : Id} {x : Cmd × R} (h : r.first id = some x)
    (p : Nat) (c : Cmd) : (M.apply r p c).first id = some x := by
  by_cases hid : id = M.identity c
  · obtain ⟨prior, hfirst, -, hprior⟩ := M.apply_first r p c
    rw [← hid] at hfirst hprior
    rw [hfirst, hprior x h]
  · unfold apply
    split
    · exact h
    · exact (Function.update_of_ne hid _ _).trans h

theorem applied_apply {r : Replay σ Cmd Id R} {p q : Nat} (hpq : q ≠ p) (c : Cmd) :
    (M.apply r p c).applied q = r.applied q := by
  unfold apply
  split
  · exact Function.update_of_ne hpq _ _
  · exact Function.update_of_ne hpq _ _

/-! ## Prefixes -/

theorem replay_succ_some {n : Nat} {c : Cmd} (h : log n = some c) :
    M.replay log (n + 1) = M.apply (M.replay log n) n c := by
  rw [replay, h]

theorem replay_succ_none {n : Nat} (h : log n = none) :
    M.replay log (n + 1) = M.replay log n := by
  rw [replay, h]

/-- A replay depends on the positions that it has replayed. -/
theorem replay_congr {n : Nat} (h : ∀ p < n, log p = log' p) :
    M.replay log n = M.replay log' n := by
  induction n with
  | zero => rfl
  | succ n ih =>
      rw [replay, replay, h n (Nat.lt_succ_self n), ih fun p hp => h p (Nat.lt_succ_of_lt hp)]

/-- Positions without a command change nothing. -/
theorem replay_skip {m n : Nat} (hle : m ≤ n) (h : ∀ p, m ≤ p → p < n → log p = none) :
    M.replay log n = M.replay log m := by
  induction n with
  | zero => rw [Nat.le_zero.mp hle]
  | succ n ih =>
      rcases Nat.eq_or_lt_of_le hle with rfl | hlt
      · rfl
      · have hmn : m ≤ n := Nat.le_of_lt_succ hlt
        rw [replay_succ_none (h n hmn (Nat.lt_succ_self n))]
        exact ih hmn fun p hp hpn => h p hp (Nat.lt_succ_of_lt hpn)

theorem first_mono {m n : Nat} (hle : m ≤ n) {id : Id} {x : Cmd × R}
    (h : (M.replay log m).first id = some x) : (M.replay log n).first id = some x := by
  induction n with
  | zero => rwa [Nat.le_zero.mp hle] at h
  | succ n ih =>
      rcases Nat.eq_or_lt_of_le hle with rfl | hlt
      · exact h
      · have hn := ih (Nat.le_of_lt_succ hlt)
        cases hlog : log n with
        | none => rwa [replay_succ_none hlog]
        | some c =>
            rw [replay_succ_some hlog]
            exact first_apply hn n c

/-- What a replay has applied at a position, and what a longer one has. -/
theorem applied_of_lt {n p : Nat} (hp : p < n) :
    (M.replay log n).applied p = (M.replay log (p + 1)).applied p := by
  induction n with
  | zero => exact absurd hp (Nat.not_lt_zero _)
  | succ n ih =>
      rcases Nat.lt_succ_iff_lt_or_eq.mp hp with hlt | rfl
      · cases hlog : log n with
        | none => rw [replay_succ_none hlog, ih hlt]
        | some c => rw [replay_succ_some hlog, applied_apply (Nat.ne_of_lt hlt), ih hlt]
      · rfl

/-- Behind its prefix a replay has applied nothing. -/
theorem applied_of_le {n p : Nat} (hp : n ≤ p) : (M.replay log n).applied p = none := by
  induction n with
  | zero => rfl
  | succ n ih =>
      have hn := ih (Nat.le_of_succ_le hp)
      cases hlog : log n with
      | none => rwa [replay_succ_none hlog]
      | some c => rwa [replay_succ_some hlog, applied_apply (by omega)]

/-- A command that was replayed got the result of the first command of its identity. -/
theorem applied_eq {n p : Nat} {c : Cmd} (hp : p < n) (hlog : log p = some c) :
    ∃ prior, (M.replay log n).first (M.identity c) = some prior ∧
      (M.replay log n).applied p = some (c, prior.2) := by
  obtain ⟨prior, hfirst, happlied, -⟩ := M.apply_first (M.replay log p) p c
  rw [← replay_succ_some hlog] at hfirst happlied
  exact ⟨prior, first_mono hp hfirst, (applied_of_lt hp).trans happlied⟩

/-- What was applied at a position is its command. -/
theorem applied_some {n p : Nat} {x : Cmd × R} (h : (M.replay log n).applied p = some x) :
    log p = some x.1 := by
  have hp : p < n := by
    by_contra hge
    rw [applied_of_le (Nat.le_of_not_lt hge)] at h
    cases h
  cases hlog : log p with
  | none =>
      rw [applied_of_lt hp, replay_succ_none hlog, applied_of_le (Nat.le_refl p)] at h
      cases h
  | some c =>
      obtain ⟨prior, -, happlied⟩ := M.applied_eq hp hlog
      rw [happlied] at h
      rw [← Option.some.inj h]

/-- **Exactly once.** The first command of an identity is the one at its least position;
its result is what it does to the state that the replay of the positions before has
reached, and no other command of the identity is before it. -/
theorem first_some {n : Nat} {id : Id} {x : Cmd × R} (h : (M.replay log n).first id = some x) :
    ∃ p < n, log p = some x.1 ∧ M.identity x.1 = id ∧
      (∀ q < p, ∀ c, log q = some c → M.identity c ≠ id) ∧
        x.2 = (M.step (M.replay log p).state x.1).2 := by
  induction n with
  | zero => cases h
  | succ n ih =>
      cases hfirst : (M.replay log n).first id with
      | some y =>
          obtain rfl := Option.some.inj ((first_mono (Nat.le_succ n) hfirst).symm.trans h)
          obtain ⟨p, hp, hrest⟩ := ih hfirst
          exact ⟨p, Nat.lt_succ_of_lt hp, hrest⟩
      | none =>
          -- The command at `n` is the first of its identity.
          have hbefore : ∀ q < n, ∀ c, log q = some c → M.identity c ≠ id := by
            intro q hq c hc hid
            obtain ⟨prior, hprior, -⟩ := M.applied_eq hq hc
            rw [hid, hfirst] at hprior
            cases hprior
          cases hlog : log n with
          | none =>
              rw [replay_succ_none hlog, hfirst] at h
              cases h
          | some c =>
              rw [replay_succ_some hlog] at h
              by_cases hid : id = M.identity c
              · rw [hid] at hfirst h
                rw [apply, hfirst] at h
                simp only [Function.update_self] at h
                obtain rfl := Option.some.inj h
                exact ⟨n, Nat.lt_succ_self n, hlog, hid.symm, hbefore, rfl⟩
              · have hsame : (M.apply (M.replay log n) n c).first id =
                    (M.replay log n).first id := by
                  unfold apply
                  split
                  · rfl
                  · exact Function.update_of_ne hid _ _
                rw [hsame, hfirst] at h
                cases h

end Machine

end Replication
