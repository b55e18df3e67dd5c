import DelosLab.Kv.System

/-!
# Tables that are a replay of the log

`Tables.applied` is what a transaction of `apply` leaves when it commits. The tables of a
store refine the abstract replay, and so they are a replay of the log through the position
that they name.
-/

namespace DelosLab.Kv

open Replication

/-- A replay of key-value commands. -/
abbrev KvReplay : Type := Replay KvValues KvCommandEnvelope (String × String) KvResult

namespace Tables

/-- The tables say what the replay says. -/
structure IsReplay (t : Tables) (r : KvReplay) : Prop where
  items : t.items = r.state
  requests : ∀ key, t.request key = r.first key
  entries : ∀ p, t.entryAt p = r.applied p

/-- The first position that is not applied. -/
def next (t : Tables) : Nat := (t.appliedPosition + 1).toNat

/-- The row of a request whose first position is `position`. -/
def newRow (position : Nat) (command : KvCommandEnvelope) (result : KvResult) : KvRequestRow :=
  ⟨command.clientId.val, command.requestId.val, command, result, position⟩

/-- The transaction of `apply` at a new position, and its result. -/
def applied (t : Tables) (position : Nat) (command : KvCommandEnvelope) : Tables × KvResult :=
  match t.request command.identity with
  | some prior =>
      ({ t with
          appliedEntries := t.appliedEntries ++ [⟨position, command, prior.2⟩]
          appliedPosition := position }, prior.2)
  | none =>
      let outcome := KvStateMachine.apply t.items command.operation
      ({ items := outcome.1
         requests := t.requests ++ [newRow position command outcome.2]
         appliedEntries := t.appliedEntries ++ [⟨position, command, outcome.2⟩]
         appliedPosition := position }, outcome.2)

variable {t : Tables} {r : KvReplay} {p : Nat} {c : KvCommandEnvelope}

theorem isReplay_empty : empty.IsReplay kvMachine.start := ⟨rfl, fun _ => rfl, fun _ => rfl⟩

/-- A table of requests with one more row. -/
theorem request_append (row : KvRequestRow) (key : String × String) :
    { t with requests := t.requests ++ [row] }.request key =
      (t.request key).or (if row.key = key then some (row.command, row.result) else none) := by
  unfold request
  rw [requestRow_append]
  cases t.requestRow key with
  | some found => rfl
  | none => by_cases h : row.key = key <;> simp [h]

theorem entryAt_append (row : KvAppliedRow) (q : Nat) :
    { t with appliedEntries := t.appliedEntries ++ [row] }.entryAt q =
      (t.entryAt q).or (if row.position = q then some (row.command, row.result) else none) := by
  unfold entryAt
  rw [entryRow_append]
  cases t.entryRow q with
  | some found => rfl
  | none => by_cases h : row.position = q <;> simp [h]

/-- An entry at a new position. -/
theorem entryAt_update (hnew : t.entryAt p = none) (result : KvResult) (q : Nat) :
    { t with appliedEntries := t.appliedEntries ++ [KvAppliedRow.mk p c result] }.entryAt q =
      Function.update t.entryAt p (some (c, result)) q := by
  rw [entryAt_append]
  by_cases h : q = p
  · subst h
    rw [hnew, Function.update_self]
    simp
  · rw [Function.update_of_ne h, if_neg (Ne.symm h), Option.or_none]

/-- A row of a new request. -/
theorem request_update (hnew : t.request c.identity = none) (result : KvResult)
    (key : String × String) :
    { t with requests := t.requests ++ [newRow p c result] }.request key =
      Function.update t.request c.identity (some (c, result)) key := by
  rw [request_append]
  by_cases h : key = c.identity
  · subst h
    rw [hnew, Function.update_self]
    exact if_pos rfl
  · rw [Function.update_of_ne h, if_neg fun heq => h heq.symm, Option.or_none]

/-- **The transaction refines one step of the replay.** -/
theorem IsReplay.applied (h : t.IsReplay r) (hnew : r.applied p = none) :
    (t.applied p c).1.IsReplay (kvMachine.apply r p c) ∧
      (kvMachine.apply r p c).applied p = some (c, (t.applied p c).2) := by
  have hentry : t.entryAt p = none := (h.entries p).trans hnew
  have hentries : t.entryAt = r.applied := funext h.entries
  have hrequests : t.request = r.first := funext h.requests
  unfold Tables.applied Machine.apply
  rw [h.requests]
  show _ ∧ _
  cases hprior : r.first c.identity with
  | some prior =>
      have hprior' : r.first (kvMachine.identity c) = some prior := hprior
      rw [hprior']
      refine ⟨⟨h.items, h.requests, fun q => ?_⟩, Function.update_self _ _ _⟩
      exact (entryAt_update hentry prior.2 q).trans (by rw [hentries])
  | none =>
      have hprior' : r.first (kvMachine.identity c) = none := hprior
      rw [hprior', ← h.items]
      refine ⟨⟨rfl, fun key => ?_, fun q => ?_⟩, Function.update_self _ _ _⟩
      · have hrow : t.request c.identity = none := (h.requests _).trans hprior
        exact (request_update hrow _ key).trans (by rw [hrequests]; rfl)
      · exact (entryAt_update hentry _ q).trans (by rw [hentries]; rfl)

end Tables

/-! ## Positions of the log that are fixed -/

/-- What the log has decided stays decided, and below `settled` nothing is added. -/
structure Grow (w w' : World) : Prop where
  log : ∀ p c, w.log p = some c → w'.log p = some c
  settled : w.settled ≤ w'.settled
  fixed : ∀ p < w.settled, w'.log p = w.log p

namespace Grow

theorem refl (w : World) : Grow w w := ⟨fun _ _ h => h, Nat.le_refl _, fun _ _ => rfl⟩

theorem of_eq {w w' : World} (hlog : w'.log = w.log) (hsettled : w'.settled = w.settled) :
    Grow w w' := by
  refine ⟨fun p c h => ?_, Nat.le_of_eq hsettled.symm, fun p _ => ?_⟩
  · rw [hlog]
    exact h
  · rw [hlog]

theorem trans {w₁ w₂ w₃ : World} (h : Grow w₁ w₂) (h' : Grow w₂ w₃) : Grow w₁ w₃ :=
  ⟨fun p c hp => h'.log p c (h.log p c hp), Nat.le_trans h.settled h'.settled,
    fun p hp => (h'.fixed p (Nat.lt_of_lt_of_le hp h.settled)).trans (h.fixed p hp)⟩

end Grow

namespace Deployment

variable {𝒮 : Deployment} {w w' : World} {p n : Nat}

/-- The entry at `p` carries another command than the first one of its request. -/
def Conflict (𝒮 : Deployment) (w : World) (p : Nat) : Prop :=
  ∃ c x, 𝒮.commands w p = some c ∧ (𝒮.replay w p).first c.identity = some x ∧ x.1 ≠ c

theorem commands_grow (hg : Grow w w') (hp : p < w.settled) :
    𝒮.commands w' p = 𝒮.commands w p := by
  rw [commands, commands, hg.fixed p hp]

theorem replay_grow (hg : Grow w w') (hn : n ≤ w.settled) : 𝒮.replay w' n = 𝒮.replay w n :=
  Machine.replay_congr fun _ hp => commands_grow hg (Nat.lt_of_lt_of_le hp hn)

theorem conflict_grow (hg : Grow w w') (hp : p < w.settled) :
    𝒮.Conflict w' p ↔ 𝒮.Conflict w p := by
  unfold Conflict
  rw [commands_grow hg hp, replay_grow hg (Nat.le_of_lt hp)]

/-- The first command of a request, once replayed, is the first for good. -/
theorem first_grow (hg : Grow w w') {key : String × String} {x : KvCommandEnvelope × KvResult}
    (h : (𝒮.replay w w.settled).first key = some x) :
    (𝒮.replay w' w'.settled).first key = some x :=
  Machine.first_mono hg.settled (by
    rw [← replay_grow hg (Nat.le_refl _)] at h
    exact h)

end Deployment

/-- The tables are the replay of the log through their applied position, which is settled;
what they have applied is valid and in no conflict. -/
structure Replays (𝒮 : Deployment) (w : World) (t : Tables) : Prop where
  low : -1 ≤ t.appliedPosition
  settled : t.appliedPosition < w.settled
  shape : t.IsReplay (𝒮.replay w t.next)
  valid : ∀ p < t.next, w.log p ≠ none → 𝒮.commands w p ≠ none
  agreed : ∀ p < t.next, ¬𝒮.Conflict w p

namespace Replays

variable {𝒮 : Deployment} {w w' : World} {t : Tables} {p : Nat} {c : KvCommandEnvelope}

theorem next_le (h : Replays 𝒮 w t) : t.next ≤ w.settled := by
  have := h.low
  have := h.settled
  unfold Tables.next
  omega

theorem next_eq (h : Replays 𝒮 w t) : (t.next : Int) = t.appliedPosition + 1 := by
  have := h.low
  unfold Tables.next
  omega

theorem mono (h : Replays 𝒮 w t) (hg : Grow w w') : Replays 𝒮 w' t := by
  have hlt : ∀ {p}, p < t.next → p < w.settled := fun hp => Nat.lt_of_lt_of_le hp h.next_le
  refine ⟨h.low, ?_, ?_, fun p hp hlog => ?_, fun p hp => ?_⟩
  · have := h.settled
    have := hg.settled
    omega
  · rw [Deployment.replay_grow hg h.next_le]
    exact h.shape
  · rw [Deployment.commands_grow hg (hlt hp)]
    exact h.valid p hp ((hg.fixed p (hlt hp)) ▸ hlog)
  · rw [Deployment.conflict_grow hg (hlt hp)]
    exact h.agreed p hp

/-- What a row of requests says is the first command of the request in the log. -/
theorem first (h : Replays 𝒮 w t) {key : String × String} {x : KvCommandEnvelope × KvResult}
    (hx : t.request key = some x) : (𝒮.replay w w.settled).first key = some x :=
  Machine.first_mono h.next_le ((h.shape.requests key).symm.trans hx)

/-- What a row of applied entries says is the command of its position, with the result of
the first command of its request. -/
theorem entry (h : Replays 𝒮 w t) {x : KvCommandEnvelope × KvResult}
    (hx : t.entryAt p = some x) : 𝒮.commands w p = some x.1 ∧ p < t.next ∧
      ∃ prior, (𝒮.replay w w.settled).first x.1.identity = some prior ∧ prior.2 = x.2 := by
  rw [h.shape.entries] at hx
  have hcommand := Machine.applied_some hx
  have hp : p < t.next := by
    by_contra hge
    have hnone : (𝒮.replay w t.next).applied p = none :=
      Machine.applied_of_le (Nat.le_of_not_lt hge)
    rw [hnone] at hx
    cases hx
  obtain ⟨prior, hfirst, happlied⟩ := kvMachine.applied_eq hp hcommand
  have hfirst : (𝒮.replay w t.next).first x.1.identity = some prior := hfirst
  refine ⟨hcommand, hp, prior, Machine.first_mono h.next_le hfirst, ?_⟩
  have heq : some (x.1, prior.2) = some x := happlied.symm.trans hx
  rw [← Option.some.inj heq]

/-- An applied position of the log has its entry. -/
theorem entry_of_command (h : Replays 𝒮 w t) (hp : p < t.next)
    (hc : 𝒮.commands w p = some c) : ∃ r, t.entryAt p = some (c, r) := by
  obtain ⟨prior, -, happlied⟩ := kvMachine.applied_eq hp hc
  exact ⟨prior.2, (h.shape.entries p).trans happlied⟩

/-- Between the applied position and a command the replay stands still. -/
theorem replay_skip (hle : t.next ≤ p) (hskip : ∀ q, t.next ≤ q → q < p → w.log q = none) :
    𝒮.replay w p = 𝒮.replay w t.next := by
  refine Machine.replay_skip hle fun q hq hqp => ?_
  rw [Deployment.commands, hskip q hq hqp]
  rfl

/-- **One applied command** takes the replay to the next position. -/
theorem applied (h : Replays 𝒮 w t) (hp : p < w.settled) (hc : 𝒮.commands w p = some c)
    (hle : t.next ≤ p) (hskip : ∀ q, t.next ≤ q → q < p → w.log q = none)
    (hagree : ∀ prior, t.request c.identity = some prior → prior.1 = c) :
    Replays 𝒮 w (t.applied p c).1 ∧
      (t.applied p c).1.entryAt p = some (c, (t.applied p c).2) := by
  have hreplay : 𝒮.replay w p = 𝒮.replay w t.next := replay_skip hle hskip
  have hposition : (t.applied p c).1.appliedPosition = p := by
    unfold Tables.applied
    split <;> rfl
  have hnext : (t.applied p c).1.next = p + 1 := by
    unfold Tables.next
    rw [hposition]
    omega
  have hnew : (𝒮.replay w t.next).applied p = none := Machine.applied_of_le hle
  obtain ⟨hshape, hentry⟩ := h.shape.applied (c := c) hnew
  have hsucc : 𝒮.replay w (p + 1) = kvMachine.apply (𝒮.replay w t.next) p c := by
    rw [← hreplay]
    exact Machine.replay_succ_some hc
  refine ⟨⟨?_, ?_, ?_, fun q hq hlog => ?_, fun q hq hconflict => ?_⟩,
    (hshape.entries p).trans hentry⟩
  · rw [hposition]
    omega
  · rw [hposition]
    omega
  · rw [hnext, hsucc]
    exact hshape
  · rw [hnext] at hq
    by_cases hqn : q < t.next
    · exact h.valid q hqn hlog
    · rcases Nat.lt_succ_iff_lt_or_eq.mp hq with hlt | rfl
      · exact absurd (hskip q (Nat.le_of_not_lt hqn) hlt) hlog
      · rw [hc]
        exact Option.some_ne_none c
  · rw [hnext] at hq
    by_cases hqn : q < t.next
    · exact h.agreed q hqn hconflict
    · obtain ⟨c', x, hc', hfirst, hne⟩ := hconflict
      rcases Nat.lt_succ_iff_lt_or_eq.mp hq with hlt | rfl
      · rw [Deployment.commands, hskip q (Nat.le_of_not_lt hqn) hlt] at hc'
        cases hc'
      · obtain rfl := Option.some.inj (hc.symm.trans hc')
        rw [hreplay, ← h.shape.requests] at hfirst
        exact hne (hagree x hfirst)

end Replays

end DelosLab.Kv
