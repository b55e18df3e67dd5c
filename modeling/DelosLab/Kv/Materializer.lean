import DelosLab.Kv.Transactions

/-!
# `materialize_through`

The loop applies the commands of the log one after the other. When it returns, the store
is a replay through the target; when it raises, the error says what stood in the way.
-/

namespace DelosLab.Kv

open Async Async.Coroutine Async.Discipline
open VirtualLog (VirtualLogEntry)

variable {𝒮 : Deployment} {w : World} {t : TaskId} {c : Call} {k : Connection} {target : Int}

/-- `t` holds the lock of the materializer and `k` is its connection, whatever its last
read has met. -/
structure Holds (t : TaskId) (k : Connection) (w : World) : Prop where
  lock : (w.replicas t.node).locks .materializer = some t
  connection : w.connection t.node = k

theorem Held.holds (h : Held t k w) : Holds t k w := ⟨h.lock, h.connection⟩

/-- The target is below a tail of the log. -/
def Below (target : Int) (w : World) : Prop := target < w.settled

theorem Below.mono {w' : World} (h : Below target w) (hg : Grow w w') : Below target w' := by
  have := hg.settled
  unfold Below at h ⊢
  omega

theorem Below.persistent (target : Int) : (discipline 𝒮).Persistent (Below target) :=
  fun _ _ hg h => h.mono hg

theorem Below.steady (target : Int) : Steady t (Below target) := fun _ _ hg _ h => h.mono hg

/-- How a `materialize_through` stops with an error, still inside its lock. -/
def StopError (𝒮 : Deployment) (t : TaskId) (target : Int) (w : World) (e : Error) : Prop :=
  ∃ k, Holds t k w ∧ Idle (w.faulted t.node) k ∧
    ReplayError 𝒮 w target (w.gap t) (w.faulted t.node) e

theorem StopError.of_faulted (h : Held t k w) (hi : Idle (w.faulted t.node) k)
    (hf : w.faulted t.node = true) (e : Error) : StopError 𝒮 t target w e := by
  refine ⟨k, h.holds, hi, ?_⟩
  rw [h.gap, hf]
  exact .of_faulted

theorem StopError.of_blocked (h : Held t k w) (hi : Idle (w.faulted t.node) k) {e : Error}
    (hb : Blocked 𝒮 w target e) : StopError 𝒮 t target w e := by
  refine ⟨k, h.holds, hi, ?_⟩
  rw [h.gap]
  exact .of_blocked hb

/-! ## One read -/

/-- An entry that a read of the replica at `k` has found for `target`. -/
structure FoundAt (k : Connection) (target : Int) (e : VirtualLogEntry) (w : World) : Prop where
  log : w.log e.position = some ⟨e.commandId, e.payload⟩
  behind : k.committed.next ≤ e.position
  within : (e.position : Int) ≤ target
  skipped : ∀ q, k.committed.next ≤ q → q < e.position → w.log q = none

/-- A read that found nothing has met a gap, or there is nothing at the target. -/
def Missed (t : TaskId) (target : Int) (w : World) : Prop :=
  w.gap t = true ∨ ∀ p : Nat, (p : Int) = target → w.log p = none

theorem readNext_spec (hnext : (k.committed.next : Int) = k.committed.appliedPosition + 1)
    (hle : k.committed.appliedPosition + 1 ≤ target) :
    (discipline 𝒮).Triple t c
      (fun w => Held t k w ∧ Idle (w.faulted t.node) k ∧ Below target w)
      (Codec.readNext target (k.committed.appliedPosition + 1))
      (fun w r => (Idle (w.faulted t.node) k ∧ Below target w) ∧
        (∀ e, r = some e → Held t k w ∧ FoundAt k target e w) ∧
          (r = none → Holds t k w ∧ Missed t target w))
      (StopError 𝒮 t target) := by
  have hF : Steady t fun w => Idle (w.faulted t.node) k ∧ Below target w :=
    (Steady.idle k).and (Below.steady target)
  refine .handle (Y := fun w _ => (Held t k w ∧ Idle (w.faulted t.node) k) ∧
    w.faulted t.node = true) (wait_spec ((Held.lasting k).and hF.lasting).stable ?_ ?_)
    fun e => ?_
  · intro w x w' r hi h hc hr
    cases hr with
    | read start stop view r hright hread =>
        obtain ⟨-, -, hreads⟩ := ReadView.readNext_reads hright hread
        have hstart : (k.committed.appliedPosition + 1).toNat = k.committed.next := rfl
        refine ⟨hF w _ (.of_eq rfl rfl) id h.2, fun e he => ?_, fun hnone => ?_⟩
        · subst he
          obtain ⟨hlow, hhigh, hlog, -⟩ := hreads.found e rfl
          have hskip : ∀ q, k.committed.next ≤ q → q < e.position → w.log q = none :=
            fun q hq hqe => hc e hread q (hstart ▸ hq) hqe
          refine ⟨⟨h.1.lock, h.1.connection, ?_⟩, hlog, hlow, by omega, hskip⟩
          -- Nothing was passed over on the way to the entry.
          refine (Function.update_self _ _ _).trans (decide_eq_false ?_)
          rintro ⟨q, hqe, hq, hne⟩
          exact hne (hskip q hq hqe)
        · subst hnone
          refine ⟨⟨h.1.lock, h.1.connection⟩, ?_⟩
          by_cases hgap : ∃ q < (target + 1).toNat, k.committed.next ≤ q ∧ w.log q ≠ none
          · exact .inl ((Function.update_self _ _ _).trans (decide_eq_true hgap))
          · refine .inr fun p hp => ?_
            by_contra hne
            exact hgap ⟨p, by omega, by omega, hne⟩
  · exact fun w e _ h => ⟨⟨h.1.fault, (Steady.idle k).fault h.2.1⟩, Function.update_self _ _ _⟩
  · by_cases he : e = .connection
    · rw [if_pos he]
      exact .raise fun w _ h => .of_faulted h.1.1 h.1.2 h.2 _
    · rw [if_neg he]
      exact .raise fun w _ h => .of_faulted h.1.1 h.1.2 h.2 _

/-! ## The loop -/

theorem Tables.entryAt_applied {T : Tables} {p : Nat} {command : KvCommandEnvelope}
    (h : T.entryAt p = none) :
    (T.applied p command).1.entryAt p = some (command, (T.applied p command).2) := by
  unfold Tables.applied
  cases T.request command.identity with
  | some prior => exact (entryAt_update h prior.2 p).trans (Function.update_self _ _ _)
  | none => exact (entryAt_update h _ p).trans (Function.update_self _ _ _)

/-- The replica is between two transactions, `positions` are left, and `result` is what the
last applied command has come to. -/
structure LoopInv (target : Int) (positions : Nat) (next : Int) (result : Option KvResult)
    (k : Connection) : Prop where
  progress : next = k.committed.appliedPosition + 1
  left : target - k.committed.appliedPosition ≤ positions
  started : result = none → next ≤ target
  below : k.committed.appliedPosition ≤ target
  last : ∀ r, result = some r → ∃ (p : Nat) (command : KvCommandEnvelope),
    (p : Int) = k.committed.appliedPosition ∧ k.committed.entryAt p = some (command, r)

/-- The store has applied the target, with this result. -/
structure Reached (target : Int) (r : KvResult) (k : Connection) : Prop where
  applied : target ≤ k.committed.appliedPosition
  entry : ∃ (p : Nat) (command : KvCommandEnvelope),
    (p : Int) = target ∧ k.committed.entryAt p = some (command, r)

/-- The loop is over when the next position is behind the target. -/
theorem LoopInv.done {positions : Nat} {next : Int} {result : Option KvResult}
    (h : LoopInv target positions next result k) (hlt : target < next) :
    ∃ r, result = some r ∧ Reached target r k := by
  have hprogress := h.progress
  have hbelow := h.below
  cases result with
  | none =>
      have := h.started rfl
      omega
  | some r =>
      obtain ⟨p, command, hp, hentry⟩ := h.last r rfl
      exact ⟨r, rfl, by omega, p, command, by omega, hentry⟩

theorem StopError.of_apply {p : Nat} {e : Error} (hle : (p : Int) ≤ target)
    (h : ∃ k', Held t k' w ∧ Idle (w.faulted t.node) k' ∧ ApplyError 𝒮 t p w e) :
    StopError 𝒮 t target w e := by
  obtain ⟨k', hheld, hidle, hf | ⟨hc, he⟩⟩ := h
  · exact .of_faulted hheld hidle hf e
  · exact .of_blocked hheld hidle (.conflict p hle hc he)

/-- One command that a read has found: decode it and apply it. -/
theorem applyFound_spec {positions : Nat} {next : Int} {result : Option KvResult}
    (hloop : LoopInv target (positions + 1) next result k) {e : VirtualLogEntry}
    {command : KvCommandEnvelope} (hdecode : 𝒮.codec.fromPayload e.payload = some command) :
    (discipline 𝒮).Triple t c
      (fun w => Held t k w ∧ (Idle (w.faulted t.node) k ∧ Below target w) ∧ FoundAt k target e w)
      (SQLiteKvStore.apply e.position command)
      (fun w r => ∃ k', (Held t k' w ∧ Idle (w.faulted t.node) k' ∧ Below target w) ∧
        LoopInv target positions (e.position + 1) (some r) k')
      (StopError 𝒮 t target) := by
  -- What the world says of the position does not change any more.
  have hspec : k.committed.next ≤ e.position ∧ (e.position : Int) ≤ target ∧
      k.committed.entryAt e.position = none → (discipline 𝒮).Triple t c
      (fun w => (Held t k w ∧ Idle (w.faulted t.node) k ∧
        NextAt 𝒮 k.committed e.position command w) ∧ Below target w)
      (SQLiteKvStore.apply e.position command)
      (fun w r => ∃ k', (Held t k' w ∧ Idle (w.faulted t.node) k' ∧ Below target w) ∧
        LoopInv target positions (e.position + 1) (some r) k')
      (StopError 𝒮 t target) := by
    rintro ⟨hbehind, hwithin, hentry⟩
    refine ((apply_spec hbehind).frame (Below.persistent target)).mono (fun _ _ h => h) ?_ ?_
    · rintro w r _ ⟨⟨⟨hheld, -⟩, rfl⟩, hb⟩
      refine ⟨_, ⟨hheld, .opened _ _, hb⟩, ?_, ?_, nofun, ?_, fun r' hr' => ?_⟩
      · show (e.position : Int) + 1 = (k.committed.applied e.position command).1.appliedPosition + 1
        rw [Tables.applied_appliedPosition]
      · show target - (k.committed.applied e.position command).1.appliedPosition ≤ _
        rw [Tables.applied_appliedPosition]
        have := hloop.left
        unfold Tables.next at hbehind
        omega
      · show (k.committed.applied e.position command).1.appliedPosition ≤ target
        rw [Tables.applied_appliedPosition]
        exact hwithin
      · obtain rfl := Option.some.inj hr'
        exact ⟨e.position, command, (Tables.applied_appliedPosition _ _ _).symm,
          Tables.entryAt_applied hentry⟩
    · exact fun w e' _ h => .of_apply hwithin h.1
  refine (Triple.given hspec).pre fun w hi h => ?_
  obtain ⟨hheld, ⟨hidle, hb⟩, hfound⟩ := h
  have hcommand : 𝒮.commands w e.position = some command := by
    rw [Deployment.commands, hfound.log]
    exact hdecode
  have hsettled : e.position < w.settled := by
    have := hfound.within
    unfold Below at hb
    omega
  refine ⟨⟨⟨hheld, hidle, hcommand, hsettled, hfound.skipped⟩, hb⟩, hfound.behind,
    hfound.within, ?_⟩
  have hr := hi.replays hheld.connection
  exact (hr.shape.entries _).trans (Replication.Machine.applied_of_le hfound.behind)

/-- A gap, or nothing at the target: the loop asks for a newer snapshot. -/
theorem StopError.of_missed (h : Holds t k w) (hi : Idle (w.faulted t.node) k)
    (hm : Missed t target w) (message : String) :
    StopError 𝒮 t target w (.syncRequired message) := by
  refine ⟨k, h, hi, fun _ => ⟨message, rfl⟩, ?_⟩
  rcases hm with hgap | hmissing
  · exact .inr (.inl hgap)
  · exact .inr (.inr (.missing hmissing))

theorem replayLoop_spec {positions : Nat} {next : Int} {result : Option KvResult}
    (hloop : LoopInv target positions next result k) :
    (discipline 𝒮).Triple t c
      (fun w => Held t k w ∧ Idle (w.faulted t.node) k ∧ Below target w)
      (𝒮.codec.replayLoop target positions next result)
      (fun w r => ∃ k', (Held t k' w ∧ Idle (w.faulted t.node) k' ∧ Below target w) ∧
        ∃ r', r = some r' ∧ Reached target r' k')
      (StopError 𝒮 t target) := by
  induction positions generalizing next result k with
  | zero =>
      have hprogress := hloop.progress
      have hleft := hloop.left
      exact .ret fun w _ h => ⟨k, h, hloop.done (by omega)⟩
  | succ positions ih =>
      rw [Codec.replayLoop]
      by_cases hlt : target < next
      · rw [if_pos hlt]
        exact .ret fun w _ h => ⟨k, h, hloop.done hlt⟩
      · rw [if_neg hlt]
        have hprogress := hloop.progress
        subst hprogress
        have hread : (k.committed.next : Int) = k.committed.appliedPosition + 1 →
            (discipline 𝒮).Triple t c
              (fun w => Held t k w ∧ Idle (w.faulted t.node) k ∧ Below target w) _ _ _ :=
          fun hnext => readNext_spec hnext (by omega)
        refine .bind ((Triple.given hread).pre fun w hi h =>
          ⟨h, (hi.replays h.1.connection).next_eq⟩) fun r => ?_
        cases r with
        | none =>
            refine .raise fun w _ h => ?_
            obtain ⟨⟨hidle, -⟩, -, hmissed⟩ := h
            obtain ⟨hholds, hm⟩ := hmissed rfl
            exact .of_missed hholds hidle hm _
        | some e =>
            cases hdecode : 𝒮.codec.fromPayload e.payload with
            | none =>
                simp only [hdecode]
                refine .raise fun w _ h => ?_
                obtain ⟨⟨hidle, -⟩, hfound, -⟩ := h
                obtain ⟨hheld, hat⟩ := hfound e rfl
                refine .of_blocked hheld hidle (.invalid e.position hat.within ?_ ?_)
                · rw [hat.log]
                  exact Option.some_ne_none _
                · rw [Deployment.commands, hat.log]
                  exact hdecode
            | some command =>
                simp only [hdecode]
                refine .bind ((applyFound_spec hloop hdecode).pre fun w _ h => ?_) fun r =>
                  .of_forall fun k' => .given fun hloop' => ih hloop'
                obtain ⟨hidle, hfound, -⟩ := h
                obtain ⟨hheld, hat⟩ := hfound e rfl
                exact ⟨hheld, hidle, hat⟩

/-! ## The whole call -/

/-- The row of a position, as a connection between two transactions sees it. -/
def Connection.rowAt (k : Connection) (position : Int) :
    Option (KvCommandEnvelope × KvResult) :=
  if 0 ≤ position then k.committed.entryAt position.toNat else none

/-- A stored position that is not in the table of entries is not in the log. -/
theorem Blocked.of_no_entry (h : Replays 𝒮 w k.committed)
    (hle : target ≤ k.committed.appliedPosition)
    (hnone : k.rowAt target = none) (e : Error) : Blocked 𝒮 w target e := by
  refine .missing fun p hp => ?_
  by_contra hne
  have hlt : p < k.committed.next := by
    have := h.next_eq
    omega
  cases hc : 𝒮.commands w p with
  | none => exact h.valid p hlt hne hc
  | some command =>
      obtain ⟨r, hentry⟩ := h.entry_of_command hlt hc
      have htarget : target.toNat = p := by omega
      rw [Connection.rowAt, if_pos (by omega), htarget, hentry] at hnone
      cases hnone

theorem resultAtPosition_held (hclean : k.working = k.committed) {F : World → Prop}
    (hF : Steady t F) :
    (discipline 𝒮).Triple t c (fun w => Held t k w ∧ F w) (SQLiteKvStore.resultAtPosition target)
      (fun w r => (Held t k w ∧ F w) ∧ r = (k.rowAt target).map Prod.snd)
      (fun w _ => (Held t k w ∧ F w) ∧ w.faulted t.node = true) := by
  refine .bind (select_held (s := .selectEntry target) trivial hF) fun row => .given fun hrow =>
    .ret fun w _ h => ⟨h, ?_⟩
  have hrow : k.rowAt target = row := by
    rw [Connection.rowAt, ← hclean]
    exact Except.ok.inj hrow
  rw [hrow]

theorem materializeLocked_spec :
    (discipline 𝒮).Triple t c
      (fun w => ∃ k, Held t k w ∧ Idle (w.faulted t.node) k ∧ Below target w)
      (𝒮.codec.materializeLocked target)
      (fun w r => ∃ k, (Held t k w ∧ Idle (w.faulted t.node) k ∧ Below target w) ∧
        Reached target r k)
      (StopError 𝒮 t target) := by
  refine .of_forall fun k => ?_
  have hF : Steady t fun w => Idle (w.faulted t.node) k ∧ Below target w :=
    (Steady.idle k).and (Below.steady target)
  have hfault : ∀ w e, Inv 𝒮 w → (Held t k w ∧ Idle (w.faulted t.node) k ∧ Below target w) ∧
      w.faulted t.node = true → StopError 𝒮 t target w e :=
    fun w e _ h => .of_faulted h.1.1 h.1.2.1 h.2 e
  refine .bind ((select_held (s := .selectProgress) trivial hF).mono (fun _ _ h => h)
    (fun _ _ _ h => h) hfault) fun current => .given fun hcurrent => ?_
  obtain rfl : k.working.appliedPosition = current := Except.ok.inj hcurrent
  -- Between two transactions the connection sees what is committed.
  have hclean : ∀ {α : Type} {p : Co α} {Q : World → α → Prop} {X : World → Error → Prop},
      (k.working = k.committed → (discipline 𝒮).Triple t c (fun w => Held t k w ∧
        Idle (w.faulted t.node) k ∧ Below target w) p Q X) →
      (discipline 𝒮).Triple t c (fun w => Held t k w ∧ Idle (w.faulted t.node) k ∧
        Below target w) p Q X :=
    fun h => (Triple.given h).pre fun w _ hp => ⟨hp, hp.2.1.clean⟩
  refine hclean fun hclean => ?_
  rw [hclean]
  by_cases hle : target ≤ k.committed.appliedPosition
  · rw [if_pos hle]
    refine .bind ((resultAtPosition_held hclean hF).mono (fun _ _ h => h) (fun _ _ _ h => h)
      hfault) fun r => .given fun hr => ?_
    cases hrow : k.rowAt target with
    | none =>
        rw [hrow] at hr
        subst hr
        refine .raise fun w hi h => .of_blocked h.1 h.2.1 ?_
        exact .of_no_entry (hi.replays h.1.connection) hle hrow _
    | some row =>
        rw [hrow] at hr
        subst hr
        refine .ret fun w _ h => ⟨k, h, hle, ?_⟩
        unfold Connection.rowAt at hrow
        split at hrow
        · exact ⟨target.toNat, row.1, by omega, hrow⟩
        · cases hrow
  · rw [if_neg hle]
    refine .bind (replayLoop_spec ⟨rfl, ?_, fun _ => by omega, by omega, nofun⟩) fun r =>
      .of_forall fun k' => .given fun hreached => ?_
    · omega
    · obtain ⟨r', rfl, hreached⟩ := hreached
      exact .ret fun w _ h => ⟨k', h, hreached⟩

/-- What a `materialize_through` that returns tells. -/
structure Materialized (𝒮 : Deployment) (t : TaskId) (target : Int) (w : World)
    (r : KvResult) : Prop where
  gap : w.gap t = false
  applied : target ≤ (w.connection t.node).committed.appliedPosition
  entry : ∃ (p : Nat) (command : KvCommandEnvelope), (p : Int) = target ∧
    𝒮.commands w p = some command ∧ Completed 𝒮 w command r

/-- **`materialize_through`** a target below a tail of the log. -/
theorem materializeThrough_spec (target : Int) :
    (discipline 𝒮).Triple t c (fun w => w.gap t = false ∧ Below target w)
      (𝒮.codec.materializeThrough target) (fun w r => Materialized 𝒮 t target w r)
      (fun w e => ReplayError 𝒮 w target (w.gap t) (w.faulted t.node) e) := by
  have hstable : (discipline 𝒮).Stable t fun w => w.gap t = false ∧ Below target w :=
    (gap_lasting.and (Below.persistent target).lasting).stable
  refine withLock_spec hstable ?_ ?_ materializeLocked_spec ?_ ?_ ?_
  · intro w hi h hfree
    have hidle := (hi.store t.node).idle hfree
    refine ⟨w.connection t.node, ⟨?_, ?_, h.1⟩, hidle, h.2⟩
    · rw [World.replicas_setLock]
      show Function.update (w.replicas t.node).locks Lock.materializer (some t) .materializer =
        some t
      exact Function.update_self _ _ _
    · rw [World.connection, World.replicas_setLock]
      rfl
  · intro w e _ h
    show ReplayError 𝒮 _ target (w.gap t) (Function.update w.faulted t.node true t.node) e
    rw [h.1, Function.update_self]
    exact .of_faulted
  · intro w h _
    rcases h with ⟨r, k, ⟨hheld, hidle, -⟩, -⟩ | ⟨e, k, hholds, hidle, -⟩
    · exact ⟨hheld.lock, hheld.connection ▸ hidle⟩
    · exact ⟨hholds.lock, hholds.connection ▸ hidle⟩
  · rintro w r hi ⟨k, ⟨hheld, -⟩, hreached⟩
    obtain ⟨p, command, hp, hentry⟩ := hreached.entry
    obtain ⟨hcommand, -, hcompleted⟩ := (hi.replays hheld.connection).entry hentry
    refine ⟨hheld.gap, ?_, p, command, hp, hcommand, hcompleted⟩
    rw [World.connection, World.replicas_setLock]
    show target ≤ (w.connection t.node).committed.appliedPosition
    rw [hheld.connection]
    exact hreached.applied
  · rintro w e _ ⟨k, -, -, herr⟩
    refine ⟨herr.gapped, ?_⟩
    rcases herr.clean with hf | hgap | hblocked
    · exact .inl hf
    · exact .inr (.inl hgap)
    · exact .inr (.inr (hblocked.of_log rfl))

end DelosLab.Kv
