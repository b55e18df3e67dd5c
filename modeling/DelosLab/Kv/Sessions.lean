import DelosLab.Async.Sequential
import DelosLab.Kv.Replay
import DelosLab.Kv.Snapshot

/-!
# One task alone on a connection

`direct` runs the coroutines of a store when nothing fails, `faulty` when a script decides
which statements fail. A statement that fails has done nothing, but an `executemany` may
have inserted some of its rows; its failure leaves any working tables.
-/

namespace DelosLab.Kv

open Async Async.Coroutine

def direct : Handler signature Connection where
  act := fun k => fun
    | .sql s => k.execute s
    | .release _ => (k, ())
    | .cached => (k, true)
  wait := fun k => fun
    | .executed => (k, .ok ())
    | .acquire _ => (k, .ok ())
    | _ => (k, .error .cancelled)

/-- How a statement fails. -/
structure Failure where
  error : Error
  left : Tables

/-- Which statements fail, by their number. -/
abbrev Script : Type := Nat → Statement → Option Failure

structure Session where
  connection : Connection
  ran : Nat
  failed : List Statement

def Connection.fail (k : Connection) (left : Tables) : Statement → Connection
  | .insertItems _ => { k with working := left }
  | .insertRequests _ => { k with working := left }
  | .insertEntries _ => { k with working := left }
  | _ => k

def Session.sql (script : Script) (session : Session) (s : Statement) :
    Session × Except Error s.Result :=
  match script session.ran s with
  | some failure =>
      (⟨session.connection.fail failure.left s, session.ran + 1, session.failed ++ [s]⟩,
        .error failure.error)
  | none =>
      let outcome := session.connection.execute s
      (⟨outcome.1, session.ran + 1, session.failed⟩, outcome.2)

def faulty (script : Script) : Handler signature Session where
  act := fun session => fun
    | .sql s => session.sql script s
    | .release _ => (session, ())
    | .cached => (session, true)
  wait := fun session => fun
    | .executed => (session, .ok ())
    | .acquire _ => (session, .ok ())
    | _ => (session, .error .cancelled)

/-! ## What functions come to when nothing fails -/

section Direct

variable {α : Type} {k k' : Connection}

@[simp] theorem run_execute (k : Connection) (s : Statement) :
    direct.run k (execute s) = k.execute s := by
  show direct.run (k.execute s).1 (ofExcept (k.execute s).2) = _
  cases h : k.execute s with
  | mk k' answer => cases answer <;> rfl

/-- A lock that nobody else takes. -/
theorem run_withLock {σ : Type} {H : Handler signature σ} {lock : Lock}
    (hacquire : ∀ s, H.wait s (.acquire lock) = (s, .ok ()))
    (hrelease : ∀ s, H.act s (.release lock) = (s, ())) (s : σ) (body : Co α) :
    H.run s (withLock lock body) = H.run s body := by
  have hstart : H.run s (wait (.acquire lock)) = (s, .ok ()) := by
    show H.run (H.wait s (.acquire lock)).1 (Coroutine.ofExcept (H.wait s (.acquire lock)).2) = _
    rw [hacquire]
    rfl
  have hstop : ∀ s, H.run s (act (.release lock)) = (s, .ok ()) := by
    intro s
    show ((H.act s (.release lock)).1, Except.ok (H.act s (.release lock)).2) = _
    rw [hrelease]
  unfold withLock
  rw [Handler.run_bind_ok hstart, Handler.run_bind, Handler.run_handle, Handler.run_bind]
  cases h : H.run s body with
  | mk s' answer =>
      cases answer with
      | ok a => exact Handler.run_bind_ok (hstop s') _
      | error e => exact Handler.run_bind_ok (hstop s') _

theorem run_orRollback_ok {body : Co α} {a : α} (h : direct.run k body = (k', .ok a)) :
    direct.run k (SQLiteKvStore.orRollback body) = (k', .ok a) :=
  Handler.run_handle_ok h _

theorem run_orRollback_error {body : Co α} {e : Error} (h : direct.run k body = (k', .error e)) :
    direct.run k (SQLiteKvStore.orRollback body) = (.opened k'.committed, .error e) := by
  unfold SQLiteKvStore.orRollback
  rw [Handler.run_handle_error h, Handler.run_bind, run_execute]
  rfl

end Direct

/-! ## Statements -/

section Statements

variable (k : Connection)

@[simp] theorem run_commit :
    (direct.run k (execute .commit) : Connection × Except Error Unit) =
      (.opened k.working, .ok ()) := run_execute _ _

@[simp] theorem run_selectProgress :
    (direct.run k (execute .selectProgress) : Connection × Except Error Int) =
      (k, .ok k.working.appliedPosition) := run_execute _ _

@[simp] theorem run_selectItems :
    (direct.run k (execute .selectItems) : Connection × Except Error KvValues) =
      (k, .ok k.working.items) := run_execute _ _

@[simp] theorem run_selectRequest (clientId requestId : String) :
    (direct.run k (execute (.selectRequest clientId requestId)) :
        Connection × Except Error (Option (KvCommandEnvelope × KvResult))) =
      (k, .ok (k.working.request (clientId, requestId))) := run_execute _ _

@[simp] theorem run_selectEntry (p : Nat) :
    (direct.run k (execute (.selectEntry p)) :
        Connection × Except Error (Option (KvCommandEnvelope × KvResult))) =
      (k, .ok (k.working.entryAt p)) := run_execute _ _

@[simp] theorem run_selectRequests :
    (direct.run k (execute .selectRequests) : Connection × Except Error (List KvRequestRow)) =
      (k, .ok (k.working.requests.mergeSort requestLE)) := run_execute _ _

@[simp] theorem run_selectEntries :
    (direct.run k (execute .selectEntries) : Connection × Except Error (List KvAppliedRow)) =
      (k, .ok (k.working.appliedEntries.mergeSort entryLE)) := run_execute _ _

@[simp] theorem run_selectAny (table : Table) :
    (direct.run k (execute (.selectAny table)) : Connection × Except Error Bool) =
      (k, .ok (k.working.occupied table)) := run_execute _ _

@[simp] theorem run_deleteItems :
    (direct.run k (execute .deleteItems) : Connection × Except Error Unit) =
      ({ k with working := { k.working with items := ∅ }, rewriting := true }, .ok ()) :=
  run_execute _ _

@[simp] theorem run_deleteRequests :
    (direct.run k (execute .deleteRequests) : Connection × Except Error Unit) =
      ({ k with working := { k.working with requests := [] } }, .ok ()) := run_execute _ _

@[simp] theorem run_deleteEntries :
    (direct.run k (execute .deleteEntries) : Connection × Except Error Unit) =
      ({ k with working := { k.working with appliedEntries := [] } }, .ok ()) := run_execute _ _

@[simp] theorem run_insertItems (values : KvValues) :
    (direct.run k (execute (.insertItems values)) : Connection × Except Error Unit) =
      ({ k with working := k.working.insertItems values, rewriting := true }, .ok ()) :=
  run_execute _ _

@[simp] theorem run_insertRequests (rows : List KvRequestRow) :
    (direct.run k (execute (.insertRequests rows)) : Connection × Except Error Unit) =
      k.write (k.working.insertMany Tables.insertRequest rows) := run_execute _ _

@[simp] theorem run_insertEntries (rows : List KvAppliedRow) :
    (direct.run k (execute (.insertEntries rows)) : Connection × Except Error Unit) =
      k.write (k.working.insertMany Tables.insertEntry rows) := run_execute _ _

@[simp] theorem run_updateProgress (position : Int) :
    (direct.run k (execute (.updateProgress position)) : Connection × Except Error Unit) =
      k.write (k.working.updateProgress position) := run_execute _ _

end Statements

/-- The connection of a store whose transaction has just begun. -/
def Connection.began (t : Tables) : Connection := ⟨t, t, true, false⟩

/-- A transaction of a store that nobody else uses. -/
theorem run_transaction {α : Type} {t : Tables} (body : Co α) :
    direct.run (.opened t) (withLock .store do
      execute .begin
      SQLiteKvStore.orRollback body) =
      direct.run (.began t) (SQLiteKvStore.orRollback body) := by
  rw [run_withLock (fun _ => rfl) fun _ => rfl, Handler.run_bind, run_execute]
  rfl

/-! ## `apply` alone -/

theorem run_apply_ok {t t' : Tables} {p : Nat} {c : KvCommandEnvelope} {r : KvResult}
    (h : direct.run (.began t) (SQLiteKvStore.applyBody p c) = (.opened t', .ok r)) :
    direct.run (.opened t) (SQLiteKvStore.apply p c) = (.opened t', .ok r) := by
  unfold SQLiteKvStore.apply
  rw [run_transaction]
  exact run_orRollback_ok h

theorem run_apply_error {t : Tables} {p : Nat} {c : KvCommandEnvelope} {e : Error}
    (h : direct.run (.began t) (SQLiteKvStore.applyBody p c) = (.began t, .error e)) :
    direct.run (.opened t) (SQLiteKvStore.apply p c) = (.opened t, .error e) := by
  unfold SQLiteKvStore.apply
  rw [run_transaction]
  exact run_orRollback_error h

namespace Tables

/-- The error of `_existing_position`. -/
def positionConflict (position : Nat) : Error :=
  .requestConflict ("position " ++ toString position ++ " contains another command")

/-- What `apply` makes of the tables, and what it comes to. -/
def outcome (t : Tables) (position : Nat) (command : KvCommandEnvelope) :
    Tables × Except Error KvResult :=
  if (position : Int) ≤ t.appliedPosition then
    match t.entryAt position with
    | some (existing, result) =>
        (t, if existing = command then .ok result else .error (positionConflict position))
    | none => (t, .error (positionConflict position))
  else
    match t.request command.identity with
    | some (prior, _) =>
        if prior = command then ((t.applied position command).1, .ok (t.applied position command).2)
        else (t, .error (.requestConflict command.commandId))
    | none => ((t.applied position command).1, .ok (t.applied position command).2)

/-- What the tables of a store that has only applied commands satisfy. -/
structure WellFormed (t : Tables) : Prop where
  low : -1 ≤ t.appliedPosition
  ordered : (t.appliedEntries.map KvAppliedRow.position).Pairwise (· < ·)
  last : t.appliedPosition ≠ -1 →
    (t.appliedEntries.map KvAppliedRow.position).getLast?.map Int.ofNat = some t.appliedPosition
  unapplied : t.appliedPosition = -1 → t = empty
  applied : ∀ row ∈ t.appliedEntries, (row.position : Int) ≤ t.appliedPosition
  distinct : (t.requests.map KvRequestRow.key).Nodup
  first : ∀ row ∈ t.requests, (row.firstPosition : Int) ≤ t.appliedPosition
  named : ∀ row ∈ t.requests, row.clientId ≠ "" ∧ row.requestId ≠ ""

variable {t : Tables} {p : Nat} {c : KvCommandEnvelope}

/-- A position behind the applied one has no entry. -/
theorem WellFormed.entryRow_none (h : t.WellFormed) (hp : ¬(p : Int) ≤ t.appliedPosition) :
    t.entryRow p = none := by
  unfold entryRow
  apply List.find?_eq_none.mpr
  intro row hrow heq
  have hle := h.applied row hrow
  rw [of_decide_eq_true heq] at hle
  exact hp hle

/-- A position that is applied gets its stored result, or a conflict. -/
theorem run_existing (hp : (p : Int) ≤ t.appliedPosition) :
    direct.run (.opened t) (SQLiteKvStore.apply p c) =
      (.opened (t.outcome p c).1, (t.outcome p c).2) := by
  unfold outcome
  rw [if_pos hp]
  cases h : t.entryAt p with
  | none =>
      apply run_apply_error
      simp [SQLiteKvStore.applyBody, SQLiteKvStore.appliedPosition,
        SQLiteKvStore.existingPosition, Handler.run_bind, Connection.began, hp, h,
        positionConflict]
  | some row =>
      obtain ⟨existing, result⟩ := row
      by_cases heq : existing = c
      · simp only [heq, if_true]
        apply run_apply_ok
        simp [SQLiteKvStore.applyBody, SQLiteKvStore.appliedPosition,
          SQLiteKvStore.existingPosition, Handler.run_bind, Connection.began, hp, h, heq,
          Coroutine.require, Connection.opened]
      · simp only [heq, if_false]
        apply run_apply_error
        simp [SQLiteKvStore.applyBody, SQLiteKvStore.appliedPosition,
          SQLiteKvStore.existingPosition, Handler.run_bind, Connection.began, hp, h, heq,
          Coroutine.require, positionConflict]

/-- A request that has a result gets it again, or a conflict. -/
theorem run_prior (ht : t.WellFormed) (hp : ¬(p : Int) ≤ t.appliedPosition)
    {prior : KvCommandEnvelope × KvResult} (h : t.request c.identity = some prior) :
    direct.run (.opened t) (SQLiteKvStore.apply p c) =
      (.opened (t.outcome p c).1, (t.outcome p c).2) := by
  have hrow := ht.entryRow_none hp
  have hpos : ¬(p : Int) < -1 := by omega
  have h' : t.request (c.clientId.val, c.requestId.val) = some prior := h
  unfold outcome
  rw [if_neg hp, h]
  obtain ⟨prior, result⟩ := prior
  by_cases heq : prior = c
  · simp only [heq, if_true]
    apply run_apply_ok
    simp [SQLiteKvStore.applyBody, SQLiteKvStore.appliedPosition, SQLiteKvStore.resultOf,
      SQLiteKvStore.request, Handler.run_bind, Connection.began, hp, h', heq, Coroutine.require,
      Connection.opened, Connection.write, insertMany, insertEntry, hrow, updateProgress, hpos,
      Tables.applied, h]
  · simp only [heq, if_false]
    apply run_apply_error
    simp [SQLiteKvStore.applyBody, SQLiteKvStore.appliedPosition, SQLiteKvStore.resultOf,
      SQLiteKvStore.request, Handler.run_bind, Connection.began, hp, h', heq, Coroutine.require]

/-- A new request takes effect. -/
theorem run_new (ht : t.WellFormed) (hp : ¬(p : Int) ≤ t.appliedPosition)
    (h : t.request c.identity = none) :
    direct.run (.opened t) (SQLiteKvStore.apply p c) =
      (.opened (t.outcome p c).1, (t.outcome p c).2) := by
  have hpos : ¬(p : Int) < -1 := by omega
  have h' : t.request (c.clientId.val, c.requestId.val) = none := h
  have hentry : ∀ items requests, (⟨items, requests, t.appliedEntries, t.appliedPosition⟩ :
      Tables).entryRow p = none := fun _ _ => ht.entryRow_none hp
  have hrequest : ∀ items, (⟨items, t.requests, t.appliedEntries, t.appliedPosition⟩ :
      Tables).requestRow (c.clientId.val, c.requestId.val) = none :=
    fun _ => Option.map_eq_none_iff.mp h
  unfold outcome
  rw [if_neg hp, h]
  apply run_apply_ok
  simp [SQLiteKvStore.applyBody, SQLiteKvStore.appliedPosition, SQLiteKvStore.resultOf,
    SQLiteKvStore.request, SQLiteKvStore.snapshot, SQLiteKvStore.replaceSnapshot,
    Handler.run_bind, Connection.began, hp, h', Connection.opened, Connection.write, insertMany,
    insertEntry, insertItems, insertRequest, KvRequestRow.key, hrequest, hentry, updateProgress,
    hpos, Tables.applied, h, newRow]

/-- **What `apply` comes to** on a well-formed store. -/
theorem run_apply (ht : t.WellFormed) (p : Nat) (c : KvCommandEnvelope) :
    direct.run (.opened t) (SQLiteKvStore.apply p c) =
      (.opened (t.outcome p c).1, (t.outcome p c).2) := by
  by_cases hp : (p : Int) ≤ t.appliedPosition
  · exact run_existing hp
  · cases h : t.request c.identity with
    | none => exact run_new ht hp h
    | some prior => exact run_prior ht hp h

/-! ## Well-formed tables -/

theorem wellFormed_empty : empty.WellFormed where
  low := Int.le_refl _
  ordered := .nil
  last := fun h => absurd rfl h
  unapplied := fun _ => rfl
  applied := fun _ h => absurd h List.not_mem_nil
  distinct := .nil
  first := fun _ h => absurd h List.not_mem_nil
  named := fun _ h => absurd h List.not_mem_nil

theorem requestRow_none (h : t.request c.identity = none) :
    ∀ row ∈ t.requests, row.key ≠ c.identity := by
  intro row hrow heq
  have hnone := List.find?_eq_none.mp (Option.map_eq_none_iff.mp h) row hrow
  exact hnone (decide_eq_true heq)

/-- A new position is applied behind all others. -/
theorem WellFormed.applied_new (ht : t.WellFormed) (hp : ¬(p : Int) ≤ t.appliedPosition) :
    (t.applied p c).1.WellFormed := by
  have hlow := ht.low
  have hordered : ∀ row : KvAppliedRow, row.position = p →
      ((t.appliedEntries ++ [row]).map KvAppliedRow.position).Pairwise (· < ·) := by
    intro row hrow
    rw [List.map_append, List.pairwise_append]
    refine ⟨ht.ordered, List.pairwise_singleton _ _, ?_⟩
    intro q hq q' hq'
    obtain ⟨old, hold, rfl⟩ := List.mem_map.mp hq
    obtain rfl : q' = row.position := by simpa using hq'
    have hle := ht.applied old hold
    omega
  have happlied : ∀ row : KvAppliedRow, row.position = p →
      ∀ old ∈ t.appliedEntries ++ [row], (old.position : Int) ≤ p := by
    intro row hrow old hold
    rcases List.mem_append.mp hold with hold | hold
    · have hle := ht.applied old hold
      omega
    · obtain rfl := List.mem_singleton.mp hold
      omega
  have hlast : ∀ row : KvAppliedRow, row.position = p →
      ((t.appliedEntries ++ [row]).map KvAppliedRow.position).getLast?.map Int.ofNat =
        some (p : Int) := by
    intro row hrow
    simp [hrow]
  have hpos : ¬(p : Int) = -1 := by omega
  have hfirst : ∀ row ∈ t.requests, (row.firstPosition : Int) ≤ p := by
    intro row hrow
    have hle := ht.first row hrow
    omega
  unfold Tables.applied
  cases h : t.request c.identity with
  | some prior =>
      exact ⟨by simp only; omega, hordered _ rfl, fun _ => hlast _ rfl, fun h => absurd h hpos,
        happlied _ rfl, ht.distinct, hfirst, ht.named⟩
  | none =>
      refine ⟨by simp only; omega, hordered _ rfl, fun _ => hlast _ rfl, fun h => absurd h hpos,
        happlied _ rfl, ?_, ?_, ?_⟩
      · show ((t.requests ++ [newRow p c _]).map KvRequestRow.key).Nodup
        rw [List.map_append, List.nodup_append]
        refine ⟨ht.distinct, List.nodup_singleton _, ?_⟩
        intro key hkey key' hkey'
        obtain ⟨row, hrow, rfl⟩ := List.mem_map.mp hkey
        obtain rfl : key' = c.identity := List.mem_singleton.mp hkey'
        exact requestRow_none h row hrow
      · intro row hrow
        rcases List.mem_append.mp hrow with hrow | hrow
        · exact hfirst row hrow
        · obtain rfl := List.mem_singleton.mp hrow
          exact Int.le_refl _
      · intro row hrow
        rcases List.mem_append.mp hrow with hrow | hrow
        · exact ht.named row hrow
        · obtain rfl := List.mem_singleton.mp hrow
          exact ⟨c.clientId.property, c.requestId.property⟩

/-- **`apply` keeps a store well formed**, whatever it is called with. -/
theorem WellFormed.outcome (ht : t.WellFormed) (p : Nat) (c : KvCommandEnvelope) :
    (t.outcome p c).1.WellFormed := by
  unfold Tables.outcome
  split
  · split <;> exact ht
  · next hp =>
      split
      · split
        · exact ht.applied_new hp
        · exact ht
      · exact ht.applied_new hp

end Tables

end DelosLab.Kv
