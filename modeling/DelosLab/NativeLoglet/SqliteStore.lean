import DelosLab.NativeLoglet.MemoryStore
import DelosLab.NativeLoglet.SqlAlone

/-!
# SQLiteLogletStore, all segments together

The operations of the store as they are when nothing interrupts them: a transaction that
raises leaves the tables as they were. A column of SQLite holds integers of 64 bits, and
binding a larger one raises before the statement runs.
-/

namespace DelosLab.NativeLoglet

/-- The integers that SQLite can hold, from `-2 ** 63` to `2 ** 63 - 1`. -/
def Int64 (n : Int) : Prop := -9223372036854775808 ≤ n ∧ n ≤ 9223372036854775807

instance (n : Int) : Decidable (Int64 n) := inferInstanceAs (Decidable (_ ∧ _))

inductive StoreFailure : Type where
  | loglet (e : Error)
  | integrityError
  | overflowError
deriving DecidableEq

structure SqliteStore where
  tables : Sql.Tables
  knownTails : String → Option Nat

namespace SqliteStore

open LogletStore
open Sql (Tables SegmentRow)

def empty : SqliteStore := ⟨⟨[], []⟩, fun _ => none⟩

def observeKnownTail (self : SqliteStore) (segmentId : String) (knownTail : Nat) : SqliteStore :=
  let observed := max ((self.knownTails segmentId).getD 0) knownTail
  { self with knownTails := Function.update self.knownTails segmentId (some observed) }

/-- `INSERT INTO loglet_entries`. -/
def insertEntry (t : Tables) (entry : LogEntry) : Except StoreFailure Tables :=
  match t.insertEntry entry with
  | (t', .ok ()) => .ok t'
  | (_, .error _) => .error .integrityError

/-- The statements of `_write`, from the `BEGIN` to the commit. -/
def writeBody (t : Tables) (knownTail : Nat) (entry : LogEntry)
    (rejectIfSealed requirePredecessor : Bool) : Except StoreFailure Tables :=
  let t := t.upsert entry.segmentId id
  if rejectIfSealed && (t.row entry.segmentId).sealed then
    .error (.loglet (.segmentSealed entry.segmentId))
  else if entry.position < (t.row entry.segmentId).trimmedPrefix then
    .error (.loglet (trimmedAt entry))
  else if ¬Int64 entry.position then .error .overflowError
  else
    match t.entryRow entry.segmentId entry.position with
    | some existing => if existing ≠ entry then .error (.loglet (conflictAt entry)) else .ok t
    | none =>
        if requirePredecessor && (0 < entry.position &&
            (t.entryRow entry.segmentId (entry.position - 1)).isNone &&
              knownTail ≤ entry.position - 1) then
          .error (.loglet (predecessorOf entry))
        else
          match (t.commandRow entry.segmentId entry.commandId).map LogEntry.position with
          | some commandPosition =>
              if commandPosition ≠ entry.position then
                .error (.loglet (.entryConflict ("command " ++ entry.commandId ++
                  " already exists at " ++ toString commandPosition)))
              else insertEntry t entry
          | none => insertEntry t entry

def write (self : SqliteStore) (entry : LogEntry) (rejectIfSealed requirePredecessor : Bool) :
    SqliteStore × Except StoreFailure Unit :=
  match writeBody self.tables ((self.knownTails entry.segmentId).getD 0) entry rejectIfSealed
      requirePredecessor with
  | .ok t => ({ self with tables := t }, .ok ())
  | .error e => (self, .error e)

def put (self : SqliteStore) (entry : LogEntry) (knownTail : Nat) :
    SqliteStore × Except StoreFailure Unit :=
  (self.observeKnownTail entry.segmentId knownTail).write entry true true

def repair (self : SqliteStore) (entry : LogEntry) (knownTail : Nat) :
    SqliteStore × Except StoreFailure Unit :=
  (self.observeKnownTail entry.segmentId knownTail).write entry false false

/-- `_entry_at`; no row has a negative position. -/
def entryAt (self : SqliteStore) (segmentId : String) (position : Int) :
    Except StoreFailure (Option LogEntry) :=
  if ¬Int64 position then .error .overflowError
  else if position < 0 then .ok none
  else .ok (self.tables.entryRow segmentId position.toNat)

def get (self : SqliteStore) (segmentId : String) (position : Int) (knownTail : Nat) :
    SqliteStore × Except StoreFailure (Option LogEntry) :=
  (self.observeKnownTail segmentId knownTail, self.entryAt segmentId position)

/-- `ORDER BY position LIMIT ?`, where a negative limit is none. -/
def entries (self : SqliteStore) (segmentId : String) (start limit : Int) :
    Except StoreFailure (List LogEntry) :=
  if ¬Int64 start ∨ ¬Int64 limit then .error .overflowError
  else
    let rows := ((self.tables.segmentEntries segmentId).filter fun e => start ≤ e.position).mergeSort
      fun e e' => e.position ≤ e'.position
    .ok (if limit < 0 then rows else rows.take limit.toNat)

def prefixTrim (self : SqliteStore) (segmentId : String) (trimPosition : Int) :
    SqliteStore × Except StoreFailure Nat :=
  if trimPosition < 0 then
    (self, .error (.loglet (.valueError "prefixTrim requires a non-negative position")))
  else if ¬Int64 trimPosition then (self, .error .overflowError)
  else
    let t := self.tables.upsert segmentId fun r =>
      { r with trimmedPrefix := max r.trimmedPrefix trimPosition.toNat }
    let watermark := (t.row segmentId).trimmedPrefix
    ({ self with tables := t.deleteEntries segmentId watermark }, .ok watermark)

/-- The method `seal`. -/
def sealSegment (self : SqliteStore) (segmentId : String) (knownTail : Nat) : SqliteStore :=
  let self := self.observeKnownTail segmentId knownTail
  { self with tables := self.tables.upsert segmentId fun r => { r with sealed := true } }

def state (self : SqliteStore) (segmentId : String) (knownTail : Nat) :
    SqliteStore × LogServerState :=
  let self := self.observeKnownTail segmentId knownTail
  (self, Sql.reportOf segmentId (self.tables.segmentRow segmentId)
    (self.tables.maxPosition segmentId) ((self.knownTails segmentId).getD 0))

/-- `tuple([await self.state(segment_id) for segment_id in segment_ids])`. -/
def statesOf (self : SqliteStore) : List String → SqliteStore × List LogServerState
  | [] => (self, [])
  | segmentId :: segmentIds =>
      let reported := self.state segmentId 0
      let rest := reported.1.statesOf segmentIds
      (rest.1, reported.2 :: rest.2)

/-- SQLite compares texts by their UTF-8 bytes, which is by their code points. -/
def segmentStates (self : SqliteStore) : SqliteStore × List LogServerState :=
  self.statesOf ((self.tables.segments.map SegmentRow.segmentId).mergeSort fun a b => a ≤ b)

/-! ## The rows of one segment -/

def rows (self : SqliteStore) : String → LogletStore :=
  self.tables.rows fun segmentId => (self.knownTails segmentId).getD 0

variable {self : SqliteStore}

theorem rows_observeKnownTail (segmentId : String) (knownTail : Nat) :
    (self.observeKnownTail segmentId knownTail).rows =
      Function.update self.rows segmentId ((self.rows segmentId).observeKnownTail knownTail) := by
  funext id
  by_cases h : id = segmentId
  · subst h
    simp [rows, Tables.rows, Tables.store, observeKnownTail, LogletStore.observeKnownTail,
      Tables.segmentEntries, Tables.row]
  · simp [rows, Tables.rows, Tables.store, observeKnownTail, h]

/-- What a write does to the rows of its segment; a position that SQLite cannot hold is bound
after the checks that need no query. -/
def writeRows (s : LogletStore) (entry : LogEntry) (rejectIfSealed requirePredecessor : Bool) :
    LogletStore × Except StoreFailure Unit :=
  if ¬(rejectIfSealed && s.sealed) ∧ s.trimmedPrefix ≤ entry.position ∧ ¬Int64 entry.position then
    (s, .error .overflowError)
  else
    let written := SQLiteLogletStore.write s entry rejectIfSealed requirePredecessor
    (written.1, written.2.mapError .loglet)

section Write

variable {t : Tables} {k : String → Nat} {entry : LogEntry}
  {rejectIfSealed requirePredecessor : Bool}

/-- What the body of a write comes to, told by the rows of its segment. -/
def Writes (t : Tables) (k : String → Nat) (segmentId : String)
    (written : LogletStore × Except StoreFailure Unit) : Except StoreFailure Tables → Prop
  | .ok t' => t'.rows k = Function.update (t.rows k) segmentId written.1 ∧ written.2 = .ok ()
  | .error e => written = (t.rows k segmentId, .error e)

theorem writes_insert (hat : (t.rows k entry.segmentId).entryAt entry.position = none)
    (hcommand : (t.rows k entry.segmentId).positionForCommand entry.commandId = none) :
    Writes t k entry.segmentId ((t.rows k entry.segmentId).insert entry, .ok ())
      (insertEntry (t.upsert entry.segmentId id) entry) := by
  have hrows : (t.upsert entry.segmentId id).rows k = t.rows k :=
    funext fun other => Tables.store_upsert_id other _
  rw [← hrows] at hat hcommand
  rw [insertEntry, Tables.insertEntry_of_none hat hcommand]
  refine ⟨?_, rfl⟩
  rw [Tables.rows_insert, hrows]

theorem writes_writeBody :
    Writes t k entry.segmentId
      (writeRows (t.rows k entry.segmentId) entry rejectIfSealed requirePredecessor)
      (writeBody t (k entry.segmentId) entry rejectIfSealed requirePredecessor) := by
  -- The inserted row has the defaults, so the rows are those of `t`.
  have hrows : (t.upsert entry.segmentId id).rows k = t.rows k :=
    funext fun other => Tables.store_upsert_id other _
  have hsealed : ((t.upsert entry.segmentId id).row entry.segmentId).sealed =
      (t.rows k entry.segmentId).sealed := by
    rw [← hrows]
    rfl
  have htrimmed : ((t.upsert entry.segmentId id).row entry.segmentId).trimmedPrefix =
      (t.rows k entry.segmentId).trimmedPrefix := by
    rw [← hrows]
    rfl
  have hat : ∀ p, (t.upsert entry.segmentId id).entryRow entry.segmentId p =
      (t.rows k entry.segmentId).entryAt p := by
    intro p
    rw [← hrows]
    exact Tables.entryRow_eq _ _ _ _
  have hcommand : ((t.upsert entry.segmentId id).commandRow entry.segmentId
      entry.commandId).map LogEntry.position =
        (t.rows k entry.segmentId).positionForCommand entry.commandId := by
    rw [← hrows]
    exact Tables.commandRow_eq _ _ _ _
  have hkept : Function.update (t.rows k) entry.segmentId (t.rows k entry.segmentId) = t.rows k :=
    Function.update_eq_self _ _
  have hlacks : (0 < entry.position &&
      ((t.rows k entry.segmentId).entryAt (entry.position - 1)).isNone &&
        k entry.segmentId ≤ entry.position - 1) =
          (t.rows k entry.segmentId).lacksPredecessor entry := rfl
  simp only [writeBody, writeRows, SQLiteLogletStore.write, hsealed, htrimmed, hat, hcommand,
    hlacks]
  by_cases hs : (rejectIfSealed && (t.rows k entry.segmentId).sealed) = true
  · rw [if_pos hs, if_neg fun h => h.1 hs, if_pos hs]
    rfl
  by_cases ht : entry.position < (t.rows k entry.segmentId).trimmedPrefix
  · rw [if_neg hs, if_pos ht, if_neg fun h => Nat.not_le.mpr ht h.2.1, if_neg hs, if_pos ht]
    rfl
  by_cases hp : ¬Int64 entry.position
  · rw [if_pos ⟨hs, Nat.not_lt.mp ht, hp⟩, if_neg hs, if_neg ht, if_pos hp]
    rfl
  rw [if_neg hs, if_neg ht, if_neg hp, if_neg fun h => hp h.2.2, if_neg hs, if_neg ht]
  cases hex : (t.rows k entry.segmentId).entryAt entry.position with
  | some existing =>
      simp only
      split
      · rfl
      · exact ⟨hrows.trans hkept.symm, rfl⟩
  | none =>
      simp only
      split
      · rfl
      · cases hpos : (t.rows k entry.segmentId).positionForCommand entry.commandId with
        | none => exact writes_insert hex hpos
        | some commandPosition =>
            -- The command has another position, for there is no entry at this one.
            have hother : commandPosition ≠ entry.position := by
              obtain ⟨e, he, -, hpos⟩ := LogletStore.positionForCommand_some hpos
              rw [← hpos]
              exact LogletStore.entryAt_none hex e he
            simp only [if_pos hother]
            rfl

end Write

theorem write_rows (entry : LogEntry) (rejectIfSealed requirePredecessor : Bool) :
    (self.write entry rejectIfSealed requirePredecessor).1.rows =
        Function.update self.rows entry.segmentId (writeRows (self.rows entry.segmentId) entry
          rejectIfSealed requirePredecessor).1 ∧
      (self.write entry rejectIfSealed requirePredecessor).2 =
        (writeRows (self.rows entry.segmentId) entry rejectIfSealed requirePredecessor).2 := by
  let k := fun segmentId => (self.knownTails segmentId).getD 0
  have hwrites : Writes self.tables k entry.segmentId _ (writeBody self.tables
      (k entry.segmentId) entry rejectIfSealed requirePredecessor) := writes_writeBody
  rw [write]
  change (match writeBody self.tables (k entry.segmentId) entry rejectIfSealed
      requirePredecessor with
    | .ok t => (({ self with tables := t } : SqliteStore), Except.ok ())
    | .error e => (self, .error e)).1.rows = _ ∧ (match writeBody self.tables (k entry.segmentId)
      entry rejectIfSealed requirePredecessor with
    | .ok t => (({ self with tables := t } : SqliteStore), Except.ok ())
    | .error e => (self, .error e)).2 = _
  cases hbody : writeBody self.tables (k entry.segmentId) entry rejectIfSealed
      requirePredecessor with
  | ok t =>
      rw [hbody] at hwrites
      exact ⟨hwrites.1, hwrites.2.symm⟩
  | error e =>
      rw [hbody] at hwrites
      have hsame : writeRows (self.rows entry.segmentId) entry rejectIfSealed requirePredecessor =
        (self.rows entry.segmentId, .error e) := hwrites
      rw [hsame]
      exact ⟨(Function.update_eq_self _ _).symm, rfl⟩

/-- A write after the store has observed a known tail. -/
theorem write_rows_observed (entry : LogEntry) (knownTail : Nat)
    (rejectIfSealed requirePredecessor : Bool) :
    let s := (self.rows entry.segmentId).observeKnownTail knownTail
    let written := (self.observeKnownTail entry.segmentId knownTail).write entry rejectIfSealed
      requirePredecessor
    written.1.rows = Function.update self.rows entry.segmentId
        (writeRows s entry rejectIfSealed requirePredecessor).1 ∧
      written.2 = (writeRows s entry rejectIfSealed requirePredecessor).2 := by
  obtain ⟨hrows, hresult⟩ := (self.observeKnownTail entry.segmentId knownTail).write_rows entry
    rejectIfSealed requirePredecessor
  rw [rows_observeKnownTail, Function.update_self] at hrows hresult
  rw [Function.update_idem] at hrows
  exact ⟨hrows, hresult⟩

theorem prefixTrim_rows {segmentId : String} {trimPosition : Int} (hnonneg : 0 ≤ trimPosition)
    (hfits : Int64 trimPosition) :
    (self.prefixTrim segmentId trimPosition).1.rows = Function.update self.rows segmentId
        ((self.rows segmentId).prefixTrim trimPosition.toNat).1 ∧
      (self.prefixTrim segmentId trimPosition).2 =
        .ok ((self.rows segmentId).prefixTrim trimPosition.toNat).2 := by
  let k := fun id => (self.knownTails id).getD 0
  have htrimmed : ((self.tables.upsert segmentId fun r => { r with
      trimmedPrefix := max r.trimmedPrefix trimPosition.toNat }).row segmentId).trimmedPrefix =
        ((self.rows segmentId).prefixTrim trimPosition.toNat).2 := by
    refine (congrArg SegmentRow.trimmedPrefix (Tables.row_upsert ?_ segmentId)).trans ?_
    · exact fun _ => rfl
    · rw [if_pos rfl]
      rfl
  rw [prefixTrim, if_neg (Int.not_lt.mpr hnonneg), if_neg (not_not_intro hfits)]
  refine ⟨?_, congrArg Except.ok htrimmed⟩
  simp only [htrimmed]
  change (Tables.deleteEntries _ segmentId _).rows k = _
  rw [Tables.rows_deleteEntries, Tables.rows_updateTrimmedPrefix, Function.update_self,
    Function.update_idem]
  rfl

theorem sealSegment_rows (segmentId : String) (knownTail : Nat) :
    (self.sealSegment segmentId knownTail).rows = Function.update self.rows segmentId
      ((self.rows segmentId).seal knownTail) := by
  have hobserved := self.rows_observeKnownTail segmentId knownTail
  refine (Tables.rows_upsert ?_).trans ?_
  · exact fun _ => rfl
  change Function.update (self.observeKnownTail segmentId knownTail).rows segmentId
    { (self.observeKnownTail segmentId knownTail).rows segmentId with
      sealed := true
      trimmedPrefix := ((self.observeKnownTail segmentId knownTail).rows segmentId).trimmedPrefix }
    = _
  rw [hobserved, Function.update_self, Function.update_idem]
  rfl

/-- The reported state is the state of the rows. -/
theorem state_eq (segmentId : String) (knownTail : Nat) :
    (self.state segmentId knownTail).2 = ((self.rows segmentId).state knownTail).2 := by
  have hsnapshot : ((self.rows segmentId).state knownTail).2 =
      ⟨segmentId, self.tables.localTail segmentId, (self.tables.row segmentId).trimmedPrefix,
        max ((self.knownTails segmentId).getD 0) knownTail,
          (self.tables.row segmentId).sealed⟩ := rfl
  rw [hsnapshot, Tables.localTail_eq]
  simp [state, Sql.reportOf, observeKnownTail, Tables.row]

end SqliteStore

end DelosLab.NativeLoglet
