import DelosLab.Async.Scheduler
import DelosLab.NativeLoglet.SqlTables

/-!
# SQLiteLogletStore, one statement at a time

The coroutines of the store and the tasks that share its connection. Between two
statements of a task any statement of another may run. A statement may fail and change
nothing; a task that is cancelled at a statement has sent it already, so it takes effect.
-/

namespace DelosLab.NativeLoglet.Sql

open Async Async.Coroutine

inductive Act : Type where
  | observeKnownTail (segmentId : String) (knownTail : Nat)
  | knownTail (segmentId : String)
  | release

@[reducible] def ActResult : Act → Type
  | .observeKnownTail _ _ => Unit
  | .knownTail _ => Nat
  | .release => Unit

inductive Wait : Type where
  | acquire
  | execute (statement : Statement)

@[reducible] def WaitResult : Wait → Type
  | .acquire => Unit
  | .execute statement => statement.Result

@[reducible] def signature : Signature where
  Act := Act
  ActResult := ActResult
  Wait := Wait
  WaitResult := WaitResult
  Error := StoreError

/-- A coroutine of the store. -/
abbrev Co (α : Type) : Type := Coroutine signature α

def act (a : Act) : Co (ActResult a) := perform (S := signature) a

def wait (e : Wait) : Co (WaitResult e) := await (S := signature) e

/-- `await self.db.execute(...)`, and the row that it fetches. -/
def execute (statement : Statement) : Co statement.Result := wait (.execute statement)

/-- `async with self._lock: body`. -/
def withLock {α : Type} (body : Co α) : Co α := do
  wait .acquire
  let result ← handle (do let a ← body; ret (.ok a)) fun e => ret (Except.error e)
  act .release
  ofExcept (S := signature) result

/-- `try: body except BaseException: rollback; raise`. -/
def orRollback {α : Type} (body : Co α) : Co α :=
  body.handle fun e => do
    execute .rollback
    raise e

/-- The shape of every writing operation; `BEGIN IMMEDIATE` stands before the `try`. -/
def transaction {α : Type} (body : Co α) : Co α :=
  withLock do
    execute .begin
    orRollback body

/-! ## Reading rows -/

def isSealed (segmentId : String) : Co Bool := do
  let row ← execute (.selectSealed segmentId)
  ret (row.getD false)

def trimmedPrefix (segmentId : String) : Co Nat := do
  let row ← execute (.selectTrimmedPrefix segmentId)
  ret (row.getD 0)

def entryAt (segmentId : String) (position : Nat) : Co (Option LogEntry) :=
  execute (.selectEntry segmentId position)

def positionForCommand (segmentId commandId : String) : Co (Option Nat) :=
  execute (.selectPosition segmentId commandId)

/-! ## The operations -/

/-- `p and await q`. -/
def andAwait (p : Bool) (q : Co Bool) : Co Bool := if p then q else ret false

/-- The condition of `PredecessorUnavailable`. -/
def lacksPredecessor (entry : LogEntry) : Co Bool :=
  andAwait (0 < entry.position) do
    match ← entryAt entry.segmentId (entry.position - 1) with
    | some _ => ret false
    | none => do
        let knownTail ← act (.knownTail entry.segmentId)
        ret (decide (knownTail ≤ entry.position - 1))

/-- The check of `command_position`. -/
def requireSamePosition (entry : LogEntry) : Option Nat → Co Unit
  | some commandPosition =>
      require (commandPosition = entry.position)
        (.loglet (.entryConflict ("command " ++ entry.commandId ++ " already exists at " ++
          toString commandPosition)))
  | none => ret ()

/-- `_write`, inside its transaction. -/
def writeBody (entry : LogEntry) (rejectIfSealed requirePredecessor : Bool) : Co Unit := do
  execute (.insertSegment entry.segmentId)
  let isSealed ← andAwait rejectIfSealed (isSealed entry.segmentId)
  require (isSealed = false) (.loglet (.segmentSealed entry.segmentId))
  let trimmed ← trimmedPrefix entry.segmentId
  require (trimmed ≤ entry.position) (.loglet (LogletStore.trimmedAt entry))
  match ← entryAt entry.segmentId entry.position with
  | some existing => do
      require (existing = entry) (.loglet (LogletStore.conflictAt entry))
      execute .commit
  | none => do
      let lacking ← andAwait requirePredecessor (lacksPredecessor entry)
      require (lacking = false) (.loglet (LogletStore.predecessorOf entry))
      let commandPosition ← positionForCommand entry.segmentId entry.commandId
      requireSamePosition entry commandPosition
      execute (.insertEntry entry)
      execute .commit

def write (entry : LogEntry) (rejectIfSealed requirePredecessor : Bool) : Co Unit :=
  transaction (writeBody entry rejectIfSealed requirePredecessor)

def put (entry : LogEntry) (knownTail : Nat) : Co Unit := do
  act (.observeKnownTail entry.segmentId knownTail)
  write entry true true

def repair (entry : LogEntry) (knownTail : Nat) : Co Unit := do
  act (.observeKnownTail entry.segmentId knownTail)
  write entry false false

/-- `prefix_trim`, inside its transaction. -/
def prefixTrimBody (segmentId : String) (trimPosition : Nat) : Co Nat := do
  execute (.updateTrimmedPrefix segmentId trimPosition)
  let watermark ← trimmedPrefix segmentId
  execute (.deleteEntries segmentId watermark)
  execute .commit
  ret watermark

def prefixTrim (segmentId : String) (trimPosition : Int) : Co Nat := do
  require (0 ≤ trimPosition) (.loglet (.valueError "prefixTrim requires a non-negative position"))
  transaction (prefixTrimBody segmentId trimPosition.toNat)

def sealSegment (segmentId : String) (knownTail : Nat) : Co Unit := do
  act (.observeKnownTail segmentId knownTail)
  transaction do
    execute (.updateSealed segmentId)
    execute .commit

/-- What the two queries of `state` are put together to. -/
def reportOf (segmentId : String) (segment : Option SegmentRow) (tailValue : Option Nat)
    (knownTail : Nat) : LogServerState :=
  let row := segment.getD (.default segmentId)
  ⟨segmentId, max (tailValue.elim 0 (· + 1)) row.trimmedPrefix, row.trimmedPrefix, knownTail,
    row.sealed⟩

/-- `state`: two queries, without the lock. -/
def state (segmentId : String) (knownTail : Nat) : Co LogServerState := do
  act (.observeKnownTail segmentId knownTail)
  let segment ← execute (.selectSegment segmentId)
  let tailValue ← execute (.selectMaxPosition segmentId)
  let known ← act (.knownTail segmentId)
  ret (reportOf segmentId segment tailValue known)

def get (segmentId : String) (position knownTail : Nat) : Co (Option LogEntry) := do
  act (.observeKnownTail segmentId knownTail)
  entryAt segmentId position

/-! ## The process -/

inductive Call : Type where
  | put (entry : LogEntry) (knownTail : Nat)
  | repair (entry : LogEntry) (knownTail : Nat)
  | prefixTrim (segmentId : String) (trimPosition : Int)
  | sealSegment (segmentId : String) (knownTail : Nat)
  | state (segmentId : String) (knownTail : Nat)

inductive Outcome : Type where
  | done
  | watermark (value : Nat)
  | state (value : LogServerState)

/-- How an open wait is answered. -/
inductive Choice : Type where
  | done
  | refused (message : String)
  | cancelled

inductive Disturbance : Type where
  | crash

/-- A report of `state`: `began` and `returned` committed states of the store lie before
its call and before its return. -/
structure Report where
  began : Nat
  returned : Nat
  state : LogServerState
deriving DecidableEq

/-- `history` lists the committed states, `began` and `queried` say which one held when the
call and its first query ran, and `reports` what has been reported. No task reads these
four. -/
structure World where
  connection : Connection
  lock : Option Nat
  knownTails : String → Nat
  history : List Tables
  began : Nat → Nat
  queried : Nat → Nat
  reports : List Report

namespace World

/-- A process that has just opened its store. -/
def opened (t : Tables) : World where
  connection := .opened t
  lock := none
  knownTails := fun _ => 0
  history := [t]
  began := fun _ => 0
  queried := fun _ => 0
  reports := []

/-- The index of the committed state. -/
def now (w : World) : Nat := w.history.length - 1

/-- The committed states after a statement. -/
def historyAfter (w : World) : Statement → List Tables
  | .commit => w.history ++ [w.connection.working]
  | _ => w.history

def queriedAfter (w : World) (t : Nat) : Statement → Nat → Nat
  | .selectSegment _ => Function.update w.queried t w.now
  | _ => w.queried

/-- Task `t` executes a statement. -/
def executed (w : World) (t : Nat) (s : Statement) : World :=
  { w with
    connection := (w.connection.execute s).1
    history := w.historyAfter s
    queried := w.queriedAfter t s }

end World

def exec (w : World) (_ : Nat) : (a : Act) → World × ActResult a
  | .observeKnownTail segmentId knownTail =>
      let observed := max (w.knownTails segmentId) knownTail
      ({ w with knownTails := Function.update w.knownTails segmentId observed }, ())
  | .knownTail segmentId => (w, w.knownTails segmentId)
  | .release => ({ w with lock := none }, ())

def resume (w : World) (t : Nat) : (e : Wait) → Choice →
    Option (World × Except StoreError (WaitResult e))
  | .acquire, .done => if w.lock = none then some ({ w with lock := some t }, .ok ()) else none
  | .acquire, .cancelled => some (w, .error .cancelled)
  | .execute s, .done => some (w.executed t s, (w.connection.execute s).2)
  | .execute _, .refused message => some (w, .error (.operationalError message))
  | .execute s, .cancelled => some (w.executed t s, .error .cancelled)
  | _, _ => none

def program : Call → Co Outcome
  | .put entry knownTail => do
      put entry knownTail
      ret .done
  | .repair entry knownTail => do
      repair entry knownTail
      ret .done
  | .prefixTrim segmentId trimPosition => do
      let watermark ← prefixTrim segmentId trimPosition
      ret (.watermark watermark)
  | .sealSegment segmentId knownTail => do
      sealSegment segmentId knownTail
      ret .done
  | .state segmentId knownTail => do
      let report ← state segmentId knownTail
      ret (.state report)

def start (w : World) (t : Nat) (c : Call) : Option (World × Co Outcome) :=
  some ({ w with began := Function.update w.began t w.now }, program c)

def finish (w : World) (t : Nat) : Except StoreError Outcome → World
  | .ok (.state report) =>
      { w with reports := w.reports ++ [⟨w.began t, w.history.length, report⟩] }
  | _ => w

/-- The process starts again over what is committed. -/
def disturb (w : World) : Disturbance → Option World
  | .crash => some { w with
      connection := .opened w.connection.committed
      lock := none
      knownTails := fun _ => 0 }

/-- The tasks of a LogServer over its store. -/
def runtime : Runtime signature World Nat Call Choice Disturbance Outcome where
  start := start
  exec := exec
  resume := resume
  finish := fun w t _ o => finish w t o
  disturb := disturb
  survives := fun _ _ => false

abbrev SystemState : Type := State signature World Nat Call Outcome

end DelosLab.NativeLoglet.Sql
