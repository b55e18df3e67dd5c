import DelosLab.Async.Coroutine
import DelosLab.Kv.Store
import DelosLab.VirtualLog.Core

/-!
# Store, materializer and service

The coroutines of one replica. A SQL statement runs on the connection in the order of the
calls, so it takes effect where it is called; its caller is suspended until the answer,
which may be an exception.
-/

namespace DelosLab.Kv

open Async Async.Coroutine
open VirtualLog (Bytes VirtualLogEntry LogletTail)

/-- `to_payload` and `from_payload`; `none` is the `ValidationError`. -/
structure Codec where
  toPayload : KvCommandEnvelope → Bytes
  fromPayload : Bytes → Option KvCommandEnvelope

/-- The locks of the store, the materializer and the service of a replica. -/
inductive Lock : Type where
  | store
  | materializer
  | bootstrap
deriving DecidableEq

inductive Act : Type where
  | sql (statement : Statement)
  | release (lock : Lock)
  | cached   -- whether the VirtualLog of the replica has a cached chain

@[reducible] def ActResult : Act → Type
  | .sql statement => Except Error statement.Result
  | .release _ => Unit
  | .cached => Bool

inductive Wait : Type where
  | executed
  | acquire (lock : Lock)
  | refresh
  | initialSegment
  | bootstrap
  | append (commandId : String) (payload : Bytes)
  | checkTail
  | readNext (virtualStart virtualStop : Int)

@[reducible] def WaitResult : Wait → Type
  | .executed => Unit
  | .acquire _ => Unit
  | .refresh => Unit
  | .initialSegment => Unit
  | .bootstrap => Unit
  | .append _ _ => Nat
  | .checkTail => LogletTail
  | .readNext _ _ => Option VirtualLogEntry

@[reducible] def signature : Signature where
  Act := Act
  ActResult := ActResult
  Wait := Wait
  WaitResult := WaitResult
  Error := Error

/-- A coroutine of one replica. -/
abbrev Co (α : Type) : Type := Coroutine signature α

def act (a : Act) : Co (ActResult a) := perform (S := signature) a

def wait (e : Wait) : Co (WaitResult e) := await (S := signature) e

/-- `await self.db.execute(...)`, and what it fetches. -/
def execute (statement : Statement) : Co statement.Result := do
  let answer ← act (.sql statement)
  wait .executed
  ofExcept (S := signature) answer

/-- `async with lock: body`. -/
def withLock {α : Type} (lock : Lock) (body : Co α) : Co α := do
  wait (.acquire lock)
  let result ← handle (do let a ← body; ret (.ok a)) fun e => ret (Except.error e)
  act (.release lock)
  ofExcept (S := signature) result

/-! ## `SQLiteKvStore` -/

namespace SQLiteKvStore

def appliedPosition : Co Int := execute .selectProgress

def get (key : String) : Co (Option KvValue) := execute (.selectItem key)

def snapshot : Co KvValues := execute .selectItems

def request (clientId requestId : String) : Co (Option (KvCommandEnvelope × KvResult)) :=
  execute (.selectRequest clientId requestId)

def resultAtPosition (position : Int) : Co (Option KvResult) := do
  let row ← execute (.selectEntry position)
  ret (row.map Prod.snd)

/-- `try: body except BaseException: rollback; raise`. -/
def orRollback {α : Type} (body : Co α) : Co α :=
  body.handle fun e => do
    execute .rollback
    raise e

def existingPosition (position : Nat) (command : KvCommandEnvelope) : Co KvResult := do
  let row ← execute (.selectEntry position)
  match row with
  | some (existing, result) => do
      require (existing = command)
        (.requestConflict ("position " ++ toString position ++ " contains another command"))
      ret result
  | none =>
      raise (.requestConflict ("position " ++ toString position ++ " contains another command"))

def replaceSnapshot (values : KvValues) : Co Unit := do
  execute .deleteItems
  execute (.insertItems values)

/-- The result of a command at a new position: the stored one of its request, or what it
does to the values. -/
def resultOf (position : Nat) (command : KvCommandEnvelope) : Co KvResult := do
  let prior ← request command.clientId.val command.requestId.val
  match prior with
  | some (priorCommand, result) => do
      require (priorCommand = command) (.requestConflict command.commandId)
      ret result
  | none => do
      let values ← snapshot
      let outcome := KvStateMachine.apply values command.operation
      replaceSnapshot outcome.1
      execute (.insertRequests [⟨command.clientId.val, command.requestId.val, command, outcome.2,
        position⟩])
      ret outcome.2

/-- `apply`, inside its transaction. -/
def applyBody (position : Nat) (command : KvCommandEnvelope) : Co KvResult := do
  let current ← appliedPosition
  if (position : Int) ≤ current then do
    let result ← existingPosition position command
    execute .commit
    ret result
  else do
    let result ← resultOf position command
    execute (.insertEntries [⟨position, command, result⟩])
    execute (.updateProgress position)
    execute .commit
    ret result

/-- `apply`. What `json.dumps` raises for an integer of more than 4300 digits is here the failure
of the statement that binds its text. -/
def apply (position : Nat) (command : KvCommandEnvelope) : Co KvResult :=
  withLock .store do
    execute .begin
    orRollback (applyBody position command)

end SQLiteKvStore

namespace Codec

variable (codec : Codec)

/-! ## `KvMaterializer` -/

/-- How a range is shown in an error text. -/
def rangeText (start stop : Int) : String := "[" ++ toString start ++ ", " ++ toString stop ++ ")"

def readNext (target next : Int) : Co (Option VirtualLogEntry) :=
  handle (wait (.readNext next (target + 1))) fun e =>
    if e = .connection then
      raise (.syncRequired ("range " ++ rangeText next (target + 1) ++ " is unavailable"))
    else raise e

/-- The loop of `materialize_through`, with the positions that it may still take. -/
def replayLoop (target : Int) : Nat → Int → Option KvResult → Co (Option KvResult)
  | 0, _, result => ret result
  | positions + 1, next, result =>
      if target < next then ret result
      else do
        match ← readNext target next with
        | none => raise (.syncRequired
            ("readNext found no entry in committed range " ++ rangeText next (target + 1)))
        | some entry =>
            match codec.fromPayload entry.payload with
            | none => raise (.invalidKvPayload
                ("position " ++ toString entry.position ++ " has invalid payload"))
            | some command => do
                let result ← SQLiteKvStore.apply entry.position command
                replayLoop target positions (entry.position + 1) (some result)

/-- `materialize_through`, inside its lock. -/
def materializeLocked (target : Int) : Co KvResult := do
  let current ← SQLiteKvStore.appliedPosition
  if target ≤ current then do
    match ← SQLiteKvStore.resultAtPosition target with
    | none => raise (.syncRequired ("position " ++ toString target ++ " has no stored result"))
    | some existing => ret existing
  else do
    match ← codec.replayLoop target (target - current).toNat (current + 1) none with
    | none => raise (.syncRequired ("position " ++ toString target ++ " was not applied"))
    | some result => ret result

def materializeThrough (target : Int) : Co KvResult :=
  withLock .materializer (codec.materializeLocked target)

/-! ## `KvService` -/

def ensureBootstrapped : Co Unit := do
  let cached ← act .cached
  if cached then ret ()
  else
    withLock .bootstrap (handle (wait .refresh) fun
      | .chainUnavailable _ => do
          handle (wait .initialSegment) fun
            | .logletUnavailable _ =>
                raise (.reconfigurationUnavailable "initial Loglet configuration is unavailable")
            | e => raise e
          wait .bootstrap
      | e => raise e)

/-- `except (LogletSealed, LogletUnavailable): raise ReconfigurationUnavailable(message)`. -/
def orReconfigure {α : Type} (message : String) (body : Co α) : Co α :=
  body.handle fun
    | .logletSealed _ => raise (.reconfigurationUnavailable message)
    | .logletUnavailable _ => raise (.reconfigurationUnavailable message)
    | e => raise e

def submit (command : KvCommandEnvelope) : Co KvResult := do
  match ← SQLiteKvStore.request command.clientId.val command.requestId.val with
  | some (previous, result) => do
      require (previous = command) (.requestConflict command.commandId)
      ret result
  | none => do
      ensureBootstrapped
      let position ← orReconfigure ("could not append " ++ command.commandId)
        (wait (.append command.commandId (codec.toPayload command)))
      codec.materializeThrough position

def sync : Co Int := do
  ensureBootstrapped
  let tail ← orReconfigure "could not establish the Loglet tail" (wait .checkTail)
  require (tail.sealed = false)
    (.reconfigurationUnavailable "VirtualLog returned a sealed active Loglet")
  let target : Int := tail.tail - 1
  let current ← SQLiteKvStore.appliedPosition
  if current < target then do
    let _ ← codec.materializeThrough target
    ret target
  else ret target

def get (key : String) : Co (Option KvValue) := do
  let _ ← codec.sync
  SQLiteKvStore.get key

end Codec

end DelosLab.Kv
