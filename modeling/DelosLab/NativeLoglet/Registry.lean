import DelosLab.Async.Scheduler
import DelosLab.Async.Translation
import DelosLab.NativeLoglet.Sequencer

/-!
# LogServerSequencerRegistry

The sequencers of one process. A segment has at most one pending append, whose task goes on
when the calls that wait for it are cancelled. No section under the registry's own lock
awaits anything, so the lock is free whenever it is asked for, and a section is part of one
atomic segment. What the LogServers answer to a sequencer is arbitrary here.
-/

namespace DelosLab.NativeLoglet

open Async Async.Coroutine
open VirtualLog (Bytes)

instance : DecidableEq NativeLogletConfiguration := fun _ _ =>
  decidable_of_iff _ NativeLogletConfiguration.ext_iff.symm

deriving instance DecidableEq for Segment

/-- What a `LogServerSequencerRegistry` is built with. -/
structure LogServerSequencerRegistry where
  nodeId : String
  incarnationId : String

namespace Registry

/-- The number of the task stands for the task. -/
structure PendingAppend where
  commandId : String
  payload : Bytes
  task : Nat
deriving DecidableEq

/-- `create` makes the sequencer of a segment that has none. `createTask` starts a task for
`_run_append` and makes it the pending one. `leave` is the `finally` block of `_run_append`
with the end of its task, which no other task can come between. -/
inductive Act : Type where
  | closed
  | segment (segmentId : String)
  | create (segment : Segment)
  | knownTail (segmentId : String)
  | pending (segmentId : String)
  | createTask (segment : Segment) (commandId : String) (payload : Bytes) (turns : Nat)
  | leave (segmentId : String) (task : Nat) (result : Except Error AppendResult)
  | close
  | sequencer (segmentId : String) (a : NativeLoglet.Act)

@[reducible] def ActResult : Act → Type
  | .closed => Bool
  | .segment _ => Option Segment
  | .create _ => Unit
  | .knownTail _ => Nat
  | .pending _ => Option PendingAppend
  | .createTask _ _ _ _ => Nat
  | .leave _ _ _ => Unit
  | .close => List Nat
  | .sequencer _ a => NativeLoglet.ActResult a

/-- `join` is `asyncio.shield(pending.task)`. -/
inductive Wait : Type where
  | join (task : Nat)
  | gather (tasks : List Nat)
  | sequencer (segmentId : String) (e : NativeLoglet.Wait)
  | never   -- a loop that has used up its turns

@[reducible] def WaitResult : Wait → Type
  | .join _ => AppendResult
  | .gather _ => Unit
  | .sequencer _ e => NativeLoglet.WaitResult e
  | .never => Empty

@[reducible] def signature : Signature where
  Act := Act
  ActResult := ActResult
  Wait := Wait
  WaitResult := WaitResult
  Error := Error

/-- A coroutine of the registry. -/
abbrev Co (α : Type) : Type := Coroutine signature α

def act (a : Act) : Co (ActResult a) := perform (S := signature) a

def wait (e : Wait) : Co (WaitResult e) := await (S := signature) e

/-- A sequencer runs in the registry. -/
def sequencing (segmentId : String) : Interpretation NativeLoglet.signature signature where
  act := fun a => act (.sequencer segmentId a)
  wait := fun e => Coroutine.wait (S := signature) (.sequencer segmentId e) ret
  error := id

/-- `_run_append`, as the task that `createTask` has numbered. -/
def runAppend (segment : Segment) (task : Nat) (commandId : String) (payload : Bytes)
    (turns : Nat) : Co AppendResult := do
  let result ← handle
    (do
      let result ← (sequencing segment.segmentId).translate
        (withLock (segment.appendLocked commandId payload turns))
      ret (.ok result))
    fun e => ret (Except.error e)
  act (.leave segment.segmentId task result)
  ofExcept result

end Registry

namespace LogServerSequencerRegistry

/-- `_sequencer_for`; the sequencer of a segment goes by the segment's identifier. -/
def sequencerFor (self : LogServerSequencerRegistry) (segment : Segment) : Registry.Co Unit := do
  require (segment.configuration.sequencerNode = self.nodeId)
    (.notSequencer segment.configuration.sequencerNode)
  require (segment.configuration.sequencerIncarnation = self.incarnationId)
    (.incarnationMismatch segment.configuration.sequencerIncarnation)
  match ← Registry.act (.segment segment.segmentId) with
  | some existing =>
      require (existing.configuration = segment.configuration)
        (.incarnationMismatch ("segment " ++ segment.segmentId ++ " configuration changed"))
  | none => Registry.act (.create segment)

/-- The loop of `append`, with the number of its turns. -/
def appendLoop (segment : Segment) (commandId : String) (payload : Bytes) (turns : Nat) :
    Nat → Registry.Co AppendResult
  | 0 => do
      let never ← Registry.wait .never
      nomatch never
  | looks + 1 => do
      let closed ← Registry.act .closed
      require (closed = false) (.runtimeError "sequencer registry is closed")
      match ← Registry.act (.pending segment.segmentId) with
      | none => do
          let task ← Registry.act (.createTask segment commandId payload turns)
          Registry.wait (.join task)
      | some pending =>
          if pending.commandId = commandId then do
            require (pending.payload = payload) (.entryConflict commandId)
            Registry.wait (.join pending.task)
          else do
            let _ ← Registry.wait (.join pending.task)
            appendLoop segment commandId payload turns looks

def append (self : LogServerSequencerRegistry) (segment : Segment) (commandId : String)
    (payload : Bytes) (turns looks : Nat) : Registry.Co AppendResult := do
  self.sequencerFor segment
  appendLoop segment commandId payload turns looks

def observe (self : LogServerSequencerRegistry) (segment : Segment) :
    Registry.Co (Option Nat) := do
  if segment.configuration.sequencerNode ≠ self.nodeId ∨
      segment.configuration.sequencerIncarnation ≠ self.incarnationId then ret none
  else do
    let knownTail ← Registry.act (.knownTail segment.segmentId)
    ret (some knownTail)

def close : Registry.Co Unit := do
  let tasks ← Registry.act .close
  Registry.wait (.gather tasks)

end LogServerSequencerRegistry

namespace Registry

/-! ## The system of a registry -/

/-- What a task of `_run_append` was created for. -/
structure Spawn where
  segment : Segment
  commandId : String
  payload : Bytes
  turns : Nat

inductive Call : Type where
  | append (segment : Segment) (commandId : String) (payload : Bytes) (turns looks : Nat)
  | runAppend (task : Nat)
  | observe (segment : Segment)
  | close

inductive Outcome : Type where
  | appended (result : AppendResult)
  | observed (knownTail : Option Nat)
  | done

/-- How a call of `append` ended. -/
structure Return where
  segment : Segment
  commandId : String
  payload : Bytes
  result : Except Error AppendResult

/-- `spawned` has the tasks of `_run_append` in the order of their numbers, `started` those
that run or have run, and `results` how they ended. `returned` is recorded for the statements
about runs. -/
structure World where
  closed : Bool
  sequencers : String → Option (Segment × NativeSequencer)
  pending : String → Option PendingAppend
  spawned : List Spawn
  started : Nat → Option TaskId
  results : Nat → Option (Except Error AppendResult)
  cancelled : Nat → Bool
  returned : List Return

inductive Choice : Type where
  | done
  | gathered (replies : List (Option Response))
  | cancel

/-- A task that was cancelled before its first step. -/
inductive Disturbance : Type where
  | drop (task : Nat)

/-- What an act does to a sequencer. -/
def execSequencer (segmentId : String) (s : NativeSequencer) :
    (a : NativeLoglet.Act) → NativeSequencer × NativeLoglet.ActResult a
  | .sequencerFor => (s, .ok ())
  | .sequencer => (s, s)
  | .observeKnownTail tail => ({ s with knownTail := max s.knownTail tail }, ())
  | .assign commandId payload =>
      let entry : LogEntry := ⟨segmentId, s.nextPosition, commandId, payload⟩
      ({ s with
          nextPosition := s.nextPosition + 1
          entriesByCommand := s.entriesByCommand ++ [entry] }, entry)
  | .setPending entry => ({ s with pending := entry }, ())
  | .setKnownTail tail => ({ s with knownTail := tail }, ())
  | .release => ({ s with holder := none }, ())
  | .client => (s, .new)
  | .observeTail _ => (s, ())
  | .observeTrimmed _ => (s, ())
  | .send _ => (s, 0)

namespace World

def initial : World where
  closed := false
  sequencers := fun _ => none
  pending := fun _ => none
  spawned := []
  started := fun _ => none
  results := fun _ => none
  cancelled := fun _ => false
  returned := []

/-- The sequencer of a segment; a new one where there is none. -/
def sequencer (w : World) (segmentId : String) : NativeSequencer :=
  match w.sequencers segmentId with
  | some (_, s) => s
  | none => .new

def setSequencer (w : World) (segmentId : String) (s : NativeSequencer) : World :=
  match w.sequencers segmentId with
  | some (segment, _) =>
      { w with sequencers := Function.update w.sequencers segmentId (some (segment, s)) }
  | none => w

def create (w : World) (segment : Segment) : World :=
  match w.sequencers segment.segmentId with
  | some _ => w
  | none =>
      { w with
        sequencers := Function.update w.sequencers segment.segmentId (some (segment, .new)) }

/-- `self._pending.values()`, as the numbers of the tasks. -/
def pendingTasks (w : World) : List Nat :=
  (List.range w.spawned.length).filter fun task =>
    match w.spawned[task]? with
    | none => false
    | some spawn => (w.pending spawn.segment.segmentId).any fun pending => pending.task = task

/-- Only `close` cancels a task of `_run_append`; a call may be cancelled at any time. -/
def mayCancel (w : World) (t : TaskId) : Bool :=
  (List.range w.spawned.length).all fun task =>
    w.started task ≠ some t || (w.results task).isSome || w.cancelled task

end World

def exec (w : World) (_ : TaskId) : (a : Act) → World × ActResult a
  | .closed => (w, w.closed)
  | .segment segmentId => (w, (w.sequencers segmentId).map Prod.fst)
  | .create segment => (w.create segment, ())
  | .knownTail segmentId => (w, (w.sequencer segmentId).knownTail)
  | .pending segmentId => (w, w.pending segmentId)
  | .createTask segment commandId payload turns =>
      ({ w with
          spawned := w.spawned ++ [⟨segment, commandId, payload, turns⟩]
          pending := Function.update w.pending segment.segmentId
            (some ⟨commandId, payload, w.spawned.length⟩) },
        w.spawned.length)
  | .leave segmentId task result =>
      let pending := w.pending segmentId
      ({ w with
          pending := if (pending.any fun p => p.task = task) then
            Function.update w.pending segmentId none else w.pending
          results := Function.update w.results task (some result) }, ())
  | .close =>
      ({ w with
          closed := true
          cancelled := fun task => w.cancelled task || w.pendingTasks.contains task },
        w.pendingTasks)
  | .sequencer segmentId a =>
      (w.setSequencer segmentId (execSequencer segmentId (w.sequencer segmentId) a).1,
        (execSequencer segmentId (w.sequencer segmentId) a).2)

def resume (w : World) (t : TaskId) :
    (e : Wait) → Choice → Option (World × Except Error (WaitResult e))
  | _, .cancel => if w.mayCancel t then some (w, .error .cancelled) else none
  | .join task, .done => (w.results task).map fun result => (w, result)
  | .gather tasks, .done =>
      if tasks.all fun task => (w.results task).isSome then some (w, .ok ()) else none
  | .sequencer segmentId .acquire, .done =>
      let s := w.sequencer segmentId
      if s.holder = none then
        some (w.setSequencer segmentId { s with holder := some t }, .ok ())
      else none
  | .sequencer _ .sleep, .done => some (w, .ok ())
  | .sequencer _ (.gather _ _), .gathered replies => some (w, .ok replies)
  | _, _ => none

def start (self : LogServerSequencerRegistry) (w : World) (t : TaskId) :
    Call → Option (World × Co Outcome)
  | .append segment commandId payload turns looks =>
      some (w, do
        let result ← self.append segment commandId payload turns looks
        ret (.appended result))
  | .runAppend task =>
      match w.spawned[task]? with
      | none => none
      | some spawn =>
          if w.started task = none ∧ (w.results task).isNone then
            some ({ w with started := Function.update w.started task (some t) }, do
              let result ←
                runAppend spawn.segment task spawn.commandId spawn.payload spawn.turns
              ret (.appended result))
          else none
  | .observe segment =>
      some (w, do
        let knownTail ← self.observe segment
        ret (.observed knownTail))
  | .close =>
      some (w, do
        LogServerSequencerRegistry.close
        ret .done)

def finish (w : World) : Call → Except Error Outcome → World
  | .append segment commandId payload _ _, .ok (.appended result) =>
      { w with returned := ⟨segment, commandId, payload, .ok result⟩ :: w.returned }
  | .append segment commandId payload _ _, .error e =>
      { w with returned := ⟨segment, commandId, payload, .error e⟩ :: w.returned }
  | _, _ => w

def disturb (w : World) : Disturbance → Option World
  | .drop task =>
      if w.cancelled task ∧ w.started task = none ∧ (w.results task).isNone then
        some { w with results := Function.update w.results task (some (.error .cancelled)) }
      else none

/-- The calls of a registry and the tasks that it creates. -/
def runtime (self : LogServerSequencerRegistry) :
    Runtime signature World TaskId Call Choice Disturbance Outcome where
  start := start self
  exec := exec
  resume := resume
  finish := fun w _ c o => finish w c o
  disturb := disturb
  survives := fun _ _ => true

/-- The registry and the suspended tasks. -/
abbrev SystemState : Type := State signature World TaskId Call Outcome

end Registry

end DelosLab.NativeLoglet
