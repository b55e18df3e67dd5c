import DelosLab.Async.Coroutine
import DelosLab.NativeLoglet.Types

/-!
# Requests, and what a process may do

The coroutines of a process act on its own sequencer and on its own client, and
send requests to LogServers. `send` numbers the batch that it sends, and the
answers to a batch are gathered by its number.
-/

namespace DelosLab.NativeLoglet

open Async Async.Coroutine
open VirtualLog (Bytes)

inductive Request : Type where
  | put (entry : LogEntry) (knownTail : Nat)
  | repair (entry : LogEntry) (knownTail : Nat)
  | get (position knownTail : Nat)
  | seal (knownTail : Nat)
  | prefixTrim (trimPosition : Nat)
  | state (knownTail : Nat)
  | waitForTail (localTail knownTail : Nat)
deriving DecidableEq

/-- What a LogServer answers: a state, an entry, or an exception. -/
inductive Response : Type where
  | state (state : LogServerState)
  | entry (entry : Option LogEntry)
  | error (error : Error)
deriving DecidableEq

/-- `isinstance(reply, LogServerState)`; a call that got no answer is `none`. -/
def stateOf : Option Response → Option LogServerState
  | some (.state state) => some state
  | _ => none

/-- `isinstance(reply, SegmentSealed)`. -/
def isSealed : Option Response → Bool
  | some (.error (.segmentSealed _)) => true
  | _ => false

/-- `entriesByCommand` has the entries in the order of their insertion; the key of an
entry is its command. `holder` is the task inside `async with self._lock`. -/
structure NativeSequencer where
  nextPosition : Nat
  knownTail : Nat
  entriesByCommand : List LogEntry
  pending : Option LogEntry
  holder : Option TaskId
deriving DecidableEq

def NativeSequencer.new : NativeSequencer := ⟨0, 0, [], none, none⟩

/-- `self._entries_by_command.get(command_id)`. -/
def NativeSequencer.entryFor (self : NativeSequencer) (commandId : String) : Option LogEntry :=
  self.entriesByCommand.find? fun e => e.commandId = commandId

theorem NativeSequencer.entryFor_some {s : NativeSequencer} {commandId : String} {e : LogEntry}
    (h : s.entryFor commandId = some e) : e ∈ s.entriesByCommand ∧ e.commandId = commandId := by
  have hid := List.find?_some h
  exact ⟨List.mem_of_find?_eq_some h, by simpa using hid⟩

/-- `commandId` has not been assigned a position. -/
def Unassigned (commandId : String) (entries : List LogEntry) : Prop :=
  ∀ e ∈ entries, e.commandId ≠ commandId

theorem NativeSequencer.entryFor_none {s : NativeSequencer} {commandId : String}
    (h : s.entryFor commandId = none) : Unassigned commandId s.entriesByCommand := by
  intro e he
  have hne := List.find?_eq_none.mp h e he
  simpa using hne

/-- The state of a `NativeLogletClient`. -/
structure NativeLogletClient where
  knownTail : Nat
  trimmedPrefix : Nat
deriving DecidableEq

def NativeLogletClient.new : NativeLogletClient := ⟨0, 0⟩

inductive Act : Type where
  | sequencerFor   -- `_sequencer_for`: the fences, then the process's own sequencer
  | sequencer
  | observeKnownTail (tail : Nat)
  | assign (commandId : String) (payload : Bytes)
  | setPending (entry : Option LogEntry)
  | setKnownTail (tail : Nat)
  | release
  | client
  | observeTail (tail : Nat)
  | observeTrimmed (watermark : Nat)
  | send (requests : List (String × Request))

@[reducible] def ActResult : Act → Type
  | .sequencerFor => Except Error Unit
  | .sequencer => NativeSequencer
  | .observeKnownTail _ => Unit
  | .assign _ _ => LogEntry
  | .setPending _ => Unit
  | .setKnownTail _ => Unit
  | .release => Unit
  | .client => NativeLogletClient
  | .observeTail _ => Unit
  | .observeTrimmed _ => Unit
  | .send _ => Nat

inductive Wait : Type where
  | acquire
  | sleep
  | gather (batch : Nat) (members : List String)
  | entry (batch : Nat) (node : String)
  | state (batch : Nat) (node : String)
  | firstState (batch : Nat)
  | never   -- a loop that has used up its turns

@[reducible] def WaitResult : Wait → Type
  | .acquire => Unit
  | .sleep => Unit
  | .gather _ _ => List (Option Response)
  | .entry _ _ => Option LogEntry
  | .state _ _ => LogServerState
  | .firstState _ => Option LogServerState
  | .never => Empty

@[reducible] def signature : Signature where
  Act := Act
  ActResult := ActResult
  Wait := Wait
  WaitResult := WaitResult
  Error := Error

/-- A coroutine of one process. -/
abbrev Co (α : Type) : Type := Coroutine signature α

def act (a : Act) : Co (ActResult a) := perform (S := signature) a

def wait (e : Wait) : Co (WaitResult e) := await (S := signature) e

/-- What a `NativeSequencer` and a `NativeLogletClient` of a segment are built with. -/
structure Segment where
  segmentId : String
  configuration : NativeLogletConfiguration

namespace Segment

def members (self : Segment) : List String := self.configuration.storageMembers.members

def quorum (self : Segment) : Nat := self.configuration.storageMembers.quorum

/-- One request for every member. -/
def toAll (self : Segment) (request : Request) : List (String × Request) :=
  self.members.map fun node => (node, request)

end Segment

/-- `for state in states: observe(state.known_tail)`. -/
def observeAll (observe : Nat → Co Unit) : List LogServerState → Co Unit
  | [] => ret ()
  | state :: states => do
      observe state.knownTail
      observeAll observe states

end DelosLab.NativeLoglet
