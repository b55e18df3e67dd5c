import DelosLab.NativeLoglet.Protocol

/-!
# NativeSequencer

One position at a time: an entry is assigned under the lock and put on the members
until a quorum of them answers with a state. A pending entry whose append was given
up is committed before the next command gets a position.
-/

namespace DelosLab.NativeLoglet

open Async Async.Coroutine
open VirtualLog (Bytes)

/-- `async with self._lock: body`. -/
def withLock {α : Type} (body : Co α) : Co α := do
  wait .acquire
  let result ← handle (do let value ← body; ret (.ok value)) fun e => ret (Except.error e)
  act .release
  ofExcept result

namespace Segment

/-- The rounds of `_commit`, with the number of turns that the loop gets. -/
def commitRounds (self : Segment) (entry : LogEntry) : Nat → Co Unit
  | 0 => do
      let never ← wait .never
      nomatch never
  | turns + 1 => do
      let sequencer ← act .sequencer
      let batch ← act (.send (self.toAll (.put entry sequencer.knownTail)))
      let replies ← wait (.gather batch self.members)
      let states := replies.filterMap stateOf
      observeAll (fun tail => act (.observeKnownTail tail)) states
      if self.quorum ≤ states.length then ret ()
      else do
        require (replies.countP isSealed < self.quorum) (.segmentSealed self.segmentId)
        wait .sleep
        self.commitRounds entry turns

def commit (self : Segment) (entry : LogEntry) (turns : Nat) : Co Unit := do
  self.commitRounds entry turns
  let sequencer ← act .sequencer
  require (entry.position = sequencer.knownTail)
    (.runtimeError "sequencer committed prefix is not contiguous")
  act (.setKnownTail (entry.position + 1))

/-- The pending entry of another command goes first. -/
def commitPending (self : Segment) (commandId : String) (turns : Nat) : Co Unit := do
  let sequencer ← act .sequencer
  match sequencer.pending with
  | none => ret ()
  | some pending =>
      if pending.commandId ≠ commandId then do
        self.commit pending turns
        act (.setPending none)
      else ret ()

def commitEntry (self : Segment) (entry : LogEntry) (turns : Nat) : Co AppendResult := do
  act (.setPending (some entry))
  self.commit entry turns
  act (.setPending none)
  let sequencer ← act .sequencer
  ret ⟨entry.position, sequencer.knownTail⟩

/-- `NativeSequencer.append`, inside its lock. -/
def appendLocked (self : Segment) (commandId : String) (payload : Bytes) (turns : Nat) :
    Co AppendResult := do
  let sequencer ← act .sequencer
  match sequencer.entryFor commandId with
  | some entry => do
      require (entry.payload = payload) (.entryConflict commandId)
      if entry.position < sequencer.knownTail then ret ⟨entry.position, sequencer.knownTail⟩
      else do
        self.commitPending commandId turns
        self.commitEntry entry turns
  | none => do
      self.commitPending commandId turns
      let entry ← act (.assign commandId payload)
      self.commitEntry entry turns

/-- `LogServerSequencerRegistry.append`, as far as one of its append tasks goes. -/
def append (self : Segment) (commandId : String) (payload : Bytes) (turns : Nat) :
    Co AppendResult := do
  let found ← act .sequencerFor
  ofExcept (S := signature) found
  withLock (self.appendLocked commandId payload turns)

end Segment

end DelosLab.NativeLoglet
