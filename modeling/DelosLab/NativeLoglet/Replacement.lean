import DelosLab.Common.Ranking
import DelosLab.NativeLoglet.RemoteRuntime

/-!
# NativeLogletReplacementPreparer

`prepare` copies a closed segment from its storage members to those of another configuration,
through two clients of its own, while the LogServers go on to serve the sequencer of the
segment and the clients of any configuration. A store operation of a LogServer is one step
here, `state()` too.
-/

namespace DelosLab.NativeLoglet

open Async Async.Coroutine
open VirtualLog (LogletConfiguration LogSegment LogletConfigurationUpdate)

variable {α P : Type}

/-- The code of a client that is no process's own. -/
def onClient : NativeLogletClient → Co α → Co (α × NativeLogletClient)
  | self, .ret a => .ret (a, self)
  | _, .raise e => .raise e
  | self, .wait e k => .wait e fun r => onClient self (k r)
  | self, .act .client k => onClient self (k self)
  | self, .act (.observeTail tail) k =>
      onClient { self with knownTail := max self.knownTail tail } (k ())
  | self, .act (.observeTrimmed watermark) k =>
      onClient { self with trimmedPrefix := max self.trimmedPrefix watermark } (k ())
  | self, .act a k => .act a fun r => onClient self (k r)

/-- How the parameters of a configuration are validated; the error is its text. -/
structure ParametersCodec (P : Type) where
  modelValidate : P → Except String NativeLogletConfiguration

/-- `NativeLogletConfiguration.from_generic`. -/
def ParametersCodec.fromGeneric (codec : ParametersCodec P)
    (configuration : LogletConfiguration P) : Except Error NativeLogletConfiguration :=
  if configuration.kind ≠ "native" ∨ configuration.version ≠ 1 then
    .error (.valueError ("unsupported Loglet configuration: " ++ configuration.kind ++ "@" ++
      toString configuration.version))
  else
    match codec.modelValidate configuration.parameters with
    | .ok native => .ok native
    | .error message => .error (.valueError message)

namespace NativeLogletReplacementPreparer

/-- A request to each of these members, and what they answer. -/
def askMembers (members : FixedMembers) (request : Request) : Co (List (Option Response)) := do
  let batch ← act (.send (members.members.map fun node => (node, request)))
  wait (.gather batch members.members)

/-- `watermarks[quorum - 1]`, of the states that have been gathered. -/
def quorumWatermark (members : FixedMembers) (states : List (String × LogServerState)) : Nat :=
  let watermarks := Ranking.descending (states.map fun item => item.2.trimmedPrefix)
  watermarks[members.quorum - 1]?.getD 0   -- the index is in range

/-- `_quorum_trimmed_prefix`, and for the statements about runs the states that it gathers. -/
def quorumTrimmedPrefix (segmentId : String) (members : FixedMembers) :
    Co (Nat × List (String × LogServerState)) := do
  let replies ← askMembers members (.state 0)
  let states := statesOf members.members replies
  require (members.quorum ≤ states.length) (.noQuorum segmentId)
  ret (quorumWatermark members states, states)

/-- `_read_entry`. -/
def readEntry (segmentId : String) (position knownTail : Nat) : List String → Co LogEntry
  | [] => raise (.tailUnavailable
      ("replacement source is missing " ++ segmentId ++ ":" ++ toString position))
  | node :: nodes => do
      let batch ← act (.send [(node, .get position knownTail)])
      let answer ← handle (wait (.entry batch node))
        fun e => if e = .connection then ret none else raise e
      match answer with
      | some entry => ret entry
      | none => readEntry segmentId position knownTail nodes

/-- `_repair_quorum`. -/
def repairQuorum (entry : LogEntry) (members : FixedMembers) (knownTail : Nat) : Co Unit := do
  let replies ← askMembers members (.repair entry knownTail)
  require (members.quorum ≤ (replies.filterMap stateOf).length) (.noQuorum entry.segmentId)

/-- The loop of `prepare`: `count` positions from `position` on. -/
def copyPositions (segmentId : String) (source target : FixedMembers) (knownTail position : Nat) :
    Nat → Co Unit
  | 0 => ret ()
  | count + 1 => do
      let entry ← readEntry segmentId position knownTail source.members
      repairQuorum entry target knownTail
      copyPositions segmentId source target knownTail (position + 1) count

/-- `if trimmed_prefix:` and what it does on the target's client. -/
def confirmTrim (target : Segment) (trimmedPrefix : Nat) (client : NativeLogletClient) :
    Co NativeLogletClient :=
  if trimmedPrefix = 0 then ret client
  else do
    let (confirmed, client) ← onClient client (target.prefixTrim trimmedPrefix)
    require (trimmedPrefix ≤ confirmed)
      (.tailUnavailable "replacement trim watermark was not confirmed")
    ret client

/-- `prepare`, with the turns that the loops of `check_tail` get; the states that its watermark
is taken from come with what it returns. -/
def prepare (codec : ParametersCodec P) (segment : LogSegment P)
    (replacement : LogletConfiguration P) (turns : Nat) :
    Co (LogletConfigurationUpdate P × List (String × LogServerState)) := do
  let virtualStop ← orRaise (S := signature) segment.virtualStop
    (.valueError "NativeLoglet replacement requires a sealed segment")
  let current ← ofExcept (S := signature) (codec.fromGeneric segment.loglet)
  let target ← ofExcept (S := signature) (codec.fromGeneric replacement)
  let length := virtualStop - segment.virtualStart
  let (currentTail, _) ← onClient .new (Segment.checkTail ⟨segment.segmentId, current⟩ turns)
  require currentTail.sealed (.tailUnavailable "NativeLoglet replacement source is not sealed")
  require (length ≤ currentTail.tail)
    (.tailUnavailable "NativeLoglet replacement source does not cover its range")
  let (trimmedPrefix, states) ← quorumTrimmedPrefix segment.segmentId current.storageMembers
  copyPositions segment.segmentId current.storageMembers target.storageMembers currentTail.tail
    trimmedPrefix (length - trimmedPrefix)
  let client ← confirmTrim ⟨segment.segmentId, target⟩ trimmedPrefix ⟨currentTail.tail, 0⟩
  let (_, client) ← onClient client (Segment.seal ⟨segment.segmentId, target⟩)
  let (targetTail, _) ← onClient client (Segment.checkTail ⟨segment.segmentId, target⟩ turns)
  require (targetTail.sealed ∧ length ≤ targetTail.tail)
    (.tailUnavailable "replacement does not serve the sealed segment range")
  ret (⟨segment.segmentId, replacement, segment.named⟩, states)

end NativeLogletReplacementPreparer

/-! ## Replacements while a segment is served -/

namespace Replacement

/-- `prefixTrim` is that of a `NativeLogletClient` of the configuration. -/
inductive Call (P : Type) : Type where
  | prefixTrim (configuration : NativeLogletConfiguration) (trimPosition : Nat)
  | prepare (segment : LogSegment P) (replacement : LogletConfiguration P) (turns : Nat)

inductive Outcome (P : Type) : Type where
  | trimmed (watermark : Nat)
  | prepared (update : LogletConfigurationUpdate P) (states : List (String × LogServerState))

/-- What a `prefix_trim` that has returned has confirmed. -/
structure Trim where
  members : List String
  watermark : Nat
deriving DecidableEq

/-- The watermarks, and the trims that had been confirmed, when a call was invoked. -/
structure Opened where
  began : String → Nat
  trims : List Trim

/-- A `prepare` that has returned; `states` is what `_quorum_trimmed_prefix` has gathered. -/
structure Prepared (P : Type) where
  segment : LogSegment P
  replacement : LogletConfiguration P
  opened : Opened
  states : List (String × LogServerState)

/-- The largest watermark that a client of the members had confirmed. -/
def Opened.confirmed (opened : Opened) (members : FixedMembers) : Nat :=
  ((opened.trims.filter fun trim => trim.members = members.members).map Trim.watermark).foldr max 0

/-- `system` has the LogServers and the process of the segment's sequencer. `trims`, `opened`
and `prepared` are recorded for the statements about runs. -/
structure World (P : Type) where
  system : Remote.SystemState
  trims : List Trim
  opened : TaskId → Opened
  prepared : List (Prepared P)

namespace World

def initial (P : Type) (𝒮 : Deployment) : World P :=
  ⟨Runtime.fresh _ _ _ _ (.initial 𝒮), [], fun _ => ⟨fun _ => 0, []⟩, []⟩

def servers (w : World P) : NativeLoglet.World := w.system.world.segment

def setServers (w : World P) (servers : NativeLoglet.World) : World P :=
  { w with system := ⟨{ w.system.world with segment := servers }, w.system.tasks⟩ }

def watermark (w : World P) (node : String) : Nat := (w.servers.store node).trimmedPrefix

end World

/-- `process` is a step of the sequencer's process or of the LogServers; `post` is whatever
other clients send, of any configuration. -/
inductive Disturbance : Type where
  | process (a : Action TaskId Remote.Call Remote.Choice NativeLoglet.Disturbance)
  | post (requests : List (String × Request))

def appends : Remote.Call → Bool
  | .registryAppend _ _ _ => true
  | _ => false

/-- The process of the sequencer appends; every other call of a client is one of the calls
here, or its requests are posted. -/
def serves (s : Remote.SystemState) :
    Action TaskId Remote.Call Remote.Choice NativeLoglet.Disturbance → Bool
  | .launch _ c => appends c
  | .resume t _ => (s.tasks t).all fun task => appends task.1
  | .disturb _ => true

/-- Clients write no entry but those that the sequencer has assigned a position. -/
def assignedOnly (assigned : List LogEntry) : Request → Bool
  | .put entry _ => entry ∈ assigned
  | .repair entry _ => entry ∈ assigned
  | _ => true

def program (𝒮 : Deployment) (codec : ParametersCodec P) : Call P → Co (Outcome P)
  | .prefixTrim configuration trimPosition => do
      let (watermark, _) ← onClient .new
        (Segment.prefixTrim ⟨𝒮.segment.segmentId, configuration⟩ trimPosition)
      ret (.trimmed watermark)
  | .prepare segment replacement turns => do
      let (update, states) ←
        NativeLogletReplacementPreparer.prepare codec segment replacement turns
      ret (.prepared update states)

/-- The rows of the LogServers are those of one segment. -/
def start (𝒮 : Deployment) (codec : ParametersCodec P) (w : World P) (t : TaskId) (c : Call P) :
    Option (World P × Co (Outcome P)) :=
  let opened := { w with opened := Function.update w.opened t ⟨w.watermark, w.trims⟩ }
  match c with
  | .prefixTrim _ _ => some (opened, program 𝒮 codec c)
  | .prepare segment _ _ =>
      if segment.segmentId = 𝒮.segment.segmentId then some (opened, program 𝒮 codec c) else none

def finish (w : World P) (t : TaskId) : Call P → Except Error (Outcome P) → World P
  | .prefixTrim configuration _, .ok (.trimmed watermark) =>
      { w with trims := w.trims ++ [⟨configuration.storageMembers.members, watermark⟩] }
  | .prepare segment replacement _, .ok (.prepared _ states) =>
      { w with prepared := w.prepared ++ [⟨segment, replacement, w.opened t, states⟩] }
  | _, _ => w

def disturb (𝒮 : Deployment) (w : World P) : Disturbance → Option (World P)
  | .process a =>
      if serves w.system a then
        ((Remote.runtime 𝒮).step w.system a).map fun system => { w with system := system }
      else none
  | .post requests =>
      if requests.all fun item => assignedOnly w.servers.assigned item.2 then
        some (w.setServers { w.servers with messages := w.servers.messages ++ [requests] })
      else none

/-- Preparers and trims, while the LogServers and the sequencer serve the segment. -/
def runtime (𝒮 : Deployment) (codec : ParametersCodec P) :
    Runtime signature (World P) TaskId (Call P) Choice Disturbance (Outcome P) where
  start := start 𝒮 codec
  exec := fun w t a => (w.setServers (𝒮.exec w.servers t a).1, (𝒮.exec w.servers t a).2)
  resume := fun w t e x =>
    (Deployment.resume w.servers t e x).map fun r => (w.setServers r.1, r.2)
  finish := finish
  disturb := disturb 𝒮
  survives := fun d t =>
    match d with
    | .process (.disturb (.restart node _)) => t.node ≠ node
    | _ => true

/-- The world and the suspended calls. -/
abbrev SystemState (P : Type) : Type := State signature (World P) TaskId (Call P) (Outcome P)

end Replacement

end DelosLab.NativeLoglet
