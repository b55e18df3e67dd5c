import DelosLab.Async.Scheduler
import DelosLab.NativeLoglet.Client
import DelosLab.NativeLoglet.Sequencer
import DelosLab.NativeLoglet.Store

/-!
# The processes of a NativeLoglet segment

Every process has a registry that may own the segment's sequencer, a client, and a
LogServer with its store. A request that was sent may be handled at any later
moment, or never, and so may its answer be gathered. A handler that writes answers
with the state that a second store operation reads, and anything may happen between
the two. A store operation is one step, `state()` too, as `MemoryLogletStore` has it;
the two queries of `SQLiteLogletStore.state`, which a `prefix_trim` may come between,
are those of `SqlStore`.
-/

namespace DelosLab.NativeLoglet

open Async Async.Coroutine
open VirtualLog (Bytes)

inductive Call : Type where
  | append (commandId : String) (payload : Bytes) (turns : Nat)
  | seal
  | prefixTrim (trimPosition : Nat)
  | checkTail (turns : Nat)
  | readNext (localStart localStop : Nat)
deriving DecidableEq

inductive Outcome : Type where
  | appended (commandId : String) (result : AppendResult)
  | done
  | trimmed (watermark : Nat)
  | tail (result : CheckTailResult)
  | entry (entry : Option LogEntry)
deriving DecidableEq

/-- A call that returned; `before` calls had returned when it was invoked. -/
structure Completion where
  before : Nat
  outcome : Outcome
deriving DecidableEq

/-- The answer of `node` to its request in a batch. -/
structure Reply where
  batch : Nat
  node : String
  response : Response
deriving DecidableEq

/-- `past` has the earlier incarnations of the process. -/
structure Process where
  incarnation : String
  past : List String
  sequencer : Option NativeSequencer
  client : NativeLogletClient
  store : LogletStore

/-- `handling` has the handlers that wrote and have not read the state yet.
`assigned` (the entries that got a position), `stored` (the puts that a LogServer
has accepted), `invoked`, `completed` and `failed` are recorded for the statements
about runs; nothing else reads them. -/
structure World where
  processes : String → Process
  messages : List (List (String × Request))
  handling : List (Nat × String)
  replies : List Reply
  assigned : List LogEntry
  stored : List (String × Nat)
  invoked : TaskId → Nat
  completed : List Completion
  failed : List (Call × Error)

/-- How an open wait is answered. -/
inductive Choice : Type where
  | done
  | gathered (replies : List (Option Response))
  | entry (entry : Option LogEntry)
  | state (state : LogServerState)
  | first (node : String) (state : LogServerState)
  | noState
  | fail (error : Error)
  | cancel

inductive Disturbance : Type where
  | deliver (batch : Nat) (node : String)
  | respond (batch : Nat) (node : String)
  | learn (node : String) (returned : Nat)
  | restart (node : String) (incarnation : String)

/-- The segment, the kind of its stores, and the processes' first incarnations. -/
structure Deployment where
  segment : Segment
  kind : StoreKind
  incarnation : String → String

namespace World

def initial (𝒮 : Deployment) : World where
  processes := fun node =>
    ⟨𝒮.incarnation node, [], none, .new, .empty 𝒮.segment.segmentId⟩
  messages := []
  handling := []
  replies := []
  assigned := []
  stored := []
  invoked := fun _ => 0
  completed := []
  failed := []

def store (w : World) (node : String) : LogletStore := (w.processes node).store

/-- The sequencer of a process; one that has just been made, where there is none. -/
def sequencer (w : World) (node : String) : NativeSequencer :=
  (w.processes node).sequencer.getD .new

def client (w : World) (node : String) : NativeLogletClient := (w.processes node).client

def setProcess (w : World) (node : String) (process : Process) : World :=
  { w with processes := Function.update w.processes node process }

def setStore (w : World) (node : String) (store : LogletStore) : World :=
  w.setProcess node { w.processes node with store := store }

def setSequencer (w : World) (node : String) (sequencer : NativeSequencer) : World :=
  w.setProcess node { w.processes node with sequencer := some sequencer }

def setClient (w : World) (node : String) (client : NativeLogletClient) : World :=
  w.setProcess node { w.processes node with client := client }

/-- What `node` is asked for in a batch. -/
def request (w : World) (batch : Nat) (node : String) : Option Request :=
  (w.messages[batch]?).bind fun requests => requests.lookup node

def reply (w : World) (batch : Nat) (node : String) (response : Response) : World :=
  { w with replies := ⟨batch, node, response⟩ :: w.replies }

/-- A handler has written and goes on to read the state, or it raises. -/
def written (w : World) (batch : Nat) (node : String) : Except Error Unit → World
  | .ok () => { w with handling := (batch, node) :: w.handling }
  | .error e => w.reply batch node (.error e)

def accept (w : World) (node : String) (position : Nat) : Except Error Unit → World
  | .ok () => { w with stored := (node, position) :: w.stored }
  | .error _ => w

/-- `node` handles a request up to its first store operation, which is one step. -/
def deliver (𝒮 : Deployment) (w : World) (batch : Nat) (node : String) : Request → World
  | .put entry knownTail =>
      let result := LogletStore.put 𝒮.kind (w.store node) entry knownTail
      (((w.setStore node result.1).accept node entry.position result.2).written batch node result.2)
  | .repair entry knownTail =>
      let result := LogletStore.repair 𝒮.kind (w.store node) entry knownTail
      (w.setStore node result.1).written batch node result.2
  | .get position knownTail =>
      let result := (w.store node).get position knownTail
      (w.setStore node result.1).reply batch node (.entry result.2)
  | .seal knownTail =>
      (w.setStore node ((w.store node).seal knownTail)).written batch node (.ok ())
  | .prefixTrim trimPosition =>
      (w.setStore node ((w.store node).prefixTrim trimPosition).1).written batch node (.ok ())
  | .state knownTail =>
      let result := (w.store node).state knownTail
      (w.setStore node result.1).reply batch node (.state result.2)
  | .waitForTail localTail knownTail =>
      let result := (w.store node).state knownTail
      if localTail ≤ result.2.localTail ∨ result.2.sealed then
        (w.setStore node result.1).reply batch node (.state result.2)
      else w.setStore node result.1

end World

/-- The known tail that a handler passes to the state that it reads. -/
def Request.stateTail : Request → Nat
  | .put _ knownTail => knownTail
  | .repair _ knownTail => knownTail
  | .seal knownTail => knownTail
  | _ => 0

namespace World

/-- A handler that has written reads the state and answers. -/
def respond (w : World) (batch : Nat) (node : String) (request : Request) : World :=
  let result := (w.store node).state request.stateTail
  ({ w with handling := w.handling.erase (batch, node) }.setStore node result.1).reply batch node
    (.state result.2)

/-- Each gathered response came from its member. -/
def answered (w : World) (batch : Nat) : List String → List (Option Response) → Bool
  | [], [] => true
  | _ :: members, none :: replies => w.answered batch members replies
  | node :: members, some response :: replies =>
      w.replies.contains ⟨batch, node, response⟩ && w.answered batch members replies
  | _, _ => false

end World

namespace Deployment

/-- `_sequencer_for` of a process. -/
def sequencerFor (𝒮 : Deployment) (w : World) (node : String) : World × Except Error Unit :=
  let configuration := 𝒮.segment.configuration
  if configuration.sequencerNode ≠ node then
    (w, .error (.notSequencer configuration.sequencerNode))
  else if configuration.sequencerIncarnation ≠ (w.processes node).incarnation then
    (w, .error (.incarnationMismatch configuration.sequencerIncarnation))
  else (w.setSequencer node (w.sequencer node), .ok ())

def exec (𝒮 : Deployment) (w : World) (t : TaskId) : (a : Act) → World × ActResult a
  | .sequencerFor => 𝒮.sequencerFor w t.node
  | .sequencer => (w, w.sequencer t.node)
  | .observeKnownTail tail =>
      let s := w.sequencer t.node
      (w.setSequencer t.node { s with knownTail := max s.knownTail tail }, ())
  | .assign commandId payload =>
      let s := w.sequencer t.node
      let entry : LogEntry := ⟨𝒮.segment.segmentId, s.nextPosition, commandId, payload⟩
      ({ w.setSequencer t.node { s with
          nextPosition := s.nextPosition + 1
          entriesByCommand := s.entriesByCommand ++ [entry] } with
        assigned := w.assigned ++ [entry] }, entry)
  | .setPending entry => (w.setSequencer t.node { w.sequencer t.node with pending := entry }, ())
  | .setKnownTail tail => (w.setSequencer t.node { w.sequencer t.node with knownTail := tail }, ())
  | .release => (w.setSequencer t.node { w.sequencer t.node with holder := none }, ())
  | .client => (w, w.client t.node)
  | .observeTail tail =>
      let client := w.client t.node
      (w.setClient t.node { client with knownTail := max client.knownTail tail }, ())
  | .observeTrimmed watermark =>
      let client := w.client t.node
      (w.setClient t.node { client with trimmedPrefix := max client.trimmedPrefix watermark }, ())
  | .send requests => ({ w with messages := w.messages ++ [requests] }, w.messages.length)

def resume (w : World) (t : TaskId) :
    (e : Wait) → Choice → Option (World × Except Error (WaitResult e))
  | _, .cancel => some (w, .error .cancelled)
  | .acquire, .done =>
      if (w.sequencer t.node).holder = none then
        some (w.setSequencer t.node { w.sequencer t.node with holder := some t }, .ok ())
      else none
  | .sleep, .done => some (w, .ok ())
  | .gather batch members, .gathered replies =>
      if w.answered batch members replies then some (w, .ok replies) else none
  | .entry batch node, .entry entry =>
      if w.replies.contains ⟨batch, node, .entry entry⟩ then some (w, .ok entry) else none
  | .state batch node, .state state =>
      if w.replies.contains ⟨batch, node, .state state⟩ then some (w, .ok state) else none
  | .entry batch node, .fail e =>
      if e = .connection ∨ w.replies.contains ⟨batch, node, .error e⟩ then some (w, .error e)
      else none
  | .state batch node, .fail e =>
      if e = .connection ∨ w.replies.contains ⟨batch, node, .error e⟩ then some (w, .error e)
      else none
  | .firstState batch, .first node state =>
      if w.replies.contains ⟨batch, node, .state state⟩ then some (w, .ok (some state)) else none
  | .firstState _, .noState => some (w, .ok none)
  | _, _ => none

/-- A call of the process `node`. -/
def program (𝒮 : Deployment) (node : String) : Call → Co Outcome
  | .append commandId payload turns => do
      let result ← 𝒮.segment.append commandId payload turns
      ret (.appended commandId result)
  | .seal => do
      𝒮.segment.seal
      ret .done
  | .prefixTrim trimPosition => do
      let watermark ← 𝒮.segment.prefixTrim trimPosition
      ret (.trimmed watermark)
  | .checkTail turns => do
      let result ← 𝒮.segment.checkTail turns
      ret (.tail result)
  | .readNext localStart localStop => do
      let entry ← 𝒮.segment.readNext node localStart localStop
      ret (.entry entry)

def finish (w : World) (t : TaskId) (c : Call) : Except Error Outcome → World
  | .ok outcome => { w with completed := w.completed ++ [⟨w.invoked t, outcome⟩] }
  | .error e => { w with failed := (c, e) :: w.failed }

def start (𝒮 : Deployment) (w : World) (t : TaskId) (c : Call) : Option (World × Co Outcome) :=
  some ({ w with invoked := Function.update w.invoked t w.completed.length },
    𝒮.program t.node c)

/-- The client of `node` observes the known tail of an append that returned. -/
def learn (w : World) (node : String) : Option Completion → Option World
  | some ⟨_, .appended _ result⟩ =>
      let client := w.client node
      some (w.setClient node { client with knownTail := max client.knownTail result.knownTail })
  | _ => none

/-- A process comes up again with an incarnation that it never had before. What it
keeps is in its SQLite store. -/
def restart (𝒮 : Deployment) (w : World) (node incarnation : String) : Option World :=
  let process := w.processes node
  if 𝒮.kind = .sqlite ∧ incarnation ∉ process.incarnation :: process.past then
    some ({ w with handling := w.handling.filter fun h => h.2 ≠ node }.setProcess node
      ⟨incarnation, process.incarnation :: process.past, none, .new, process.store.reopen⟩)
  else none

def disturb (𝒮 : Deployment) (w : World) : Disturbance → Option World
  | .deliver batch node => (w.request batch node).map (w.deliver 𝒮 batch node)
  | .respond batch node =>
      if (batch, node) ∈ w.handling then
        (w.request batch node).map (w.respond batch node)
      else none
  | .learn node returned => learn w node w.completed[returned]?
  | .restart node incarnation => 𝒮.restart w node incarnation

/-- The processes of a deployment. -/
def runtime (𝒮 : Deployment) :
    Runtime signature World TaskId Call Choice Disturbance Outcome where
  start := 𝒮.start
  exec := 𝒮.exec
  resume := resume
  finish := finish
  disturb := 𝒮.disturb
  survives := fun d t =>
    match d with
    | .restart node _ => t.node ≠ node
    | _ => true

end Deployment

/-- The world and the suspended tasks of the processes. -/
abbrev SystemState : Type := State signature World TaskId Call Outcome

end DelosLab.NativeLoglet
