import DelosLab.Async.Translation
import DelosLab.Paxos.Losses
import DelosLab.VirtualLog.System

/-!
# PaxosMetaStoreClient

A client asks one peer after the other, the preferred one first, until one of them answers. A
request that was sent may be served by its peer at any later moment or never, and whatever
becomes of it, the client may be told at any moment that the call failed. The VirtualLog
instances run over the clients.
-/

namespace DelosLab.Paxos

open Async Async.Coroutine
open VirtualLog (LogChain VersionedLogChain CompareAndSetResult RegisterCall)

namespace Client

inductive Error : Type where
  | connection   -- `ConnectionError`
  | noQuorum (message : String)
  | other
  | cancelled
  | log (e : VirtualLog.Error)

inductive Act (P : Type) : Type where
  | preferredPeer
  | prefer (node : String)
  | send (node : String) (call : RegisterCall P)
  | invoked (call : Nat)
  | log (a : VirtualLog.Act P)

@[reducible] def ActResult (P : Type) : Act P → Type
  | .preferredPeer => Option String
  | .prefer _ => Unit
  | .send _ _ => Nat
  | .invoked _ => Option (RegisterCall P)
  | .log a => VirtualLog.ActResult P a

inductive Wait (P : Type) : Type where
  | readReply (request : Nat)
  | casReply (request : Nat)
  | log (e : VirtualLog.Wait P)

@[reducible] def WaitResult (P : Type) : Wait P → Type
  | .readReply _ => VersionedLogChain P
  | .casReply _ => CompareAndSetResult P
  | .log e => VirtualLog.WaitResult P e

@[reducible] def signature (P : Type) : Signature where
  Act := Act P
  ActResult := ActResult P
  Wait := Wait P
  WaitResult := WaitResult P
  Error := Error

/-- A coroutine of one client. -/
abbrev Co (P : Type) (α : Type) : Type := Coroutine (signature P) α

variable {P : Type}

def act (a : Act P) : Co P (ActResult P a) := perform (S := signature P) a

def wait (e : Wait P) : Co P (WaitResult P e) := await (S := signature P) e

end Client

structure PaxosMetaStoreClient where
  peers : List String
  nodup : peers.Nodup
  nonempty : peers ≠ []

namespace PaxosMetaStoreClient

variable {P : Type} {α : Type}

def candidates (self : PaxosMetaStoreClient) (preferredPeer : Option String) : List String :=
  match preferredPeer with
  | none => self.peers
  | some node => if node ∈ self.peers then node :: self.peers.erase node else self.peers

/-- The loop of both calls over the candidates that remain. -/
def tryPeers (attempt : String → Client.Co P α) (exhausted : String) :
    List String → Client.Co P α
  | [] => raise (.noQuorum exhausted)
  | node :: rest => do
      let result ← handle
        (do
          let result ← attempt node
          ret (some result))
        fun
        | .connection => ret none
        | .noQuorum _ => ret none
        | e => raise e
      match result with
      | none => tryPeers attempt exhausted rest
      | some result => do
          Client.act (.prefer node)
          ret result

/-- `self._peers[node_id].read()`. -/
def peerRead (node : String) : Client.Co P (VersionedLogChain P) := do
  let request ← Client.act (.send node .read)
  Client.wait (.readReply request)

/-- `self._peers[node_id].compare_and_set(expected_version, new_chain)`. -/
def peerCompareAndSet (expectedVersion : Nat) (newChain : LogChain P) (node : String) :
    Client.Co P (CompareAndSetResult P) := do
  let request ← Client.act (.send node (.compareAndSet expectedVersion newChain))
  Client.wait (.casReply request)

def read (self : PaxosMetaStoreClient) : Client.Co P (VersionedLogChain P) := do
  let preferredPeer ← Client.act .preferredPeer
  tryPeers peerRead "no MetaStore peer completed the read" (self.candidates preferredPeer)

def compareAndSet (self : PaxosMetaStoreClient) (expectedVersion : Nat) (newChain : LogChain P) :
    Client.Co P (CompareAndSetResult P) := do
  let preferredPeer ← Client.act .preferredPeer
  tryPeers (peerCompareAndSet expectedVersion newChain)
    "no MetaStore peer completed compare-and-set" (self.candidates preferredPeer)

end PaxosMetaStoreClient

namespace Client

variable {P : Type} {α : Type}

/-- An exception as the VirtualLog sees it. -/
def Error.seen : Error → VirtualLog.Error
  | .cancelled => .cancelled
  | .log e => e
  | _ => .metaStoreUnavailable

/-- The end of a call, for the coroutine that awaits it. -/
def capture (p : Co P α) : Co P (Except VirtualLog.Error α) :=
  handle (do let a ← p; ret (.ok a)) fun e => ret (.error e.seen)

/-- The MetaStore of the VirtualLog is the client. -/
def interpretation (self : PaxosMetaStoreClient) :
    Interpretation (VirtualLog.signature P) (signature P) where
  act := fun a => act (.log a)
  wait := fun
    | .readResponse call => do
        match ← act (.invoked call) with
        | some .read => capture self.read
        | _ => ret (.error .metaStoreUnavailable)
    | .casResponse call => do
        match ← act (.invoked call) with
        | some (.compareAndSet expectedVersion newChain) =>
            capture (self.compareAndSet expectedVersion newChain)
        | _ => ret (.error .metaStoreUnavailable)
    | e => capture (wait (.log e))
  error := Error.log

/-! ## Clients, peers and logs -/

/-- A request to a peer, and the task that serves it there. -/
structure Request (P : Type) where
  node : String
  call : RegisterCall P
  served : Option TaskId

inductive Call (P : Type) : Type where
  | read
  | compareAndSet (expectedVersion : Nat) (newChain : LogChain P)
  | log (call : VirtualLog.Call P)

inductive Outcome (P : Type) : Type where
  | snapshot (snapshot : VersionedLogChain P)
  | swapped (result : CompareAndSetResult P)
  | log (outcome : VirtualLog.Outcome P)

/-- A call that returned, and the chains that it asked the peers to install. -/
structure Return (P : Type) where
  call : Call P
  outcome : Outcome P
  proposed : List (Nat × LogChain P)

/-- `log` holds the VirtualLog instances, whose register is left alone; `proposed` and
`returned` are recorded for the statements about runs. -/
structure World (P : Type) where
  peers : NotedState P
  requests : List (Request P)
  preferred : String → Option String
  log : VirtualLog.World P
  proposed : TaskId → List (Nat × LogChain P)
  returned : List (Return P)

inductive Choice (P : Type) : Type where
  | reply
  | log (x : VirtualLog.Choice P)
  | fail (e : Error)

/-- `serve` starts the task of a peer that serves a request. -/
inductive Disturbance (P : Type) : Type where
  | serve (request : Nat) (task : TaskId) (turns : Nat)
  | resume (task : TaskId) (x : Paxos.Choice P)
  | peers (d : Paxos.Disturbance P)
  | crash (node : String)

/-- The peers, the client of each node and the VirtualLog instances. -/
structure Deployment where
  peers : Paxos.Deployment
  clients : String → PaxosMetaStoreClient
  logs : VirtualLog.Deployment

/-- The call of a peer that a request asks for, with the turns that its loop gets. -/
def peerCall (turns : Nat) : RegisterCall P → Paxos.Call P
  | .read => .read turns
  | .compareAndSet expectedVersion newChain => .compareAndSet expectedVersion newChain turns

namespace World

def initial (P : Type) : World P where
  peers := Runtime.fresh _ _ _ _ (Paxos.World.initial P, Notes.initial P)
  requests := []
  preferred := fun _ => none
  log := .initial P
  proposed := fun _ => []
  returned := []

/-- What the task that served a request returned. -/
def reply (w : World P) (request : Nat) : Option (Paxos.Outcome P) :=
  w.requests[request]?.bind fun r => r.served.bind fun t =>
    (w.peers.world.2.returned t).map Paxos.Return.outcome

/-- The chain that task `t` asks for is among those it proposed. -/
def propose (w : World P) (t : TaskId) : RegisterCall P → World P
  | .read => w
  | .compareAndSet expectedVersion newChain =>
      { w with
        proposed := Function.update w.proposed t ((expectedVersion, newChain) :: w.proposed t) }

end World

namespace Deployment

def exec (𝒮 : Deployment) (w : World P) (t : TaskId) : (a : Act P) → World P × ActResult P a
  | .preferredPeer => (w, w.preferred t.node)
  | .prefer node => ({ w with preferred := Function.update w.preferred t.node (some node) }, ())
  | .send node call =>
      ({ w.propose t call with requests := w.requests ++ [⟨node, call, none⟩] },
        w.requests.length)
  | .invoked call => (w, w.log.pending.lookup call)
  | .log a => ({ w with log := (𝒮.logs.exec w.log t a).1 }, (𝒮.logs.exec w.log t a).2)

def resume (𝒮 : Deployment) (w : World P) (t : TaskId) :
    (e : Wait P) → Choice P → Option (World P × Except Error (WaitResult P e))
  | _, .fail e => some (w, .error e)
  | .readReply request, .reply =>
      match w.reply request with
      | some (.snapshot snapshot) => some (w, .ok snapshot)
      | _ => none
  | .casReply request, .reply =>
      match w.reply request with
      | some (.swapped result) => some (w, .ok result)
      | _ => none
  | .log e, .log x =>
      (𝒮.logs.resume w.log t e x).map fun r => ({ w with log := r.1 }, r.2.mapError Error.log)
  | _, _ => none

def start [DecidableEq P] (𝒮 : Deployment) (w : World P) (t : TaskId) (c : Call P) :
    World P × Co P (Outcome P) :=
  ({ w with proposed := Function.update w.proposed t [] },
    match c with
    | .read => do
        let snapshot ← (𝒮.clients t.node).read
        ret (.snapshot snapshot)
    | .compareAndSet expectedVersion newChain => do
        let result ← (𝒮.clients t.node).compareAndSet expectedVersion newChain
        ret (.swapped result)
    | .log call => do
        let outcome ← (interpretation (𝒮.clients t.node)).translate
          (VirtualLog.Deployment.program (𝒮.logs.instances t.node) call)
        ret (.log outcome))

def finish (w : World P) (t : TaskId) (c : Call P) : Except Error (Outcome P) → World P
  | .error _ => w
  | .ok outcome =>
      { w with
        log := match c, outcome with
          | .log call, .log outcome => VirtualLog.Deployment.finish w.log t call (.ok outcome)
          | _, _ => w.log
        returned := ⟨c, outcome, w.proposed t⟩ :: w.returned }

section Runtime

variable [DecidableEq P]

/-- The peers, each of whose calls the notes remember. -/
def servers (𝒮 : Deployment) :=
  𝒮.peers.runtime.observed (pickObserver (P := P))

def disturb (𝒮 : Deployment) (w : World P) : Disturbance P → Option (World P)
  | .serve request t turns =>
      w.requests[request]?.bind fun r =>
        if r.served = none ∧ r.node = t.node ∧ (w.peers.world.2.calls t).isNone then
          (𝒮.servers.step w.peers (.launch t (peerCall turns r.call))).map fun peers =>
            { w with
              peers := peers
              requests := w.requests.set request { r with served := some t } }
        else none
  | .resume t x => (𝒮.servers.step w.peers (.resume t x)).map fun peers => { w with peers := peers }
  | .peers d => (𝒮.servers.step w.peers (.disturb d)).map fun peers => { w with peers := peers }
  | .crash node =>
      some { w with
        preferred := Function.update w.preferred node none
        log := w.log.onInstance node fun _ => ⟨none, none⟩ }

/-- The system of a deployment. A crash of a client's node ends the calls there; what it had
sent stays on its way. -/
def runtime (𝒮 : Deployment) :
    Runtime (signature P) (World P) TaskId (Call P) (Choice P) (Disturbance P) (Outcome P) where
  start := fun w t c => some (𝒮.start w t c)
  exec := 𝒮.exec
  resume := 𝒮.resume
  finish := finish
  disturb := 𝒮.disturb
  survives := fun d t =>
    match d with
    | .crash node => t.node ≠ node
    | _ => true

end Runtime

end Deployment

/-- The world and the suspended calls of the clients. -/
abbrev SystemState (P : Type) : Type := State (signature P) (World P) TaskId (Call P) (Outcome P)

end Client

end DelosLab.Paxos
