import DelosLab.Async.Scheduler
import DelosLab.Paxos.Proposer

/-!
# Paxos peers and their messages

A request that was sent may be handled by each of its targets any number of times
and in any order, or never; a reply may be gathered at any later moment, or lost.
A crash ends the tasks of a node and leaves what its storage holds.
-/

namespace DelosLab.Paxos

open Async Async.Coroutine
open VirtualLog (LogChain VersionedLogChain CompareAndSetResult)

structure Message (P : Type) where
  targets : List String
  request : Request P
deriving DecidableEq

inductive Response (P : Type) : Type where
  | prepare (response : PrepareResponse P)
  | accept (response : AcceptResponse)
  | decide
deriving DecidableEq

structure Reply (P : Type) where
  source : String
  request : Request P
  response : Response P
deriving DecidableEq

/-- An acceptance: `acceptor` accepted `value` at `ballot` in `slot`. -/
structure Vote (P : Type) where
  acceptor : String
  slot : Nat
  ballot : Ballot
  value : PaxosValue P
deriving DecidableEq

inductive Call (P : Type) : Type where
  | decideSlot (slot : Nat) (proposed : PaxosValue P)
  | read (turns : Nat)
  | compareAndSet (expectedVersion : Nat) (newChain : LogChain P) (turns : Nat)

inductive Outcome (P : Type) : Type where
  | value (value : PaxosValue P)
  | snapshot (snapshot : VersionedLogChain P)
  | swapped (result : CompareAndSetResult P)
deriving DecidableEq

/-- A call that returned; `before` calls had returned when it was invoked. -/
structure Completion (P : Type) where
  before : Nat
  outcome : Outcome P

/-- `votes`, `reserved`, `safetyErrors`, `invoked` and `completed` are recorded
for the statements about runs; no task and no acceptor reads them. -/
structure World (P : Type) where
  acceptors : String → PaxosAcceptor P
  messages : List (Message P)
  replies : List (Reply P)
  votes : List (Vote P)
  reserved : List (Ballot × TaskId)
  safetyErrors : List String
  invoked : TaskId → Nat
  completed : List (Completion P)

/-- How an open wait is answered. -/
inductive Choice (P : Type) : Type where
  | saved
  | saveFailed
  | prepared (replies : List (Option (PrepareResponse P)))
  | accepted (replies : List (Option AcceptResponse))
  | done
  | cancel

inductive Disturbance (P : Type) : Type where
  | handle (message : Message P) (target : String) (saves : Bool)
  | crash (node : String)

/-- A fixed membership and the acceptors' names. -/
structure Deployment where
  members : FixedMembers
  maxBallotAttempts : Nat
  positive : 1 ≤ maxBallotAttempts

variable {P : Type}

namespace World

/-- Every node starts with an empty storage. -/
def initial (P : Type) : World P where
  acceptors := fun node => .create node .empty
  messages := []
  replies := []
  votes := []
  reserved := []
  safetyErrors := []
  invoked := fun _ => 0
  completed := []

def setAcceptor (w : World P) (node : String) (acceptor : PaxosAcceptor P) : World P :=
  { w with acceptors := Function.update w.acceptors node acceptor }

/-- The error text when a `PaxosSafetyError` was raised. -/
def noteError (w : World P) : Error → World P
  | .safety message => { w with safetyErrors := message :: w.safetyErrors }
  | _ => w

section Handle

variable [DecidableEq P]

/-- `target` handles a request. -/
def handle (w : World P) (target : String) (saves : Bool) : Request P → World P
  | .prepare request =>
      let result := (w.acceptors target).prepare request saves
      let w := w.setAcceptor target result.1
      match result.2 with
      | .error e => w.noteError e
      | .ok response =>
          { w with replies := ⟨target, .prepare request, .prepare response⟩ :: w.replies }
  | .accept request =>
      let result := (w.acceptors target).accept request saves
      let w := w.setAcceptor target result.1
      match result.2 with
      | .error e => w.noteError e
      | .ok response =>
          { w with
            replies := ⟨target, .accept request, .accept response⟩ :: w.replies
            votes := if response.accepted then
              ⟨target, request.slot, request.ballot, request.value⟩ :: w.votes else w.votes }
  | .decide request =>
      let result := (w.acceptors target).decide request saves
      let w := w.setAcceptor target result.1
      match result.2 with
      | .error e => w.noteError e
      | .ok () => { w with replies := ⟨target, .decide request, .decide⟩ :: w.replies }

/-- Each gathered response came from its member. -/
def answered (w : World P) (request : Request P) {R : Type} (response : R → Response P) :
    List String → List (Option R) → Bool
  | [], [] => true
  | _ :: members, none :: replies => w.answered request response members replies
  | m :: members, some r :: replies =>
      w.replies.contains ⟨m, request, response r⟩ && w.answered request response members replies
  | _, _ => false

end Handle

end World

namespace Deployment

def exec (w : World P) (t : TaskId) : (a : Act P) → World P × ActResult P a
  | .send targets request => ({ w with messages := ⟨targets, request⟩ :: w.messages }, ())
  | .lastApplied => (w, (w.acceptors t.node).state.lastApplied)
  | .result slot => (w, (w.acceptors t.node).result slot)

variable [DecidableEq P]

def resume (𝒮 : Deployment) (w : World P) (t : TaskId) :
    (e : Wait P) → Choice P → Option (World P × Except Error (WaitResult P e))
  | _, .cancel => some (w, .error .cancelled)
  | .reserveBallot _, .saveFailed => some (w, .error .storage)
  | .reserveBallot minimumRound, .saved =>
      match (w.acceptors t.node).reserveBallot minimumRound true with
      | (acceptor, .ok ballot) =>
          some ({ w.setAcceptor t.node acceptor with
            reserved := (ballot, t) :: w.reserved }, .ok ballot)
      | (acceptor, .error e) => some (w.setAcceptor t.node acceptor, .error e)
  | .decide request, .saveFailed =>
      some (w.setAcceptor t.node ((w.acceptors t.node).decide request false).1,
        ((w.acceptors t.node).decide request false).2)
  | .decide request, .saved =>
      some (w.setAcceptor t.node ((w.acceptors t.node).decide request true).1,
        ((w.acceptors t.node).decide request true).2)
  | .gatherPrepare request, .prepared replies =>
      if w.answered (.prepare request) .prepare 𝒮.members.members replies then
        some (w, .ok replies)
      else none
  | .gatherAccept request, .accepted replies =>
      if w.answered (.accept request) .accept 𝒮.members.members replies then
        some (w, .ok replies)
      else none
  | .gatherDecide _, .done => some (w, .ok ())
  | _, _ => none

def program (self : PaxosProposer) : Call P → Co P (Outcome P)
  | .decideSlot slot proposed => do
      let value ← self.decideSlot slot proposed
      ret (.value value)
  | .read turns => do
      let snapshot ← self.read turns
      ret (.snapshot snapshot)
  | .compareAndSet expectedVersion newChain turns => do
      let result ← self.compareAndSet expectedVersion newChain turns
      ret (.swapped result)

omit [DecidableEq P] in
def finish (w : World P) (t : TaskId) : Except Error (Outcome P) → World P
  | .ok outcome => { w with completed := w.completed ++ [⟨w.invoked t, outcome⟩] }
  | .error e => w.noteError e

def proposer (𝒮 : Deployment) (node : String) (h : node ∈ 𝒮.members.members) : PaxosProposer :=
  ⟨node, 𝒮.members, h, 𝒮.maxBallotAttempts, 𝒮.positive⟩

def start (𝒮 : Deployment) (w : World P) (t : TaskId) (c : Call P) :
    Option (World P × Co P (Outcome P)) :=
  if h : t.node ∈ 𝒮.members.members then
    some ({ w with invoked := Function.update w.invoked t w.completed.length },
      program (𝒮.proposer t.node h) c)
  else none

def disturb (w : World P) : Disturbance P → Option (World P)
  | .handle message target saves =>
      if message ∈ w.messages ∧ target ∈ message.targets then
        some (w.handle target saves message.request)
      else none
  | .crash node =>
      let acceptor := w.acceptors node
      some (w.setAcceptor node (.create acceptor.nodeId acceptor.storage))

/-- The peers of a deployment. -/
def runtime (𝒮 : Deployment) :
    Runtime (signature P) (World P) TaskId (Call P) (Choice P) (Disturbance P) (Outcome P) where
  start := 𝒮.start
  exec := exec
  resume := 𝒮.resume
  finish := fun w t _ o => finish w t o
  disturb := disturb
  survives := fun d t =>
    match d with
    | .handle _ _ _ => true
    | .crash node => t.node ≠ node

end Deployment

/-- The world and the suspended tasks of a system of peers. -/
abbrev SystemState (P : Type) : Type :=
  State (signature P) (World P) TaskId (Call P) (Outcome P)

end DelosLab.Paxos
