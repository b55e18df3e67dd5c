import DelosLab.Async.Coroutine
import DelosLab.Common.Membership
import DelosLab.Paxos.Acceptor

/-!
# PaxosProposer and PaxosMetaStore

The proposer of a node: it reserves ballots at its own acceptor, sends its
requests to every member and gathers what comes back. A gathered reply is `none`
where the call ended with an exception.
-/

namespace DelosLab.Paxos

open Async Async.Coroutine
open VirtualLog (LogChain VersionedLogChain CompareAndSetResult)

variable {P : Type}

inductive Request (P : Type) : Type where
  | prepare (request : PrepareRequest)
  | accept (request : AcceptRequest P)
  | decide (request : DecideRequest P)
deriving DecidableEq

inductive Act (P : Type) : Type where
  | send (targets : List String) (request : Request P)
  | lastApplied
  | result (slot : Nat)

@[reducible] def ActResult (P : Type) : Act P → Type
  | .send _ _ => Unit
  | .lastApplied => Nat
  | .result _ => Option (StateMachineResult P)

inductive Wait (P : Type) : Type where
  | reserveBallot (minimumRound : Nat)
  | decide (request : DecideRequest P)
  | gatherPrepare (request : PrepareRequest)
  | gatherAccept (request : AcceptRequest P)
  | gatherDecide (request : DecideRequest P)
  | never   -- a loop that has used up its turns

@[reducible] def WaitResult (P : Type) : Wait P → Type
  | .reserveBallot _ => Ballot
  | .decide _ => Unit
  | .gatherPrepare _ => List (Option (PrepareResponse P))
  | .gatherAccept _ => List (Option AcceptResponse)
  | .gatherDecide _ => Unit
  | .never => Empty

@[reducible] def signature (P : Type) : Signature where
  Act := Act P
  ActResult := ActResult P
  Wait := Wait P
  WaitResult := WaitResult P
  Error := Error

/-- A coroutine of one node. -/
abbrev Co (P : Type) (α : Type) : Type := Coroutine (signature P) α

def act (a : Act P) : Co P (ActResult P a) := perform (S := signature P) a

def wait (e : Wait P) : Co P (WaitResult P e) := await (S := signature P) e

structure PaxosProposer where
  nodeId : String
  members : FixedMembers
  member : nodeId ∈ members.members
  maxBallotAttempts : Nat
  positive : 1 ≤ maxBallotAttempts

namespace PaxosProposer

def quorum (self : PaxosProposer) : Nat := self.members.quorum

/-- The members but this node. -/
def peers (self : PaxosProposer) : List String :=
  self.members.members.filter fun m => m ≠ self.nodeId

def singleDecision [DecidableEq P] (responses : List (PrepareResponse P)) :
    Except Error (Option (PaxosValue P)) :=
  match responses.filterMap PrepareResponse.decidedValue with
  | [] => .ok none
  | first :: rest =>
      if rest.any fun decision => decision ≠ first then
        .error (.safety "acceptors reported conflicting decisions")
      else .ok (some first)

/-- The accepted pair of a response, when both of its parts are there. -/
def acceptedPair (response : PrepareResponse P) : Option (Ballot × PaxosValue P) :=
  match response.acceptedBallot, response.acceptedValue with
  | some ballot, some value => some (ballot, value)
  | _, _ => none

/-- `max(accepted, key=lambda item: item[0])`: the first of the highest pairs. -/
def highest : Ballot × PaxosValue P → List (Ballot × PaxosValue P) → Ballot × PaxosValue P
  | best, [] => best
  | best, item :: rest => if best.1 < item.1 then highest item rest else highest best rest

def adoptedValue (responses : List (PrepareResponse P)) (proposed : PaxosValue P) :
    PaxosValue P :=
  match responses.filterMap acceptedPair with
  | [] => proposed
  | first :: rest => (highest first rest).2

/-- `max(observed_round, *(ballot.round for ballot in ballots))`. -/
def observed (observedRound : Nat) (ballots : List Ballot) : Nat :=
  ballots.foldl (fun m ballot => max m ballot.round) observedRound

def learn (self : PaxosProposer) (slot : Nat) (value : PaxosValue P) : Co P Unit := do
  let request : DecideRequest P := ⟨slot, value⟩
  wait (.decide request)
  act (.send self.peers (.decide request))
  wait (.gatherDecide request)

section Propose

variable [DecidableEq P]

/-- The ballot attempts of `_decide_slot` that remain. -/
def decideSlotLoop (self : PaxosProposer) (slot : Nat) (proposed : PaxosValue P) :
    Nat → Nat → Co P (PaxosValue P)
  | 0, _ => raise (.noQuorum ("slot " ++ toString slot ++ " did not decide after " ++
      toString self.maxBallotAttempts ++ " ballots"))
  | attempts + 1, observedRound => do
      let ballot ← wait (.reserveBallot observedRound)
      let prepareRequest : PrepareRequest := ⟨slot, ballot⟩
      act (.send self.members.members (.prepare prepareRequest))
      let prepareReplies ← wait (.gatherPrepare prepareRequest)
      let responses := prepareReplies.filterMap id
      require (self.quorum ≤ responses.length)
        (.noQuorum ("slot " ++ toString slot ++ " Prepare did not reach a quorum"))
      let preparedRound := observed observedRound (responses.map PrepareResponse.promisedBallot)
      match ← ofExcept (S := signature P) (singleDecision responses) with
      | some decided => do
          self.learn slot decided
          ret decided
      | none =>
          let promised := responses.filter PrepareResponse.promised
          if promised.length < self.quorum then
            self.decideSlotLoop slot proposed attempts preparedRound
          else do
            let selected := adoptedValue promised proposed
            let acceptRequest : AcceptRequest P := ⟨slot, ballot, selected⟩
            act (.send self.members.members (.accept acceptRequest))
            let acceptReplies ← wait (.gatherAccept acceptRequest)
            let acceptResponses := acceptReplies.filterMap id
            require (self.quorum ≤ acceptResponses.length)
              (.noQuorum ("slot " ++ toString slot ++ " Accept did not reach a quorum"))
            let acceptedRound :=
              observed preparedRound (acceptResponses.map AcceptResponse.promisedBallot)
            if (acceptResponses.filter AcceptResponse.accepted).length < self.quorum then
              self.decideSlotLoop slot proposed attempts acceptedRound
            else do
              self.learn slot selected
              ret selected

def decideSlot (self : PaxosProposer) (slot : Nat) (proposed : PaxosValue P) :
    Co P (PaxosValue P) :=
  self.decideSlotLoop slot proposed self.maxBallotAttempts 0

/-- `propose`, with the number of turns that its loop gets. -/
def propose (self : PaxosProposer) (value : PaxosValue P) : Nat → Co P (Nat × PaxosValue P)
  | 0 => do
      let never ← wait .never
      nomatch never
  | turns + 1 => do
      let lastApplied ← act .lastApplied
      let slot := lastApplied + 1
      let decided ← self.decideSlot slot value
      if decided = value then ret (slot, decided) else self.propose value turns

/-- `PaxosMetaStore.read`. -/
def read (self : PaxosProposer) (turns : Nat) : Co P (VersionedLogChain P) := do
  let proposed ← self.propose ⟨.readBarrier⟩ turns
  let result ← act (.result proposed.1)
  match result with
  | none => raise (.keyError proposed.1)
  | some (.snapshot snapshot) => ret snapshot
  | some (.swapped _) => raise (.typeError "read barrier returned a non-snapshot result")

/-- `PaxosMetaStore.compare_and_set`. -/
def compareAndSet (self : PaxosProposer) (expectedVersion : Nat) (newChain : LogChain P)
    (turns : Nat) : Co P (CompareAndSetResult P) := do
  let proposed ← self.propose ⟨.compareAndSet expectedVersion newChain⟩ turns
  let result ← act (.result proposed.1)
  match result with
  | none => raise (.keyError proposed.1)
  | some (.swapped result) => ret result
  | some (.snapshot _) => raise (.typeError "compare-and-set returned a non-CAS result")

end Propose

end PaxosProposer

end DelosLab.Paxos
