import DelosLab.Paxos.Types

/-!
# PaxosAcceptor

Every operation of an acceptor runs under its lock and saves once, so it is one
function of the acceptor; `saves` says whether `storage.save` completes or raises.
-/

namespace DelosLab.Paxos

open VirtualLog (VersionedLogChain)

variable {P : Type}

structure PaxosAcceptor (P : Type) where
  nodeId : String
  storage : PersistentPaxosState P
  state : PersistentPaxosState P
  stateMachine : VersionedLogChain P
  appliedResults : List (Nat × StateMachineResult P)

namespace PaxosAcceptor

/-- `PaxosAcceptor.create`: what a node comes up with after a restart. -/
def create (nodeId : String) (storage : PersistentPaxosState P) : PaxosAcceptor P :=
  ⟨nodeId, storage, storage, storage.stateMachine, []⟩

/-- `_save`, when the storage does not raise. -/
def save (self : PaxosAcceptor P) (state : PersistentPaxosState P) : PaxosAcceptor P :=
  { self with storage := state, state := state }

/-- `await self._save(replace_slot(self._state, changed))`. -/
def setSlot (self : PaxosAcceptor P) (changed : AcceptorSlotState P) : PaxosAcceptor P :=
  self.save (replaceSlot self.state changed)

def reserveBallot (self : PaxosAcceptor P) (minimumRound : Nat) (saves : Bool) :
    PaxosAcceptor P × Except Error Ballot :=
  let nextRound := max (self.state.localRound + 1) (minimumRound + 1)
  if saves then
    (self.save { self.state with localRound := nextRound },
      if named : self.nodeId ≠ "" then .ok ⟨nextRound, self.nodeId, by omega, named⟩
      else .error .validation)
  else (self, .error .storage)

end PaxosAcceptor

/-- `slot.model_copy(update={"promised_ballot": ballot})`. -/
def AcceptorSlotState.withPromise (slot : AcceptorSlotState P) (ballot : Ballot) :
    AcceptorSlotState P :=
  { slot with promisedBallot := some ballot }

/-- The update of `accept`. -/
def AcceptorSlotState.withVote (slot : AcceptorSlotState P) (ballot : Ballot)
    (value : PaxosValue P) : AcceptorSlotState P :=
  { slot with
    promisedBallot := some ballot
    acceptedBallot := some ballot
    acceptedValue := some value }

/-- The promise that `ballot` stays below, if there is one. -/
def AcceptorSlotState.outbid (slot : AcceptorSlotState P) (ballot : Ballot) : Option Ballot :=
  slot.promisedBallot.filter fun promised => ballot < promised

namespace PaxosAcceptor

def prepare (self : PaxosAcceptor P) (request : PrepareRequest) (saves : Bool) :
    PaxosAcceptor P × Except Error (PrepareResponse P) :=
  let slot := self.state.slot request.slot
  match slot.outbid request.ballot with
  | some promised =>
      (self, .ok
        { promised := false
          promisedBallot := promised
          acceptedBallot := slot.acceptedBallot
          acceptedValue := slot.acceptedValue
          decidedValue := slot.decidedValue })
  | none =>
      let changed := slot.withPromise request.ballot
      if saves then
        (self.setSlot changed, .ok
          { promised := true
            promisedBallot := request.ballot
            acceptedBallot := changed.acceptedBallot
            acceptedValue := changed.acceptedValue
            decidedValue := changed.decidedValue })
      else (self, .error .storage)

variable [DecidableEq P]

def accept (self : PaxosAcceptor P) (request : AcceptRequest P) (saves : Bool) :
    PaxosAcceptor P × Except Error AcceptResponse :=
  let slot := self.state.slot request.slot
  if slot.acceptedBallot = some request.ballot ∧ slot.acceptedValue ≠ none ∧
      slot.acceptedValue ≠ some request.value then
    (self, .error (.safety
      ("slot " ++ toString request.slot ++ " ballot was reused for another value")))
  else if slot.decidedValue ≠ none ∧ slot.decidedValue ≠ some request.value then
    (self, .ok ⟨false, slot.promisedBallot.getD request.ballot⟩)
  else
    match slot.outbid request.ballot with
    | some promised => (self, .ok ⟨false, promised⟩)
    | none =>
        let changed := slot.withVote request.ballot request.value
        if saves then (self.setSlot changed, .ok ⟨true, request.ballot⟩)
        else (self, .error .storage)

/-- What the loop of `decide` has applied so far. -/
structure Applied (P : Type) where
  lastApplied : Nat
  stateMachine : VersionedLogChain P
  results : List (Nat × StateMachineResult P)

omit [DecidableEq P] in
/-- The loop of `decide`: apply decided slots while the next one is decided. There
are at most as many turns as slots. -/
def applyDecided (state : PersistentPaxosState P) : Nat → Applied P → Applied P
  | 0, applied => applied
  | turns + 1, applied =>
      let nextSlotNumber := applied.lastApplied + 1
      match (state.slot nextSlotNumber).decidedValue with
      | none => applied
      | some value =>
          let step := apply applied.stateMachine value.command
          applyDecided state turns
            ⟨nextSlotNumber, step.1, (nextSlotNumber, step.2) :: applied.results⟩

end PaxosAcceptor

/-- `slot.model_copy(update={"decided_value": value})`. -/
def AcceptorSlotState.withDecision (slot : AcceptorSlotState P) (value : PaxosValue P) :
    AcceptorSlotState P :=
  { slot with decidedValue := some value }

/-- The slots after `request` decided an open slot. -/
def PaxosAcceptor.decidedState (self : PaxosAcceptor P) (request : DecideRequest P) :
    PersistentPaxosState P :=
  replaceSlot self.state ((self.state.slot request.slot).withDecision request.value)

/-- The acceptor after its loop stopped and the state was saved. -/
def PaxosAcceptor.applied (self : PaxosAcceptor P) (state : PersistentPaxosState P)
    (stop : PaxosAcceptor.Applied P) : PaxosAcceptor P :=
  { self.save { state with
      lastApplied := stop.lastApplied
      stateMachine := stop.stateMachine } with
    stateMachine := stop.stateMachine
    appliedResults := stop.results ++ self.appliedResults }

def PaxosAcceptor.decide [DecidableEq P] (self : PaxosAcceptor P) (request : DecideRequest P)
    (saves : Bool) : PaxosAcceptor P × Except Error Unit :=
  let slot := self.state.slot request.slot
  match slot.decidedValue with
  | some value =>
      if value ≠ request.value then
        (self, .error (.safety
          ("slot " ++ toString request.slot ++ " already decided a different value")))
      else (self, .ok ())
  | none =>
      let state := self.decidedState request
      let stop := PaxosAcceptor.applyDecided state state.slots.length
        ⟨state.lastApplied, self.stateMachine, []⟩
      if saves then (self.applied state stop, .ok ()) else (self, .error .storage)

/-- `result`; `none` is the `KeyError`. -/
def PaxosAcceptor.result (self : PaxosAcceptor P) (slot : Nat) : Option (StateMachineResult P) :=
  self.appliedResults.lookup slot

end DelosLab.Paxos
