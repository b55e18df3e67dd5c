import DelosLab.Async.Sequential
import DelosLab.Paxos.Barrier
import DelosLab.Paxos.Restart

/-!
# The operations of an acceptor, one step at a time

`decide` applies commands to the live state machine before it saves, and takes them back when
the save raises; the other operations change nothing before their save. What the steps come
to is what `PaxosAcceptor.answer` says at once.
-/

namespace DelosLab.Paxos

open Async Async.Coroutine
open VirtualLog (VersionedLogChain)

variable {P : Type}

namespace PaxosAcceptor

/-- `snapshot`, `restore` and `apply` are those of the live state machine. -/
inductive Act (P : Type) : Type where
  | state
  | setState (state : PersistentPaxosState P)
  | snapshot
  | restore (snapshot : VersionedLogChain P)
  | apply (command : PaxosCommand P)
  | updateResults (results : List (Nat × StateMachineResult P))
  | release

@[reducible] def ActResult : Act P → Type
  | .state => PersistentPaxosState P
  | .setState _ => Unit
  | .snapshot => VersionedLogChain P
  | .restore _ => Unit
  | .apply _ => StateMachineResult P
  | .updateResults _ => Unit
  | .release => Unit

/-- `save` is `storage.save`. -/
inductive Wait (P : Type) : Type where
  | acquire
  | save (state : PersistentPaxosState P)

@[reducible] def signature (P : Type) : Signature where
  Act := Act P
  ActResult := ActResult
  Wait := Wait P
  WaitResult := fun _ => Unit
  Error := Error

abbrev Co (P α : Type) : Type := Coroutine (signature P) α

def act (a : Act P) : Co P (ActResult a) := perform (S := signature P) a

def wait (e : Wait P) : Co P Unit := await (S := signature P) e

namespace Co

/-- `async with self._lock: body`. -/
def withLock {α : Type} (body : Co P α) : Co P α := do
  wait .acquire
  let result ← handle (do let a ← body; ret (.ok a)) fun e => ret (Except.error e)
  act .release
  ofExcept (S := signature P) result

/-- `_save`. -/
def save (state : PersistentPaxosState P) : Co P Unit := do
  wait (.save state)
  act (.setState state)

def reserveBallot (nodeId : String) (minimumRound : Nat) : Co P Ballot := withLock do
  let state ← act .state
  let nextRound := max (state.localRound + 1) (minimumRound + 1)
  save { state with localRound := nextRound }
  if named : nodeId ≠ "" then ret ⟨nextRound, nodeId, by omega, named⟩ else raise .validation

def prepare (request : PrepareRequest) : Co P (PrepareResponse P) := withLock do
  let state ← act .state
  let slot := state.slot request.slot
  match slot.outbid request.ballot with
  | some promised =>
      ret
        { promised := false
          promisedBallot := promised
          acceptedBallot := slot.acceptedBallot
          acceptedValue := slot.acceptedValue
          decidedValue := slot.decidedValue }
  | none => do
      let changed := slot.withPromise request.ballot
      save (replaceSlot state changed)
      ret
        { promised := true
          promisedBallot := request.ballot
          acceptedBallot := changed.acceptedBallot
          acceptedValue := changed.acceptedValue
          decidedValue := changed.decidedValue }

variable [DecidableEq P]

def accept (request : AcceptRequest P) : Co P AcceptResponse := withLock do
  let state ← act .state
  let slot := state.slot request.slot
  if slot.acceptedBallot = some request.ballot ∧ slot.acceptedValue ≠ none ∧
      slot.acceptedValue ≠ some request.value then
    raise (.safety ("slot " ++ toString request.slot ++ " ballot was reused for another value"))
  else if slot.decidedValue ≠ none ∧ slot.decidedValue ≠ some request.value then
    ret ⟨false, slot.promisedBallot.getD request.ballot⟩
  else
    match slot.outbid request.ballot with
    | some promised => ret ⟨false, promised⟩
    | none => do
        save (replaceSlot state (slot.withVote request.ballot request.value))
        ret ⟨true, request.ballot⟩

omit [DecidableEq P] in
/-- The loop of `decide`; it has a turn for every slot. -/
def applyDecided (state : PersistentPaxosState P) :
    Nat → Nat → List (Nat × StateMachineResult P) → Co P (Nat × List (Nat × StateMachineResult P))
  | 0, lastApplied, pendingResults => ret (lastApplied, pendingResults)
  | turns + 1, lastApplied, pendingResults =>
      match (state.slot (lastApplied + 1)).decidedValue with
      | none => ret (lastApplied, pendingResults)
      | some value => do
          let result ← act (.apply value.command)
          applyDecided state turns (lastApplied + 1) ((lastApplied + 1, result) :: pendingResults)

def decide (request : DecideRequest P) : Co P Unit := withLock do
  let state ← act .state
  let slot := state.slot request.slot
  match slot.decidedValue with
  | some value =>
      require (value = request.value)
        (.safety ("slot " ++ toString request.slot ++ " already decided a different value"))
  | none => do
      let state := replaceSlot state (slot.withDecision request.value)
      let previousSnapshot ← act .snapshot
      let applied ← applyDecided state state.slots.length state.lastApplied []
      let snapshot ← act .snapshot
      handle (save { state with lastApplied := applied.1, stateMachine := snapshot }) fun e => do
        act (.restore previousSnapshot)
        raise e
      act (.updateResults applied.2)

/-- What the acceptor `nodeId` does for a request. -/
def answer (nodeId : String) : AcceptorCall P → Co P (AcceptorAnswer P)
  | .reserveBallot minimumRound => do
      let ballot ← reserveBallot nodeId minimumRound
      ret (.ballot ballot)
  | .prepare request _ => do
      let response ← prepare request
      ret (.prepared response)
  | .accept request _ => do
      let response ← accept request
      ret (.accepted response)
  | .decide request _ => do
      decide request
      ret .decided

end Co

/-! ## Running an operation -/

/-- An acceptor in memory, whether its lock is held, and the states that `storage.save` was
called with. -/
structure Memory (P : Type) where
  acceptor : PaxosAcceptor P
  locked : Bool
  saves : List (PersistentPaxosState P)

/-- What `storage.save` does; when it raises, it may have written the state. -/
inductive Saving : Type where
  | completes
  | raises (written : Bool) (e : Error)

def Memory.act (m : Memory P) : (a : Act P) → Memory P × ActResult a
  | .state => (m, m.acceptor.state)
  | .setState state => ({ m with acceptor := { m.acceptor with state := state } }, ())
  | .snapshot => (m, m.acceptor.stateMachine)
  | .restore snapshot =>
      ({ m with acceptor := { m.acceptor with stateMachine := snapshot } }, ())
  | .apply command =>
      let applied := Paxos.apply m.acceptor.stateMachine command
      ({ m with acceptor := { m.acceptor with stateMachine := applied.1 } }, applied.2)
  | .updateResults results =>
      ({ m with acceptor :=
        { m.acceptor with appliedResults := results ++ m.acceptor.appliedResults } }, ())
  | .release => ({ m with locked := false }, ())

/-- An operation that finds the lock held by itself waits for ever. -/
def Memory.wait (saving : Saving) (m : Memory P) : Wait P → Memory P × Except Error Unit
  | .acquire => if m.locked then (m, .error .cancelled) else ({ m with locked := true }, .ok ())
  | .save state =>
      let saves := state :: m.saves
      match saving with
      | .completes =>
          (⟨{ m.acceptor with storage := state }, m.locked, saves⟩, .ok ())
      | .raises written e =>
          (⟨{ m.acceptor with storage := if written then state else m.acceptor.storage },
            m.locked, saves⟩, .error e)

/-- An operation, inside the lock. -/
def handler (P : Type) (saving : Saving) : Handler (signature P) (Memory P) where
  act := Memory.act
  wait := fun m e => m.wait saving e

/-- `self` is asked for `call`. -/
def ask [DecidableEq P] (self : PaxosAcceptor P) (saving : Saving) (call : AcceptorCall P) :
    Memory P × Except Error (AcceptorAnswer P) :=
  (handler P saving).run ⟨self, false, []⟩ (Co.answer self.nodeId call)

/-! ## What the steps come to -/

/-- The steps of `p`, from the acceptor `a` over any storage, are the operation `op`: it
leaves the acceptor alone, or it saves one state. When the save raises, only the storage may
have changed. -/
inductive Steps {α : Type} (a : PaxosAcceptor P) (p : Co P α)
    (op : Bool → PaxosAcceptor P × Except Error α) : Prop where
  | reads (r : Except Error α) (hop : ∀ saves, op saves = (a, r))
      (hrun : ∀ saving x, (handler P saving).run ⟨{ a with storage := x }, false, []⟩ p =
        (⟨{ a with storage := x }, false, []⟩, r))
  | saves (state : PersistentPaxosState P) (hop : op false = (a, .error .storage))
      (hcompletes : ∀ x, (handler P .completes).run ⟨{ a with storage := x }, false, []⟩ p =
        (⟨(op true).1, false, [state]⟩, (op true).2))
      (hraises : ∀ written e x,
        (handler P (.raises written e)).run ⟨{ a with storage := x }, false, []⟩ p =
          (⟨{ a with storage := if written then state else x }, false, [state]⟩, .error e))

section Steps

variable {α β : Type} {a : PaxosAcceptor P}

/-- The lock is free before the body and after it. -/
theorem run_withLock {saving : Saving} {x : PersistentPaxosState P} {body : Co P α}
    {m : Memory P} {r : Except Error α}
    (h : (handler P saving).run ⟨{ a with storage := x }, true, []⟩ body = (m, r)) :
    (handler P saving).run ⟨{ a with storage := x }, false, []⟩ (Co.withLock body) =
      ({ m with locked := false }, r) := by
  have hacquire : (handler P saving).run ⟨{ a with storage := x }, false, []⟩ (wait .acquire) =
      (⟨{ a with storage := x }, true, []⟩, .ok ()) := rfl
  have hbody : (handler P saving).run ⟨{ a with storage := x }, true, []⟩
      (handle (do let a ← body; ret (.ok a)) fun e => ret (Except.error e)) = (m, .ok r) := by
    cases r with
    | ok a => exact Handler.run_handle_ok ((Handler.run_bind_ok h _).trans rfl) _
    | error e => exact (Handler.run_handle_error (Handler.run_bind_error h _) _).trans rfl
  rw [Co.withLock, Handler.run_bind_ok hacquire, Handler.run_bind_ok hbody]
  cases r with
  | ok a => rfl
  | error e => rfl

theorem run_state {saving : Saving} (m : Memory P) :
    (handler P saving).run m (act .state) = (m, .ok m.acceptor.state) := rfl

theorem steps_reserveBallot (a : PaxosAcceptor P) (minimumRound : Nat) :
    Steps a (Co.reserveBallot a.nodeId minimumRound) (a.reserveBallot minimumRound) := by
  let state : PersistentPaxosState P :=
    { a.state with localRound := max (a.state.localRound + 1) (minimumRound + 1) }
  by_cases named : a.nodeId ≠ ""
  · refine .saves state rfl (fun x => ?_) fun written e x => run_withLock rfl
    rw [PaxosAcceptor.reserveBallot, if_pos rfl, dif_pos named]
    refine run_withLock (m := ⟨a.save state, true, [state]⟩) ?_
    rw [Handler.run_bind_ok (run_state _)]
    simp only [dif_pos named]
    rfl
  · refine .saves state rfl (fun x => ?_) fun written e x => run_withLock rfl
    rw [PaxosAcceptor.reserveBallot, if_pos rfl, dif_neg named]
    refine run_withLock (m := ⟨a.save state, true, [state]⟩) ?_
    rw [Handler.run_bind_ok (run_state _)]
    simp only [dif_neg named]
    rfl

theorem steps_prepare (a : PaxosAcceptor P) (request : PrepareRequest) :
    Steps a (Co.prepare request) (a.prepare request) := by
  cases hb : (a.state.slot request.slot).outbid request.ballot with
  | some promised =>
      refine .reads (a.prepare request true).2 (fun saves => ?_) fun saving x => ?_
      · simp only [PaxosAcceptor.prepare, hb]
      · refine run_withLock (m := ⟨{ a with storage := x }, true, []⟩) ?_
        rw [Handler.run_bind_ok (run_state _)]
        simp only [PaxosAcceptor.prepare, hb]
        rfl
  | none =>
      let state := replaceSlot a.state ((a.state.slot request.slot).withPromise request.ballot)
      refine .saves state ?_ (fun x => ?_) fun written e x => ?_
      · simp only [PaxosAcceptor.prepare, hb]
        rfl
      · refine run_withLock (m := ⟨(a.prepare request true).1, true, [state]⟩) ?_
        rw [Handler.run_bind_ok (run_state _)]
        simp only [PaxosAcceptor.prepare, hb]
        rfl
      · refine run_withLock
          (m := ⟨{ a with storage := if written then state else x }, true, [state]⟩) ?_
        rw [Handler.run_bind_ok (run_state _)]
        simp only [hb]
        rfl

variable [DecidableEq P]

theorem steps_accept (a : PaxosAcceptor P) (request : AcceptRequest P) :
    Steps a (Co.accept request) (a.accept request) := by
  let slot := a.state.slot request.slot
  by_cases hreused : slot.acceptedBallot = some request.ballot ∧ slot.acceptedValue ≠ none ∧
      slot.acceptedValue ≠ some request.value
  · refine .reads (a.accept request true).2 (fun saves => ?_) fun saving x => ?_
    · simp only [PaxosAcceptor.accept, slot, if_pos hreused]
    · refine run_withLock (m := ⟨{ a with storage := x }, true, []⟩) ?_
      rw [Handler.run_bind_ok (run_state _)]
      simp only [PaxosAcceptor.accept, slot, if_pos hreused]
      rfl
  by_cases hdecided : slot.decidedValue ≠ none ∧ slot.decidedValue ≠ some request.value
  · refine .reads (a.accept request true).2 (fun saves => ?_) fun saving x => ?_
    · simp only [PaxosAcceptor.accept, slot, if_neg hreused, if_pos hdecided]
    · refine run_withLock (m := ⟨{ a with storage := x }, true, []⟩) ?_
      rw [Handler.run_bind_ok (run_state _)]
      simp only [PaxosAcceptor.accept, slot, if_neg hreused, if_pos hdecided]
      rfl
  cases hb : slot.outbid request.ballot with
  | some promised =>
      refine .reads (a.accept request true).2 (fun saves => ?_) fun saving x => ?_
      · simp only [PaxosAcceptor.accept, slot, if_neg hreused, if_neg hdecided, hb]
      · refine run_withLock (m := ⟨{ a with storage := x }, true, []⟩) ?_
        rw [Handler.run_bind_ok (run_state _)]
        simp only [PaxosAcceptor.accept, slot, if_neg hreused, if_neg hdecided, hb]
        rfl
  | none =>
      let state := replaceSlot a.state (slot.withVote request.ballot request.value)
      refine .saves state ?_ (fun x => ?_) fun written e x => ?_
      · simp only [PaxosAcceptor.accept, slot, if_neg hreused, if_neg hdecided, hb]
        rfl
      · refine run_withLock (m := ⟨(a.accept request true).1, true, [state]⟩) ?_
        rw [Handler.run_bind_ok (run_state _)]
        simp only [PaxosAcceptor.accept, slot, if_neg hreused, if_neg hdecided, hb]
        rfl
      · refine run_withLock
          (m := ⟨{ a with storage := if written then state else x }, true, [state]⟩) ?_
        rw [Handler.run_bind_ok (run_state _)]
        simp only [slot, if_neg hreused, if_neg hdecided, hb]
        rfl

omit [DecidableEq P] in
/-- The loop applies what the atomic one applies, to the live state machine. -/
theorem run_applyDecided {saving : Saving} (m : Memory P) (state : PersistentPaxosState P)
    (turns lastApplied : Nat) (results : List (Nat × StateMachineResult P)) :
    let stop := PaxosAcceptor.applyDecided state turns
      ⟨lastApplied, m.acceptor.stateMachine, results⟩
    (handler P saving).run m (Co.applyDecided state turns lastApplied results) =
      ({ m with acceptor := { m.acceptor with stateMachine := stop.stateMachine } },
        .ok (stop.lastApplied, stop.results)) := by
  induction turns generalizing m lastApplied results with
  | zero => rfl
  | succ turns ih =>
      cases hvalue : (state.slot (lastApplied + 1)).decidedValue with
      | none =>
          simp only [Co.applyDecided, PaxosAcceptor.applyDecided, hvalue]
          rfl
      | some value =>
          simp only [Co.applyDecided, PaxosAcceptor.applyDecided, hvalue]
          exact ih _ _ _

theorem steps_decide (a : PaxosAcceptor P) (request : DecideRequest P) :
    Steps a (Co.decide request) (a.decide request) := by
  cases hdecided : (a.state.slot request.slot).decidedValue with
  | some value =>
      refine .reads (a.decide request true).2 (fun saves => ?_) fun saving x => ?_
      · by_cases hv : value = request.value
        · simp only [PaxosAcceptor.decide, hdecided, if_neg (not_not_intro hv)]
        · simp only [PaxosAcceptor.decide, hdecided, if_pos hv]
      · refine run_withLock (m := ⟨{ a with storage := x }, true, []⟩) ?_
        rw [Handler.run_bind_ok (run_state _)]
        by_cases hv : value = request.value
        · simp only [PaxosAcceptor.decide, hdecided, if_neg (not_not_intro hv), require, if_pos hv]
          rfl
        · simp only [PaxosAcceptor.decide, hdecided, if_pos hv, require, if_neg hv]
          rfl
  | none =>
      let state := a.decidedState request
      let stop := PaxosAcceptor.applyDecided state state.slots.length
        ⟨state.lastApplied, a.stateMachine, []⟩
      let saved : PersistentPaxosState P :=
        { state with lastApplied := stop.lastApplied, stateMachine := stop.stateMachine }
      have hloop : ∀ saving x, (handler P saving).run ⟨{ a with storage := x }, true, []⟩
          (Co.applyDecided state state.slots.length state.lastApplied []) =
            (⟨{ a with storage := x, stateMachine := stop.stateMachine }, true, []⟩,
              .ok (stop.lastApplied, stop.results)) :=
        fun saving x => run_applyDecided ⟨{ a with storage := x }, true, []⟩ _ _ _ _
      refine .saves saved ?_ (fun x => ?_) fun written e x => ?_
      · simp only [PaxosAcceptor.decide, hdecided]
        rfl
      · refine run_withLock (m := ⟨(a.decide request true).1, true, [saved]⟩) ?_
        rw [Handler.run_bind_ok (run_state _)]
        simp only [PaxosAcceptor.decide, hdecided]
        refine (Handler.run_bind_ok (hloop .completes x) _).trans ?_
        rfl
      · -- The state machine that was taken before the loop is put back.
        refine run_withLock
          (m := ⟨{ a with storage := if written then saved else x }, true, [saved]⟩) ?_
        rw [Handler.run_bind_ok (run_state _)]
        simp only [hdecided]
        refine (Handler.run_bind_ok (hloop (.raises written e) x) _).trans ?_
        rfl

omit [DecidableEq P] in
/-- An operation whose answer is wrapped up. -/
theorem Steps.map {p : Co P α} {op : Bool → PaxosAcceptor P × Except Error α}
    (h : Steps a p op) (f : α → β) :
    Steps a (do let b ← p; ret (f b)) fun saves => ((op saves).1, (op saves).2.map f) := by
  have hmap : ∀ {saving : Saving} {m m' : Memory P} {r : Except Error α},
      (handler P saving).run m p = (m', r) →
        (handler P saving).run m (do let b ← p; ret (f b)) = (m', r.map f) := by
    intro saving m m' r hr
    cases r with
    | ok b => exact Handler.run_bind_ok hr _
    | error e => exact Handler.run_bind_error hr _
  cases h with
  | reads r hop hrun =>
      refine .reads (r.map f) (fun saves => ?_) fun saving x => hmap (hrun saving x)
      simp only [hop]
  | saves state hop hcompletes hraises =>
      refine .saves state ?_ (fun x => hmap (hcompletes x)) fun written e x =>
        hmap (hraises written e x)
      simp only [hop]
      rfl

theorem steps_answer (a : PaxosAcceptor P) (call : AcceptorCall P) :
    Steps a (Co.answer a.nodeId call) fun saves => a.answer saves call := by
  cases call with
  | reserveBallot minimumRound => exact (steps_reserveBallot a minimumRound).map _
  | prepare request _ => exact (steps_prepare a request).map _
  | accept request _ => exact (steps_accept a request).map _
  | decide request _ => exact (steps_decide a request).map _

end Steps

/-! ## A storage that fails -/

section Requests

variable [DecidableEq P]

/-- The steps of a request are the atomic answer to it. -/
theorem ask_eq (a : PaxosAcceptor P) (call : AcceptorCall P) :
    ((a.ask .completes call).1.acceptor, (a.ask .completes call).2) = a.answer true call ∧
      ((a.ask (.raises false .storage) call).1.acceptor,
        (a.ask (.raises false .storage) call).2) = a.answer false call := by
  rw [ask, ask]
  cases steps_answer a call with
  | reads r hop hrun =>
      have hrun : ∀ saving, (handler P saving).run ⟨a, false, []⟩ (Co.answer a.nodeId call) =
          (⟨a, false, []⟩, r) := fun saving => hrun saving a.storage
      rw [hrun, hrun, hop, hop]
      exact ⟨rfl, rfl⟩
  | saves state hop hcompletes hraises =>
      have hcompletes : (handler P .completes).run ⟨a, false, []⟩ (Co.answer a.nodeId call) = _ :=
        hcompletes a.storage
      have hraises : (handler P (.raises false .storage)).run ⟨a, false, []⟩
          (Co.answer a.nodeId call) = _ := hraises false .storage a.storage
      rw [hcompletes, hraises, hop]
      exact ⟨rfl, rfl⟩

/-- **Operations are atomic on storage failure.** From every state of an acceptor, a request
whose `storage.save` raises raises the same error and changes nothing but, perhaps, what the
storage holds. The same request, when the storage works again, does and answers what it would
have done and answered at first. -/
theorem save_failure_atomic (a : PaxosAcceptor P) (call : AcceptorCall P) (written : Bool)
    (e : Error) (hraised : (a.ask (.raises written e) call).1.saves ≠ []) :
    let failed := a.ask (.raises written e) call
    let repeated := failed.1.acceptor.ask .completes call
    failed.2 = .error e ∧ failed.1.locked = false ∧
      failed.1.acceptor.nodeId = a.nodeId ∧ failed.1.acceptor.state = a.state ∧
      failed.1.acceptor.stateMachine = a.stateMachine ∧
      failed.1.acceptor.appliedResults = a.appliedResults ∧
      repeated = a.ask .completes call := by
  intro failed repeated
  have hfailed : failed = (handler P (.raises written e)).run ⟨a, false, []⟩
    (Co.answer a.nodeId call) := rfl
  cases steps_answer a call with
  | reads r hop hrun =>
      rw [hrun (.raises written e) a.storage] at hfailed
      refine absurd ?_ hraised
      rw [show a.ask (.raises written e) call = _ from hfailed]
  | saves state hop hcompletes hraises =>
      rw [hraises written e a.storage] at hfailed
      have hrepeated : repeated = (handler P .completes).run
          ⟨failed.1.acceptor, false, []⟩ (Co.answer failed.1.acceptor.nodeId call) := rfl
      rw [hfailed] at hrepeated ⊢
      refine ⟨rfl, rfl, rfl, rfl, rfl, rfl, hrepeated.trans ?_⟩
      refine (hcompletes _).trans ?_
      exact (hcompletes a.storage).symm

end Requests

/-- The decision of slot 1 lets slot 2 be applied; its save raises once and is repeated. -/
theorem save_failure_atomic_gap :
    let a := ((PaxosAcceptor.create "meta-1" .empty).decide
      ⟨2, ⟨.compareAndSet 0 singleSegment⟩⟩ true).1
    let call := AcceptorCall.decide ⟨1, ⟨.readBarrier⟩⟩ (by decide)
    let failed := a.ask (.raises true .cancelled) call
    failed.2 = .error .cancelled ∧ failed.1.acceptor.state = a.state ∧
      failed.1.acceptor.stateMachine.version = 0 ∧
      (failed.1.acceptor.ask .completes call).1.acceptor.stateMachine.version = 1 := by
  intro a call failed
  obtain ⟨herror, -, -, hstate, hmachine, -, hrepeated⟩ :=
    save_failure_atomic a call true .cancelled (by decide)
  dsimp only [failed]
  refine ⟨herror, hstate, ?_, ?_⟩
  · rw [hmachine]
    decide
  · rw [hrepeated]
    decide

end PaxosAcceptor

end DelosLab.Paxos
