import DelosLab.NativeLoglet.MemoryStore
import DelosLab.NativeLoglet.SqlStore

/-!
# NativeLogServer and its tail notifications

The server runs the operations of its store outside the condition of the segment and then
notifies; a waiter tests the state of the store inside the condition and parks. The server is
written for any store, and for the store's own coroutines: between two statements of a store
any other task may run.
-/

namespace DelosLab.NativeLoglet

open Async Async.Coroutine

/-- The rows of a segment, as far as `state` reads them. -/
structure SegmentRows where
  maxPosition : Option Nat
  trimmedPrefix : Nat
  sealed : Bool
deriving DecidableEq

namespace SegmentRows

def localTail (self : SegmentRows) : Nat :=
  max (self.maxPosition.elim 0 (· + 1)) self.trimmedPrefix

/-- The rows are as a report says, where a waiter looks. -/
def Shows (self : SegmentRows) (r : LogServerState) : Prop :=
  r.localTail = self.localTail ∧ r.sealed = self.sealed

end SegmentRows

/-- A `LogletStore` in its process: its coroutines, what answers them, and the rows that its
connection or its dictionaries hold. -/
structure StorageEngine where
  signature : Signature
  World : Type
  Choice : Type
  exec : World → Nat → (a : signature.Act) → World × signature.ActResult a
  resume : World → Nat → (e : signature.Wait) → Choice →
    Option (World × Except signature.Error (signature.WaitResult e))
  cancelled : signature.Error
  valueError : String → signature.Error
  put : LogEntry → Nat → Coroutine signature Unit
  repair : LogEntry → Nat → Coroutine signature Unit
  prefixTrim : String → Int → Coroutine signature Nat
  sealSegment : String → Nat → Coroutine signature Unit
  state : String → Nat → Coroutine signature LogServerState
  rows : World → String → SegmentRows

namespace NativeLogServer

variable (E : StorageEngine)

/-- Beside what the store asks for: the steps of the condition of a segment. -/
inductive Act : Type where
  | store (a : E.signature.Act)
  | release (segmentId : String)
  | park (segmentId : String)
  | notifyAll (segmentId : String)

@[reducible] def ActResult : Act E → Type
  | .store a => E.signature.ActResult a
  | .release _ => Unit
  | .park _ => Unit
  | .notifyAll _ => Unit

/-- `reacquire` takes the lock of the condition again after a wait. -/
inductive Wait : Type where
  | store (e : E.signature.Wait)
  | acquire (segmentId : String)
  | parked (segmentId : String)
  | reacquire (segmentId : String)
  | never   -- a loop that has used up its turns

@[reducible] def WaitResult : Wait E → Type
  | .store e => E.signature.WaitResult e
  | .acquire _ => Unit
  | .parked _ => Unit
  | .reacquire _ => Unit
  | .never => Empty

@[reducible] def signature : Signature where
  Act := Act E
  ActResult := ActResult E
  Wait := Wait E
  WaitResult := WaitResult E
  Error := E.signature.Error

/-- A coroutine of the server. -/
abbrev Co (α : Type) : Type := Coroutine (signature E) α

variable {E}

def act (a : Act E) : Co E (ActResult E a) := perform (S := signature E) a

def wait (e : Wait E) : Co E (WaitResult E e) := await (S := signature E) e

/-- A coroutine of the store that the server awaits. -/
def lift {α : Type} : Coroutine E.signature α → Co E α
  | .ret a => .ret a
  | .raise e => .raise (S := signature E) e
  | .act a k => .act (S := signature E) (.store a) fun r => lift (k r)
  | .wait e k => .wait (S := signature E) (.store e) fun r => lift (k r)

/-! ## The condition of a segment -/

/-- `try: body finally: last`. -/
def tryFinally {α : Type} (body : Co E α) (last : Co E Unit) : Co E α := do
  let result ← handle (do let a ← body; ret (.ok a)) fun e => ret (Except.error e)
  last
  ofExcept (S := signature E) result

/-- `async with condition: body`. -/
def withCondition {α : Type} (segmentId : String) (body : Co E α) : Co E α := do
  wait (.acquire segmentId)
  tryFinally body (act (.release segmentId))

/-- `condition.wait()`: the lock is taken again, also when the wait has been cancelled. -/
def conditionWait (segmentId : String) : Co E Unit := do
  act (.park segmentId)
  let woken ← handle (do let a ← wait (.parked segmentId); ret (.ok a))
    fun e => ret (Except.error e)
  wait (.reacquire segmentId)
  ofExcept (S := signature E) woken

/-- `_notify`. -/
def notify (segmentId : String) : Co E Unit :=
  withCondition segmentId (act (.notifyAll segmentId))

/-! ## The methods -/

def put (entry : LogEntry) (knownTail : Nat) : Co E LogServerState :=
  tryFinally
    (do
      lift (E.put entry knownTail)
      lift (E.state entry.segmentId knownTail))
    (notify entry.segmentId)

def repair (entry : LogEntry) (knownTail : Nat) : Co E LogServerState :=
  tryFinally
    (do
      lift (E.repair entry knownTail)
      lift (E.state entry.segmentId knownTail))
    (notify entry.segmentId)

def prefixTrim (segmentId : String) (trimPosition : Int) : Co E LogServerState :=
  tryFinally
    (do
      let _ ← lift (E.prefixTrim segmentId trimPosition)
      lift (E.state segmentId 0))
    (notify segmentId)

/-- The method `seal`. -/
def sealSegment (segmentId : String) (knownTail : Nat) : Co E LogServerState :=
  tryFinally
    (do
      lift (E.sealSegment segmentId knownTail)
      lift (E.state segmentId knownTail))
    (notify segmentId)

/-- What a waiter waits for: `state.local_tail >= local_tail or state.sealed`. -/
def Due (target : Int) (localTail : Nat) (sealed : Bool) : Prop :=
  target ≤ localTail ∨ sealed = true

instance (target : Int) (localTail : Nat) (sealed : Bool) :
    Decidable (Due target localTail sealed) :=
  inferInstanceAs (Decidable (_ ∨ _))

/-- The loop of `wait_for_tail`, with the number of its turns. -/
def waitLoop (segmentId : String) (localTail : Int) (knownTail : Nat) :
    Nat → Co E LogServerState
  | 0 => do
      let never ← wait .never
      nomatch never
  | turns + 1 => do
      let state ← lift (E.state segmentId knownTail)
      if Due localTail state.localTail state.sealed then ret state
      else do
        conditionWait segmentId
        waitLoop segmentId localTail knownTail turns

def waitForTail (segmentId : String) (localTail : Int) (knownTail turns : Nat) :
    Co E LogServerState := do
  require (0 ≤ localTail)
    (E.valueError "tail notification requires a non-negative position")
  withCondition segmentId (waitLoop segmentId localTail knownTail turns)

/-! ## The process -/

inductive Call : Type where
  | put (entry : LogEntry) (knownTail : Nat)
  | repair (entry : LogEntry) (knownTail : Nat)
  | prefixTrim (segmentId : String) (trimPosition : Int)
  | sealSegment (segmentId : String) (knownTail : Nat)
  | waitForTail (segmentId : String) (localTail : Int) (knownTail turns : Nat)

namespace Call

def segmentId : Call → String
  | .put entry _ => entry.segmentId
  | .repair entry _ => entry.segmentId
  | .prefixTrim segmentId _ => segmentId
  | .sealSegment segmentId _ => segmentId
  | .waitForTail segmentId _ _ _ => segmentId

/-- A mutating call. -/
def mutates : Call → Bool
  | .waitForTail _ _ _ _ => false
  | _ => true

end Call

/-- How an open wait is answered. -/
inductive Choice (E : StorageEngine) : Type where
  | store (x : E.Choice)
  | done
  | cancelled

/-- `lock` has the holder of each condition and `parked` the tasks that wait to be notified.
`calls` are the calls in progress, `updated` marks a task whose call has changed the rows of
its segment and has not notified since, and `returned` what the calls have returned. No task
reads these three. -/
structure World (E : StorageEngine) where
  store : E.World
  lock : String → Option Nat
  parked : String → List Nat
  calls : Nat → Option Call
  updated : Nat → Bool
  returned : List (Call × LogServerState)

namespace World

/-- A process that has just started. -/
def opened (store : E.World) : World E where
  store := store
  lock := fun _ => none
  parked := fun _ => []
  calls := fun _ => none
  updated := fun _ => false
  returned := []

/-- The step of task `t` that leads to `store` changes the rows of its call's segment. -/
def changes (w : World E) (t : Nat) (store : E.World) : Bool :=
  match w.calls t with
  | some c => decide (E.rows store c.segmentId ≠ E.rows w.store c.segmentId)
  | none => false

/-- After a step of task `t` in the store. -/
def stored (w : World E) (t : Nat) (store : E.World) : World E :=
  { w with
    store := store
    updated := Function.update w.updated t (w.updated t || w.changes t store) }

end World

def exec (w : World E) (t : Nat) : (a : Act E) → World E × ActResult E a
  | .store a => (w.stored t (E.exec w.store t a).1, (E.exec w.store t a).2)
  | .release segmentId => ({ w with lock := Function.update w.lock segmentId none }, ())
  | .park segmentId =>
      ({ w with
        lock := Function.update w.lock segmentId none
        parked := Function.update w.parked segmentId (w.parked segmentId ++ [t]) }, ())
  | .notifyAll segmentId =>
      ({ w with
        parked := Function.update w.parked segmentId []
        updated := Function.update w.updated t false }, ())

/-- `t` waits to be notified no longer. -/
def World.unparked (w : World E) (t : Nat) (segmentId : String) : World E :=
  { w with parked := Function.update w.parked segmentId ((w.parked segmentId).filter (· ≠ t)) }

def World.locked (w : World E) (t : Nat) (segmentId : String) : World E :=
  { w with lock := Function.update w.lock segmentId (some t) }

/-- A wait for a notification may also end without one, and a lock that is taken again is
taken before the cancellation of that wait is raised. -/
def resume (w : World E) (t : Nat) : (e : Wait E) → Choice E →
    Option (World E × Except E.signature.Error (WaitResult E e))
  | .store e, .store x => (E.resume w.store t e x).map fun r => (w.stored t r.1, r.2)
  | .acquire segmentId, .done =>
      if w.lock segmentId = none then some (w.locked t segmentId, .ok ()) else none
  | .acquire _, .cancelled => some (w, .error E.cancelled)
  | .parked segmentId, .done => some (w.unparked t segmentId, .ok ())
  | .parked segmentId, .cancelled => some (w.unparked t segmentId, .error E.cancelled)
  | .reacquire segmentId, .done =>
      if w.lock segmentId = none then some (w.locked t segmentId, .ok ()) else none
  | .reacquire segmentId, .cancelled =>
      if w.lock segmentId = none then some (w.locked t segmentId, .error E.cancelled) else none
  | _, _ => none

def program : Call → Co E LogServerState
  | .put entry knownTail => put entry knownTail
  | .repair entry knownTail => repair entry knownTail
  | .prefixTrim segmentId trimPosition => prefixTrim segmentId trimPosition
  | .sealSegment segmentId knownTail => sealSegment segmentId knownTail
  | .waitForTail segmentId localTail knownTail turns =>
      waitForTail segmentId localTail knownTail turns

def start (w : World E) (t : Nat) (c : Call) : Option (World E × Co E LogServerState) :=
  match w.calls t with
  | some _ => none
  | none =>
      some ({ w with
        calls := Function.update w.calls t (some c)
        updated := Function.update w.updated t false }, program c)

def World.ended (w : World E) (t : Nat) : World E :=
  { w with calls := Function.update w.calls t none }

def finish (w : World E) (t : Nat) (c : Call) : Except E.signature.Error LogServerState → World E
  | .ok state => { w.ended t with returned := w.returned ++ [(c, state)] }
  | .error _ => w.ended t

/-- The tasks of a LogServer. -/
def runtime (E : StorageEngine) :
    Runtime (signature E) (World E) Nat Call (Choice E) Empty LogServerState where
  start := start
  exec := exec
  resume := resume
  finish := finish
  disturb := fun _ d => nomatch d
  survives := fun d => nomatch d

/-- A mutating call may fail wherever its store does, but it is not cancelled while it acquires
the condition to notify: its update would stay in the store and wake nobody. -/
def waitersCancelled (E : StorageEngine) : Condition (signature E) (World E) Nat Call (Choice E)
    where
  launch := fun _ _ _ => True
  resume := fun _ _ c e x =>
    match e, x with
    | .acquire _, .cancelled => c.mutates = false
    | _, _ => True

abbrev SystemState (E : StorageEngine) : Type :=
  State (signature E) (World E) Nat Call LogServerState

/-- No mutating call of the segment is between its update of the store and its notification. -/
def World.Quiet (w : World E) (segmentId : String) : Prop :=
  ∀ t c, w.calls t = some c → c.mutates = true → c.segmentId = segmentId → w.updated t = false

end NativeLogServer

/-! ## The two stores -/

namespace MemoryStore

/-- The methods of `MemoryLogletStore` have no `await` inside. -/
inductive Act : Type where
  | put (entry : LogEntry) (knownTail : Nat)
  | repair (entry : LogEntry) (knownTail : Nat)
  | prefixTrim (segmentId : String) (trimPosition : Int)
  | sealSegment (segmentId : String) (knownTail : Nat)
  | state (segmentId : String) (knownTail : Nat)

@[reducible] def ActResult : Act → Type
  | .put _ _ => Except Error Unit
  | .repair _ _ => Except Error Unit
  | .prefixTrim _ _ => Except Error Nat
  | .sealSegment _ _ => Unit
  | .state _ _ => LogServerState

@[reducible] def signature : Signature where
  Act := Act
  ActResult := ActResult
  Wait := Empty
  WaitResult := fun _ => Empty
  Error := Sql.StoreError

def exec (w : MemoryStore) (_ : Nat) : (a : Act) → MemoryStore × ActResult a
  | .put entry knownTail => w.put entry knownTail
  | .repair entry knownTail => w.repair entry knownTail
  | .prefixTrim segmentId trimPosition => w.prefixTrim segmentId trimPosition
  | .sealSegment segmentId knownTail => (w.sealSegment segmentId knownTail, ())
  | .state segmentId knownTail => w.state segmentId knownTail

def raised {α : Type} (r : Except Error α) : Coroutine signature α :=
  ofExcept (S := signature) (r.mapError Sql.StoreError.loglet)

def engine : StorageEngine where
  signature := signature
  World := MemoryStore
  Choice := Empty
  exec := exec
  resume := fun _ _ e => nomatch e
  cancelled := .cancelled
  valueError := fun message => .loglet (.valueError message)
  put := fun entry knownTail => do
    let r ← perform (S := signature) (.put entry knownTail)
    raised r
  repair := fun entry knownTail => do
    let r ← perform (S := signature) (.repair entry knownTail)
    raised r
  prefixTrim := fun segmentId trimPosition => do
    let r ← perform (S := signature) (.prefixTrim segmentId trimPosition)
    raised r
  sealSegment := fun segmentId knownTail =>
    perform (S := signature) (.sealSegment segmentId knownTail)
  state := fun segmentId knownTail => perform (S := signature) (.state segmentId knownTail)
  rows := fun w segmentId =>
    ⟨((w.segment segmentId).entries.map LogEntry.position).max?, (w.segment segmentId).trimmedPrefix,
      (w.segment segmentId).sealed⟩

end MemoryStore

namespace Sql

def rows (t : Tables) (segmentId : String) : SegmentRows :=
  ⟨t.maxPosition segmentId, (t.row segmentId).trimmedPrefix, (t.row segmentId).sealed⟩

/-- The connection shows what has been written, committed or not. -/
def engine : StorageEngine where
  signature := signature
  World := World
  Choice := Choice
  exec := exec
  resume := resume
  cancelled := .cancelled
  valueError := fun message => .loglet (.valueError message)
  put := put
  repair := repair
  prefixTrim := prefixTrim
  sealSegment := sealSegment
  state := state
  rows := fun w => rows w.connection.working

end Sql

def StoreKind.engine : StoreKind → StorageEngine
  | .memory => MemoryStore.engine
  | .sqlite => Sql.engine

/-- A store that has just been opened over whatever its file holds. -/
def StoreKind.Opened : (kind : StoreKind) → kind.engine.World → Prop
  | .memory => fun _ => True
  | .sqlite => fun w => ∃ t : Sql.Tables, w = Sql.World.opened t

end DelosLab.NativeLoglet
