import DelosLab.Async.Scheduler
import DelosLab.Kv.LogReads
import DelosLab.Kv.Service

/-!
# Replicas over one shared log

Any number of replicas, each with any number of tasks, share a log. A position of the log
is decided once; `settled` is a prefix in which everything is decided, and an answer of
the log never reaches behind it. A crash of a replica rolls its open transaction back and
ends its tasks.
-/

namespace DelosLab.Kv

open Async Async.Coroutine
open VirtualLog (LogletTail)

/-- How payloads are coded, and how the VirtualLog of a replica is built. -/
structure Deployment where
  codec : Codec
  virtualLogs : String → VirtualLog

structure Replica where
  connection : Connection
  locks : Lock → Option TaskId
  cached : Bool

/-- A replica that has just been started over its tables. -/
def Replica.opened (tables : Tables) : Replica := ⟨.opened tables, fun _ => none, false⟩

/-- A `submit` that has returned. -/
structure Submitted where
  node : String
  command : KvCommandEnvelope
  result : KvResult
deriving DecidableEq

/-- A `materialize_through` that has ended; `gap`: its last read passed over an entry of the
log; `faulted`: the replica has met an exception since its start. -/
structure Replayed where
  node : String
  target : Int
  gap : Bool
  faulted : Bool
  outcome : Except Error KvResult
deriving DecidableEq

/-- The answer to the statement of a `get` or of a `snapshot`. -/
inductive Shown : Type where
  | item (key : String) (value : Option KvValue)
  | items (values : KvValues)

/-- A statement that has read `kv_items`, after `commits` commits of the store; `rewriting`:
the open transaction of the connection had written to the table. -/
structure StoreRead where
  node : String
  commits : Nat
  rewriting : Bool
  shown : Shown

/-- `trimmed` is how far some client has trimmed the log, `contents` lists what each commit
of a store has left in `kv_items`, and `reads` what has been read from there. These three,
`gap` and `faulted` and the lists of what has ended are not read by any task. -/
structure World where
  replicas : String → Replica
  log : Nat → Option Content
  settled : Nat
  trimmed : Nat
  contents : String → List KvValues
  gap : TaskId → Bool
  faulted : String → Bool
  submitted : List Submitted
  replayed : List Replayed
  reads : List StoreRead

inductive Call : Type where
  | submit (command : KvCommandEnvelope)
  | sync
  | get (key : String)
  | materializeThrough (target : Int)
  | apply (position : Nat) (command : KvCommandEnvelope)
  | storeGet (key : String)
  | storeSnapshot
  | storeRequest (clientId requestId : String)

inductive Outcome : Type where
  | result (value : KvResult)
  | target (value : Int)
  | value (value : Option KvValue)
  | values (values : KvValues)
  | request (value : Option (KvCommandEnvelope × KvResult))

/-- How an open wait is answered. -/
inductive Choice : Type where
  | done
  | position (value : Nat)
  | tail (value : LogletTail)
  | read (view : ReadView)
  | fail (e : Error)

inductive Disturbance : Type where
  | decide (position : Nat) (content : Content)
  | settle (position : Nat)
  | trim (position : Nat)
  | crash (node : String)

namespace World

/-- The replicas over given tables, and an empty log. -/
def initial (tables : String → Tables) : World where
  replicas := fun node => .opened (tables node)
  log := fun _ => none
  settled := 0
  trimmed := 0
  contents := fun node => [(tables node).items]
  gap := fun _ => false
  faulted := fun _ => false
  submitted := []
  replayed := []
  reads := []

def setReplica (w : World) (node : String) (r : Replica) : World :=
  { w with replicas := Function.update w.replicas node r }

def connection (w : World) (node : String) : Connection := (w.replicas node).connection

def setConnection (w : World) (node : String) (c : Connection) : World :=
  w.setReplica node { w.replicas node with connection := c }

def setLock (w : World) (node : String) (lock : Lock) (holder : Option TaskId) : World :=
  w.setReplica node
    { w.replicas node with locks := Function.update (w.replicas node).locks lock holder }

def setCached (w : World) (node : String) : World :=
  w.setReplica node { w.replicas node with cached := true }

/-- The end of what a read of `[_, stop)` has covered when it answered `r`. -/
def readEnd (stop : Nat) : Option VirtualLog.VirtualLogEntry → Nat
  | none => stop
  | some e => e.position

/-- A read of `[start, stop)` that answers `r` has passed over an entry of the log. -/
def overlooked (w : World) (start stop : Nat) (r : Option VirtualLog.VirtualLogEntry) : Bool :=
  decide (∃ p < readEnd stop r, start ≤ p ∧ w.log p ≠ none)

end World

namespace Deployment

/-- A commit of the store of `node` is noted. -/
def contentsAfter (w : World) (node : String) : Statement → String → List KvValues
  | .commit =>
      Function.update w.contents node (w.contents node ++ [(w.connection node).working.items])
  | _ => w.contents

/-- A read of the store of `node` is noted. -/
def readsAfter (w : World) (node : String) : Statement → List StoreRead
  | .selectItem key => w.reads ++ [⟨node, (w.contents node).length - 1,
      (w.connection node).rewriting, .item key ((w.connection node).working.items.lookup key)⟩]
  | .selectItems => w.reads ++ [⟨node, (w.contents node).length - 1,
      (w.connection node).rewriting, .items (w.connection node).working.items⟩]
  | _ => w.reads

/-- One statement on the connection of `node`. -/
def sql (w : World) (node : String) (s : Statement) : World × Except Error s.Result :=
  let outcome := (w.connection node).execute s
  ({ w.setConnection node outcome.1 with
    contents := contentsAfter w node s
    reads := readsAfter w node s }, outcome.2)

def exec (w : World) (t : TaskId) : (a : Act) → World × ActResult a
  | .sql s => sql w t.node s
  | .release lock => (w.setLock t.node lock none, ())
  | .cached => (w, (w.replicas t.node).cached)

def resume (𝒮 : Deployment) (w : World) (t : TaskId) :
    (e : Wait) → Choice → Option (World × Except Error (WaitResult e))
  | _, .fail e => some ({ w with faulted := Function.update w.faulted t.node true }, .error e)
  | .executed, .done => some (w, .ok ())
  | .acquire lock, .done =>
      if (w.replicas t.node).locks lock = none then
        some (w.setLock t.node lock (some t), .ok ())
      else none
  | .refresh, .done => some (w.setCached t.node, .ok ())
  | .initialSegment, .done => some (w, .ok ())
  | .bootstrap, .done => some (w.setCached t.node, .ok ())
  | .append commandId payload, .position p =>
      if w.log p = some ⟨commandId, payload⟩ ∧ p < w.settled then some (w, .ok p) else none
  | .checkTail, .tail tail => if tail.tail ≤ w.settled then some (w, .ok tail) else none
  | .readNext start stop, .read view =>
      if view.Right t.node w.log start.toNat stop.toNat then
        match view.readNext (𝒮.virtualLogs t.node) t.node start stop with
        | .ok r =>
            let gap := w.overlooked start.toNat stop.toNat r
            some ({ w with gap := Function.update w.gap t gap }, .ok r)
        | .error _ => none
      else none
  | _, _ => none

/-- The coroutine of a call. -/
def program (𝒮 : Deployment) : Call → Co Outcome
  | .submit command => do
      let result ← 𝒮.codec.submit command
      ret (.result result)
  | .sync => do
      let target ← 𝒮.codec.sync
      ret (.target target)
  | .get key => do
      let value ← 𝒮.codec.get key
      ret (.value value)
  | .materializeThrough target => do
      let result ← 𝒮.codec.materializeThrough target
      ret (.result result)
  | .apply position command => do
      let result ← SQLiteKvStore.apply position command
      ret (.result result)
  | .storeGet key => do
      let value ← SQLiteKvStore.get key
      ret (.value value)
  | .storeSnapshot => do
      let values ← SQLiteKvStore.snapshot
      ret (.values values)
  | .storeRequest clientId requestId => do
      let value ← SQLiteKvStore.request clientId requestId
      ret (.request value)

def start (𝒮 : Deployment) (w : World) (t : TaskId) (c : Call) : Option (World × Co Outcome) :=
  some ({ w with gap := Function.update w.gap t false }, 𝒮.program c)

/-- Note what a call has come to. -/
def finish (w : World) (t : TaskId) : Call → Except Error Outcome → World
  | .submit command, .ok (.result result) =>
      { w with submitted := w.submitted ++ [⟨t.node, command, result⟩] }
  | .materializeThrough target, .ok (.result result) =>
      { w with
        replayed := w.replayed ++ [⟨t.node, target, w.gap t, w.faulted t.node, .ok result⟩] }
  | .materializeThrough target, .error e =>
      { w with
        replayed := w.replayed ++ [⟨t.node, target, w.gap t, w.faulted t.node, .error e⟩] }
  | _, _ => w

def disturb (w : World) : Disturbance → Option World
  | .decide position content =>
      if w.settled ≤ position ∧ w.log position = none then
        some { w with log := Function.update w.log position (some content) }
      else none
  | .settle position => some { w with settled := max w.settled position }
  | .trim position =>
      if position ≤ w.settled then some { w with trimmed := max w.trimmed position } else none
  | .crash node =>
      some { w.setReplica node (.opened (w.connection node).committed) with
        faulted := Function.update w.faulted node false }

def survives : Disturbance → TaskId → Bool
  | .crash node, t => t.node ≠ node
  | _, _ => true

/-- The system of a deployment. -/
def runtime (𝒮 : Deployment) :
    Runtime signature World TaskId Call Choice Disturbance Outcome where
  start := 𝒮.start
  exec := exec
  resume := 𝒮.resume
  finish := finish
  disturb := disturb
  survives := survives

/-- The commands of the log; an entry whose payload is not valid carries none. -/
def commands (𝒮 : Deployment) (w : World) (p : Nat) : Option KvCommandEnvelope :=
  (w.log p).bind fun content => 𝒮.codec.fromPayload content.payload

/-- The reference replay of the first `n` positions of the log. -/
def replay (𝒮 : Deployment) (w : World) (n : Nat) :
    Replication.Replay KvValues KvCommandEnvelope (String × String) KvResult :=
  kvMachine.replay (𝒮.commands w) n

end Deployment

/-- The world and the suspended tasks of a system. -/
abbrev SystemState : Type := State signature World TaskId Call Outcome

end DelosLab.Kv
