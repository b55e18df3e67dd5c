import DelosLab.Async.Scheduler
import DelosLab.Common.Membership
import DelosLab.VirtualLog.Core

/-!
# Clients of one virtual log

Any number of VirtualLog instances, each with any number of tasks, share one
linearizable versioned register and the Loglets that the chain names. A call of
the register takes effect at some moment after it was invoked, whether or not its
caller is still there, and its answer may reach the caller at any later moment.
A Loglet answers what its contract admits after the answers it has given.
-/

namespace DelosLab.VirtualLog

open Async Async.Coroutine

/-- `uuid4`: every drawn identifier differs from every other. -/
structure UuidSource where
  id : TaskId → Nat → String
  named : ∀ t n, id t n ≠ ""
  injective : ∀ t n t' n', id t n = id t' n' → t = t' ∧ n = n'

/-- What the Loglet of a segment has answered. -/
inductive LogletEvent : Type where
  | appended (segmentId commandId : String) (position : Nat)
  | sealed (segmentId : String)
  | tail (segmentId : String) (tail : Nat) (sealed : Bool)
  | trimmed (segmentId : String) (watermark : Nat)
deriving DecidableEq

/-- Which answer a Loglet may give after the answers in a list (newest first). -/
structure LogletContract where
  admits : List LogletEvent → LogletEvent → Bool

/-- How the instances are built, where identifiers come from, and what the
Loglets promise. -/
structure Deployment where
  instances : String → VirtualLog
  uuids : UuidSource
  contract : LogletContract

inductive RegisterReply (P : Type) : Type where
  | read (snapshot : VersionedLogChain P)
  | compareAndSet (result : CompareAndSetResult P)

structure Instance (P : Type) where
  cached : Option (VersionedLogChain P)
  lock : Option TaskId

/-- An acknowledged append: the register's version when it returned, and the
Loglet position behind the virtual one. -/
structure Ack where
  commandId : String
  position : Nat
  segmentId : String
  localPosition : Nat
  version : Nat
deriving DecidableEq

/-- `history` lists the installed chains, oldest first, `events` and `acks` what
has been answered, newest first, and `lastAppend` the segment and the Loglet
position of a task's last answered append; no task reads them. -/
structure World (P : Type) where
  register : VersionedLogChain P
  history : List (LogChain P)
  nextCall : Nat
  pending : List (Nat × RegisterCall P)
  replies : List (Nat × RegisterReply P)
  instances : String → Instance P
  drawn : TaskId → Nat
  events : List LogletEvent
  lastAppend : TaskId → String × Nat
  acks : List Ack

inductive Call (P : Type) : Type where
  | bootstrap (initialSegment : LogSegment P)
  | refresh
  | append (commandId : String) (payload : Bytes)
  | seal
  | checkTail
  | read (position : Int)
  | readNext (virtualStart virtualStop : Int)
  | prefixTrim (trimPosition : Int)
  | reconfigExtend (loglet : LogletConfiguration P)
  | reconfigTruncate
  | reconfigModify (update : LogletConfigurationUpdate P)

inductive Outcome (P : Type) : Type where
  | unit
  | flag (value : Bool)
  | position (value : Nat)
  | tail (value : LogletTail)
  | entry (value : Option VirtualLogEntry)
  | snapshot (version : Nat) (chain : Option (LogChain P))

/-- How an open wait is answered. -/
inductive Choice (P : Type) : Type where
  | done
  | position (value : Nat)
  | tail (value : LogletTail)
  | entry (value : Option LogletEntry)
  | configuration (value : LogletConfiguration P)
  | fail (e : Error)

inductive Disturbance : Type where
  | linearize (call : Nat)
  | crash (node : String)

variable {P : Type}

namespace World

def initial (P : Type) : World P where
  register := VersionedLogChain.zero
  history := []
  nextCall := 0
  pending := []
  replies := []
  instances := fun _ => ⟨none, none⟩
  drawn := fun _ => 0
  events := []
  lastAppend := fun _ => ("", 0)
  acks := []

/-- Change the instance that a task runs on. -/
def onInstance (w : World P) (node : String) (f : Instance P → Instance P) : World P :=
  { w with instances := Function.update w.instances node (f (w.instances node)) }

@[simp] theorem onInstance_self (w : World P) (node : String) (f : Instance P → Instance P) :
    (w.onInstance node f).instances node = f (w.instances node) :=
  Function.update_self _ _ _

@[simp] theorem onInstance_of_ne (w : World P) {node node' : String} (h : node' ≠ node)
    (f : Instance P → Instance P) :
    (w.onInstance node f).instances node' = w.instances node' :=
  Function.update_of_ne h _ _

/-- The Loglet answers `e`, if its contract admits that. -/
def answer (w : World P) (contract : LogletContract) (e : LogletEvent) : Option (World P) :=
  if contract.admits w.events e then some { w with events := e :: w.events } else none

/-- `call` takes effect on the register. -/
def linearize (w : World P) (call : Nat) : Option (World P) :=
  match w.pending.lookup call with
  | none => none
  | some .read =>
      some { w with
        pending := w.pending.filter fun entry => entry.1 ≠ call
        replies := (call, .read w.register) :: w.replies }
  | some (.compareAndSet expected chain) =>
      let outcome := w.register.compareAndSet expected chain
      some { w with
        register := outcome.1
        history := if outcome.2.isApplied then w.history ++ [chain] else w.history
        pending := w.pending.filter fun entry => entry.1 ≠ call
        replies := (call, .compareAndSet outcome.2) :: w.replies }

end World

namespace Deployment

def exec (𝒮 : Deployment) (w : World P) (t : TaskId) : (a : Act P) → World P × ActResult P a
  | .cached => (w, (w.instances t.node).cached)
  | .setCached snapshot =>
      (w.onInstance t.node fun i => { i with cached := some snapshot }, ())
  | .uuid4 =>
      ({ w with drawn := Function.update w.drawn t (w.drawn t + 1) },
        ⟨𝒮.uuids.id t (w.drawn t), 𝒮.uuids.named t (w.drawn t)⟩)
  | .invoke call =>
      ({ w with pending := (w.nextCall, call) :: w.pending, nextCall := w.nextCall + 1 },
        w.nextCall)
  | .release => (w.onInstance t.node fun i => { i with lock := none }, ())

def resume (𝒮 : Deployment) (w : World P) (t : TaskId) :
    (e : Wait P) → Choice P → Option (World P × Except Error (WaitResult P e))
  | _, .fail e => some (w, .error e)
  | .acquire, .done =>
      if (w.instances t.node).lock = none then
        some (w.onInstance t.node fun i => { i with lock := some t }, .ok ())
      else none
  | .sleep, .done => some (w, .ok ())
  | .readResponse call, .done =>
      match w.replies.lookup call with
      | some (.read snapshot) => some (w, .ok snapshot)
      | _ => none
  | .casResponse call, .done =>
      match w.replies.lookup call with
      | some (.compareAndSet result) => some (w, .ok result)
      | _ => none
  | .append segment commandId _, .position position =>
      (w.answer 𝒮.contract (.appended segment.segmentId commandId position)).map fun w' =>
        ({ w' with
            lastAppend := Function.update w'.lastAppend t (segment.segmentId, position) },
          .ok position)
  | .seal segment, .done =>
      (w.answer 𝒮.contract (.sealed segment.segmentId)).map fun w' => (w', .ok ())
  | .checkTail segment, .tail tail =>
      (w.answer 𝒮.contract (.tail segment.segmentId tail.tail tail.sealed)).map fun w' =>
        (w', .ok tail)
  | .readNext _ _ _, .entry entry => some (w, .ok entry)
  | .prefixTrim segment _, .position watermark =>
      (w.answer 𝒮.contract (.trimmed segment.segmentId watermark)).map fun w' =>
        (w', .ok watermark)
  | .successor _, .configuration loglet =>
      some ({ w with drawn := Function.update w.drawn t (w.drawn t + 1) },
        .ok ⟨𝒮.uuids.id t (w.drawn t), loglet, 𝒮.uuids.named t (w.drawn t)⟩)
  | _, _ => none

section Program

variable [DecidableEq P]

theorem uuid_named (id : { id : String // id ≠ "" }) : id.1 ≠ "" := id.2

/-- The coroutine of a call; a segment that the caller names gets a fresh identifier. -/
def program (self : VirtualLog) : Call P → Co P (Outcome P)
  | .bootstrap initialSegment => do
      let id ← act .uuid4
      let snapshot ← bootstrap { initialSegment with segmentId := id.1, named := uuid_named id }
      ret (.snapshot snapshot.version snapshot.chain)
  | .refresh => do
      let snapshot ← refresh
      ret (.snapshot snapshot.version (some snapshot.chain))
  | .append commandId payload => do
      let position ← self.append commandId payload
      ret (.position position)
  | .seal => do
      self.sealActive
      ret .unit
  | .checkTail => do
      let tail ← self.checkTail
      ret (.tail tail)
  | .read position => do
      let entry ← self.read position
      ret (.entry (some entry))
  | .readNext virtualStart virtualStop => do
      let entry ← self.readNext virtualStart virtualStop
      ret (.entry entry)
  | .prefixTrim trimPosition => do
      let position ← self.prefixTrim trimPosition
      ret (.position position)
  | .reconfigExtend loglet => do
      let id ← act .uuid4
      let installed ← self.reconfigExtend ⟨id.1, loglet, uuid_named id⟩
      ret (.flag installed)
  | .reconfigTruncate => do
      let installed ← self.reconfigTruncate
      ret (.flag installed)
  | .reconfigModify update => do
      let installed ← reconfigModify update
      ret (.flag installed)

/-- Acknowledge an append that returned. -/
def finish (w : World P) (t : TaskId) : Call P → Except Error (Outcome P) → World P
  | .append commandId _, .ok (.position position) =>
      { w with
        acks := ⟨commandId, position, (w.lastAppend t).1, (w.lastAppend t).2,
          w.register.version⟩ :: w.acks }
  | _, _ => w

/-- The system of a deployment. A crash of an instance ends its tasks and loses
its cache; what it had invoked at the register stays in flight. -/
def runtime (𝒮 : Deployment) :
    Runtime (signature P) (World P) TaskId (Call P) (Choice P) Disturbance (Outcome P) where
  start := fun w t c => some (w, program (𝒮.instances t.node) c)
  exec := 𝒮.exec
  resume := 𝒮.resume
  finish := finish
  disturb := fun w d =>
    match d with
    | .linearize call => w.linearize call
    | .crash node => some (w.onInstance node fun _ => ⟨none, none⟩)
  survives := fun d t =>
    match d with
    | .linearize _ => true
    | .crash node => t.node ≠ node

end Program

end Deployment

/-- The world and the suspended tasks of a system. -/
abbrev SystemState (P : Type) : Type :=
  State (signature P) (World P) TaskId (Call P) (Outcome P)

end DelosLab.VirtualLog
