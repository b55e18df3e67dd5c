import DelosLab.Async.Coroutine
import DelosLab.VirtualLog.MetaStore

/-!
# VirtualLog

The client side of the virtual log, function by function. A call of the MetaStore
is invoked in one segment and answered at a later wait; a call of a Loglet is one
wait, which ends when the Loglet returns or raises.
-/

namespace DelosLab

open Async Async.Coroutine

namespace VirtualLog

inductive Error : Type where
  | chainUnavailable (message : String)
  | positionUnavailable (position : Int)
  | logletUnavailable (message : String)
  | logletSealed (message : String)
  | valueError (message : String)
  | runtimeError (message : String)
  | assertionError (message : String)
  | metaStoreUnavailable   -- no outcome reported: the call may or may not take effect
  | cancelled
deriving DecidableEq

structure LogletTail where
  tail : Nat
  sealed : Bool
deriving DecidableEq

structure LogletEntry where
  position : Nat
  commandId : String
  payload : Bytes
deriving DecidableEq

inductive RegisterCall (P : Type) : Type where
  | read
  | compareAndSet (expectedVersion : Nat) (newChain : LogChain P)

inductive Act (P : Type) : Type where
  | cached
  | setCached (snapshot : VersionedLogChain P)
  | uuid4
  | invoke (call : RegisterCall P)
  | release

@[reducible] def ActResult (P : Type) : Act P → Type
  | .cached => Option (VersionedLogChain P)
  | .setCached _ => Unit
  | .uuid4 => { id : String // id ≠ "" }
  | .invoke _ => Nat
  | .release => Unit

inductive Wait (P : Type) : Type where
  | acquire
  | sleep
  | readResponse (call : Nat)
  | casResponse (call : Nat)
  | append (segment : LogSegment P) (commandId : String) (payload : Bytes)
  | seal (segment : LogSegment P)
  | checkTail (segment : LogSegment P)
  | readNext (segment : LogSegment P) (localStart localStop : Nat)
  | prefixTrim (segment : LogSegment P) (trimPosition : Nat)
  | successor (failed : LogSegment P)

@[reducible] def WaitResult (P : Type) : Wait P → Type
  | .acquire => Unit
  | .sleep => Unit
  | .readResponse _ => VersionedLogChain P
  | .casResponse _ => CompareAndSetResult P
  | .append _ _ _ => Nat
  | .seal _ => Unit
  | .checkTail _ => LogletTail
  | .readNext _ _ _ => Option LogletEntry
  | .prefixTrim _ _ => Nat
  | .successor _ => NewLogletConfiguration P

@[reducible] def signature (P : Type) : Signature where
  Act := Act P
  ActResult := ActResult P
  Wait := Wait P
  WaitResult := WaitResult P
  Error := Error

/-- A coroutine of one VirtualLog instance. -/
abbrev Co (P : Type) (α : Type) : Type := Coroutine (signature P) α

/-- A cached snapshot whose chain is not `None`. -/
structure Snapshot (P : Type) where
  version : Nat
  chain : LogChain P

end VirtualLog

/-- What a `VirtualLog` is built with: whether it has a Loglet provider and a
reconfiguration policy, and how often it retries. -/
structure VirtualLog where
  loglets : Bool
  reconfiguration : Bool
  maxReconfigurationAttempts : Nat
  positive : 1 ≤ maxReconfigurationAttempts

namespace VirtualLog

variable {P : Type}

/-! ## Acts and waits -/

def act (a : Act P) : Co P (ActResult P a) := perform (S := signature P) a

def wait (e : Wait P) : Co P (WaitResult P e) := await (S := signature P) e

/-- `self._meta_store.read()`. -/
def readRegister : Co P (VersionedLogChain P) := do
  let call ← act (.invoke .read)
  wait (.readResponse call)

/-- `self._meta_store.compare_and_set(expected_version, new_chain)`. -/
def compareAndSet (expectedVersion : Nat) (newChain : LogChain P) :
    Co P (CompareAndSetResult P) := do
  let call ← act (.invoke (.compareAndSet expectedVersion newChain))
  wait (.casResponse call)

/-- `async with self._reconfigure_lock: body`. -/
def withReconfigureLock (body : Co P Unit) : Co P Unit := do
  wait .acquire
  let result ← handle (do body; ret (.ok ())) fun e => ret (Except.error e)
  act .release
  ofExcept result

/-! ## The cache -/

/-- The property `cached`, with the chain that it has checked for. -/
def cached : Co P (Snapshot P) := do
  match ← act .cached with
  | none => raise (.chainUnavailable "VirtualLog has no installed chain")
  | some snapshot =>
      match snapshot.chain with
      | none => raise (.chainUnavailable "VirtualLog has no installed chain")
      | some chain => ret ⟨snapshot.version, chain⟩

def bootstrap (initialSegment : LogSegment P) : Co P (VersionedLogChain P) := do
  require (initialSegment.virtualStart = 0 ∧ initialSegment.virtualStop = none)
    (.valueError "initial segment must be open and start at position zero")
  let candidate ← orRaise (LogChain.ofSegments [initialSegment]) (.valueError "LogChain")
  let result ← compareAndSet 0 candidate
  let snapshot := result.current
  match snapshot.chain with
  | none => raise (.chainUnavailable "MetaStore did not return an installed chain")
  | some _ => do
      act (.setCached snapshot)
      ret snapshot

def refresh : Co P (Snapshot P) := do
  let snapshot ← readRegister
  match snapshot.chain with
  | none => raise (.chainUnavailable "MetaStore has no installed chain")
  | some chain => do
      act (.setCached snapshot)
      ret ⟨snapshot.version, chain⟩

/-- `self._loglets is None` raises. -/
def requireLoglets (self : VirtualLog) : Co P Unit :=
  require (self.loglets = true) (.logletUnavailable "VirtualLog has no Loglet provider")

/-! ## Reconfiguration -/

def install (expected : Snapshot P) (candidate : LogChain P) : Co P Bool := do
  let result ← compareAndSet expected.version candidate
  let installed := result.current
  match installed.chain with
  | none => raise (.chainUnavailable "MetaStore did not return an installed chain")
  | some _ => do
      act (.setCached installed)
      ret result.isApplied

def reconfigExtend (self : VirtualLog) (nextConfiguration : NewLogletConfiguration P) :
    Co P Bool := do
  let snapshot ← cached
  self.requireLoglets
  let active := snapshot.chain.active
  wait (.seal active)
  let tailResult ← wait (.checkTail active)
  require (tailResult.sealed = true) (.chainUnavailable "Loglet remained open after seal")
  let closed := active.close tailResult.tail
  let nextSegment := nextConfiguration.activate (active.virtualStart + tailResult.tail)
  let candidate ← orRaise
    (LogChain.ofSegments (snapshot.chain.segments.dropLast ++ [closed, nextSegment]))
    (.valueError "LogChain")
  install snapshot candidate

def reconfigTruncate (self : VirtualLog) : Co P Bool := do
  let snapshot ← cached
  self.requireLoglets
  if snapshot.chain.segments.length = 1 then ret false
  else
    let first := snapshot.chain.first
    match first.virtualStop with
    | none => raise (.chainUnavailable "reconfigTruncate requires a sealed first segment")
    | some virtualStop => do
        let localStop := virtualStop - first.virtualStart
        let trimmed ← wait (.prefixTrim first localStop)
        if trimmed < localStop then ret false
        else
          let candidate ← orRaise (LogChain.ofSegments snapshot.chain.segments.tail)
            (.valueError "LogChain")
          install snapshot candidate

section Modify

variable [DecidableEq P]

def reconfigModify (update : LogletConfigurationUpdate P) : Co P Bool := do
  let snapshot ← cached
  let segments := snapshot.chain.segments
  match segments.find? fun s => s.segmentId == update.segmentId with
  | none => raise (.valueError ("unknown LogChain segment " ++ update.segmentId))
  | some selected =>
      if selected.virtualStop = none then
        raise (.valueError "reconfigModify cannot replace the active segment")
      else if selected.loglet = update.loglet then ret true
      else
        let index := segments.findIdx fun s => s.segmentId == update.segmentId
        let modified := selected.modify update.loglet
        let candidate ← orRaise (LogChain.ofSegments (segments.set index modified))
          (.valueError "LogChain")
        install snapshot candidate

end Modify

def refreshIfActive (expected : LogSegment P) : Co P (Option (LogSegment P)) := do
  let snapshot ← cached
  if snapshot.chain.active.segmentId ≠ expected.segmentId then ret none
  else
    let refreshed ← refresh
    if refreshed.chain.active.segmentId ≠ expected.segmentId then ret none
    else ret (some refreshed.chain.active)

def rollForward (self : VirtualLog) (sealed : LogSegment P) : Co P Unit :=
  withReconfigureLock do
    match ← refreshIfActive sealed with
    | none => ret ()
    | some _ =>
        wait .sleep
        match ← refreshIfActive sealed with
        | none => ret ()
        | some active =>
            let id ← act .uuid4
            let _ ← self.reconfigExtend ⟨id.1, active.loglet, id.2⟩
            ret ()

def replaceUnavailable (self : VirtualLog) (failed : LogSegment P) : Co P Unit :=
  withReconfigureLock do
    match ← refreshIfActive failed with
    | none => ret ()
    | some active =>
        require (self.reconfiguration = true)
          (.logletUnavailable "no Loglet reconfiguration policy is installed")
        let successor ← wait (.successor active)
        let _ ← self.reconfigExtend successor
        ret ()

/-! ## The data plane -/

/-- The turns of `append` that remain. -/
def appendLoop (self : VirtualLog) (commandId : String) (payload : Bytes) : Nat → Co P Nat
  | 0 => raise (.assertionError "append retry loop exhausted without returning")
  | remaining + 1 => do
      let snapshot ← cached
      self.requireLoglets
      let active := snapshot.chain.active
      handle
        (do
          let position ← wait (.append active commandId payload)
          ret (active.virtualStart + position))
        fun
        | .logletSealed message =>
            if remaining = 0 then raise (.logletSealed message)
            else do
              self.rollForward active
              self.appendLoop commandId payload remaining
        | .logletUnavailable message =>
            if remaining = 0 ∨ self.reconfiguration = false then
              raise (.logletUnavailable message)
            else do
              self.replaceUnavailable active
              self.appendLoop commandId payload remaining
        | e => raise e

def append (self : VirtualLog) (commandId : String) (payload : Bytes) : Co P Nat :=
  self.appendLoop commandId payload self.maxReconfigurationAttempts

/-- The method `seal`, a reserved word here. -/
def sealActive (self : VirtualLog) : Co P Unit := do
  let snapshot ← cached
  self.requireLoglets
  wait (.seal snapshot.chain.active)

/-- The turns of `check_tail` that remain. -/
def checkTailLoop (self : VirtualLog) : Nat → Co P LogletTail
  | 0 => raise (.assertionError "checkTail retry loop exhausted without returning")
  | remaining + 1 => do
      let snapshot ← cached
      self.requireLoglets
      let active := snapshot.chain.active
      let observed ← handle
        (do
          let tail ← wait (.checkTail active)
          ret (some tail))
        fun
        | .logletUnavailable message =>
            if remaining = 0 ∨ self.reconfiguration = false then
              raise (.logletUnavailable message)
            else do
              self.replaceUnavailable active
              ret none
        | e => raise e
      match observed with
      | none => self.checkTailLoop remaining
      | some tail =>
          let result : LogletTail := ⟨active.virtualStart + tail.tail, tail.sealed⟩
          if tail.sealed = false then ret result
          else if remaining = 0 then ret result
          else
            self.rollForward active
            self.checkTailLoop remaining

def checkTail (self : VirtualLog) : Co P LogletTail :=
  self.checkTailLoop self.maxReconfigurationAttempts

/-- The loop of `read_next` over the segments that remain. -/
def readNextLoop (virtualStart virtualStop : Nat) :
    List (LogSegment P) → Co P (Option VirtualLogEntry)
  | [] => ret none
  | segment :: rest =>
      let overlapStart := max virtualStart segment.virtualStart
      let overlapStop := min virtualStop (segment.virtualStop.getD virtualStop)
      if overlapStart ≥ overlapStop then readNextLoop virtualStart virtualStop rest
      else do
        let localStart := overlapStart - segment.virtualStart
        let localStop := overlapStop - segment.virtualStart
        match ← wait (.readNext segment localStart localStop) with
        | none => readNextLoop virtualStart virtualStop rest
        | some entry =>
            require (localStart ≤ entry.position ∧ entry.position < localStop)
              (.runtimeError "Loglet readNext returned an entry outside the requested range")
            ret (some
              { position := segment.virtualStart + entry.position
                commandId := entry.commandId
                payload := entry.payload
                segmentId := segment.segmentId
                localPosition := entry.position })

def readNext (self : VirtualLog) (virtualStart virtualStop : Int) :
    Co P (Option VirtualLogEntry) := do
  require (0 ≤ virtualStart ∧ virtualStart < virtualStop)
    (.valueError "readNext requires 0 <= virtual_start < virtual_stop")
  let snapshot ← cached
  self.requireLoglets
  readNextLoop virtualStart.toNat virtualStop.toNat snapshot.chain.segments

def read (self : VirtualLog) (position : Int) : Co P VirtualLogEntry := do
  require (0 ≤ position) (.positionUnavailable position)
  match ← self.readNext position (position + 1) with
  | none => raise (.positionUnavailable position)
  | some entry => ret entry

/-- The physical half of `prefix_trim` over the segments that remain: the
position to return when a Loglet stayed behind, `none` when all kept up. -/
def trimSegments (trimPosition : Nat) : List (LogSegment P) → Co P (Option Nat)
  | [] => ret none
  | segment :: rest =>
      if trimPosition ≤ segment.virtualStart then ret none
      else do
        let virtualTarget := min trimPosition (segment.virtualStop.getD trimPosition)
        let localTarget := virtualTarget - segment.virtualStart
        let localResult ← wait (.prefixTrim segment localTarget)
        if localResult < localTarget then ret (some (segment.virtualStart + localResult))
        else trimSegments trimPosition rest

/-- The turns of the truncation loop of `prefix_trim` that remain. -/
def truncateLoop (self : VirtualLog) (trimPosition : Nat) : Nat → Co P Unit
  | 0 => ret ()
  | remaining + 1 => do
      let current ← cached
      if current.chain.segments.length = 1 then ret ()
      else
        match current.chain.first.virtualStop with
        | none => ret ()
        | some virtualStop =>
            if virtualStop > trimPosition then ret ()
            else do
              let _ ← self.reconfigTruncate
              self.truncateLoop trimPosition remaining

def prefixTrim (self : VirtualLog) (trimPosition : Int) : Co P Nat := do
  require (0 ≤ trimPosition) (.valueError "prefixTrim requires a non-negative position")
  let target := trimPosition.toNat
  let snapshot ← cached
  self.requireLoglets
  if target ≤ snapshot.chain.first.virtualStart then ret snapshot.chain.first.virtualStart
  else
    let tail ← self.checkTail
    require (target ≤ tail.tail) (.valueError "prefixTrim cannot pass the VirtualLog tail")
    let snapshot ← cached
    match ← trimSegments target snapshot.chain.segments with
    | some reached => ret reached
    | none =>
        self.truncateLoop target self.maxReconfigurationAttempts
        let current ← cached
        ret (max target current.chain.first.virtualStart)

end VirtualLog

end DelosLab
