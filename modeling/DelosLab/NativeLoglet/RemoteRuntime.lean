import DelosLab.Async.Translation
import DelosLab.NativeLoglet.System

/-!
# RemoteNativeLogletRuntime

What VirtualLog sees of a segment: the client's calls and the HTTP call of the sequencer, with
their exceptions turned into those of a Loglet. The LogServers, and the appends that the
process of the sequencer is asked for, are those of a deployment.
-/

namespace DelosLab.NativeLoglet

open Async Async.Coroutine
open VirtualLog (Bytes)

namespace Remote

/-- `native` is an exception of the NativeLoglet or of the network that nobody has caught. -/
inductive Error : Type where
  | logletSealed (message : String)
  | logletUnavailable (message : String)
  | sequencerUnavailable (node : String)
  | native (e : NativeLoglet.Error)
deriving DecidableEq

/-- The answer to an HTTP call; a `problem` has a status code of 400 or more. -/
inductive HttpResponse : Type where
  | ok (result : AppendResult)
  | problem (statusCode : Nat) (code : String)

/-- The exception handlers of the sequencer's process. -/
def appendResponse : Except NativeLoglet.Error AppendResult → HttpResponse
  | .ok result => .ok result
  | .error (.segmentSealed _) => .problem 409 "SEALED"
  | .error (.entryConflict _) => .problem 409 "ENTRY_CONFLICT"
  | .error (.predecessorUnavailable _) => .problem 409 "PREDECESSOR_UNAVAILABLE"
  | .error (.positionTrimmed _) => .problem 409 "TRIMMED"
  | .error (.notSequencer _) => .problem 409 "NOT_SEQUENCER"
  | .error (.incarnationMismatch _) => .problem 409 "INCARNATION_MISMATCH"
  | .error (.noQuorum _) => .problem 503 "UNAVAILABLE"
  | .error (.tailUnavailable _) => .problem 503 "UNAVAILABLE"
  | .error _ => .problem 500 ""

/-- `post` is the HTTP call of `HttpSequencerTransport.append`; it comes back with nothing when
it raises `KeyError`, `ConnectionError` or `httpx.HTTPError`. -/
inductive Wait : Type where
  | native (e : NativeLoglet.Wait)
  | post (node commandId : String) (payload : Bytes)

/-- What the client raises is a value until it is known who catches it. -/
@[reducible] def WaitResult : Wait → Type
  | .native e => Except NativeLoglet.Error (NativeLoglet.WaitResult e)
  | .post _ _ _ => Option HttpResponse

@[reducible] def signature : Signature where
  Act := NativeLoglet.Act
  ActResult := NativeLoglet.ActResult
  Wait := Wait
  WaitResult := WaitResult
  Error := Error

/-- A coroutine of the runtime. -/
abbrev Co (α : Type) : Type := Coroutine signature α

def wait (e : Wait) : Co (WaitResult e) := await (S := signature) e

/-- `read_next` raises `LogletUnavailable` by itself. -/
def raised : NativeLoglet.Error → Error
  | .logletUnavailable message => .logletUnavailable message
  | e => .native e

/-- The code of the client runs in the runtime. -/
def native : Interpretation NativeLoglet.signature signature where
  act := fun a => perform (S := signature) a
  wait := fun e => wait (.native e)
  error := raised

/-- `except NoQuorum as error: raise LogletUnavailable(str(error)) from error`. -/
def orUnavailable {α : Type} (p : Co α) : Co α :=
  handle p fun
    | .native (.noQuorum message) => raise (.logletUnavailable message)
    | e => raise e

/-- `except (NoQuorum, TailUnavailable) as error:` and the same `raise`. -/
def orTailUnavailable {α : Type} (p : Co α) : Co α :=
  handle p fun
    | .native (.noQuorum message) => raise (.logletUnavailable message)
    | .native (.tailUnavailable message) => raise (.logletUnavailable message)
    | e => raise e

end Remote

/-- What `LogletAppend` accepts. -/
structure LogletAppend where
  position : Nat
  knownTail : Nat
  committed : 1 ≤ knownTail

def LogletAppend.validate (result : AppendResult) : Option LogletAppend :=
  if h : 1 ≤ result.knownTail then some ⟨result.position, result.knownTail, h⟩ else none

/-- `HttpSequencerTransport.append`. -/
def HttpSequencerTransport.append (node : String) (segment : Segment) (commandId : String)
    (payload : Bytes) : Remote.Co AppendResult := do
  match ← Remote.wait (.post node commandId payload) with
  | none => raise (.sequencerUnavailable node)
  | some (.ok result) => ret result
  | some (.problem statusCode code) =>
      if statusCode = 409 ∧ code = "NOT_SEQUENCER" then raise (.native (.notSequencer node))
      else if statusCode = 409 ∧ code = "INCARNATION_MISMATCH" then
        raise (.native (.incarnationMismatch node))
      else if statusCode = 409 ∧ code = "SEALED" then
        raise (.native (.segmentSealed segment.segmentId))
      else if statusCode = 409 ∧ code = "ENTRY_CONFLICT" then
        raise (.native (.entryConflict commandId))
      else if statusCode = 503 then raise (.native (.noQuorum segment.segmentId))
      else raise (.sequencerUnavailable node)

/-- What a `RemoteNativeLogletRuntime` is built with; its client is that of its process. -/
structure RemoteNativeLogletRuntime where
  localNodeId : String
  segment : Segment

namespace RemoteNativeLogletRuntime

def append (self : RemoteNativeLogletRuntime) (commandId : String) (payload : Bytes) :
    Remote.Co LogletAppend := do
  let result ← handle
    (HttpSequencerTransport.append self.segment.configuration.sequencerNode self.segment commandId
      payload)
    fun
      | .native (.segmentSealed message) => raise (.logletSealed message)
      | .native (.noQuorum message) => raise (.logletUnavailable message)
      | .sequencerUnavailable node => raise (.logletUnavailable node)
      | .native (.notSequencer node) => raise (.logletUnavailable node)
      | .native (.incarnationMismatch node) => raise (.logletUnavailable node)
      | e => raise e
  perform (S := Remote.signature) (.observeTail result.knownTail)
  orRaise (LogletAppend.validate result)
    (.native (.valueError "known_tail should be greater than or equal to 1"))

def «seal» (self : RemoteNativeLogletRuntime) : Remote.Co Unit :=
  Remote.orTailUnavailable (Remote.native.translate self.segment.seal)

/-- `_last_check_tail` is read by `/state` only. -/
def checkTail (self : RemoteNativeLogletRuntime) (turns : Nat) : Remote.Co CheckTailResult :=
  Remote.orTailUnavailable (Remote.native.translate (self.segment.checkTail turns))

def prefixTrim (self : RemoteNativeLogletRuntime) (trimPosition : Nat) : Remote.Co Nat :=
  Remote.orUnavailable (Remote.native.translate (self.segment.prefixTrim trimPosition))

def readNext (self : RemoteNativeLogletRuntime) (localStart localStop : Nat) :
    Remote.Co (Option LogEntry) :=
  Remote.native.translate (self.segment.readNext self.localNodeId localStart localStop)

end RemoteNativeLogletRuntime

namespace Remote

/-! ## The runtimes of a deployment -/

/-- `registryAppend` is what the process of the sequencer does for a `post`. -/
inductive Call : Type where
  | append (commandId : String) (payload : Bytes)
  | seal
  | checkTail (turns : Nat)
  | prefixTrim (trimPosition : Nat)
  | readNext (localStart localStop : Nat)
  | registryAppend (commandId : String) (payload : Bytes) (turns : Nat)
deriving DecidableEq

inductive Outcome : Type where
  | appended (result : LogletAppend)
  | done
  | tail (result : CheckTailResult)
  | trimmed (watermark : Nat)
  | entry (entry : Option LogEntry)
  | registry (result : AppendResult)

/-- `segment` has the processes and the messages; `appended` has what the appends of the
sequencer's process came to, and `failed` the exceptions that the runtimes' calls have raised. -/
structure World where
  segment : NativeLoglet.World
  appended : List AppendResult
  failed : List (Call × Error)

def World.initial (𝒮 : Deployment) : World := ⟨.initial 𝒮, [], []⟩

inductive Choice : Type where
  | native (x : NativeLoglet.Choice)
  | unreached
  | responded (result : Except NativeLoglet.Error AppendResult)
  | cancel

/-- An append is answered with what some append came to, or with any exception. -/
def resume (w : World) (t : TaskId) :
    (e : Wait) → Choice → Option (World × Except Error (WaitResult e))
  | .native e, .native x =>
      (Deployment.resume w.segment t e x).map fun r => ({ w with segment := r.1 }, .ok r.2)
  | .post _ _ _, .unreached => some (w, .ok none)
  | .post _ _ _, .responded (.ok result) =>
      if result ∈ w.appended then some (w, .ok (some (appendResponse (.ok result)))) else none
  | .post _ _ _, .responded (.error e) => some (w, .ok (some (appendResponse (.error e))))
  | .post _ _ _, .cancel => some (w, .error (.native .cancelled))
  | _, _ => none

def program (𝒮 : Deployment) (node : String) : Call → Co Outcome
  | .append commandId payload => do
      let result ← RemoteNativeLogletRuntime.append ⟨node, 𝒮.segment⟩ commandId payload
      ret (.appended result)
  | .seal => do
      RemoteNativeLogletRuntime.seal ⟨node, 𝒮.segment⟩
      ret .done
  | .checkTail turns => do
      let result ← RemoteNativeLogletRuntime.checkTail ⟨node, 𝒮.segment⟩ turns
      ret (.tail result)
  | .prefixTrim trimPosition => do
      let watermark ← RemoteNativeLogletRuntime.prefixTrim ⟨node, 𝒮.segment⟩ trimPosition
      ret (.trimmed watermark)
  | .readNext localStart localStop => do
      let entry ← RemoteNativeLogletRuntime.readNext ⟨node, 𝒮.segment⟩ localStart localStop
      ret (.entry entry)
  | .registryAppend commandId payload turns => do
      let result ← native.translate (𝒮.segment.append commandId payload turns)
      ret (.registry result)

def finish (w : World) : Call → Except Error Outcome → World
  | _, .ok (.registry result) => { w with appended := result :: w.appended }
  | _, .ok _ => w
  | .registryAppend _ _ _, .error _ => w
  | c, .error e => { w with failed := (c, e) :: w.failed }

/-- The runtimes of a deployment's processes. -/
def runtime (𝒮 : Deployment) :
    Runtime signature World TaskId Call Choice Disturbance Outcome where
  start := fun w t c => some (w, program 𝒮 t.node c)
  exec := fun w t a => ({ w with segment := (𝒮.exec w.segment t a).1 }, (𝒮.exec w.segment t a).2)
  resume := resume
  finish := fun w _ c o => finish w c o
  disturb := fun w d => (𝒮.disturb w.segment d).map fun segment => { w with segment := segment }
  survives := fun d t =>
    match d with
    | .restart node _ => t.node ≠ node
    | _ => true

/-- The world and the suspended calls of the runtimes. -/
abbrev SystemState : Type := State signature World TaskId Call Outcome

end Remote

end DelosLab.NativeLoglet
