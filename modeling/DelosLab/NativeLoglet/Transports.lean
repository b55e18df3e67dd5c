import DelosLab.NativeLoglet.LogServer
import DelosLab.NativeLoglet.StoreEquivalence

/-!
# The two transports of a LogServer

DirectLogletTransport calls the server, HttpLogletTransport sends a request to the endpoints
that `install_loglet_api` puts in front of it. A call is served alone; a call of
`wait_for_tail` may wait, and is told the stores that it finds when it is woken.
-/

namespace DelosLab.NativeLoglet

/-! ## The server -/

/-- A `LogletStore` of all segments: what it holds, and its methods. -/
structure WholeStore where
  Held : Type
  put : Held → LogEntry → Nat → Held × Except StoreFailure Unit
  repair : Held → LogEntry → Nat → Held × Except StoreFailure Unit
  get : Held → String → Int → Nat → Held × Except StoreFailure (Option LogEntry)
  prefixTrim : Held → String → Nat → Held × Except StoreFailure Nat
  sealSegment : Held → String → Nat → Held
  state : Held → String → Nat → Held × LogServerState

/-- The two stores. -/
def StoreKind.whole : StoreKind → WholeStore
  | .memory =>
      { Held := MemoryStore
        put := fun store entry knownTail => (store.put entry knownTail).map id (·.mapError .loglet)
        repair := fun store entry knownTail =>
          (store.repair entry knownTail).map id (·.mapError .loglet)
        get := fun store segmentId position knownTail =>
          (store.getAt segmentId position knownTail).map id .ok
        prefixTrim := fun store segmentId trimPosition =>
          (store.prefixTrim segmentId trimPosition).map id (·.mapError .loglet)
        sealSegment := MemoryStore.sealSegment
        state := MemoryStore.state }
  | .sqlite =>
      { Held := SqliteStore
        put := SqliteStore.put
        repair := SqliteStore.repair
        get := SqliteStore.get
        prefixTrim := fun store segmentId trimPosition => store.prefixTrim segmentId trimPosition
        sealSegment := SqliteStore.sealSegment
        state := SqliteStore.state }

/-- A task that waits for a notification. -/
structure Waiter where
  segmentId : String
  localTail : Nat
  knownTail : Nat
deriving DecidableEq

/-- What a call returns. -/
inductive Returned : Type where
  | state (state : LogServerState)
  | entry (entry : Option LogEntry)
deriving DecidableEq

/-- What a server makes of a call. -/
inductive ServerAnswer : Type where
  | returned (value : Returned)
  | raised (e : StoreFailure)
  | waiting (waiter : Waiter)
deriving DecidableEq

/-! ### The methods of a `NativeLogServer`, for one call alone -/

namespace WholeStore

variable (K : WholeStore)

def report (store : K.Held) (segmentId : String) (knownTail : Nat) : K.Held × ServerAnswer :=
  (K.state store segmentId knownTail).map id fun state => .returned (.state state)

def servePut (store : K.Held) (entry : LogEntry) (knownTail : Nat) : K.Held × ServerAnswer :=
  match K.put store entry knownTail with
  | (store, .ok _) => K.report store entry.segmentId knownTail
  | (store, .error e) => (store, .raised e)

def serveRepair (store : K.Held) (entry : LogEntry) (knownTail : Nat) : K.Held × ServerAnswer :=
  match K.repair store entry knownTail with
  | (store, .ok _) => K.report store entry.segmentId knownTail
  | (store, .error e) => (store, .raised e)

def serveGet (store : K.Held) (segmentId : String) (position : Int) (knownTail : Nat) :
    K.Held × ServerAnswer :=
  match K.get store segmentId position knownTail with
  | (store, .ok entry) => (store, .returned (.entry entry))
  | (store, .error e) => (store, .raised e)

def servePrefixTrim (store : K.Held) (segmentId : String) (trimPosition : Nat) :
    K.Held × ServerAnswer :=
  match K.prefixTrim store segmentId trimPosition with
  | (store, .ok _) => K.report store segmentId 0
  | (store, .error e) => (store, .raised e)

def serveSeal (store : K.Held) (segmentId : String) (knownTail : Nat) : K.Held × ServerAnswer :=
  K.report (K.sealSegment store segmentId knownTail) segmentId knownTail

/-- `wakes` are the stores at the wake-ups, as other tasks have left them. -/
def serveWait (waiter : Waiter) : K.Held → List K.Held → K.Held × ServerAnswer
  | store, [] =>
      let reported := K.state store waiter.segmentId waiter.knownTail
      if NativeLogServer.Due waiter.localTail reported.2.localTail reported.2.sealed then
        (reported.1, .returned (.state reported.2))
      else (reported.1, .waiting waiter)
  | store, woken :: wakes =>
      let reported := K.state store waiter.segmentId waiter.knownTail
      if NativeLogServer.Due waiter.localTail reported.2.localTail reported.2.sealed then
        (reported.1, .returned (.state reported.2))
      else serveWait waiter woken wakes

end WholeStore

/-! ## `DirectLogletTransport` -/

/-- A call of a `LogletTransport`. -/
inductive TransportCall (Held : Type) : Type where
  | put (entry : LogEntry) (knownTail : Nat)
  | repair (entry : LogEntry) (knownTail : Nat)
  | get (segmentId : String) (position knownTail : Nat)
  | seal (segmentId : String) (knownTail : Nat)
  | prefixTrim (segmentId : String) (trimPosition : Nat)
  | state (segmentId : String) (knownTail : Nat)
  | waitForTail (segmentId : String) (localTail knownTail : Nat) (wakes : List Held)

def DirectLogletTransport.call (K : WholeStore) (store : K.Held) :
    TransportCall K.Held → K.Held × ServerAnswer
  | .put entry knownTail => K.servePut store entry knownTail
  | .repair entry knownTail => K.serveRepair store entry knownTail
  | .get segmentId position knownTail => K.serveGet store segmentId position knownTail
  | .seal segmentId knownTail => K.serveSeal store segmentId knownTail
  | .prefixTrim segmentId trimPosition => K.servePrefixTrim store segmentId trimPosition
  | .state segmentId knownTail => K.report store segmentId knownTail
  | .waitForTail segmentId localTail knownTail wakes =>
      K.serveWait ⟨segmentId, localTail, knownTail⟩ store wakes

/-! ## JSON -/

/-- Python turns integers of up to 4300 digits into text and back. -/
def Printable (n : Nat) : Prop := (Nat.toDigits 10 n).length ≤ 4300

instance (n : Nat) : Decidable (Printable n) := inferInstanceAs (Decidable (_ ≤ _))

/-- Bytes as UTF-8 text. -/
def textOf (payload : VirtualLog.Bytes) : Option String := String.fromUTF8? ⟨payload.toArray⟩

def bytesOf (text : String) : VirtualLog.Bytes := text.toByteArray.data.toList

/-- The JSON of a `LogEntry`. -/
structure EntryJson where
  segmentId : String
  position : Nat
  commandId : String
  payload : String
deriving DecidableEq

/-- `model_dump(mode="json")`, as far as it becomes text. -/
def dumpEntry (entry : LogEntry) : Option EntryJson :=
  if Printable entry.position then
    (textOf entry.payload).map fun payload =>
      ⟨entry.segmentId, entry.position, entry.commandId, payload⟩
  else none

/-- `LogEntry.model_validate`. -/
def validateEntry (json : EntryJson) : LogEntry :=
  ⟨json.segmentId, json.position, json.commandId, bytesOf json.payload⟩

/-- The three integers of a state become text. -/
def PrintableState (state : LogServerState) : Prop :=
  Printable state.localTail ∧ Printable state.trimmedPrefix ∧ Printable state.knownTail

instance (state : LogServerState) : Decidable (PrintableState state) :=
  inferInstanceAs (Decidable (_ ∧ _))

/-! ## `install_loglet_api` -/

/-- The endpoints that the client uses. -/
inductive Endpoint : Type where
  | putEntry
  | repairEntry
  | getEntry
  | sealSegment
  | prefixTrimSegment
  | getState
  | waitForTail
deriving DecidableEq

/-- The body of a request: a `LogletWriteRequest`, a `KnownTailRequest` or nothing. -/
inductive RequestBody : Type where
  | write (entry : EntryJson) (knownTail : Nat)
  | knownTail (knownTail : Nat)
  | none

inductive HttpResponse : Type where
  | state (state : LogServerState)
  | entry (entry : EntryJson)
  | otherJson
  | status (code : Nat)
  | protocolError (code message : String)   -- status 409
  | pending (waiter : Waiter)

/-- The exception handlers; any other exception is an internal error. -/
def handleError : StoreFailure → HttpResponse
  | .loglet (.segmentSealed segmentId) => .protocolError "SEALED" segmentId
  | .loglet (.entryConflict message) => .protocolError "ENTRY_CONFLICT" message
  | .loglet (.predecessorUnavailable message) => .protocolError "PREDECESSOR_UNAVAILABLE" message
  | .loglet (.positionTrimmed message) => .protocolError "TRIMMED" message
  | _ => .status 500

/-- The response to what an endpoint returns or raises. A state with longer integers may also be
sent with status 200, and then it is the client that cannot read them; no `LogletError` comes
of it in either case. -/
def respond : ServerAnswer → HttpResponse
  | .returned (.state state) => if PrintableState state then .state state else .status 500
  | .returned (.entry none) => .status 404
  | .returned (.entry (some entry)) => (dumpEntry entry).elim (.status 500) .entry
  | .raised e => handleError e
  | .waiting waiter => .pending waiter

/-- `validate_path`, before the server is called. -/
def validatePath {K : WholeStore} (store : K.Held) (entry : LogEntry) (segmentId : String)
    (position : Int) (answer : K.Held × ServerAnswer) : K.Held × HttpResponse :=
  if entry.segmentId ≠ segmentId ∨ (entry.position : Int) ≠ position then (store, .status 422)
  else answer.map id respond

/-- What the endpoints do with the parameters of the path, of the query and of the body. -/
def WholeStore.endpoint (K : WholeStore) (store : K.Held) (endpoint : Endpoint)
    (segmentId : String) (number : Int) (knownTail : Nat) (body : RequestBody)
    (wakes : List K.Held) : K.Held × HttpResponse :=
  match endpoint, body with
  | .putEntry, .write json knownTail =>
      validatePath store (validateEntry json) segmentId number
        (K.servePut store (validateEntry json) knownTail)
  | .repairEntry, .write json knownTail =>
      validatePath store (validateEntry json) segmentId number
        (K.serveRepair store (validateEntry json) knownTail)
  | .getEntry, _ => (K.serveGet store segmentId number knownTail).map id respond
  | .sealSegment, .knownTail knownTail => (K.serveSeal store segmentId knownTail).map id respond
  | .prefixTrimSegment, _ =>
      if number < 0 then (store, .status 422)
      else (K.servePrefixTrim store segmentId number.toNat).map id respond
  | .getState, _ => (K.report store segmentId knownTail).map id respond
  | .waitForTail, _ =>
      if number < 0 then (store, .status 422)
      else (K.serveWait ⟨segmentId, number.toNat, knownTail⟩ store wakes).map id respond
  | _, _ => (store, .status 422)

/-! ## `HttpLogletTransport` -/

/-- How a request ends that reaches no endpoint of the client. -/
inductive Refusal : Type where
  | invalidUrl
  | redirect
  | notFound
  | methodNotAllowed
  | unprocessable
deriving DecidableEq

/-- Where the URL of a request leads: to an endpoint with a segment, a number and a known tail,
or to the endpoints that the client never asks for. -/
inductive Routed : Type where
  | endpoint (endpoint : Endpoint) (segmentId : String) (number : Int) (knownTail : Nat)
  | elsewhere
  | refused (refusal : Refusal)

/-- The URLs of httpx and the routes of starlette. -/
structure WebLayer where
  route : Endpoint → String → Nat → Nat → Routed

/-- A segment that comes back as it was is one part of the path, so the other parts and the
query are the client's. -/
structure WebLayer.Documented (web : WebLayer) : Prop where
  own : ∀ {endpoint segmentId n k endpoint' n' k'},
    web.route endpoint segmentId n k = .endpoint endpoint' segmentId n' k' →
      endpoint' = endpoint ∧ n' = n ∧ k' = k

inductive TransportError : Type where
  | loglet (e : Error)
  | httpStatus (code : Nat)
  | validation
  | request   -- the request was not sent
deriving DecidableEq

inductive ClientAnswer : Type where
  | returned (value : Returned)
  | raised (e : TransportError)
  | waiting (waiter : Waiter)
deriving DecidableEq

namespace HttpLogletTransport

/-- `_raise_for_protocol_error`, for a response of status 409. -/
def protocolError (code message : String) : TransportError :=
  if code = "SEALED" then .loglet (.segmentSealed message)
  else if code = "ENTRY_CONFLICT" then .loglet (.entryConflict message)
  else if code = "PREDECESSOR_UNAVAILABLE" then .loglet (.predecessorUnavailable message)
  else if code = "TRIMMED" then .loglet (.positionTrimmed message)
  else .httpStatus 409

/-- `LogServerState.model_validate(response.json())`. -/
def readState : HttpResponse → ClientAnswer
  | .state state => .returned (.state state)
  | .entry _ => .raised .validation
  | .otherJson => .raised .validation
  | .status code => .raised (.httpStatus code)
  | .protocolError code message => .raised (protocolError code message)
  | .pending waiter => .waiting waiter

/-- `LogEntry.model_validate(response.json())`, or `None` if there is none. -/
def readEntry : HttpResponse → ClientAnswer
  | .state _ => .raised .validation
  | .entry json => .returned (.entry (some (validateEntry json)))
  | .otherJson => .raised .validation
  | .status code => if code = 404 then .returned (.entry none) else .raised (.httpStatus code)
  | .protocolError code message => .raised (protocolError code message)
  | .pending waiter => .waiting waiter

variable (web : WebLayer) {K : WholeStore}

def refusalAnswer (read : HttpResponse → ClientAnswer) : Refusal → ClientAnswer
  | .invalidUrl => .raised .request
  | .redirect => read (.status 307)
  | .notFound => read (.status 404)
  | .methodNotAllowed => read (.status 405)
  | .unprocessable => read (.status 422)

def send (store : K.Held) (endpoint : Endpoint) (segmentId : String) (number knownTail : Nat)
    (body : RequestBody) (wakes : List K.Held) (read : HttpResponse → ClientAnswer) :
    K.Held × ClientAnswer :=
  match web.route endpoint segmentId number knownTail with
  | .endpoint endpoint segmentId number knownTail =>
      (K.endpoint store endpoint segmentId number knownTail body wakes).map id read
  | .elsewhere => (store, read .otherJson)
  | .refused refusal => (store, refusalAnswer read refusal)

/-- The request of a write: the position goes into the URL, the entry into the body. -/
def sendWrite (store : K.Held) (endpoint : Endpoint) (entry : LogEntry) (knownTail : Nat) :
    K.Held × ClientAnswer :=
  match dumpEntry entry with
  | some json =>
      if Printable knownTail then
        send web store endpoint entry.segmentId entry.position 0 (.write json knownTail) []
          readState
      else (store, .raised .request)
  | none => (store, .raised .request)

/-- A state that Python cannot turn into text or back ends as status 500 (see `respond`). -/
def call (store : K.Held) : TransportCall K.Held → K.Held × ClientAnswer
  | .put entry knownTail => sendWrite web store .putEntry entry knownTail
  | .repair entry knownTail => sendWrite web store .repairEntry entry knownTail
  | .get segmentId position knownTail =>
      if Printable position ∧ Printable knownTail then
        send web store .getEntry segmentId position knownTail .none [] readEntry
      else (store, .raised .request)
  | .seal segmentId knownTail =>
      if Printable knownTail then
        send web store .sealSegment segmentId 0 0 (.knownTail knownTail) [] readState
      else (store, .raised .request)
  | .prefixTrim segmentId trimPosition =>
      if Printable trimPosition then
        send web store .prefixTrimSegment segmentId trimPosition 0 .none [] readState
      else (store, .raised .request)
  | .state segmentId knownTail =>
      if Printable knownTail then
        send web store .getState segmentId 0 knownTail .none [] readState
      else (store, .raised .request)
  | .waitForTail segmentId localTail knownTail wakes =>
      if Printable localTail ∧ Printable knownTail then
        send web store .waitForTail segmentId localTail knownTail .none wakes readState
      else (store, .raised .request)

end HttpLogletTransport

end DelosLab.NativeLoglet
