import DelosLab.NativeLoglet.Protocol

/-!
# NativeLogletClient

`seal`, `prefixTrim` and `checkTail` of the client, and `read_next` of the runtime
around it.
-/

namespace DelosLab.NativeLoglet

open Async Async.Coroutine

/-- The members that answered with a state, and their states. -/
def statesOf (members : List String) (replies : List (Option Response)) :
    List (String × LogServerState) :=
  (members.zip replies).filterMap fun item => (stateOf item.2).map fun state => (item.1, state)

/-- `max(value(state) for _, state in states)`. -/
def maxOf (value : LogServerState → Nat) : List (String × LogServerState) → Nat
  | [] => 0
  | item :: states => max (value item.2) (maxOf value states)

/-- `min(state.trimmed_prefix for state in states)`. -/
def minWatermark : List LogServerState → Nat
  | [] => 0
  | [state] => state.trimmedPrefix
  | state :: states => min state.trimmedPrefix (minWatermark states)

/-! ## Steps that need no segment -/

def observe (tail : Nat) : Co Unit := act (.observeTail tail)

/-- The position that `_wait_for_progress` asks `node` for. -/
def progressTarget (states : List (String × LogServerState)) (observedTail : Nat)
    (node : String) : Nat :=
  match states.lookup node with
  | none => observedTail
  | some state => if state.localTail < observedTail then observedTail else state.localTail + 1

def getEntry (node : String) (position : Nat) : Co (Option LogEntry) := do
  let client ← act .client
  let batch ← act (.send [(node, .get position client.knownTail)])
  wait (.entry batch node)

def repairEntry (node : String) (entry : LogEntry) : Co LogServerState := do
  let client ← act .client
  let batch ← act (.send [(node, .repair entry client.knownTail)])
  wait (.state batch node)

/-- The copies of one position. -/
def collectCopies (position : Nat) : List String → Co (List LogEntry)
  | [] => ret []
  | node :: nodes => do
      let entry ← getEntry node position
      let copies ← collectCopies position nodes
      ret (entry.toList ++ copies)

/-- Give `canonical` to the nodes that lack its position. -/
def spreadCopy (canonical : LogEntry) (position : Nat) : List String → Co Unit
  | [] => ret ()
  | node :: nodes => do
      let entry ← getEntry node position
      match entry with
      | some _ => spreadCopy canonical position nodes
      | none => do
          let _ ← repairEntry node canonical
          spreadCopy canonical position nodes

def repairPosition (nodes : List String) (position : Nat) : Co Unit := do
  let copies ← collectCopies position nodes
  match copies with
  | [] => raise (.tailUnavailable ("missing position " ++ toString position))
  | canonical :: rest => do
      require (∀ copy ∈ rest, copy = canonical)
        (.entryConflict ("conflicting position " ++ toString position))
      spreadCopy canonical position nodes

/-- The positions of `_repair_through`: `count` of them from `position` on. -/
def repairPositions (nodes : List String) (position : Nat) : Nat → Co Unit
  | 0 => ret ()
  | count + 1 => do
      repairPosition nodes position
      repairPositions nodes (position + 1) count

def repairThrough (tail : Nat) (nodes : List String) : Co Unit := do
  let client ← act .client
  repairPositions nodes client.trimmedPrefix (tail - client.trimmedPrefix)

/-- Ask `members` for one position: an entry that one of them holds, or how many
of them answered. -/
def readPosition (position knownTail : Nat) : List String → Nat → Co (Option LogEntry × Nat)
  | [], responses => ret (none, responses)
  | member :: members, responses => do
      let batch ← act (.send [(member, .get position knownTail)])
      let answer ← handle (do let entry ← wait (.entry batch member); ret (some entry))
        fun e => if e = .connection then ret none else raise e
      match answer with
      | none => readPosition position knownTail members responses
      | some (some entry) => ret (some entry, responses + 1)
      | some none => readPosition position knownTail members (responses + 1)

/-! ## The calls of a client -/

namespace Segment

/-- Send `request` to every member and gather the states that come back. -/
def askAll (self : Segment) (request : Request) : Co (List (Option Response)) := do
  let batch ← act (.send (self.toAll request))
  wait (.gather batch self.members)

def «seal» (self : Segment) : Co Unit := do
  let client ← act .client
  let replies ← self.askAll (.seal client.knownTail)
  let states := replies.filterMap stateOf
  observeAll observe states
  require (self.quorum ≤ states.length) (.noQuorum self.segmentId)

def prefixTrim (self : Segment) (trimPosition : Nat) : Co Nat := do
  let replies ← self.askAll (.prefixTrim trimPosition)
  let states := replies.filterMap stateOf
  require (self.quorum ≤ states.length) (.noQuorum self.segmentId)
  let watermark := minWatermark states
  act (.observeTrimmed watermark)
  ret watermark

def readStates (self : Segment) : Co (List (String × LogServerState)) := do
  let client ← act .client
  let replies ← self.askAll (.state client.knownTail)
  let states := statesOf self.members replies
  require (self.quorum ≤ states.length) (.noQuorum self.segmentId)
  observeAll observe (states.map Prod.snd)
  ret states

def waitForProgress (self : Segment) (states : List (String × LogServerState))
    (observedTail : Nat) : Co Unit := do
  let client ← act .client
  let batch ← act (.send (self.members.map fun node =>
    (node, .waitForTail (progressTarget states observedTail node) client.knownTail)))
  let first ← wait (.firstState batch)
  match first with
  | none => raise (.noQuorum self.segmentId)
  | some state => act (.observeTail state.knownTail)

/-- `check_tail`, with the number of turns that its loop gets. -/
def checkTail (self : Segment) : Nat → Co CheckTailResult
  | 0 => do
      let never ← wait .never
      nomatch never
  | turns + 1 => do
      let states ← self.readStates
      act (.observeTrimmed (maxOf LogServerState.trimmedPrefix states))
      let sealedCount := states.countP fun item => item.2.sealed
      if 0 < sealedCount ∧ sealedCount < states.length then do
        self.seal
        self.checkTail turns
      else do
        let tail := maxOf LogServerState.localTail states
        if sealedCount = states.length then do
          repairThrough tail (states.map Prod.fst)
          act (.observeTail tail)
          ret ⟨tail, true⟩
        else do
          let copiesAtTail := states.countP fun item => tail ≤ item.2.localTail
          let client ← act .client
          if tail = 0 ∨ tail ≤ client.knownTail ∨ self.quorum ≤ copiesAtTail then do
            act (.observeTail tail)
            ret ⟨tail, false⟩
          else do
            self.waitForProgress states tail
            self.checkTail turns

/-! ## `read_next` -/

/-- The local node first, then the other members. -/
def readMembers (self : Segment) (localNode : String) : List String :=
  localNode :: self.members.filter fun member => member ≠ localNode

/-- `count` positions from `position` on. -/
def readPositions (self : Segment) (members : List String) (knownTail position : Nat) :
    Nat → Co (Option LogEntry)
  | 0 => ret none
  | count + 1 => do
      let found ← readPosition position knownTail members 0
      match found with
      | (some entry, _) => ret (some entry)
      | (none, responses) => do
          require (responses = members.length)
            (.logletUnavailable ("cannot establish whether " ++ self.segmentId ++ ":" ++
              toString position ++ " is present"))
          self.readPositions members knownTail (position + 1) count

/-- `RemoteNativeLogletRuntime.read_next` of the process `localNode`. -/
def readNext (self : Segment) (localNode : String) (localStart localStop : Nat) :
    Co (Option LogEntry) := do
  let client ← act .client
  let effectiveStart := max localStart client.trimmedPrefix
  if localStop ≤ effectiveStart then ret none
  else do
    let members := self.readMembers localNode
    self.readPositions members client.knownTail effectiveStart (localStop - effectiveStart)

end Segment

end DelosLab.NativeLoglet
