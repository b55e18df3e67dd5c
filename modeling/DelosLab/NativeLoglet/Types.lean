import DelosLab.Common.Membership
import DelosLab.VirtualLog.Types

/-!
# Entries, states and errors of a NativeLoglet

Everything here is about one segment: its entries, the rows that the LogServers
hold for it, and its sequencer.
-/

namespace DelosLab.NativeLoglet

open VirtualLog (Bytes)

structure LogEntry where
  segmentId : String
  position : Nat
  commandId : String
  payload : Bytes
deriving DecidableEq

structure LogServerState where
  segmentId : String
  localTail : Nat
  trimmedPrefix : Nat
  knownTail : Nat
  sealed : Bool
deriving DecidableEq

structure AppendResult where
  position : Nat
  knownTail : Nat
deriving DecidableEq

structure CheckTailResult where
  tail : Nat
  sealed : Bool
deriving DecidableEq

/-- What `NativeLogletConfiguration` accepts. -/
@[ext] structure NativeLogletConfiguration where
  storageMembers : FixedMembers
  sequencerNode : String
  sequencerIncarnation : String
  named : sequencerNode ≠ ""
  incarnated : sequencerIncarnation ≠ ""
  member : sequencerNode ∈ storageMembers.members

inductive Error : Type where
  | segmentSealed (segmentId : String)
  | entryConflict (message : String)
  | predecessorUnavailable (message : String)
  | positionTrimmed (message : String)
  | noQuorum (segmentId : String)
  | tailUnavailable (message : String)
  | notSequencer (node : String)
  | incarnationMismatch (incarnation : String)
  | logletUnavailable (message : String)
  | runtimeError (message : String)
  | valueError (message : String)
  | connection   -- the call got no answer
  | cancelled
deriving DecidableEq

/-- How a position of a segment is shown in an error text, for an identifier in which Python's
`repr` has nothing to escape and no quote to change. -/
def key (segmentId : String) (position : Nat) : String :=
  "('" ++ segmentId ++ "', " ++ toString position ++ ")"

end DelosLab.NativeLoglet
