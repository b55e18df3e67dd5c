import DelosLab.Replication.ExactlyOnce
import DelosLab.VirtualLog.Types
import Mathlib.Data.Finmap

/-!
# The replicated key-value state machine

Commands, their results, and what they do to the values. A command is identified by
its client and its request.
-/

namespace DelosLab.Kv

open VirtualLog (Bytes)

/-- A string field with `min_length=1`. -/
abbrev NonEmptyStr : Type := { s : String // s ≠ "" }

inductive KvValue : Type where
  | str (value : String)
  | int (value : Int)
deriving DecidableEq

inductive KvOperation : Type where
  | put (key : NonEmptyStr) (value : KvValue)
  | delete (key : NonEmptyStr)
  | compareAndSet (key : NonEmptyStr) (expected : Option KvValue) (value : KvValue)
  | increment (key : NonEmptyStr) (delta : Int)
deriving DecidableEq

structure KvCommandEnvelope where
  clientId : NonEmptyStr
  requestId : NonEmptyStr
  operation : KvOperation
deriving DecidableEq

/-- What identifies a request. -/
def KvCommandEnvelope.identity (c : KvCommandEnvelope) : String × String :=
  (c.clientId.val, c.requestId.val)

inductive KvCode : Type where
  | applied
  | notFound
  | casMismatch
  | typeMismatch
deriving DecidableEq

structure KvResult where
  code : KvCode
  value : Option KvValue
deriving DecidableEq

/-! ## `command_id` -/

def hexDigit (n : Nat) : Char :=
  if n < 10 then Char.ofNat (48 + n) else Char.ofNat (55 + n)

/-- The bytes that `quote(s, safe='')` leaves alone. -/
def isUnreserved (b : UInt8) : Bool :=
  let c := Char.ofNat b.toNat
  c.isAlphanum || c == '_' || c == '.' || c == '-' || c == '~'

def quoteByte (b : UInt8) : List Char :=
  if isUnreserved b then [Char.ofNat b.toNat]
  else ['%', hexDigit (b.toNat / 16), hexDigit (b.toNat % 16)]

/-- `quote(s, safe='')`. -/
def quote (s : String) : String :=
  String.ofList (s.toList.flatMap fun c => (String.utf8EncodeChar c).flatMap quoteByte)

def KvCommandEnvelope.commandId (c : KvCommandEnvelope) : String :=
  quote c.clientId.val ++ "/" ++ quote c.requestId.val

/-! ## `KvStateMachine` -/

/-- The dictionary of values. -/
abbrev KvValues : Type := Finmap fun _ : String => KvValue

namespace KvStateMachine

def put (values : KvValues) (key : NonEmptyStr) (value : KvValue) : KvValues :=
  values.insert key.val value

def apply (values : KvValues) : KvOperation → KvValues × KvResult
  | .put key value => (put values key value, ⟨.applied, some value⟩)
  | .delete key =>
      match values.lookup key.val with
      | none => (values, ⟨.notFound, none⟩)
      | some value => (values.erase key.val, ⟨.applied, some value⟩)
  | .compareAndSet key expected value =>
      if values.lookup key.val ≠ expected then (values, ⟨.casMismatch, values.lookup key.val⟩)
      else (put values key value, ⟨.applied, some value⟩)
  | .increment key delta =>
      match values.lookup key.val with
      | some (.str current) => (values, ⟨.typeMismatch, some (.str current)⟩)
      | some (.int current) =>
          let value := KvValue.int (current + delta)
          (put values key value, ⟨.applied, some value⟩)
      | none =>
          let value := KvValue.int delta
          (put values key value, ⟨.applied, some value⟩)

end KvStateMachine

/-- The state machine whose commands are executed exactly once. -/
def kvMachine : Replication.Machine KvValues KvCommandEnvelope (String × String) KvResult where
  init := ∅
  step := fun values command => KvStateMachine.apply values command.operation
  identity := KvCommandEnvelope.identity

end DelosLab.Kv
