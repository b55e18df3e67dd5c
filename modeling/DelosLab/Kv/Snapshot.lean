import DelosLab.Kv.Service
import Mathlib.Data.List.Dedup
import Mathlib.Data.List.Sort

/-!
# Application snapshots

A snapshot carries what a store has made of the log through one position: the values, the
requests with their results, and the applied entries. The digest of the data is a parameter:
it stands for the SHA-256 of the canonical JSON.
-/

namespace DelosLab.Kv

open Async Async.Coroutine

structure SnapshotRequest where
  clientId : NonEmptyStr
  requestId : NonEmptyStr
  command : KvCommandEnvelope
  result : KvResult
  firstPosition : Nat
deriving DecidableEq

structure SnapshotAppliedEntry where
  position : Nat
  command : KvCommandEnvelope
  result : KvResult
deriving DecidableEq

/-- A row as the snapshot has it; `none` is the `ValidationError`. -/
def SnapshotRequest.ofRow (row : KvRequestRow) : Option SnapshotRequest :=
  if h : row.clientId ≠ "" ∧ row.requestId ≠ "" then
    some ⟨⟨row.clientId, h.1⟩, ⟨row.requestId, h.2⟩, row.command, row.result, row.firstPosition⟩
  else none

def SnapshotRequest.row (request : SnapshotRequest) : KvRequestRow :=
  ⟨request.clientId.val, request.requestId.val, request.command, request.result,
    request.firstPosition⟩

def SnapshotAppliedEntry.ofRow (row : KvAppliedRow) : SnapshotAppliedEntry :=
  ⟨row.position, row.command, row.result⟩

def SnapshotAppliedEntry.row (entry : SnapshotAppliedEntry) : KvAppliedRow :=
  ⟨entry.position, entry.command, entry.result⟩

/-- `KvSnapshotData.validate_progress`. -/
def validateProgress (appliedPosition : Int) (values : KvValues) (requests : List SnapshotRequest)
    (appliedEntries : List SnapshotAppliedEntry) : Except Error Unit :=
  let positions := appliedEntries.map SnapshotAppliedEntry.position
  if positions ≠ positions.dedup.insertionSort (· ≤ ·) then
    .error (.valueError "snapshot applied positions must be unique and ordered")
  else if appliedPosition = -1 then
    if values ≠ ∅ ∨ requests ≠ [] ∨ appliedEntries ≠ [] then
      .error (.valueError "an unapplied snapshot must be empty")
    else .ok ()
  else if positions.getLast?.map Int.ofNat ≠ some appliedPosition then
    .error (.valueError "snapshot must contain the result at its applied position")
  else if requests.any fun request => decide (appliedPosition < request.firstPosition) then
    .error (.valueError "snapshot request position exceeds applied progress")
  else .ok ()

/-- Application state at one position of the log. -/
structure KvSnapshotData where
  appliedPosition : Int
  values : KvValues
  requests : List SnapshotRequest
  appliedEntries : List SnapshotAppliedEntry
  low : -1 ≤ appliedPosition
  progress : validateProgress appliedPosition values requests appliedEntries = .ok ()

/-- `KvSnapshotData(...)`. -/
def KvSnapshotData.create (appliedPosition : Int) (values : KvValues)
    (requests : List SnapshotRequest) (appliedEntries : List SnapshotAppliedEntry) :
    Except Error KvSnapshotData :=
  if hlow : -1 ≤ appliedPosition then
    match hprogress : validateProgress appliedPosition values requests appliedEntries with
    | .ok () => .ok ⟨appliedPosition, values, requests, appliedEntries, hlow, hprogress⟩
    | .error e => .error e
  else .error (.valueError "Input should be greater than or equal to -1")

/-- What the pattern of `sha256` accepts. -/
def IsSha256 (s : String) : Prop :=
  s.length = 64 ∧ ∀ c ∈ s.toList, c ∈ "0123456789abcdef".toList

instance (s : String) : Decidable (IsSha256 s) :=
  @instDecidableAnd _ _ (instDecidableEqNat _ _) (List.decidableBAll _ s.toList)

variable (digest : KvSnapshotData → String)

/-- The transfer envelope. -/
structure KvSnapshot where
  data : KvSnapshotData
  sha256 : String
  pattern : IsSha256 sha256
  checksum : sha256 = digest data

namespace KvSnapshot

/-- `KvSnapshot(data=..., sha256=...)`. -/
def validate (data : KvSnapshotData) (sha256 : String) : Except Error (KvSnapshot digest) :=
  if hpattern : IsSha256 sha256 then
    if hchecksum : sha256 = digest data then .ok ⟨data, sha256, hpattern, hchecksum⟩
    else .error (.valueError "KV snapshot checksum mismatch")
  else .error (.valueError "String should match pattern")

def create (data : KvSnapshotData) : Except Error (KvSnapshot digest) :=
  validate digest data (digest data)

end KvSnapshot

namespace SQLiteKvStore

/-! ## `export_snapshot` -/

/-- What the transaction of `export_snapshot` fetches. -/
structure Export where
  values : KvValues
  appliedPosition : Int
  requestRows : List KvRequestRow
  appliedRows : List KvAppliedRow

def exportRows : Co Export :=
  withLock .store do
    execute .begin
    orRollback do
      let values ← snapshot
      let position ← appliedPosition
      let requestRows ← execute .selectRequests
      let appliedRows ← execute .selectEntries
      execute .commit
      ret ⟨values, position, requestRows, appliedRows⟩

def exportSnapshot : Co (KvSnapshot digest) := do
  let rows ← exportRows
  let requests ← orRaise (S := signature) (rows.requestRows.mapM SnapshotRequest.ofRow)
    (.valueError "String should have at least 1 character")
  let data ← ofExcept (S := signature) (KvSnapshotData.create rows.appliedPosition rows.values
    requests (rows.appliedRows.map SnapshotAppliedEntry.ofRow))
  ofExcept (S := signature) (KvSnapshot.create digest data)

/-! ## `_restore_snapshot` -/

/-- `for table in tables: if SELECT 1 FROM table LIMIT 1: return False`. -/
def pristineTables : List Table → Co Bool
  | [] => ret true
  | table :: tables => do
      let found ← execute (.selectAny table)
      if found then ret false else pristineTables tables

def isPristine : Co Bool := do
  let position ← appliedPosition
  if position ≠ -1 then ret false
  else pristineTables [.items, .requests, .appliedEntries]

def requirePristine : Co Unit := do
  let pristine ← isPristine
  require (pristine = true)
    (.runtimeError "KV snapshot installation requires a pristine store")

def deleteTable : Table → Co Unit
  | .items => execute .deleteItems
  | .requests => execute .deleteRequests
  | .appliedEntries => execute .deleteEntries

def deleteTables : List Table → Co Unit
  | [] => ret ()
  | table :: tables => do
      deleteTable table
      deleteTables tables

/-- The statements that replace what the tables hold. -/
def restoreRows (data : KvSnapshotData) : Co Unit := do
  deleteTables [.items, .requests, .appliedEntries]
  execute (.insertItems data.values)
  execute (.insertRequests (data.requests.map SnapshotRequest.row))
  execute (.insertEntries (data.appliedEntries.map SnapshotAppliedEntry.row))
  execute (.updateProgress data.appliedPosition)
  execute .commit

variable {digest} in
def restoreSnapshot (snapshot : KvSnapshot digest) (pristine : Bool) : Co Unit := do
  let snapshot ← ofExcept (S := signature)
    (KvSnapshot.validate digest snapshot.data snapshot.sha256)
  withLock .store do
    execute .begin
    orRollback do
      if pristine then requirePristine else ret ()
      restoreRows snapshot.data

variable {digest} in
def installSnapshot (snapshot : KvSnapshot digest) : Co Unit := restoreSnapshot snapshot true

end SQLiteKvStore

end DelosLab.Kv
