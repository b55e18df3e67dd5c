import DelosLab.Kv.StateMachine

/-!
# The tables of a replica, and SQL statements

A `SQLiteKvStore` has one connection. A statement sees what the connection has written,
committed or not; `COMMIT` makes it durable and `ROLLBACK` drops it. Columns that hold
JSON hold the value that the JSON stands for.
-/

namespace DelosLab.Kv

inductive Error : Type where
  | requestConflict (message : String)
  | syncRequired (message : String)
  | invalidKvPayload (message : String)
  | reconfigurationUnavailable (message : String)
  | chainUnavailable (message : String)
  | logletSealed (message : String)
  | logletUnavailable (message : String)
  | valueError (message : String)
  | runtimeError (message : String)
  | integrityError (message : String)
  | operationalError (message : String)
  | connection
  | cancelled
deriving DecidableEq

/-- A row of `kv_requests`. -/
structure KvRequestRow where
  clientId : String
  requestId : String
  command : KvCommandEnvelope
  result : KvResult
  firstPosition : Nat
deriving DecidableEq

/-- The primary key of a row of `kv_requests`. -/
def KvRequestRow.key (row : KvRequestRow) : String × String := (row.clientId, row.requestId)

/-- A row of `kv_applied_entries`. -/
structure KvAppliedRow where
  position : Nat
  command : KvCommandEnvelope
  result : KvResult
deriving DecidableEq

/-- The rows of the tables in the order of their insertion; `appliedPosition` is the one
row of `kv_progress`. -/
structure Tables where
  items : KvValues
  requests : List KvRequestRow
  appliedEntries : List KvAppliedRow
  appliedPosition : Int

namespace Tables

/-- What `_SCHEMA` creates. -/
def empty : Tables := ⟨∅, [], [], -1⟩

def requestRow (t : Tables) (key : String × String) : Option KvRequestRow :=
  t.requests.find? fun row => row.key = key

def entryRow (t : Tables) (position : Nat) : Option KvAppliedRow :=
  t.appliedEntries.find? fun row => row.position = position

/-- What the table of requests tells about a request. -/
def request (t : Tables) (key : String × String) : Option (KvCommandEnvelope × KvResult) :=
  (t.requestRow key).map fun row => (row.command, row.result)

/-- What the table of applied entries tells about a position. -/
def entryAt (t : Tables) (position : Nat) : Option (KvCommandEnvelope × KvResult) :=
  (t.entryRow position).map fun row => (row.command, row.result)

/-- `INSERT INTO kv_requests`. -/
def insertRequest (t : Tables) (row : KvRequestRow) : Tables × Except Error Unit :=
  match t.requestRow row.key with
  | some _ => (t, .error (.integrityError
      "UNIQUE constraint failed: kv_requests.client_id, kv_requests.request_id"))
  | none => ({ t with requests := t.requests ++ [row] }, .ok ())

/-- `INSERT INTO kv_applied_entries`. -/
def insertEntry (t : Tables) (row : KvAppliedRow) : Tables × Except Error Unit :=
  match t.entryRow row.position with
  | some _ => (t, .error (.integrityError "UNIQUE constraint failed: kv_applied_entries.position"))
  | none => ({ t with appliedEntries := t.appliedEntries ++ [row] }, .ok ())

/-- `executemany`: the rows before one that fails stay inserted. -/
def insertMany {Row : Type} (insert : Tables → Row → Tables × Except Error Unit) :
    Tables → List Row → Tables × Except Error Unit
  | t, [] => (t, .ok ())
  | t, row :: rows =>
      match insert t row with
      | (t', .ok ()) => insertMany insert t' rows
      | (t', .error e) => (t', .error e)

/-- `INSERT INTO kv_items` for each item of a dictionary, into the emptied table. -/
def insertItems (t : Tables) (values : KvValues) : Tables :=
  { t with items := values ∪ t.items }

/-- `UPDATE kv_progress`. -/
def updateProgress (t : Tables) (position : Int) : Tables × Except Error Unit :=
  if position < -1 then
    (t, .error (.integrityError "CHECK constraint failed: applied_position >= -1"))
  else ({ t with appliedPosition := position }, .ok ())

section Lookup

variable {t t' : Tables}

@[simp] theorem request_empty (key : String × String) : empty.request key = none := rfl

@[simp] theorem entryAt_empty (position : Nat) : empty.entryAt position = none := rfl

theorem insertRequest_ok {row : KvRequestRow} (h : t.insertRequest row = (t', .ok ())) :
    t.requestRow row.key = none ∧ t' = { t with requests := t.requests ++ [row] } := by
  unfold insertRequest at h
  split at h
  · cases h
  · next hnone =>
      cases h
      exact ⟨hnone, rfl⟩

theorem insertEntry_ok {row : KvAppliedRow} (h : t.insertEntry row = (t', .ok ())) :
    t.entryRow row.position = none ∧
      t' = { t with appliedEntries := t.appliedEntries ++ [row] } := by
  unfold insertEntry at h
  split at h
  · cases h
  · next hnone =>
      cases h
      exact ⟨hnone, rfl⟩

/-- A table of requests with one more row. -/
theorem requestRow_append (row : KvRequestRow) (key : String × String) :
    { t with requests := t.requests ++ [row] }.requestRow key =
      (t.requestRow key).or (if row.key = key then some row else none) := by
  by_cases h : row.key = key
  · simp [requestRow, h]
  · simp [requestRow, h]

theorem entryRow_append (row : KvAppliedRow) (position : Nat) :
    { t with appliedEntries := t.appliedEntries ++ [row] }.entryRow position =
      (t.entryRow position).or (if row.position = position then some row else none) := by
  by_cases h : row.position = position
  · simp [entryRow, h]
  · simp [entryRow, h]

end Lookup

end Tables

/-! ## Statements -/

/-- The tables that hold rows of the application. -/
inductive Table : Type where
  | items
  | requests
  | appliedEntries
deriving DecidableEq

/-- Whether a table has a row. -/
def Tables.occupied (t : Tables) : Table → Bool
  | .items => t.items ≠ ∅
  | .requests => !t.requests.isEmpty
  | .appliedEntries => !t.appliedEntries.isEmpty

/-- The statements of the store; one that inserts rows is an `executemany`. -/
inductive Statement : Type where
  | begin
  | commit
  | rollback
  | selectProgress
  | selectItem (key : String)
  | selectItems
  | selectRequest (clientId requestId : String)
  | selectEntry (position : Int)
  | selectRequests
  | selectEntries
  | selectAny (table : Table)
  | deleteItems
  | insertItems (values : KvValues)
  | deleteRequests
  | deleteEntries
  | insertRequests (rows : List KvRequestRow)
  | insertEntries (rows : List KvAppliedRow)
  | updateProgress (position : Int)

namespace Statement

@[reducible] def Result : Statement → Type
  | .begin => Unit
  | .commit => Unit
  | .rollback => Unit
  | .selectProgress => Int
  | .selectItem _ => Option KvValue
  | .selectItems => KvValues
  | .selectRequest _ _ => Option (KvCommandEnvelope × KvResult)
  | .selectEntry _ => Option (KvCommandEnvelope × KvResult)
  | .selectRequests => List KvRequestRow
  | .selectEntries => List KvAppliedRow
  | .selectAny _ => Bool
  | .deleteItems => Unit
  | .insertItems _ => Unit
  | .deleteRequests => Unit
  | .deleteEntries => Unit
  | .insertRequests _ => Unit
  | .insertEntries _ => Unit
  | .updateProgress _ => Unit

end Statement

/-- `ORDER BY client_id, request_id`. -/
def requestLE (a b : KvRequestRow) : Bool :=
  decide (a.clientId < b.clientId) || (decide (a.clientId = b.clientId) &&
    !decide (b.requestId < a.requestId))

/-- `ORDER BY position`. -/
def entryLE (a b : KvAppliedRow) : Bool := decide (a.position ≤ b.position)

/-- The connection of a store; `rewriting` says that the open transaction has written to
`kv_items`, and no statement reads it. -/
structure Connection where
  committed : Tables
  working : Tables
  inTransaction : Bool
  rewriting : Bool

namespace Connection

/-- A store that has just been opened. -/
def opened (tables : Tables) : Connection := ⟨tables, tables, false, false⟩

def write (c : Connection) (outcome : Tables × Except Error Unit) :
    Connection × Except Error Unit :=
  ({ c with working := outcome.1 }, outcome.2)

/-- One statement; a statement inside a transaction sees and changes the working tables. -/
def execute (c : Connection) : (s : Statement) → Connection × Except Error s.Result
  | .begin =>
      if c.inTransaction then
        (c, .error (.operationalError "cannot start a transaction within a transaction"))
      else ({ c with inTransaction := true }, .ok ())
  | .commit => (⟨c.working, c.working, false, false⟩, .ok ())
  | .rollback => (⟨c.committed, c.committed, false, false⟩, .ok ())
  | .selectProgress => (c, .ok c.working.appliedPosition)
  | .selectItem key => (c, .ok (c.working.items.lookup key))
  | .selectItems => (c, .ok c.working.items)
  | .selectRequest clientId requestId => (c, .ok (c.working.request (clientId, requestId)))
  | .selectEntry position =>
      (c, .ok (if 0 ≤ position then c.working.entryAt position.toNat else none))
  | .selectRequests => (c, .ok (c.working.requests.mergeSort requestLE))
  | .selectEntries => (c, .ok (c.working.appliedEntries.mergeSort entryLE))
  | .selectAny table => (c, .ok (c.working.occupied table))
  | .deleteItems =>
      ({ c with working := { c.working with items := ∅ }, rewriting := true }, .ok ())
  | .insertItems values =>
      ({ c with working := c.working.insertItems values, rewriting := true }, .ok ())
  | .deleteRequests => ({ c with working := { c.working with requests := [] } }, .ok ())
  | .deleteEntries => ({ c with working := { c.working with appliedEntries := [] } }, .ok ())
  | .insertRequests rows => c.write (c.working.insertMany Tables.insertRequest rows)
  | .insertEntries rows => c.write (c.working.insertMany Tables.insertEntry rows)
  | .updateProgress position => c.write (c.working.updateProgress position)

/-- Only a commit changes what is committed. -/
theorem execute_committed (k : Connection) (s : Statement) :
    (k.execute s).1.committed = k.committed ∨ s = .commit := by
  cases s with
  | commit => exact .inr rfl
  | begin =>
      left
      unfold execute
      split <;> rfl
  | _ => exact .inl rfl

end Connection

end DelosLab.Kv
