import DelosLab.NativeLoglet.Store
import Mathlib.Data.List.Basic

/-!
# MemoryLogletStore, all segments together

The dictionaries of the store. What an operation does is done to the rows of one segment,
which are a `LogletStore`, and the rows of every other segment stay as they are.
-/

namespace DelosLab.NativeLoglet

/-- The key of an entry is its segment and its position. -/
structure MemoryStore where
  entries : List LogEntry
  sealed : List String
  trimmedPrefixes : String → Option Nat
  knownTails : String → Option Nat

namespace MemoryStore

open LogletStore

def empty : MemoryStore := ⟨[], [], fun _ => none, fun _ => none⟩

/-- `self._entries.get((segment_id, position))`. -/
def entry (self : MemoryStore) (segmentId : String) (position : Nat) : Option LogEntry :=
  self.entries.find? fun e => e.segmentId = segmentId ∧ e.position = position

def observeKnownTail (self : MemoryStore) (segmentId : String) (knownTail : Nat) : MemoryStore :=
  let observed := max ((self.knownTails segmentId).getD 0) knownTail
  { self with knownTails := Function.update self.knownTails segmentId (some observed) }

/-- `self._entries[key] = entry`, for a key that is not there. -/
def insert (self : MemoryStore) (entry : LogEntry) : MemoryStore :=
  { self with entries := self.entries ++ [entry] }

/-- `_write`; an entry that is there is written once more. -/
def write (self : MemoryStore) (entry : LogEntry) : MemoryStore × Except Error Unit :=
  if entry.position < (self.trimmedPrefixes entry.segmentId).getD 0 then
    (self, .error (trimmedAt entry))
  else
    match self.entry entry.segmentId entry.position with
    | some existing =>
        if existing ≠ entry then (self, .error (conflictAt entry)) else (self, .ok ())
    | none => (self.insert entry, .ok ())

def put (self : MemoryStore) (entry : LogEntry) (knownTail : Nat) :
    MemoryStore × Except Error Unit :=
  let self := self.observeKnownTail entry.segmentId knownTail
  if self.sealed.contains entry.segmentId then (self, .error (.segmentSealed entry.segmentId))
  else
    match self.entry entry.segmentId entry.position with
    | some existing =>
        if existing ≠ entry then (self, .error (conflictAt entry)) else (self, .ok ())
    | none =>
        if 0 < entry.position && (self.entry entry.segmentId (entry.position - 1)).isNone &&
            (self.knownTails entry.segmentId).getD 0 ≤ entry.position - 1 then
          (self, .error (predecessorOf entry))
        else self.write entry

def repair (self : MemoryStore) (entry : LogEntry) (knownTail : Nat) :
    MemoryStore × Except Error Unit :=
  (self.observeKnownTail entry.segmentId knownTail).write entry

def get (self : MemoryStore) (segmentId : String) (position knownTail : Nat) :
    MemoryStore × Option LogEntry :=
  (self.observeKnownTail segmentId knownTail, self.entry segmentId position)

def prefixTrim (self : MemoryStore) (segmentId : String) (trimPosition : Int) :
    MemoryStore × Except Error Nat :=
  if trimPosition < 0 then
    (self, .error (.valueError "prefixTrim requires a non-negative position"))
  else
    let watermark := max ((self.trimmedPrefixes segmentId).getD 0) trimPosition.toNat
    ({ self with
      trimmedPrefixes := Function.update self.trimmedPrefixes segmentId (some watermark)
      entries := self.entries.filter fun e => e.segmentId ≠ segmentId ∨ watermark ≤ e.position },
      .ok watermark)

/-- The method `seal`. -/
def sealSegment (self : MemoryStore) (segmentId : String) (knownTail : Nat) : MemoryStore :=
  let self := self.observeKnownTail segmentId knownTail
  { self with sealed := segmentId :: self.sealed }

def state (self : MemoryStore) (segmentId : String) (knownTail : Nat) :
    MemoryStore × LogServerState :=
  let self := self.observeKnownTail segmentId knownTail
  let positions := (self.entries.filter fun e => e.segmentId = segmentId).map LogEntry.position
  let trimmed := (self.trimmedPrefixes segmentId).getD 0
  (self,
    { segmentId := segmentId
      localTail := max (positions.max?.elim 0 (· + 1)) trimmed
      trimmedPrefix := trimmed
      knownTail := (self.knownTails segmentId).getD 0
      sealed := self.sealed.contains segmentId })

/-! ## The rows of one segment -/

def segment (self : MemoryStore) (segmentId : String) : LogletStore where
  segmentId := segmentId
  entries := self.entries.filter fun e => e.segmentId = segmentId
  sealed := self.sealed.contains segmentId
  trimmedPrefix := (self.trimmedPrefixes segmentId).getD 0
  knownTail := (self.knownTails segmentId).getD 0

variable {self : MemoryStore}

theorem entry_eq (segmentId : String) (position : Nat) :
    self.entry segmentId position = (self.segment segmentId).entryAt position := by
  rw [entry, LogletStore.entryAt, segment, List.find?_filter]
  congr
  funext e
  simp [Bool.decide_and]

/-- A change of one segment's rows. -/
theorem segment_eq_update {self' : MemoryStore} {segmentId : String} {s : LogletStore}
    (hown : self'.segment segmentId = s)
    (hothers : ∀ id, id ≠ segmentId → self'.segment id = self.segment id) :
    self'.segment = Function.update self.segment segmentId s := by
  funext id
  by_cases h : id = segmentId
  · rw [h, hown, Function.update_self]
  · rw [hothers id h, Function.update_of_ne h]

theorem segment_observeKnownTail (segmentId : String) (knownTail : Nat) :
    (self.observeKnownTail segmentId knownTail).segment =
      Function.update self.segment segmentId
        ((self.segment segmentId).observeKnownTail knownTail) := by
  refine segment_eq_update ?_ fun id h => ?_
  · simp [segment, observeKnownTail, LogletStore.observeKnownTail]
  · simp [segment, observeKnownTail, h]

theorem segment_insert (entry : LogEntry) :
    (self.insert entry).segment =
      Function.update self.segment entry.segmentId
        ((self.segment entry.segmentId).insert entry) := by
  refine segment_eq_update ?_ fun id h => ?_
  · simp [segment, insert, LogletStore.insert, List.filter_append]
  · simp [segment, insert, List.filter_append, Ne.symm h]

theorem segment_write (entry : LogEntry) :
    (self.write entry).1.segment = Function.update self.segment entry.segmentId
        (MemoryLogletStore.write (self.segment entry.segmentId) entry).1 ∧
      (self.write entry).2 =
        (MemoryLogletStore.write (self.segment entry.segmentId) entry).2 := by
  have hkept : self.segment = Function.update self.segment entry.segmentId
      (self.segment entry.segmentId) := (Function.update_eq_self _ _).symm
  rw [write, MemoryLogletStore.write, entry_eq]
  change (if entry.position < (self.segment entry.segmentId).trimmedPrefix then _ else _ :
      MemoryStore × Except Error Unit).1.segment = _ ∧
    (if entry.position < (self.segment entry.segmentId).trimmedPrefix then _ else _ :
      MemoryStore × Except Error Unit).2 = _
  split
  · exact ⟨hkept, rfl⟩
  · cases (self.segment entry.segmentId).entryAt entry.position with
    | none => exact ⟨segment_insert entry, rfl⟩
    | some existing =>
        simp only
        split
        · exact ⟨hkept, rfl⟩
        · exact ⟨hkept, rfl⟩

/-- A write after the store has observed a known tail. -/
theorem segment_write_observed (entry : LogEntry) (knownTail : Nat) :
    ((self.observeKnownTail entry.segmentId knownTail).write entry).1.segment =
        Function.update self.segment entry.segmentId (MemoryLogletStore.write
          ((self.segment entry.segmentId).observeKnownTail knownTail) entry).1 ∧
      ((self.observeKnownTail entry.segmentId knownTail).write entry).2 =
        (MemoryLogletStore.write
          ((self.segment entry.segmentId).observeKnownTail knownTail) entry).2 := by
  have hwrite : ((self.observeKnownTail entry.segmentId knownTail).write entry).1.segment = _ ∧
      ((self.observeKnownTail entry.segmentId knownTail).write entry).2 = _ :=
    segment_write entry
  obtain ⟨hrows, hresult⟩ := hwrite
  have hown : (self.observeKnownTail entry.segmentId knownTail).segment entry.segmentId =
      (self.segment entry.segmentId).observeKnownTail knownTail := by
    rw [segment_observeKnownTail, Function.update_self]
  rw [hown] at hrows hresult
  rw [segment_observeKnownTail, Function.update_idem] at hrows
  exact ⟨hrows, hresult⟩

theorem segment_repair (entry : LogEntry) (knownTail : Nat) :
    (self.repair entry knownTail).1.segment = Function.update self.segment entry.segmentId
        (MemoryLogletStore.repair (self.segment entry.segmentId) entry knownTail).1 ∧
      (self.repair entry knownTail).2 =
        (MemoryLogletStore.repair (self.segment entry.segmentId) entry knownTail).2 :=
  segment_write_observed entry knownTail

theorem segment_put (entry : LogEntry) (knownTail : Nat) :
    (self.put entry knownTail).1.segment = Function.update self.segment entry.segmentId
        (MemoryLogletStore.put (self.segment entry.segmentId) entry knownTail).1 ∧
      (self.put entry knownTail).2 =
        (MemoryLogletStore.put (self.segment entry.segmentId) entry knownTail).2 := by
  have hrows : (self.observeKnownTail entry.segmentId knownTail).segment = _ :=
    segment_observeKnownTail entry.segmentId knownTail
  have hown : (self.observeKnownTail entry.segmentId knownTail).segment entry.segmentId =
      (self.segment entry.segmentId).observeKnownTail knownTail := by
    rw [hrows, Function.update_self]
  have hwrite : ((self.observeKnownTail entry.segmentId knownTail).write entry).1.segment = _ ∧
      ((self.observeKnownTail entry.segmentId knownTail).write entry).2 = _ :=
    segment_write_observed entry knownTail
  rw [put, MemoryLogletStore.put, entry_eq, entry_eq, hown]
  have hsealed : (self.observeKnownTail entry.segmentId knownTail).sealed.contains
      entry.segmentId = ((self.segment entry.segmentId).observeKnownTail knownTail).sealed := rfl
  have hknown : ((self.observeKnownTail entry.segmentId knownTail).knownTails
      entry.segmentId).getD 0 =
        ((self.segment entry.segmentId).observeKnownTail knownTail).knownTail := by
    rw [← hown]
    rfl
  simp only [hsealed, hknown]
  split
  · exact ⟨hrows, rfl⟩
  · cases ((self.segment entry.segmentId).observeKnownTail knownTail).entryAt entry.position with
    | some existing =>
        simp only
        split
        · exact ⟨hrows, rfl⟩
        · exact ⟨hrows, rfl⟩
    | none =>
        by_cases hlacks : ((self.segment entry.segmentId).observeKnownTail
            knownTail).lacksPredecessor entry = true
        · simp only [lacksPredecessor] at hlacks ⊢
          simp only [hlacks, if_true]
          exact ⟨hrows, trivial⟩
        · simp only [lacksPredecessor] at hlacks ⊢
          simp only [hlacks]
          exact hwrite

theorem filter_trim_own (entries : List LogEntry) (segmentId : String) (watermark : Nat) :
    (entries.filter fun e => e.segmentId ≠ segmentId ∨ watermark ≤ e.position).filter
        (fun e => e.segmentId = segmentId) =
      (entries.filter fun e => e.segmentId = segmentId).filter
        fun e => watermark ≤ e.position := by
  rw [List.filter_filter, List.filter_filter]
  refine List.filter_congr fun e _ => ?_
  by_cases h : e.segmentId = segmentId
  · simp [h]
  · simp [h]

theorem filter_trim_other {segmentId id : String} (hid : id ≠ segmentId)
    (entries : List LogEntry) (watermark : Nat) :
    (entries.filter fun e => e.segmentId ≠ segmentId ∨ watermark ≤ e.position).filter
        (fun e => e.segmentId = id) =
      entries.filter fun e => e.segmentId = id := by
  rw [List.filter_filter]
  refine List.filter_congr fun e _ => ?_
  by_cases h : e.segmentId = id
  · simp [h, hid]
  · simp [h]

theorem segment_prefixTrim (segmentId : String) (trimPosition : Nat) :
    (self.prefixTrim segmentId trimPosition).1.segment = Function.update self.segment segmentId
        ((self.segment segmentId).prefixTrim trimPosition).1 ∧
      (self.prefixTrim segmentId trimPosition).2 =
        .ok ((self.segment segmentId).prefixTrim trimPosition).2 := by
  rw [prefixTrim, if_neg (Int.not_lt.mpr (Int.natCast_nonneg trimPosition)), Int.toNat_natCast]
  refine ⟨segment_eq_update ?_ fun id h => ?_, rfl⟩
  · simp only [segment, LogletStore.prefixTrim, Function.update_self, Option.getD_some,
      filter_trim_own]
    rfl
  · simp only [segment, Function.update_of_ne h, filter_trim_other h]

theorem segment_sealSegment (segmentId : String) (knownTail : Nat) :
    (self.sealSegment segmentId knownTail).segment = Function.update self.segment segmentId
      ((self.segment segmentId).seal knownTail) := by
  refine segment_eq_update ?_ fun id h => ?_
  · simp [segment, sealSegment, observeKnownTail, LogletStore.seal,
      LogletStore.observeKnownTail]
  · simp [segment, sealSegment, observeKnownTail, h]

/-- The reported state is the state of the rows. -/
theorem state_eq (segmentId : String) (knownTail : Nat) :
    (self.state segmentId knownTail).2 =
      ((self.segment segmentId).state knownTail).2 := by
  simp only [state, ← entriesTail_eq_max]
  simp [LogletStore.state, snapshot, localTail, segment, observeKnownTail,
    LogletStore.observeKnownTail]

end MemoryStore

end DelosLab.NativeLoglet
