import DelosLab.NativeLoglet.SqliteStore
import DelosLab.NativeLoglet.StoreLaws
import Mathlib.Data.List.Dedup
import Mathlib.Data.List.Sort
import Mathlib.Data.String.Basic

/-!
# The two stores, call by call

A MemoryLogletStore and a SQLiteLogletStore that have been asked for the same things. As long
as they answer alike they hold the same rows, so what they answer to the next call is told by
the rows of its segment, and where they part is known exactly.
-/

namespace DelosLab.NativeLoglet

open LogletStore

/-- The calls of a `LogletStore`. -/
inductive StoreCall : Type where
  | put (entry : LogEntry) (knownTail : Int)
  | repair (entry : LogEntry) (knownTail : Int)
  | get (segmentId : String) (position knownTail : Int)
  | entries (segmentId : String) (start limit : Int)
  | prefixTrim (segmentId : String) (trimPosition : Int)
  | seal (segmentId : String) (knownTail : Int)
  | state (segmentId : String) (knownTail : Int)
  | segmentStates

inductive StoreValue : Type where
  | done
  | entry (value : Option LogEntry)
  | entries (value : List LogEntry)
  | watermark (value : Nat)
  | state (value : LogServerState)
  | states (value : List LogServerState)
deriving DecidableEq

/-- What a call returns or raises. -/
abbrev StoreAnswer : Type := Except StoreFailure StoreValue

/-- The class of an exception. -/
inductive ErrorClass : Type where
  | segmentSealed
  | entryConflict
  | predecessorUnavailable
  | positionTrimmed
  | valueError
  | integrityError
  | overflowError
  | other
deriving DecidableEq

def StoreFailure.errorClass : StoreFailure → ErrorClass
  | .loglet (.segmentSealed _) => .segmentSealed
  | .loglet (.entryConflict _) => .entryConflict
  | .loglet (.predecessorUnavailable _) => .predecessorUnavailable
  | .loglet (.positionTrimmed _) => .positionTrimmed
  | .loglet (.valueError _) => .valueError
  | .loglet _ => .other
  | .integrityError => .integrityError
  | .overflowError => .overflowError

/-- The same value, or an exception of the same class. -/
def SameAnswer (answer answer' : StoreAnswer) : Prop :=
  answer.mapError StoreFailure.errorClass = answer'.mapError StoreFailure.errorClass

instance (answer answer' : StoreAnswer) : Decidable (SameAnswer answer answer') :=
  inferInstanceAs (Decidable (_ = _))

/-! ## `MemoryLogletStore` -/

namespace MemoryStore

/-- `sorted(...)[:limit]`, where a negative limit counts from the end. -/
def entriesFrom (self : MemoryStore) (segmentId : String) (start limit : Int) : List LogEntry :=
  let rows := (self.entries.filter fun e => e.segmentId = segmentId ∧ start ≤ e.position).mergeSort
    fun e e' => e.position ≤ e'.position
  rows.take (if limit < 0 then (rows.length + limit).toNat else limit.toNat)

/-- No entry has a negative position. -/
def getAt (self : MemoryStore) (segmentId : String) (position : Int) (knownTail : Nat) :
    MemoryStore × Option LogEntry :=
  if position < 0 then (self.observeKnownTail segmentId knownTail, none)
  else self.get segmentId position.toNat knownTail

/-- `tuple([await self.state(segment_id) for segment_id in segment_ids])`. -/
def statesOf (self : MemoryStore) : List String → MemoryStore × List LogServerState
  | [] => (self, [])
  | segmentId :: segmentIds =>
      let reported := self.state segmentId 0
      let rest := reported.1.statesOf segmentIds
      (rest.1, reported.2 :: rest.2)

end MemoryStore

/-- A memory store, and the keys of its `_trimmed_prefixes`. Its errors tell of positions of any
length; where Python prints one of more than 4300 digits it raises `ValueError` instead. -/
structure MemoryDicts where
  store : MemoryStore
  trimmedKeys : List String

namespace MemoryDicts

def empty : MemoryDicts := ⟨.empty, []⟩

/-- `self._sealed | self._trimmed_prefixes.keys() | {segment_id for segment_id, _ in self._entries}`. -/
def segmentIds (self : MemoryDicts) : List String :=
  (self.store.sealed ++ self.trimmedKeys ++ self.store.entries.map LogEntry.segmentId).dedup

/-- A known tail that is negative observes nothing. -/
def call (self : MemoryDicts) : StoreCall → MemoryDicts × StoreAnswer
  | .put entry knownTail =>
      let r := self.store.put entry knownTail.toNat
      ({ self with store := r.1 }, (r.2.mapError .loglet).map fun _ => .done)
  | .repair entry knownTail =>
      let r := self.store.repair entry knownTail.toNat
      ({ self with store := r.1 }, (r.2.mapError .loglet).map fun _ => .done)
  | .get segmentId position knownTail =>
      let r := self.store.getAt segmentId position knownTail.toNat
      ({ self with store := r.1 }, .ok (.entry r.2))
  | .entries segmentId start limit =>
      (self, .ok (.entries (self.store.entriesFrom segmentId start limit)))
  | .prefixTrim segmentId trimPosition =>
      match self.store.prefixTrim segmentId trimPosition with
      | (store, .ok watermark) => (⟨store, segmentId :: self.trimmedKeys⟩, .ok (.watermark watermark))
      | (store, .error e) => ({ self with store := store }, .error (.loglet e))
  | .seal segmentId knownTail =>
      ({ self with store := self.store.sealSegment segmentId knownTail.toNat }, .ok .done)
  | .state segmentId knownTail =>
      let r := self.store.state segmentId knownTail.toNat
      ({ self with store := r.1 }, .ok (.state r.2))
  | .segmentStates =>
      let r := self.store.statesOf (self.segmentIds.mergeSort fun a b => a ≤ b)
      ({ self with store := r.1 }, .ok (.states r.2))

end MemoryDicts

/-! ## `SQLiteLogletStore` -/

/-- A known tail that is negative observes nothing. -/
def SqliteStore.call (self : SqliteStore) : StoreCall → SqliteStore × StoreAnswer
  | .put entry knownTail =>
      let r := self.put entry knownTail.toNat
      (r.1, r.2.map fun _ => .done)
  | .repair entry knownTail =>
      let r := self.repair entry knownTail.toNat
      (r.1, r.2.map fun _ => .done)
  | .get segmentId position knownTail =>
      let r := self.get segmentId position knownTail.toNat
      (r.1, r.2.map .entry)
  | .entries segmentId start limit => (self, (self.entries segmentId start limit).map .entries)
  | .prefixTrim segmentId trimPosition =>
      let r := self.prefixTrim segmentId trimPosition
      (r.1, r.2.map .watermark)
  | .seal segmentId knownTail => (self.sealSegment segmentId knownTail.toNat, .ok .done)
  | .state segmentId knownTail =>
      let r := self.state segmentId knownTail.toNat
      (r.1, .ok (.state r.2))
  | .segmentStates => (self.segmentStates.1, .ok (.states self.segmentStates.2))

/-! ## Where the stores answer alike -/

/-- What both stores say to a put of `entry` into rows that have observed its known tail. -/
def PutAlike (s : LogletStore) (entry : LogEntry) : Prop :=
  s.sealed = true ∨ s.entryAt entry.position ≠ none ∨ Int64 entry.position ∧
    (s.lacksPredecessor entry = true ∧ s.trimmedPrefix ≤ entry.position ∨
      s.lacksPredecessor entry = false ∧
        (entry.position < s.trimmedPrefix ∨ s.positionForCommand entry.commandId = none))

def RepairAlike (s : LogletStore) (entry : LogEntry) : Prop :=
  s.entryAt entry.position ≠ none ∨ Int64 entry.position ∧
    (entry.position < s.trimmedPrefix ∨ s.positionForCommand entry.commandId = none)

instance (s : LogletStore) (entry : LogEntry) : Decidable (PutAlike s entry) :=
  inferInstanceAs (Decidable (_ ∨ _))

instance (s : LogletStore) (entry : LogEntry) : Decidable (RepairAlike s entry) :=
  inferInstanceAs (Decidable (_ ∨ _))

/-- The stores answer `call` alike when the memory store has the rows `rows`. -/
def Alike (rows : String → LogletStore) : StoreCall → Prop
  | .put entry knownTail =>
      PutAlike ((rows entry.segmentId).observeKnownTail knownTail.toNat) entry
  | .repair entry _ => RepairAlike (rows entry.segmentId) entry
  | .get _ position _ => Int64 position
  | .entries segmentId start limit => Int64 start ∧ Int64 limit ∧
      (0 ≤ limit ∨ ∀ e ∈ (rows segmentId).entries, (e.position : Int) < start)
  | .prefixTrim _ trimPosition => trimPosition < 0 ∨ Int64 trimPosition
  | .seal _ _ => True
  | .state _ _ => True
  | .segmentStates => True

/-! ## The rows of one segment -/

/-- What a store has is at or behind the watermark, and SQLite can hold it. -/
structure Held (s : LogletStore) : Prop where
  trimmed : Int64 s.trimmedPrefix
  entries : ∀ e ∈ s.entries, s.trimmedPrefix ≤ e.position ∧ Int64 e.position

section Rows

variable {s : LogletStore} {entry : LogEntry}

/-- The answer to a call that returns nothing. -/
def answered (r : Except StoreFailure Unit) : StoreAnswer := r.map fun _ => .done

theorem write_existing (hs : Held s) {existing : LogEntry}
    (h : s.entryAt entry.position = some existing) (rejectIfSealed requirePredecessor : Bool)
    (hopen : (rejectIfSealed && s.sealed) = false) :
    SqliteStore.writeRows s entry rejectIfSealed requirePredecessor =
      (s, if existing ≠ entry then .error (.loglet (conflictAt entry)) else .ok ()) := by
  obtain ⟨hmem, hpos⟩ := entryAt_some h
  obtain ⟨habove, hfits⟩ := hs.entries existing hmem
  rw [hpos] at habove hfits
  rw [SqliteStore.writeRows, if_neg fun hn => hn.2.2 hfits, SQLiteLogletStore.write, hopen,
    if_neg Bool.false_ne_true, if_neg (Nat.not_lt.mpr habove), h]
  simp only
  split
  · rfl
  · rfl

theorem write_free (h : s.entryAt entry.position = none) (hfits : Int64 entry.position)
    (rejectIfSealed requirePredecessor : Bool) (hopen : (rejectIfSealed && s.sealed) = false)
    (habove : s.trimmedPrefix ≤ entry.position)
    (hlacks : (requirePredecessor && s.lacksPredecessor entry) = false) :
    SqliteStore.writeRows s entry rejectIfSealed requirePredecessor =
      match s.positionForCommand entry.commandId with
      | some commandPosition =>
          (s, .error (.loglet (.entryConflict ("command " ++ entry.commandId ++
            " already exists at " ++ toString commandPosition))))
      | none => (s.insert entry, .ok ()) := by
  rw [SqliteStore.writeRows, if_neg fun hn => hn.2.2 hfits, SQLiteLogletStore.write, hopen,
    if_neg Bool.false_ne_true, if_neg (Nat.not_lt.mpr habove), h]
  simp only [hlacks, if_neg Bool.false_ne_true]
  cases hcommand : s.positionForCommand entry.commandId with
  | none => rfl
  | some commandPosition =>
      have hother : commandPosition ≠ entry.position := by
        obtain ⟨e, he, -, hpos⟩ := positionForCommand_some hcommand
        rw [← hpos]
        exact entryAt_none h e he
      simp only [if_pos hother]
      rfl

/-- The memory store's verdict on a put of an entry whose position is free. -/
theorem memory_put_free {n : Nat} (hopen : (s.observeKnownTail n).sealed = false)
    (h : (s.observeKnownTail n).entryAt entry.position = none) :
    MemoryLogletStore.put s entry n =
      if (s.observeKnownTail n).lacksPredecessor entry then
        (s.observeKnownTail n, .error (predecessorOf entry))
      else MemoryLogletStore.write (s.observeKnownTail n) entry := by
  rw [MemoryLogletStore.put]
  simp only [hopen, h]
  rfl

/-- A write of the memory store, with the errors of both stores. -/
def memoryWrite (r : LogletStore × Except Error Unit) : LogletStore × Except StoreFailure Unit :=
  (r.1, r.2.mapError .loglet)

theorem write_trimmed (h : entry.position < s.trimmedPrefix)
    (rejectIfSealed requirePredecessor : Bool) (hopen : (rejectIfSealed && s.sealed) = false) :
    SqliteStore.writeRows s entry rejectIfSealed requirePredecessor =
      (s, .error (.loglet (trimmedAt entry))) := by
  rw [SqliteStore.writeRows, if_neg fun hn => Nat.not_le.mpr h hn.2.1, SQLiteLogletStore.write,
    hopen, if_neg Bool.false_ne_true, if_pos h]
  rfl

theorem write_overflow (hfits : ¬Int64 entry.position) (habove : s.trimmedPrefix ≤ entry.position)
    (rejectIfSealed requirePredecessor : Bool) (hopen : (rejectIfSealed && s.sealed) = false) :
    SqliteStore.writeRows s entry rejectIfSealed requirePredecessor =
      (s, .error .overflowError) := by
  rw [SqliteStore.writeRows, if_pos ⟨by rw [hopen]; exact Bool.false_ne_true, habove, hfits⟩]

/-- The memory store's verdict on a write of an entry whose position is free. -/
theorem memory_write_free (h : s.entryAt entry.position = none) :
    MemoryLogletStore.write s entry =
      if entry.position < s.trimmedPrefix then (s, .error (trimmedAt entry))
      else (s.insert entry, .ok ()) := by
  rw [MemoryLogletStore.write, h]

/-- A position behind the watermark is one that SQLite can hold. -/
theorem Held.fits (hs : Held s) (h : entry.position < s.trimmedPrefix) : Int64 entry.position := by
  have := hs.trimmed
  unfold Int64 at this ⊢
  omega

/-- The stores compared on a free position, when no predecessor is asked for or none lacks. -/
theorem write_compared (hs : Held s) (h : s.entryAt entry.position = none)
    (rejectIfSealed requirePredecessor : Bool) (hopen : (rejectIfSealed && s.sealed) = false)
    (hlacks : (requirePredecessor && s.lacksPredecessor entry) = false) :
    if Int64 entry.position ∧
        (entry.position < s.trimmedPrefix ∨ s.positionForCommand entry.commandId = none) then
      SqliteStore.writeRows s entry rejectIfSealed requirePredecessor =
        memoryWrite (MemoryLogletStore.write s entry)
    else
      ¬SameAnswer (answered (memoryWrite (MemoryLogletStore.write s entry)).2)
        (answered (SqliteStore.writeRows s entry rejectIfSealed requirePredecessor).2) := by
  rw [memory_write_free h]
  by_cases htrimmed : entry.position < s.trimmedPrefix
  · rw [if_pos ⟨hs.fits htrimmed, .inl htrimmed⟩, if_pos htrimmed,
      write_trimmed htrimmed rejectIfSealed requirePredecessor hopen]
    rfl
  have habove := Nat.not_lt.mp htrimmed
  rw [if_neg htrimmed]
  by_cases hfits : Int64 entry.position
  · rw [write_free h hfits rejectIfSealed requirePredecessor hopen habove hlacks]
    cases hcommand : s.positionForCommand entry.commandId with
    | none =>
        rw [if_pos ⟨hfits, .inr rfl⟩]
        rfl
    | some commandPosition =>
        rw [if_neg (by rintro ⟨-, hlt | hnone⟩; exact htrimmed hlt; cases hnone)]
        exact nofun
  · rw [if_neg fun hn => hfits hn.1, write_overflow hfits habove rejectIfSealed
      requirePredecessor hopen]
    exact nofun

/-- The stores compared on a put: either they do the same to the rows and answer the same, or
they answer with different classes. -/
theorem put_compared (n : Nat) (hs : Held (s.observeKnownTail n)) :
    if PutAlike (s.observeKnownTail n) entry then
      SqliteStore.writeRows (s.observeKnownTail n) entry true true =
        memoryWrite (MemoryLogletStore.put s entry n)
    else
      ¬SameAnswer (answered (memoryWrite (MemoryLogletStore.put s entry n)).2)
        (answered (SqliteStore.writeRows (s.observeKnownTail n) entry true true).2) := by
  by_cases hsealed : (s.observeKnownTail n).sealed = true
  · rw [if_pos (.inl hsealed), MemoryLogletStore.put, SqliteStore.writeRows,
      if_neg (by rw [hsealed]; exact fun hn => hn.1 rfl), SQLiteLogletStore.write]
    simp only [hsealed, Bool.and_self, if_true]
    rfl
  have hopen : (s.observeKnownTail n).sealed = false := Bool.of_not_eq_true hsealed
  have hboth : (true && (s.observeKnownTail n).sealed) = false := by rw [hopen]; rfl
  cases hat : (s.observeKnownTail n).entryAt entry.position with
  | some existing =>
      rw [if_pos (.inr (.inl (by rw [hat]; rintro ⟨⟩))), write_existing hs hat true true hboth,
        MemoryLogletStore.put]
      simp only [hopen, hat, if_neg Bool.false_ne_true]
      split
      · rfl
      · rfl
  | none =>
      rw [memory_put_free hopen hat]
      cases hlacks : (s.observeKnownTail n).lacksPredecessor entry with
      | false =>
          have h := write_compared hs hat true true hboth (by rw [hlacks]; rfl)
          simp only [if_neg Bool.false_ne_true]
          split at h
          · next hc =>
              rw [if_pos (.inr (.inr ⟨hc.1, .inr ⟨hlacks, hc.2⟩⟩))]
              exact h
          · next hc =>
              rw [if_neg]
              · exact h
              · rintro (hn | hn | ⟨hfits, ⟨hn, -⟩ | ⟨-, hn⟩⟩)
                · exact hsealed hn
                · exact hn hat
                · rw [hlacks] at hn
                  cases hn
                · exact hc ⟨hfits, hn⟩
      | true =>
          simp only [if_true]
          by_cases htrimmed : entry.position < (s.observeKnownTail n).trimmedPrefix
          · rw [if_neg, write_trimmed htrimmed true true hboth]
            · rintro ⟨⟩
            · rintro (hn | hn | ⟨-, ⟨-, hn⟩ | ⟨hn, -⟩⟩)
              · exact hsealed hn
              · exact hn hat
              · exact Nat.not_le.mpr htrimmed hn
              · rw [hlacks] at hn
                cases hn
          have habove := Nat.not_lt.mp htrimmed
          by_cases hfits : Int64 entry.position
          · rw [if_pos (.inr (.inr ⟨hfits, .inl ⟨hlacks, habove⟩⟩)), SqliteStore.writeRows,
              if_neg fun hn => hn.2.2 hfits, SQLiteLogletStore.write, hboth,
              if_neg Bool.false_ne_true, if_neg htrimmed, hat]
            simp only [hlacks, Bool.and_self, if_true]
            rfl
          · rw [if_neg, write_overflow hfits habove true true hboth]
            · rintro ⟨⟩
            · rintro (hn | hn | ⟨hn, -⟩)
              · exact hsealed hn
              · exact hn hat
              · exact hfits hn

theorem repair_compared (n : Nat) (hs : Held s) :
    if RepairAlike s entry then
      SqliteStore.writeRows (s.observeKnownTail n) entry false false =
        memoryWrite (MemoryLogletStore.repair s entry n)
    else
      ¬SameAnswer (answered (memoryWrite (MemoryLogletStore.repair s entry n)).2)
        (answered (SqliteStore.writeRows (s.observeKnownTail n) entry false false).2) := by
  have hs' : Held (s.observeKnownTail n) := ⟨hs.trimmed, hs.entries⟩
  cases hat : (s.observeKnownTail n).entryAt entry.position with
  | some existing =>
      have hsome : s.entryAt entry.position ≠ none := by
        rw [show s.entryAt entry.position = some existing from hat]
        exact nofun
      obtain ⟨hmem, hpos⟩ := entryAt_some hat
      have habove := (hs'.entries existing hmem).1
      rw [hpos] at habove
      rw [if_pos (.inl hsome), write_existing hs' hat false false rfl, MemoryLogletStore.repair,
        MemoryLogletStore.write, if_neg (Nat.not_lt.mpr habove), hat]
      simp only
      split
      · rfl
      · rfl
  | none =>
      have hnone : s.entryAt entry.position = none := hat
      have h := write_compared hs' hat false false rfl rfl
      split at h
      · next hc =>
          rw [if_pos (.inr hc)]
          exact h
      · next hc =>
          rw [if_neg]
          · exact h
          · rintro (hn | hn)
            · exact hn hnone
            · exact hc hn

/-- What a write of the memory store leaves: the rows as they are, or an entry in them. -/
inductive Written (s : LogletStore) (entry : LogEntry) : LogletStore → Except Error Unit → Prop
  | refused (e : Error) : Written s entry s (.error e)
  | done {s' : LogletStore} (hsealed : s'.sealed = s.sealed) (hne : s'.entries ≠ [])
      (hheld : Held s → Int64 entry.position → Held s') : Written s entry s' (.ok ())

theorem written_insert (htrim : s.trimmedPrefix ≤ entry.position) :
    Written s entry (s.insert entry) (.ok ()) := by
  refine .done rfl (List.concat_ne_nil _ _) fun hs hfits => ⟨hs.trimmed, fun e he => ?_⟩
  rcases List.mem_append.mp he with hold | hnew
  · exact hs.entries e hold
  · rw [List.mem_singleton.mp hnew]
    exact ⟨htrim, hfits⟩

theorem written_kept (h : entry ∈ s.entries) : Written s entry s (.ok ()) :=
  .done rfl (List.ne_nil_of_mem h) fun hs _ => hs

theorem written_put (s : LogletStore) (entry : LogEntry) (n : Nat) :
    Written (s.observeKnownTail n) entry (MemoryLogletStore.put s entry n).1
      (MemoryLogletStore.put s entry n).2 := by
  have heffect := put_effect .memory s entry n
  change PutEffect _ _ (MemoryLogletStore.put s entry n).1 (MemoryLogletStore.put s entry n).2
    at heffect
  generalize MemoryLogletStore.put s entry n = r at heffect ⊢
  obtain ⟨s', result⟩ := r
  cases heffect with
  | failed e => exact .refused e
  | kept _ h => exact written_kept h
  | added _ htrim => exact written_insert htrim

theorem written_repair (s : LogletStore) (entry : LogEntry) (n : Nat) :
    Written (s.observeKnownTail n) entry (MemoryLogletStore.repair s entry n).1
      (MemoryLogletStore.repair s entry n).2 := by
  have heffect := repair_effect .memory s entry n
  change RepairEffect _ _ (MemoryLogletStore.repair s entry n).1
    (MemoryLogletStore.repair s entry n).2 at heffect
  generalize MemoryLogletStore.repair s entry n = r at heffect ⊢
  obtain ⟨s', result⟩ := r
  cases heffect with
  | trimmed => exact .refused _
  | conflict e => exact .refused e
  | kept h => exact written_kept h
  | added htrim => exact written_insert htrim

end Rows

/-! ## Stores that hold the same -/

open Sql (Tables SegmentRow)

/-- The segments that SQLite has a row of. -/
def SqliteStore.segmentIds (self : SqliteStore) : List String :=
  self.tables.segments.map SegmentRow.segmentId

structure Twins (m : MemoryDicts) (q : SqliteStore) : Prop where
  rows : q.rows = m.store.segment
  listed : ∀ id, id ∈ q.segmentIds ↔ (m.store.segment id).sealed = true ∨ id ∈ m.trimmedKeys ∨
    (m.store.segment id).entries ≠ []
  distinct : q.segmentIds.Nodup
  held : ∀ id, Held (m.store.segment id)

/-- The memory store lists the segments that it has something of. -/
theorem MemoryDicts.mem_segmentIds (m : MemoryDicts) (id : String) :
    id ∈ m.segmentIds ↔ (m.store.segment id).sealed = true ∨ id ∈ m.trimmedKeys ∨
      (m.store.segment id).entries ≠ [] := by
  have hentries : (m.store.segment id).entries ≠ [] ↔ ∃ e ∈ m.store.entries, e.segmentId = id := by
    constructor
    · intro hne
      obtain ⟨e, he⟩ := List.exists_mem_of_ne_nil _ hne
      obtain ⟨hmem, hid⟩ := List.mem_filter.mp he
      exact ⟨e, hmem, of_decide_eq_true hid⟩
    · rintro ⟨e, hmem, hid⟩
      exact List.ne_nil_of_mem (List.mem_filter.mpr ⟨hmem, decide_eq_true hid⟩)
  rw [hentries]
  simp [segmentIds, MemoryStore.segment]

/-- An upsert lists its segment, once. -/
theorem segmentIds_upsert {t : Tables} {segmentId : String} {update : SegmentRow → SegmentRow}
    (hid : ∀ r, (update r).segmentId = r.segmentId)
    (hdistinct : (t.segments.map SegmentRow.segmentId).Nodup) :
    let ids := (t.upsert segmentId update).segments.map SegmentRow.segmentId
    ids.Nodup ∧ ∀ id, id ∈ ids ↔ id = segmentId ∨ id ∈ t.segments.map SegmentRow.segmentId := by
  intro ids
  cases hrow : t.segmentRow segmentId with
  | some r =>
      have hids : ids = t.segments.map SegmentRow.segmentId := by
        simp only [ids, Tables.upsert, hrow, List.map_map]
        refine List.map_congr_left fun r _ => ?_
        simp only [Function.comp_apply]
        split
        · exact hid r
        · rfl
      rw [hids]
      refine ⟨hdistinct, fun id => ⟨.inr, ?_⟩⟩
      rintro (rfl | h)
      · have hr := Tables.segmentId_of_segmentRow hrow
        exact List.mem_map.mpr ⟨r, List.mem_of_find?_eq_some hrow, hr⟩
      · exact h
  | none =>
      have hids : ids = t.segments.map SegmentRow.segmentId ++ [segmentId] := by
        simp only [ids, Tables.upsert, hrow, List.map_append, List.map_cons, List.map_nil, hid]
        rfl
      have hnew : segmentId ∉ t.segments.map SegmentRow.segmentId := by
        intro hmem
        obtain ⟨r, hr, heq⟩ := List.mem_map.mp hmem
        have := List.find?_eq_none.mp hrow r hr
        simp [heq] at this
      rw [hids]
      refine ⟨?_, fun id => ?_⟩
      · rw [List.nodup_append]
        refine ⟨hdistinct, List.nodup_singleton _, fun a ha b hb heq => ?_⟩
        rw [List.mem_singleton.mp hb] at heq
        exact hnew (heq ▸ ha)
      · rw [List.mem_append, List.mem_singleton, or_comm]

section Steps

variable {m m' : MemoryDicts} {q q' : SqliteStore} {segmentId : String} {s : LogletStore}

/-- Rows of one segment change, and no segment is listed anew. -/
theorem Twins.kept (h : Twins m q) (hm : m'.store.segment = Function.update m.store.segment
      segmentId s) (hq : q'.rows = Function.update q.rows segmentId s)
    (hkeys : m'.trimmedKeys = m.trimmedKeys) (hids : q'.segmentIds = q.segmentIds)
    (hsealed : s.sealed = (m.store.segment segmentId).sealed)
    (hentries : s.entries = (m.store.segment segmentId).entries)
    (hheld : Held s) : Twins m' q' where
  rows := by rw [hq, hm, h.rows]
  listed := fun id => by
    rw [hids, h.listed, hkeys, hm]
    by_cases hid : id = segmentId
    · subst hid
      rw [Function.update_self, hsealed, hentries]
    · rw [Function.update_of_ne hid]
  distinct := hids ▸ h.distinct
  held := fun id => by
    rw [hm]
    by_cases hid : id = segmentId
    · subst hid
      rw [Function.update_self]
      exact hheld
    · rw [Function.update_of_ne hid]
      exact h.held id

/-- Rows of one segment change, and the segment is listed afterwards. -/
theorem Twins.added (h : Twins m q) (hm : m'.store.segment = Function.update m.store.segment
      segmentId s) (hq : q'.rows = Function.update q.rows segmentId s)
    (hkeys : ∀ id, id ≠ segmentId → (id ∈ m'.trimmedKeys ↔ id ∈ m.trimmedKeys))
    (hids : q'.segmentIds.Nodup ∧ ∀ id, id ∈ q'.segmentIds ↔ id = segmentId ∨ id ∈ q.segmentIds)
    (hlisted : s.sealed = true ∨ segmentId ∈ m'.trimmedKeys ∨ s.entries ≠ [])
    (hheld : Held s) : Twins m' q' where
  rows := by rw [hq, hm, h.rows]
  listed := fun id => by
    rw [hids.2, hm]
    by_cases hid : id = segmentId
    · subst hid
      rw [Function.update_self]
      exact iff_of_true (.inl rfl) hlisted
    · rw [Function.update_of_ne hid, h.listed, hkeys id hid]
      exact or_iff_right hid
  distinct := hids.1
  held := fun id => by
    rw [hm]
    by_cases hid : id = segmentId
    · subst hid
      rw [Function.update_self]
      exact hheld
    · rw [Function.update_of_ne hid]
      exact h.held id

/-- The segments that a write of SQLite lists: its own one when it commits. -/
theorem segmentIds_write (entry : LogEntry) (rejectIfSealed requirePredecessor : Bool) :
    let written := q.write entry rejectIfSealed requirePredecessor
    (∃ e, written.2 = .error e ∧ written.1 = q) ∨
      written.2 = .ok () ∧ (q.segmentIds.Nodup → written.1.segmentIds.Nodup ∧
        ∀ id, id ∈ written.1.segmentIds ↔ id = entry.segmentId ∨ id ∈ q.segmentIds) := by
  intro written
  have hbody : ∀ t', SqliteStore.writeBody q.tables ((q.knownTails entry.segmentId).getD 0) entry
      rejectIfSealed requirePredecessor = .ok t' →
        t'.segments = (q.tables.upsert entry.segmentId id).segments := by
    intro t' h
    have hinsert : ∀ t₁ t₂ : Tables, SqliteStore.insertEntry t₁ entry = .ok t₂ →
        t₂.segments = t₁.segments := by
      intro t₁ t₂ h
      unfold SqliteStore.insertEntry Tables.insertEntry at h
      split at h
      · next heq =>
          split at heq
          · cases heq
          · split at heq
            · cases heq
            · cases heq
              cases h
              rfl
      · cases h
    unfold SqliteStore.writeBody at h
    simp only at h
    split at h
    · cases h
    split at h
    · cases h
    split at h
    · cases h
    split at h
    · split at h
      · cases h
      · cases h
        rfl
    split at h
    · cases h
    split at h
    · split at h
      · cases h
      · exact hinsert _ _ h
    · exact hinsert _ _ h
  cases hcase : SqliteStore.writeBody q.tables ((q.knownTails entry.segmentId).getD 0) entry
      rejectIfSealed requirePredecessor with
  | error e =>
      refine .inl ⟨e, ?_, ?_⟩
      · simp only [written, SqliteStore.write, hcase]
      · simp only [written, SqliteStore.write, hcase]
  | ok t' =>
      refine .inr ⟨by simp only [written, SqliteStore.write, hcase], fun hdistinct => ?_⟩
      have hids : written.1.segmentIds =
          (q.tables.upsert entry.segmentId id).segments.map SegmentRow.segmentId := by
        simp only [written, SqliteStore.write, hcase, SqliteStore.segmentIds, hbody t' hcase]
      rw [hids]
      exact segmentIds_upsert (fun _ => rfl) hdistinct

/-- Both stores observe a known tail. -/
theorem Twins.observed (h : Twins m q) (segmentId : String) (n : Nat) :
    Twins { m with store := m.store.observeKnownTail segmentId n }
      (q.observeKnownTail segmentId n) :=
  h.kept (MemoryStore.segment_observeKnownTail segmentId n)
    (h.rows ▸ SqliteStore.rows_observeKnownTail segmentId n) rfl rfl rfl rfl
    ⟨(h.held segmentId).trimmed, (h.held segmentId).entries⟩

/-- Both stores make the same of a write. -/
theorem Twins.write (h : Twins m q) {store : MemoryStore} {entry : LogEntry} {n : Nat}
    {r : LogletStore × Except Error Unit} {rejectIfSealed requirePredecessor : Bool}
    (hm : store.segment = Function.update m.store.segment entry.segmentId r.1)
    (hwritten : Written ((m.store.segment entry.segmentId).observeKnownTail n) entry r.1 r.2)
    (hfits : r.2 = .ok () → Int64 entry.position)
    (hsame : SqliteStore.writeRows ((m.store.segment entry.segmentId).observeKnownTail n) entry
      rejectIfSealed requirePredecessor = memoryWrite r) :
    Twins { m with store := store } ((q.observeKnownTail entry.segmentId n).write entry
      rejectIfSealed requirePredecessor).1 := by
  have hheld := h.held entry.segmentId
  have hq := @SqliteStore.write_rows_observed q entry n rejectIfSealed requirePredecessor
  simp only [congrFun h.rows, hsame] at hq
  obtain ⟨hrows, hresult⟩ := hq
  obtain ⟨s', result⟩ := r
  rcases segmentIds_write (q := q.observeKnownTail entry.segmentId n) entry rejectIfSealed
    requirePredecessor with ⟨e, herror, hids⟩ | ⟨hok, hids⟩
  · cases hwritten with
    | refused e =>
        exact h.kept hm hrows rfl (by rw [hids]; rfl) rfl rfl ⟨hheld.trimmed, hheld.entries⟩
    | done hsealed hne hs' =>
        rw [herror] at hresult
        cases hresult
  · cases hwritten with
    | refused e =>
        rw [hok] at hresult
        cases hresult
    | done hsealed hne hs' =>
        exact h.added hm hrows (fun _ _ => Iff.rfl) (hids h.distinct) (.inr (.inr hne))
          (hs' ⟨hheld.trimmed, hheld.entries⟩ (hfits rfl))

/-- Both stores keep the entries from the watermark on, and the watermark fits. -/
theorem held_prefixTrim {s : LogletStore} (hs : Held s) {n : Nat} (hfits : Int64 n) :
    Held (s.prefixTrim n).1 where
  trimmed := by
    have htrimmed := hs.trimmed
    show Int64 (max s.trimmedPrefix n : Nat)
    unfold Int64 at hfits htrimmed ⊢
    omega
  entries := fun e he => by
    obtain ⟨hmem, habove⟩ := List.mem_filter.mp he
    exact ⟨of_decide_eq_true habove, (hs.entries e hmem).2⟩

theorem Twins.prefixTrim (h : Twins m q) (segmentId : String) {n : Nat} (hfits : Int64 n) :
    Twins ⟨(m.store.prefixTrim segmentId n).1, segmentId :: m.trimmedKeys⟩
      (q.prefixTrim segmentId n).1 := by
  have hnonneg := Int.natCast_nonneg n
  have hrows := (@SqliteStore.prefixTrim_rows q segmentId n hnonneg hfits).1
  rw [Int.toNat_natCast, congrFun h.rows] at hrows
  refine h.added (MemoryStore.segment_prefixTrim segmentId n).1 hrows (fun id hid => ?_) ?_
    (.inr (.inl (List.mem_cons_self ..))) (held_prefixTrim (h.held segmentId) hfits)
  · rw [List.mem_cons, or_iff_right hid]
  · rw [SqliteStore.prefixTrim, if_neg (Int.not_lt.mpr hnonneg), if_neg (not_not_intro hfits)]
    refine segmentIds_upsert ?_ h.distinct
    exact fun _ => rfl

theorem Twins.sealSegment (h : Twins m q) (segmentId : String) (n : Nat) :
    Twins { m with store := m.store.sealSegment segmentId n } (q.sealSegment segmentId n) := by
  have hrows := @SqliteStore.sealSegment_rows q segmentId n
  rw [congrFun h.rows] at hrows
  refine h.added (MemoryStore.segment_sealSegment segmentId n) hrows (fun _ _ => Iff.rfl) ?_
    (.inl rfl) ⟨(h.held segmentId).trimmed, (h.held segmentId).entries⟩
  refine segmentIds_upsert ?_ h.distinct
  exact fun _ => rfl

/-- Both stores report the same states of the same segments. -/
theorem Twins.statesOf (segmentIds : List String) : ∀ {m : MemoryDicts} {q : SqliteStore},
    Twins m q → (m.store.statesOf segmentIds).2 = (q.statesOf segmentIds).2 ∧
      Twins { m with store := (m.store.statesOf segmentIds).1 } (q.statesOf segmentIds).1 := by
  induction segmentIds with
  | nil => exact fun h => ⟨rfl, h⟩
  | cons segmentId segmentIds ih =>
      intro m q h
      have hreport : (m.store.state segmentId 0).2 = (q.state segmentId 0).2 := by
        rw [MemoryStore.state_eq, SqliteStore.state_eq, h.rows]
      obtain ⟨hrest, htwins⟩ := ih (h.observed segmentId 0)
      exact ⟨congr (congrArg List.cons hreport) hrest, htwins⟩

/-- Both stores list their segments in one order. -/
theorem Twins.segmentIds (h : Twins m q) :
    m.segmentIds.mergeSort (fun a b => a ≤ b) = q.segmentIds.mergeSort fun a b => a ≤ b := by
  have hperm : m.segmentIds.Perm q.segmentIds := by
    refine (List.perm_ext_iff_of_nodup (List.nodup_dedup _) h.distinct).mpr fun id => ?_
    exact (m.mem_segmentIds id).trans (h.listed id).symm
  have hsorted : ∀ ids : List String,
      (ids.mergeSort fun a b => a ≤ b).Pairwise (· ≤ ·) := by
    intro ids
    refine (List.pairwise_mergeSort ?_ ?_ ids).imp of_decide_eq_true
    · exact fun a b c hab hbc =>
        decide_eq_true (le_trans (of_decide_eq_true hab) (of_decide_eq_true hbc))
    · intro a b
      rw [Bool.or_eq_true, decide_eq_true_iff, decide_eq_true_iff]
      exact le_total a b
  refine List.Perm.eq_of_pairwise' (hsorted _) (hsorted _) ?_
  exact ((List.mergeSort_perm _ _).trans hperm).trans (List.mergeSort_perm _ _).symm

end Steps

/-! ## One call -/

theorem memory_put_sealed {s : LogletStore} {entry : LogEntry} {n : Nat}
    (h : (s.observeKnownTail n).sealed = true) :
    (MemoryLogletStore.put s entry n).2 = .error (.segmentSealed entry.segmentId) := by
  rw [MemoryLogletStore.put]
  simp only [h, if_true]

/-- A put that both stores accept is one of a position that SQLite can hold. -/
theorem put_fits {s : LogletStore} {entry : LogEntry} {n : Nat} (hs : Held s)
    (h : PutAlike (s.observeKnownTail n) entry)
    (hok : (MemoryLogletStore.put s entry n).2 = .ok ()) : Int64 entry.position := by
  rcases h with hsealed | hsome | ⟨hfits, -⟩
  · rw [memory_put_sealed hsealed] at hok
    cases hok
  · obtain ⟨existing, hat⟩ := Option.ne_none_iff_exists'.mp hsome
    obtain ⟨hmem, hpos⟩ := entryAt_some hat
    exact hpos ▸ (hs.entries existing hmem).2
  · exact hfits

theorem repair_fits {s : LogletStore} {entry : LogEntry} (hs : Held s)
    (h : RepairAlike s entry) : Int64 entry.position := by
  rcases h with hsome | ⟨hfits, -⟩
  · obtain ⟨existing, hat⟩ := Option.ne_none_iff_exists'.mp hsome
    obtain ⟨hmem, hpos⟩ := entryAt_some hat
    exact hpos ▸ (hs.entries existing hmem).2
  · exact hfits

/-- What the stores make of one call: as long as they answer alike they hold the same. -/
def Compared (alike : Prop) (m : MemoryDicts × StoreAnswer) (q : SqliteStore × StoreAnswer) :
    Prop :=
  alike ∧ m.2 = q.2 ∧ Twins m.1 q.1 ∨ ¬alike ∧ ¬SameAnswer m.2 q.2

section Calls

variable {m : MemoryDicts} {q : SqliteStore}

theorem compared_put (h : Twins m q) (entry : LogEntry) (knownTail : Int) :
    Compared (Alike m.store.segment (.put entry knownTail)) (m.call (.put entry knownTail))
      (q.call (.put entry knownTail)) := by
  have hheld := h.held entry.segmentId
  obtain ⟨hrows, hresult⟩ := @MemoryStore.segment_put m.store entry knownTail.toNat
  have hq := (@SqliteStore.write_rows_observed q entry knownTail.toNat true true).2
  simp only [congrFun h.rows] at hq
  have hcompared := @put_compared (m.store.segment entry.segmentId) entry knownTail.toNat
    ⟨hheld.trimmed, hheld.entries⟩
  have hmemory : (memoryWrite (MemoryLogletStore.put (m.store.segment entry.segmentId) entry
      knownTail.toNat)).2 = (m.store.put entry knownTail.toNat).2.mapError .loglet :=
    congrArg (Except.mapError StoreFailure.loglet) hresult.symm
  split at hcompared
  · next halike =>
      refine .inl ⟨halike, ?_, h.write hrows (written_put _ entry _)
        (fun hok => put_fits hheld halike hok) hcompared⟩
      have hsame := (hq.trans (congrArg Prod.snd hcompared)).trans hmemory
      exact congrArg answered hsame.symm
  · next hn =>
      rw [← hq, hmemory] at hcompared
      exact .inr ⟨hn, hcompared⟩

theorem compared_repair (h : Twins m q) (entry : LogEntry) (knownTail : Int) :
    Compared (Alike m.store.segment (.repair entry knownTail))
      (m.call (.repair entry knownTail)) (q.call (.repair entry knownTail)) := by
  have hheld := h.held entry.segmentId
  obtain ⟨hrows, hresult⟩ := @MemoryStore.segment_repair m.store entry knownTail.toNat
  have hq := (@SqliteStore.write_rows_observed q entry knownTail.toNat false false).2
  simp only [congrFun h.rows] at hq
  have hcompared := @repair_compared (m.store.segment entry.segmentId) entry knownTail.toNat hheld
  have hmemory : (memoryWrite (MemoryLogletStore.repair (m.store.segment entry.segmentId) entry
      knownTail.toNat)).2 = (m.store.repair entry knownTail.toNat).2.mapError .loglet :=
    congrArg (Except.mapError StoreFailure.loglet) hresult.symm
  split at hcompared
  · next halike =>
      refine .inl ⟨halike, ?_, h.write hrows (written_repair _ entry _)
        (fun _ => repair_fits hheld halike) hcompared⟩
      have hsame := (hq.trans (congrArg Prod.snd hcompared)).trans hmemory
      exact congrArg answered hsame.symm
  · next hn =>
      rw [← hq, hmemory] at hcompared
      exact .inr ⟨hn, hcompared⟩

/-- The entry at a position, in the rows of its segment. -/
theorem entryAt_same (h : Twins m q) (segmentId : String) (position : Nat) :
    m.store.entry segmentId position = q.tables.entryRow segmentId position := by
  rw [MemoryStore.entry_eq, ← h.rows]
  exact (Tables.entryRow_eq _ _ _ _).symm

theorem compared_get (h : Twins m q) (segmentId : String) (position knownTail : Int) :
    Compared (Int64 position) (m.call (.get segmentId position knownTail))
      (q.call (.get segmentId position knownTail)) := by
  have htwins := h.observed segmentId knownTail.toNat
  have hq : q.call (.get segmentId position knownTail) = (q.observeKnownTail segmentId
      knownTail.toNat, (q.entryAt segmentId position).map .entry) := rfl
  have hm : m.call (.get segmentId position knownTail) =
      ({ m with store := m.store.observeKnownTail segmentId knownTail.toNat },
        .ok (.entry (if position < 0 then none else m.store.entry segmentId position.toNat))) := by
    simp only [MemoryDicts.call, MemoryStore.getAt]
    split
    · rfl
    · rfl
  rw [hq, hm, SqliteStore.entryAt]
  by_cases hfits : Int64 position
  · refine .inl ⟨hfits, ?_, htwins⟩
    rw [if_neg (not_not_intro hfits)]
    split
    · rfl
    · rw [entryAt_same h]
      rfl
  · refine .inr ⟨hfits, ?_⟩
    rw [if_pos hfits]
    exact nofun

/-- The rows that a read of entries finds, in order. -/
def entriesOf (s : LogletStore) (start : Int) : List LogEntry :=
  (s.entries.filter fun e => start ≤ e.position).mergeSort fun e e' => e.position ≤ e'.position

theorem mem_entriesOf {s : LogletStore} {start : Int} {e : LogEntry} :
    e ∈ entriesOf s start ↔ e ∈ s.entries ∧ start ≤ e.position := by
  rw [entriesOf, List.mem_mergeSort, List.mem_filter, decide_eq_true_iff]

theorem compared_entries (h : Twins m q) (segmentId : String) (start limit : Int) :
    Compared (Alike m.store.segment (.entries segmentId start limit))
      (m.call (.entries segmentId start limit)) (q.call (.entries segmentId start limit)) := by
  have hm : m.store.entriesFrom segmentId start limit =
      (entriesOf (m.store.segment segmentId) start).take
        (if limit < 0 then ((entriesOf (m.store.segment segmentId) start).length + limit).toNat
          else limit.toNat) := by
    have hfilter : m.store.entries.filter (fun e => e.segmentId = segmentId ∧
        start ≤ e.position) = (m.store.segment segmentId).entries.filter
          fun e => start ≤ e.position := by
      simp only [MemoryStore.segment, List.filter_filter]
      exact List.filter_congr fun e _ => by rw [Bool.and_comm, Bool.decide_and]
    rw [MemoryStore.entriesFrom, hfilter]
    rfl
  by_cases hfits : Int64 start ∧ Int64 limit
  · have hq : q.entries segmentId start limit = .ok (if limit < 0 then
          entriesOf (m.store.segment segmentId) start
        else (entriesOf (m.store.segment segmentId) start).take limit.toNat) := by
      rw [← h.rows, SqliteStore.entries, if_neg fun hn => hn.elim (· hfits.1) (· hfits.2)]
      rfl
    simp only [Compared, MemoryDicts.call, SqliteStore.call, Alike, hm, hq]
    by_cases hlimit : limit < 0
    · rw [if_pos hlimit, if_pos hlimit]
      cases hrows : entriesOf (m.store.segment segmentId) start with
      | nil =>
          refine .inl ⟨⟨hfits.1, hfits.2, .inr fun e he => ?_⟩, by rw [List.take_nil]; rfl, h⟩
          by_contra hstart
          have hmem := mem_entriesOf.mpr ⟨he, Int.not_lt.mp hstart⟩
          rw [hrows] at hmem
          cases hmem
      | cons e rest =>
          refine .inr ⟨?_, fun hsame => ?_⟩
          · rintro ⟨-, -, hn | hbelow⟩
            · omega
            · have hmem := mem_entriesOf.mp (hrows ▸ List.mem_cons_self : e ∈ entriesOf _ start)
              have := hbelow e hmem.1
              omega
          · have hlists := StoreValue.entries.inj (Except.ok.inj hsame)
            have hlength := congrArg List.length hlists
            rw [List.length_take, List.length_cons] at hlength
            omega
    · rw [if_neg hlimit, if_neg hlimit]
      exact .inl ⟨⟨hfits.1, hfits.2, .inl (Int.not_lt.mp hlimit)⟩, rfl, h⟩
  · have hq : q.entries segmentId start limit = .error .overflowError := by
      rw [SqliteStore.entries, if_pos (not_and_or.mp hfits)]
    simp only [Compared, MemoryDicts.call, SqliteStore.call, Alike, hq]
    exact .inr ⟨fun hn => hfits ⟨hn.1, hn.2.1⟩, by rintro ⟨⟩⟩

theorem compared_prefixTrim (h : Twins m q) (segmentId : String) (trimPosition : Int) :
    Compared (trimPosition < 0 ∨ Int64 trimPosition) (m.call (.prefixTrim segmentId trimPosition))
      (q.call (.prefixTrim segmentId trimPosition)) := by
  by_cases hneg : trimPosition < 0
  · refine .inl ⟨.inl hneg, ?_, ?_⟩
    · simp only [MemoryDicts.call, MemoryStore.prefixTrim, SqliteStore.call,
        SqliteStore.prefixTrim, if_pos hneg]
      rfl
    · simp only [MemoryDicts.call, MemoryStore.prefixTrim, SqliteStore.call,
        SqliteStore.prefixTrim, if_pos hneg]
      exact h
  obtain ⟨n, rfl⟩ := Int.eq_ofNat_of_zero_le (Int.not_lt.mp hneg)
  have hm := (@MemoryStore.segment_prefixTrim m.store segmentId n).2
  have hcall : m.call (.prefixTrim segmentId n) =
      (⟨(m.store.prefixTrim segmentId n).1, segmentId :: m.trimmedKeys⟩,
        .ok (.watermark ((m.store.segment segmentId).prefixTrim n).2)) := by
    rw [MemoryDicts.call]
    rw [← Prod.mk.eta (p := m.store.prefixTrim segmentId n), hm]
  rw [hcall]
  by_cases hfits : Int64 n
  · refine .inl ⟨.inr hfits, ?_, h.prefixTrim segmentId hfits⟩
    have hq := (@SqliteStore.prefixTrim_rows q segmentId n (Int.natCast_nonneg n) hfits).2
    rw [Int.toNat_natCast, congrFun h.rows] at hq
    rw [SqliteStore.call]
    simp only [hq]
    rfl
  · refine .inr ⟨fun hn => hn.elim hneg hfits, ?_⟩
    rw [SqliteStore.call, SqliteStore.prefixTrim, if_neg hneg, if_pos hfits]
    rintro ⟨⟩

/-- The stores compared on one call. -/
theorem compared_call (h : Twins m q) (c : StoreCall) :
    Compared (Alike m.store.segment c) (m.call c) (q.call c) := by
  cases c with
  | put entry knownTail => exact compared_put h entry knownTail
  | repair entry knownTail => exact compared_repair h entry knownTail
  | get segmentId position knownTail => exact compared_get h segmentId position knownTail
  | entries segmentId start limit => exact compared_entries h segmentId start limit
  | prefixTrim segmentId trimPosition => exact compared_prefixTrim h segmentId trimPosition
  | «seal» segmentId knownTail =>
      exact .inl ⟨trivial, rfl, h.sealSegment segmentId knownTail.toNat⟩
  | state segmentId knownTail =>
      refine .inl ⟨trivial, ?_, h.observed segmentId knownTail.toNat⟩
      simp only [MemoryDicts.call, SqliteStore.call, MemoryStore.state_eq, SqliteStore.state_eq,
        h.rows]
  | segmentStates =>
      have hstates := Twins.statesOf (q.segmentIds.mergeSort fun a b => a ≤ b) h
      simp only [Compared, MemoryDicts.call, SqliteStore.call, h.segmentIds]
      exact .inl ⟨trivial, congrArg (fun states => Except.ok (StoreValue.states states)) hstates.1,
        hstates.2⟩

end Calls

/-! ## Every sequence of calls -/

/-- What the two stores show of themselves, to reads that SQLite can bind and that do not ask
for a negative number of entries. -/
structure ObservablyEqual (m : MemoryDicts) (q : SqliteStore) : Prop where
  get : ∀ segmentId position knownTail, Int64 position →
    SameAnswer (m.call (.get segmentId position knownTail)).2
      (q.call (.get segmentId position knownTail)).2
  entries : ∀ segmentId start limit, Int64 start → Int64 limit → 0 ≤ limit →
    SameAnswer (m.call (.entries segmentId start limit)).2
      (q.call (.entries segmentId start limit)).2
  state : ∀ segmentId knownTail, SameAnswer (m.call (.state segmentId knownTail)).2
    (q.call (.state segmentId knownTail)).2
  segmentStates : SameAnswer (m.call .segmentStates).2 (q.call .segmentStates).2

/-- The stores do the same at every step of a sequence of calls. -/
def SameMachine (m : MemoryDicts) (q : SqliteStore) : List StoreCall → Prop
  | [] => True
  | c :: calls => SameAnswer (m.call c).2 (q.call c).2 ∧ ObservablyEqual (m.call c).1 (q.call c).1 ∧
      SameMachine (m.call c).1 (q.call c).1 calls

/-- Every call of a sequence meets the condition under which the stores answer alike. -/
def AlikeAll (m : MemoryDicts) : List StoreCall → Prop
  | [] => True
  | c :: calls => Alike m.store.segment c ∧ AlikeAll (m.call c).1 calls

theorem Compared.same {alike : Prop} {m : MemoryDicts × StoreAnswer}
    {q : SqliteStore × StoreAnswer} (h : Compared alike m q) (ha : alike) : SameAnswer m.2 q.2 := by
  rcases h with ⟨-, hsame, -⟩ | ⟨hn, -⟩
  · exact congrArg _ hsame
  · exact absurd ha hn

theorem Twins.observablyEqual {m : MemoryDicts} {q : SqliteStore} (h : Twins m q) :
    ObservablyEqual m q where
  get := fun segmentId position knownTail hfits =>
    (compared_call h (.get segmentId position knownTail)).same hfits
  entries := fun segmentId start limit hstart hlimit hnonneg =>
    (compared_call h (.entries segmentId start limit)).same ⟨hstart, hlimit, .inl hnonneg⟩
  state := fun segmentId knownTail => (compared_call h (.state segmentId knownTail)).same trivial
  segmentStates := (compared_call h .segmentStates).same trivial

theorem twins_empty : Twins .empty .empty where
  rows := rfl
  listed := fun id => by simp [SqliteStore.segmentIds, SqliteStore.empty, MemoryDicts.empty,
    MemoryStore.empty, MemoryStore.segment]
  distinct := List.nodup_nil
  held := fun id => ⟨(by decide : Int64 (0 : Nat)), fun e he => nomatch he⟩

theorem Twins.sameMachine (calls : List StoreCall) : ∀ {m : MemoryDicts} {q : SqliteStore},
    Twins m q → (SameMachine m q calls ↔ AlikeAll m calls) := by
  induction calls with
  | nil => exact fun _ => Iff.rfl
  | cons c calls ih =>
      intro m q h
      rcases compared_call h c with ⟨halike, hanswer, htwins⟩ | ⟨hn, hparts⟩
      · rw [SameMachine, AlikeAll, ih htwins]
        constructor
        · rintro ⟨-, -, hrest⟩
          exact ⟨halike, hrest⟩
        · rintro ⟨-, hrest⟩
          exact ⟨congrArg _ hanswer, htwins.observablyEqual, hrest⟩
      · exact iff_of_false (fun hs => hparts hs.1) fun ha => hn ha.1

/-- From empty stores on, a MemoryLogletStore and a SQLiteLogletStore are the same machine on
exactly the sequences of calls that meet the condition at every step. -/
theorem same_machine_iff (calls : List StoreCall) :
    SameMachine .empty .empty calls ↔ AlikeAll .empty calls :=
  twins_empty.sameMachine calls

/-- The memory store takes a command at a second position, where SQLite sees a conflict. -/
theorem command_taken_twice : ¬∀ calls, SameMachine .empty .empty calls := by
  intro h
  have hput := (h [.put ⟨"s", 0, "r", []⟩ 0, .put ⟨"s", 1, "r", []⟩ 0]).2.2.1
  exact absurd hput (by decide +kernel)

end DelosLab.NativeLoglet
