import DelosLab.NativeLoglet.Store

/-!
# The tables of a SQLiteLogletStore

The two tables of a LogServer and the statements on its one connection. A statement sees
what the connection has written, committed or not. The rows of one segment are a
`LogletStore`, and a statement does to them what the operations of that store do.
-/

namespace DelosLab.NativeLoglet.Sql

/-- A row of `loglet_segments`. -/
structure SegmentRow where
  segmentId : String
  sealed : Bool
  trimmedPrefix : Nat
deriving DecidableEq

/-- The columns' defaults. -/
def SegmentRow.default (segmentId : String) : SegmentRow := ⟨segmentId, false, 0⟩

/-- `loglet_segments` and `loglet_entries`. -/
structure Tables where
  segments : List SegmentRow
  entries : List LogEntry
deriving DecidableEq

inductive StoreError : Type where
  | loglet (e : Error)
  | integrityError (message : String)
  | operationalError (message : String)
  | cancelled
deriving DecidableEq

namespace Tables

def segmentRow (t : Tables) (segmentId : String) : Option SegmentRow :=
  t.segments.find? fun r => r.segmentId = segmentId

def entryRow (t : Tables) (segmentId : String) (position : Nat) : Option LogEntry :=
  t.entries.find? fun e => e.segmentId = segmentId ∧ e.position = position

def commandRow (t : Tables) (segmentId commandId : String) : Option LogEntry :=
  t.entries.find? fun e => e.segmentId = segmentId ∧ e.commandId = commandId

def segmentEntries (t : Tables) (segmentId : String) : List LogEntry :=
  t.entries.filter fun e => e.segmentId = segmentId

/-- `MAX(position)`. -/
def maxPosition (t : Tables) (segmentId : String) : Option Nat :=
  ((t.segmentEntries segmentId).map LogEntry.position).max?

/-- `INSERT INTO loglet_segments ... ON CONFLICT(segment_id) DO UPDATE`, where the update
of the default row gives the inserted one. -/
def upsert (t : Tables) (segmentId : String) (update : SegmentRow → SegmentRow) : Tables :=
  match t.segmentRow segmentId with
  | some _ =>
      { t with segments := t.segments.map fun r =>
          if r.segmentId = segmentId then update r else r }
  | none => { t with segments := t.segments ++ [update (.default segmentId)] }

/-- `INSERT INTO loglet_entries`. -/
def insertEntry (t : Tables) (entry : LogEntry) : Tables × Except StoreError Unit :=
  match t.entryRow entry.segmentId entry.position with
  | some _ => (t, .error (.integrityError
      "UNIQUE constraint failed: loglet_entries.segment_id, loglet_entries.position"))
  | none =>
      match t.commandRow entry.segmentId entry.commandId with
      | some _ => (t, .error (.integrityError
          "UNIQUE constraint failed: loglet_entries.segment_id, loglet_entries.command_id"))
      | none => ({ t with entries := t.entries ++ [entry] }, .ok ())

/-- `DELETE FROM loglet_entries WHERE segment_id = ? AND position < ?`. -/
def deleteEntries (t : Tables) (segmentId : String) (position : Nat) : Tables :=
  { t with entries := t.entries.filter fun e =>
      ¬(e.segmentId = segmentId ∧ e.position < position) }

/-! ## The rows of one segment -/

/-- The row of a segment; a segment without a row has the defaults. -/
def row (t : Tables) (segmentId : String) : SegmentRow :=
  (t.segmentRow segmentId).getD (.default segmentId)

/-- The rows of a segment, beside the known tail that the process has. -/
def store (t : Tables) (segmentId : String) (knownTail : Nat) : LogletStore where
  segmentId := segmentId
  entries := t.segmentEntries segmentId
  sealed := (t.row segmentId).sealed
  trimmedPrefix := (t.row segmentId).trimmedPrefix
  knownTail := knownTail

def localTail (t : Tables) (segmentId : String) : Nat := (t.store segmentId 0).localTail

/-- No row of `t'` covers less than in `t`. -/
def Advances (t t' : Tables) : Prop :=
  ∀ segmentId, (t.store segmentId 0).Advances (t'.store segmentId 0)

theorem Advances.refl (t : Tables) : t.Advances t := fun _ => .refl _

theorem Advances.trans {t₁ t₂ t₃ : Tables} (h : t₁.Advances t₂) (h' : t₂.Advances t₃) :
    t₁.Advances t₃ :=
  fun segmentId => (h segmentId).trans (h' segmentId)

/-- The reported local tail is what the two queries of `state` make of it. -/
theorem localTail_eq (t : Tables) (segmentId : String) :
    t.localTail segmentId = max ((t.maxPosition segmentId).elim 0 (· + 1))
      (t.row segmentId).trimmedPrefix :=
  congrArg (max · _) (LogletStore.entriesTail_eq_max _)

theorem segmentId_of_segmentRow {t : Tables} {segmentId : String} {r : SegmentRow}
    (h : t.segmentRow segmentId = some r) : r.segmentId = segmentId := by
  have hr := List.find?_some h
  exact of_decide_eq_true hr

/-- An upsert of a row changes that row alone. -/
theorem segmentRow_upsert {t : Tables} {segmentId : String} {update : SegmentRow → SegmentRow}
    (hid : ∀ r, (update r).segmentId = r.segmentId) (s : String) :
    (t.upsert segmentId update).segmentRow s =
      if s = segmentId then some (update (t.row segmentId)) else t.segmentRow s := by
  rw [upsert, row]
  cases hrow : t.segmentRow segmentId with
  | some r =>
      have hkey : ((fun r : SegmentRow => decide (r.segmentId = s)) ∘
          fun r => if r.segmentId = segmentId then update r else r) =
            fun r => decide (r.segmentId = s) := by
        funext r
        simp only [Function.comp_apply]
        split
        · rw [hid]
        · rfl
      simp only [segmentRow, List.find?_map, hkey]
      by_cases hs : s = segmentId
      · subst hs
        rw [if_pos rfl]
        have hfound : t.segments.find? (fun r => decide (r.segmentId = s)) = some r := hrow
        rw [hfound, Option.map_some, if_pos (segmentId_of_segmentRow hrow)]
        rfl
      · rw [if_neg hs]
        cases hfound : t.segmentRow s with
        | none =>
            rw [segmentRow] at hfound
            rw [hfound, Option.map_none]
        | some r =>
            have hr := segmentId_of_segmentRow hfound
            rw [segmentRow] at hfound
            rw [hfound, Option.map_some, if_neg (hr.symm ▸ hs)]
  | none =>
      have hnew : (update (.default segmentId)).segmentId = segmentId := hid _
      simp only [segmentRow, List.find?_append, List.find?_singleton, hnew]
      by_cases hs : s = segmentId
      · subst hs
        have hnone : t.segments.find? (fun r => decide (r.segmentId = s)) = none := hrow
        simp [hnone]
      · have hs' : segmentId ≠ s := fun h => hs h.symm
        simp [hs, hs']

theorem row_upsert {t : Tables} {segmentId : String} {update : SegmentRow → SegmentRow}
    (hid : ∀ r, (update r).segmentId = r.segmentId) (s : String) :
    (t.upsert segmentId update).row s =
      if s = segmentId then update (t.row segmentId) else t.row s := by
  rw [row, segmentRow_upsert hid]
  split
  · rfl
  · rfl

theorem entries_upsert (t : Tables) (segmentId : String) (update : SegmentRow → SegmentRow) :
    (t.upsert segmentId update).entries = t.entries := by
  rw [upsert]
  split
  · rfl
  · rfl

/-- An upsert that keeps a row sealed and trimmed loses nothing. -/
theorem advances_upsert {t : Tables} {segmentId : String} {update : SegmentRow → SegmentRow}
    (hid : ∀ r, (update r).segmentId = r.segmentId)
    (hsealed : ∀ r, r.sealed = true → (update r).sealed = true)
    (htrim : ∀ r, r.trimmedPrefix ≤ (update r).trimmedPrefix) :
    t.Advances (t.upsert segmentId update) := by
  intro s
  have hentries : (t.upsert segmentId update).segmentEntries s = t.segmentEntries s := by
    rw [segmentEntries, segmentEntries, entries_upsert]
  have hrow : (t.upsert segmentId update).row s =
      if s = segmentId then update (t.row segmentId) else t.row s := row_upsert hid s
  refine LogletStore.advances_of_covers (fun p hp => ?_) fun h => ?_
  · rcases hp with hlt | ⟨e, he, hpos⟩
    · left
      show p < ((t.upsert segmentId update).row s).trimmedPrefix
      rw [hrow]
      split
      · next hs =>
          subst hs
          exact Nat.lt_of_lt_of_le hlt (htrim _)
      · exact hlt
    · refine .inr ⟨e, ?_, hpos⟩
      show e ∈ (t.upsert segmentId update).segmentEntries s
      rw [hentries]
      exact he
  · show ((t.upsert segmentId update).row s).sealed = true
    rw [hrow]
    split
    · next hs =>
        subst hs
        exact hsealed _ h
    · exact h

theorem advances_insertEntry (t : Tables) (entry : LogEntry) :
    t.Advances (t.insertEntry entry).1 := by
  rw [insertEntry]
  split
  · exact .refl t
  · split
    · exact .refl t
    · intro s
      refine LogletStore.advances_of_covers (fun p hp => ?_) fun h => h
      rcases hp with hlt | ⟨e, he, hpos⟩
      · exact .inl hlt
      · refine .inr ⟨e, ?_, hpos⟩
        show e ∈ (t.entries ++ [entry]).filter _
        rw [List.filter_append]
        exact List.mem_append_left _ he

/-- Deleting below the watermark loses nothing. -/
theorem advances_deleteEntries {t : Tables} {segmentId : String} {position : Nat}
    (h : position ≤ (t.row segmentId).trimmedPrefix) :
    t.Advances (t.deleteEntries segmentId position) := by
  intro s
  refine LogletStore.advances_of_covers (fun p hp => ?_) fun hs => hs
  rcases hp with hlt | ⟨e, he, hpos⟩
  · exact .inl hlt
  · obtain ⟨hmem, hs⟩ := List.mem_filter.mp he
    have hs := of_decide_eq_true hs
    by_cases hgone : e.segmentId = segmentId ∧ e.position < position
    · left
      show p < (t.row s).trimmedPrefix
      rw [← hpos, ← hs, hgone.1]
      exact Nat.lt_of_lt_of_le hgone.2 h
    · exact .inr ⟨e, List.mem_filter.mpr
        ⟨List.mem_filter.mpr ⟨hmem, decide_eq_true hgone⟩, decide_eq_true hs⟩, hpos⟩

end Tables

/-! ## Statements -/

/-- The statements of the store. -/
inductive Statement : Type where
  | begin
  | commit
  | rollback
  | insertSegment (segmentId : String)
  | updateTrimmedPrefix (segmentId : String) (trimPosition : Nat)
  | updateSealed (segmentId : String)
  | insertEntry (entry : LogEntry)
  | deleteEntries (segmentId : String) (position : Nat)
  | selectSealed (segmentId : String)
  | selectTrimmedPrefix (segmentId : String)
  | selectEntry (segmentId : String) (position : Nat)
  | selectPosition (segmentId commandId : String)
  | selectSegment (segmentId : String)
  | selectMaxPosition (segmentId : String)

namespace Statement

@[reducible] def Result : Statement → Type
  | .begin => Unit
  | .commit => Unit
  | .rollback => Unit
  | .insertSegment _ => Unit
  | .updateTrimmedPrefix _ _ => Unit
  | .updateSealed _ => Unit
  | .insertEntry _ => Unit
  | .deleteEntries _ _ => Unit
  | .selectSealed _ => Option Bool
  | .selectTrimmedPrefix _ => Option Nat
  | .selectEntry _ _ => Option LogEntry
  | .selectPosition _ _ => Option Nat
  | .selectSegment _ => Option SegmentRow
  | .selectMaxPosition _ => Option Nat

/-- A query. -/
def selects : Statement → Bool
  | .selectSealed _ => true
  | .selectTrimmedPrefix _ => true
  | .selectEntry _ _ => true
  | .selectPosition _ _ => true
  | .selectSegment _ => true
  | .selectMaxPosition _ => true
  | _ => false

/-- A deletion stays below the watermark. -/
def Covered (t : Tables) : Statement → Prop
  | .deleteEntries segmentId position => position ≤ (t.row segmentId).trimmedPrefix
  | _ => True

end Statement

structure Connection where
  committed : Tables
  working : Tables
  inTransaction : Bool

namespace Connection

/-- A store that has just been opened. -/
def opened (t : Tables) : Connection := ⟨t, t, false⟩

def write (c : Connection) (t : Tables) : Connection := { c with working := t }

/-- One statement. -/
def execute (c : Connection) : (s : Statement) → Connection × Except StoreError s.Result
  | .begin =>
      if c.inTransaction then
        (c, .error (.operationalError "cannot start a transaction within a transaction"))
      else ({ c with inTransaction := true }, .ok ())
  | .commit => (.opened c.working, .ok ())
  | .rollback => (.opened c.committed, .ok ())
  | .insertSegment segmentId => (c.write (c.working.upsert segmentId id), .ok ())
  | .updateTrimmedPrefix segmentId trimPosition =>
      (c.write (c.working.upsert segmentId fun r =>
        { r with trimmedPrefix := max r.trimmedPrefix trimPosition }), .ok ())
  | .updateSealed segmentId =>
      (c.write (c.working.upsert segmentId fun r => { r with sealed := true }), .ok ())
  | .insertEntry entry =>
      (c.write (c.working.insertEntry entry).1, (c.working.insertEntry entry).2)
  | .deleteEntries segmentId position =>
      (c.write (c.working.deleteEntries segmentId position), .ok ())
  | .selectSealed segmentId => (c, .ok ((c.working.segmentRow segmentId).map SegmentRow.sealed))
  | .selectTrimmedPrefix segmentId =>
      (c, .ok ((c.working.segmentRow segmentId).map SegmentRow.trimmedPrefix))
  | .selectEntry segmentId position => (c, .ok (c.working.entryRow segmentId position))
  | .selectPosition segmentId commandId =>
      (c, .ok ((c.working.commandRow segmentId commandId).map LogEntry.position))
  | .selectSegment segmentId => (c, .ok (c.working.segmentRow segmentId))
  | .selectMaxPosition segmentId => (c, .ok (c.working.maxPosition segmentId))

theorem execute_selects {s : Statement} (h : s.selects = true) (c : Connection) :
    (c.execute s).1 = c := by
  cases s <;> first | rfl | cases h

/-- Only a commit changes what is committed. -/
theorem execute_committed {s : Statement} (h : s ≠ .commit) (c : Connection) :
    (c.execute s).1.committed = c.committed := by
  cases s with
  | commit => exact absurd rfl h
  | begin =>
      rw [execute]
      split
      · rfl
      · rfl
  | _ => rfl

/-- Whatever a statement does, the working tables stay ahead of the committed ones. -/
theorem execute_advances {c : Connection} (h : c.committed.Advances c.working) {s : Statement}
    (hs : s.Covered c.working) :
    (c.execute s).1.committed.Advances (c.execute s).1.working := by
  cases s with
  | begin =>
      rw [execute]
      split
      · exact h
      · exact h
  | commit => exact .refl _
  | rollback => exact .refl _
  | insertSegment segmentId =>
      exact h.trans (Tables.advances_upsert (fun _ => rfl) (fun _ hr => hr) fun _ => Nat.le_refl _)
  | updateTrimmedPrefix segmentId trimPosition =>
      exact h.trans (Tables.advances_upsert (fun _ => rfl) (fun _ hr => hr)
        fun _ => Nat.le_max_left _ _)
  | updateSealed segmentId =>
      exact h.trans (Tables.advances_upsert (fun _ => rfl) (fun _ _ => rfl) fun _ => Nat.le_refl _)
  | insertEntry entry => exact h.trans (Tables.advances_insertEntry _ _)
  | deleteEntries segmentId position => exact h.trans (Tables.advances_deleteEntries hs)
  | selectSealed segmentId => exact h
  | selectTrimmedPrefix segmentId => exact h
  | selectEntry segmentId position => exact h
  | selectPosition segmentId commandId => exact h
  | selectSegment segmentId => exact h
  | selectMaxPosition segmentId => exact h

end Connection

end DelosLab.NativeLoglet.Sql
