import DelosLab.NativeLoglet.Types

/-!
# The LogletStore of a LogServer

The rows of one segment, and the operations on them of `MemoryLogletStore` and
`SQLiteLogletStore`. The two stores differ in what they check and in which order;
one lemma about each operation says what both of them do.
-/

namespace DelosLab.NativeLoglet

inductive StoreKind : Type where
  | memory
  | sqlite
deriving DecidableEq

/-- `entries` are the rows of the segment, one for a position. The store keeps
`knownTail` in memory. -/
structure LogletStore where
  segmentId : String
  entries : List LogEntry
  sealed : Bool
  trimmedPrefix : Nat
  knownTail : Nat
deriving DecidableEq

namespace LogletStore

def empty (segmentId : String) : LogletStore := ⟨segmentId, [], false, 0, 0⟩

/-- What a process finds after a restart. -/
def reopen (self : LogletStore) : LogletStore := { self with knownTail := 0 }

def observeKnownTail (self : LogletStore) (knownTail : Nat) : LogletStore :=
  { self with knownTail := max self.knownTail knownTail }

def entryAt (self : LogletStore) (position : Nat) : Option LogEntry :=
  self.entries.find? fun e => e.position = position

def positionForCommand (self : LogletStore) (commandId : String) : Option Nat :=
  (self.entries.find? fun e => e.commandId = commandId).map LogEntry.position

def insert (self : LogletStore) (entry : LogEntry) : LogletStore :=
  { self with entries := self.entries ++ [entry] }

/-- The condition of `PredecessorUnavailable`. -/
def lacksPredecessor (self : LogletStore) (entry : LogEntry) : Bool :=
  0 < entry.position && (self.entryAt (entry.position - 1)).isNone &&
    self.knownTail ≤ entry.position - 1

def conflictAt (entry : LogEntry) : Error :=
  .entryConflict ("conflict at " ++ key entry.segmentId entry.position)

def trimmedAt (entry : LogEntry) : Error :=
  .positionTrimmed ("trimmed position " ++ key entry.segmentId entry.position)

def predecessorOf (entry : LogEntry) : Error :=
  .predecessorUnavailable ("missing predecessor for " ++ key entry.segmentId entry.position)

end LogletStore

/-! ## MemoryLogletStore -/

namespace MemoryLogletStore

open LogletStore

def write (self : LogletStore) (entry : LogEntry) : LogletStore × Except Error Unit :=
  if entry.position < self.trimmedPrefix then (self, .error (trimmedAt entry))
  else
    match self.entryAt entry.position with
    | some existing =>
        if existing ≠ entry then (self, .error (conflictAt entry)) else (self, .ok ())
    | none => (self.insert entry, .ok ())

def put (self : LogletStore) (entry : LogEntry) (knownTail : Nat) :
    LogletStore × Except Error Unit :=
  let self := self.observeKnownTail knownTail
  if self.sealed then (self, .error (.segmentSealed entry.segmentId))
  else
    match self.entryAt entry.position with
    | some existing =>
        if existing ≠ entry then (self, .error (conflictAt entry)) else (self, .ok ())
    | none =>
        if self.lacksPredecessor entry then (self, .error (predecessorOf entry))
        else write self entry

def repair (self : LogletStore) (entry : LogEntry) (knownTail : Nat) :
    LogletStore × Except Error Unit :=
  write (self.observeKnownTail knownTail) entry

end MemoryLogletStore

/-! ## SQLiteLogletStore

An exception rolls the transaction back, so a failed write leaves the rows alone. -/

namespace SQLiteLogletStore

open LogletStore

def write (self : LogletStore) (entry : LogEntry) (rejectIfSealed requirePredecessor : Bool) :
    LogletStore × Except Error Unit :=
  if rejectIfSealed && self.sealed then (self, .error (.segmentSealed entry.segmentId))
  else if entry.position < self.trimmedPrefix then (self, .error (trimmedAt entry))
  else
    match self.entryAt entry.position with
    | some existing =>
        if existing ≠ entry then (self, .error (conflictAt entry)) else (self, .ok ())
    | none =>
        if requirePredecessor && self.lacksPredecessor entry then
          (self, .error (predecessorOf entry))
        else
          match self.positionForCommand entry.commandId with
          | some commandPosition =>
              if commandPosition ≠ entry.position then
                (self, .error (.entryConflict ("command " ++ entry.commandId ++
                  " already exists at " ++ toString commandPosition)))
              else (self.insert entry, .ok ())
          | none => (self.insert entry, .ok ())

def put (self : LogletStore) (entry : LogEntry) (knownTail : Nat) :
    LogletStore × Except Error Unit :=
  write (self.observeKnownTail knownTail) entry true true

def repair (self : LogletStore) (entry : LogEntry) (knownTail : Nat) :
    LogletStore × Except Error Unit :=
  write (self.observeKnownTail knownTail) entry false false

end SQLiteLogletStore

/-! ## The operations of a LogletStore -/

namespace LogletStore

def put : StoreKind → LogletStore → LogEntry → Nat → LogletStore × Except Error Unit
  | .memory => MemoryLogletStore.put
  | .sqlite => SQLiteLogletStore.put

def repair : StoreKind → LogletStore → LogEntry → Nat → LogletStore × Except Error Unit
  | .memory => MemoryLogletStore.repair
  | .sqlite => SQLiteLogletStore.repair

def get (self : LogletStore) (position knownTail : Nat) : LogletStore × Option LogEntry :=
  (self.observeKnownTail knownTail, self.entryAt position)

def prefixTrim (self : LogletStore) (trimPosition : Nat) : LogletStore × Nat :=
  let watermark := max self.trimmedPrefix trimPosition
  ({ self with
    trimmedPrefix := watermark
    entries := self.entries.filter fun e => watermark ≤ e.position }, watermark)

def «seal» (self : LogletStore) (knownTail : Nat) : LogletStore :=
  { self.observeKnownTail knownTail with sealed := true }

/-- `max(position) + 1`, or 0 when there is no entry. -/
def entriesTail : List LogEntry → Nat
  | [] => 0
  | e :: entries => max (e.position + 1) (entriesTail entries)

def localTail (self : LogletStore) : Nat := max (entriesTail self.entries) self.trimmedPrefix

/-- The `LogServerState` of the rows. -/
def snapshot (self : LogletStore) : LogServerState :=
  ⟨self.segmentId, self.localTail, self.trimmedPrefix, self.knownTail, self.sealed⟩

def state (self : LogletStore) (knownTail : Nat) : LogletStore × LogServerState :=
  let self := self.observeKnownTail knownTail
  (self, self.snapshot)

/-! ## What a store covers -/

/-- The entry at `p` is there or was trimmed. -/
def Covers (self : LogletStore) (p : Nat) : Prop :=
  p < self.trimmedPrefix ∨ ∃ e ∈ self.entries, e.position = p

theorem lt_entriesTail {entries : List LogEntry} {e : LogEntry} (he : e ∈ entries) :
    e.position < entriesTail entries := by
  induction entries with
  | nil => cases he
  | cons e' entries ih =>
      rcases List.mem_cons.mp he with rfl | he
      · exact Nat.lt_of_lt_of_le (Nat.lt_succ_self _) (Nat.le_max_left _ _)
      · exact Nat.lt_of_lt_of_le (ih he) (Nat.le_max_right _ _)

theorem entriesTail_append (l l' : List LogEntry) :
    entriesTail (l ++ l') = max (entriesTail l) (entriesTail l') := by
  induction l with
  | nil => exact (Nat.max_eq_right (Nat.zero_le _)).symm
  | cons e l ih => rw [List.cons_append, entriesTail, entriesTail, ih, Nat.max_assoc]

theorem entriesTail_filter_le (p : LogEntry → Bool) (l : List LogEntry) :
    entriesTail (l.filter p) ≤ entriesTail l := by
  induction l with
  | nil => exact Nat.le_refl _
  | cons e l ih =>
      rw [List.filter_cons]
      split
      · rw [entriesTail, entriesTail]
        omega
      · exact Nat.le_trans ih (Nat.le_max_right _ _)

theorem entriesTail_mem {entries : List LogEntry} (h : entries ≠ []) :
    ∃ e ∈ entries, entriesTail entries = e.position + 1 := by
  induction entries with
  | nil => exact absurd rfl h
  | cons e entries ih =>
      by_cases hne : entries = []
      · subst hne
        exact ⟨e, List.mem_cons_self, Nat.max_eq_left (Nat.zero_le _)⟩
      · obtain ⟨e', he', htail⟩ := ih hne
        rcases Nat.le_total (entriesTail entries) (e.position + 1) with hle | hle
        · exact ⟨e, List.mem_cons_self, Nat.max_eq_left hle⟩
        · refine ⟨e', List.mem_cons_of_mem _ he', ?_⟩
          rw [entriesTail, Nat.max_eq_right hle, htail]

/-- `max(positions, default=-1) + 1`. -/
theorem entriesTail_eq_max (entries : List LogEntry) :
    entriesTail entries = ((entries.map LogEntry.position).max?).elim 0 (· + 1) := by
  induction entries with
  | nil => rfl
  | cons e entries ih =>
      rw [entriesTail, List.map_cons, List.max?_cons, ih]
      cases (entries.map LogEntry.position).max? with
      | none => exact Nat.max_eq_left (Nat.zero_le _)
      | some p => exact Nat.succ_max_succ e.position p

/-- A store covers nothing at or behind its local tail. -/
theorem Covers.lt_localTail {self : LogletStore} {p : Nat} (h : self.Covers p) :
    p < self.localTail := by
  rcases h with hlt | ⟨e, he, rfl⟩
  · exact Nat.lt_of_lt_of_le hlt (Nat.le_max_right _ _)
  · exact Nat.lt_of_lt_of_le (lt_entriesTail he) (Nat.le_max_left _ _)

/-- The position before the local tail is covered. -/
theorem covers_of_localTail {self : LogletStore} {p : Nat} (h : self.localTail = p + 1) :
    self.Covers p := by
  rcases Nat.le_total (entriesTail self.entries) self.trimmedPrefix with hle | hle
  · rw [localTail, Nat.max_eq_right hle] at h
    exact .inl (h ▸ Nat.lt_succ_self p)
  · rw [localTail, Nat.max_eq_left hle] at h
    have hne : self.entries ≠ [] := by
      intro hnil
      rw [hnil] at h
      cases h
    obtain ⟨e, he, htail⟩ := entriesTail_mem hne
    exact .inr ⟨e, he, Nat.succ.inj (htail.symm.trans h)⟩

/-- What the operations of a store only ever increase. -/
structure Advances (s s' : LogletStore) : Prop where
  covers : ∀ p, s.Covers p → s'.Covers p
  localTail : s.localTail ≤ s'.localTail
  sealed : s.sealed = true → s'.sealed = true

theorem Advances.refl (s : LogletStore) : s.Advances s := ⟨fun _ h => h, Nat.le_refl _, fun h => h⟩

theorem Advances.trans {s₁ s₂ s₃ : LogletStore} (h : s₁.Advances s₂) (h' : s₂.Advances s₃) :
    s₁.Advances s₃ :=
  ⟨fun p hp => h'.covers p (h.covers p hp), Nat.le_trans h.localTail h'.localTail,
    fun hs => h'.sealed (h.sealed hs)⟩

/-- Local tails follow from what is covered. -/
theorem advances_of_covers {s s' : LogletStore} (h : ∀ p, s.Covers p → s'.Covers p)
    (hs : s.sealed = true → s'.sealed = true) : s.Advances s' := by
  refine ⟨h, ?_, hs⟩
  cases htail : s.localTail with
  | zero => exact Nat.zero_le _
  | succ p => exact (h p (covers_of_localTail htail)).lt_localTail

theorem advances_observeKnownTail (s : LogletStore) (n : Nat) :
    s.Advances (s.observeKnownTail n) := ⟨fun _ h => h, Nat.le_refl _, fun h => h⟩

theorem advances_reopen (s : LogletStore) : s.Advances s.reopen :=
  ⟨fun _ h => h, Nat.le_refl _, fun h => h⟩

theorem advances_seal (s : LogletStore) (n : Nat) : s.Advances (s.seal n) :=
  ⟨fun _ h => h, Nat.le_refl _, fun _ => rfl⟩

theorem advances_insert (s : LogletStore) (entry : LogEntry) : s.Advances (s.insert entry) := by
  refine advances_of_covers (fun p hp => ?_) fun h => h
  rcases hp with hlt | ⟨e, he, hpos⟩
  · exact .inl hlt
  · exact .inr ⟨e, List.mem_append_left _ he, hpos⟩

/-- Trimming drops entries below the watermark only. -/
theorem advances_prefixTrim (s : LogletStore) (n : Nat) : s.Advances (s.prefixTrim n).1 := by
  refine advances_of_covers (fun p hp => ?_) fun h => h
  by_cases hlt : p < max s.trimmedPrefix n
  · exact .inl hlt
  · rcases hp with hold | ⟨e, he, rfl⟩
    · exact absurd (Nat.lt_of_lt_of_le hold (Nat.le_max_left _ _)) hlt
    · exact .inr ⟨e, List.mem_filter.mpr ⟨he, decide_eq_true (Nat.le_of_not_lt hlt)⟩, rfl⟩

/-! ## What the writes do -/

theorem entryAt_some {s : LogletStore} {p : Nat} {e : LogEntry} (h : s.entryAt p = some e) :
    e ∈ s.entries ∧ e.position = p := by
  have hp := List.find?_some h
  exact ⟨List.mem_of_find?_eq_some h, of_decide_eq_true hp⟩

theorem entryAt_none {s : LogletStore} {p : Nat} (h : s.entryAt p = none) :
    ∀ e ∈ s.entries, e.position ≠ p := by
  intro e he hp
  have := List.find?_eq_none.mp h e he
  simp [hp] at this

/-- What a put leaves in the store. -/
inductive PutEffect (s : LogletStore) (entry : LogEntry) : LogletStore → Except Error Unit → Prop
  | failed (e : Error) (h : e = .segmentSealed entry.segmentId → s.sealed = true) :
      PutEffect s entry s (.error e)
  | kept (hopen : s.sealed = false) (h : entry ∈ s.entries) : PutEffect s entry s (.ok ())
  | added (hopen : s.sealed = false) (htrim : s.trimmedPrefix ≤ entry.position)
      (hfree : ∀ e ∈ s.entries, e.position ≠ entry.position)
      (h : (∃ p, entry.position = p + 1 ∧ s.Covers p) ∨ entry.position ≤ s.knownTail) :
      PutEffect s entry (s.insert entry) (.ok ())

/-- What a repair leaves in the store. -/
inductive RepairEffect (s : LogletStore) (entry : LogEntry) :
    LogletStore → Except Error Unit → Prop
  | trimmed : RepairEffect s entry s (.error (trimmedAt entry))
  | conflict (e : Error) (h : ∃ other ∈ s.entries, other ≠ entry ∧
      (other.position = entry.position ∨ other.commandId = entry.commandId)) :
      RepairEffect s entry s (.error e)
  | kept (h : entry ∈ s.entries) : RepairEffect s entry s (.ok ())
  | added (htrim : s.trimmedPrefix ≤ entry.position)
      (hfree : ∀ e ∈ s.entries, e.position ≠ entry.position) :
      RepairEffect s entry (s.insert entry) (.ok ())

/-- A missing predecessor is excused by a known tail that covers it. -/
theorem present_of_not_lacks {s : LogletStore} {entry : LogEntry}
    (h : ¬s.lacksPredecessor entry = true) :
    (∃ e ∈ s.entries, e.position + 1 = entry.position) ∨ entry.position ≤ s.knownTail := by
  cases hpos : entry.position with
  | zero => exact .inr (Nat.zero_le _)
  | succ p =>
      simp only [lacksPredecessor, hpos, Nat.add_sub_cancel, Bool.and_eq_true, decide_eq_true_eq,
        not_and_or] at h
      rcases h with (hzero | hsome) | hle
      · exact absurd (Nat.succ_pos p) hzero
      · obtain ⟨e, he⟩ : ∃ e, s.entryAt p = some e :=
          Option.ne_none_iff_exists'.mp fun hnone => hsome (by rw [hnone]; rfl)
        obtain ⟨hmem, hp⟩ := entryAt_some he
        exact .inl ⟨e, hmem, congrArg (· + 1) hp⟩
      · exact .inr (by omega)

theorem predecessor_of_not_lacks {s : LogletStore} {entry : LogEntry}
    (h : ¬s.lacksPredecessor entry = true) :
    (∃ p, entry.position = p + 1 ∧ s.Covers p) ∨ entry.position ≤ s.knownTail := by
  rcases present_of_not_lacks h with ⟨e, he, hpos⟩ | hknown
  · exact .inl ⟨e.position, hpos.symm, .inr ⟨e, he, rfl⟩⟩
  · exact .inr hknown

theorem memory_put_effect (s : LogletStore) (entry : LogEntry) (knownTail : Nat) :
    PutEffect (s.observeKnownTail knownTail) entry (MemoryLogletStore.put s entry knownTail).1
      (MemoryLogletStore.put s entry knownTail).2 := by
  rw [MemoryLogletStore.put]
  generalize s.observeKnownTail knownTail = s
  split
  · next hsealed => exact .failed _ fun _ => hsealed
  · next hopen =>
      have hopen := Bool.of_not_eq_true hopen
      split
      · next existing hat =>
          split
          · exact .failed _ nofun
          · next heq => exact .kept hopen (not_not.mp heq ▸ (entryAt_some hat).1)
      · next hnone =>
          split
          · exact .failed _ nofun
          · next hpred =>
              rw [MemoryLogletStore.write]
              split
              · exact .failed _ nofun
              · next htrim =>
                  rw [hnone]
                  exact .added hopen (Nat.le_of_not_lt htrim) (entryAt_none hnone)
                    (predecessor_of_not_lacks hpred)

theorem sqlite_put_effect (s : LogletStore) (entry : LogEntry) (knownTail : Nat) :
    PutEffect (s.observeKnownTail knownTail) entry (SQLiteLogletStore.put s entry knownTail).1
      (SQLiteLogletStore.put s entry knownTail).2 := by
  rw [SQLiteLogletStore.put, SQLiteLogletStore.write]
  generalize s.observeKnownTail knownTail = s
  simp only [Bool.true_and]
  split
  · next hsealed => exact .failed _ fun _ => hsealed
  · next hopen =>
      have hopen := Bool.of_not_eq_true hopen
      split
      · exact .failed _ nofun
      · next htrim =>
          split
          · next existing hat =>
              split
              · exact .failed _ nofun
              · next heq => exact .kept hopen (not_not.mp heq ▸ (entryAt_some hat).1)
          · next hnone =>
              have hadd : ¬s.lacksPredecessor entry = true →
                  PutEffect s entry (s.insert entry) (.ok ()) := fun hpred =>
                .added hopen (Nat.le_of_not_lt htrim) (entryAt_none hnone)
                  (predecessor_of_not_lacks hpred)
              split
              · exact .failed _ nofun
              · next hpred =>
                  split
                  · split
                    · exact .failed _ nofun
                    · exact hadd hpred
                  · exact hadd hpred

/-- What a put does in either store, after the store has observed the known tail. -/
theorem put_effect (kind : StoreKind) (s : LogletStore) (entry : LogEntry) (knownTail : Nat) :
    PutEffect (s.observeKnownTail knownTail) entry (put kind s entry knownTail).1
      (put kind s entry knownTail).2 := by
  cases kind with
  | memory => exact memory_put_effect s entry knownTail
  | sqlite => exact sqlite_put_effect s entry knownTail

theorem memory_repair_effect (s : LogletStore) (entry : LogEntry) (knownTail : Nat) :
    RepairEffect (s.observeKnownTail knownTail) entry (MemoryLogletStore.repair s entry knownTail).1
      (MemoryLogletStore.repair s entry knownTail).2 := by
  rw [MemoryLogletStore.repair, MemoryLogletStore.write]
  generalize s.observeKnownTail knownTail = s
  split
  · exact .trimmed
  · next htrim =>
      split
      · next existing hat =>
          obtain ⟨hmem, hpos⟩ := entryAt_some hat
          split
          · next hne => exact .conflict _ ⟨existing, hmem, hne, .inl hpos⟩
          · next heq => exact .kept (not_not.mp heq ▸ hmem)
      · next hnone => exact .added (Nat.le_of_not_lt htrim) (entryAt_none hnone)

theorem positionForCommand_some {s : LogletStore} {commandId : String} {p : Nat}
    (h : s.positionForCommand commandId = some p) :
    ∃ e ∈ s.entries, e.commandId = commandId ∧ e.position = p := by
  obtain ⟨e, he, hp⟩ := Option.map_eq_some_iff.mp h
  have hid := List.find?_some he
  exact ⟨e, List.mem_of_find?_eq_some he, of_decide_eq_true hid, hp⟩

theorem sqlite_repair_effect (s : LogletStore) (entry : LogEntry) (knownTail : Nat) :
    RepairEffect (s.observeKnownTail knownTail) entry (SQLiteLogletStore.repair s entry knownTail).1
      (SQLiteLogletStore.repair s entry knownTail).2 := by
  rw [SQLiteLogletStore.repair, SQLiteLogletStore.write]
  generalize s.observeKnownTail knownTail = s
  simp only [Bool.false_and, Bool.false_eq_true, if_false]
  split
  · exact .trimmed
  · next htrim =>
      split
      · next existing hat =>
          obtain ⟨hmem, hpos⟩ := entryAt_some hat
          split
          · next hne => exact .conflict _ ⟨existing, hmem, hne, .inl hpos⟩
          · next heq => exact .kept (not_not.mp heq ▸ hmem)
      · next hnone =>
          have hadd := RepairEffect.added (Nat.le_of_not_lt htrim) (entryAt_none hnone)
          split
          · next commandPosition hcommand =>
              obtain ⟨e, hmem, hid, hpos⟩ := positionForCommand_some hcommand
              split
              · next hne =>
                  exact .conflict _ ⟨e, hmem, fun heq => hne (heq ▸ hpos.symm), .inr hid⟩
              · exact hadd
          · exact hadd

/-- What a repair does in either store. -/
theorem repair_effect (kind : StoreKind) (s : LogletStore) (entry : LogEntry) (knownTail : Nat) :
    RepairEffect (s.observeKnownTail knownTail) entry (repair kind s entry knownTail).1
      (repair kind s entry knownTail).2 := by
  cases kind with
  | memory => exact memory_repair_effect s entry knownTail
  | sqlite => exact sqlite_repair_effect s entry knownTail

theorem PutEffect.advances {s s' : LogletStore} {entry : LogEntry} {r : Except Error Unit}
    (h : PutEffect s entry s' r) : s.Advances s' := by
  cases h with
  | failed e h => exact .refl s
  | kept hopen h => exact .refl s
  | added hopen htrim hfree h => exact s.advances_insert entry

theorem RepairEffect.advances {s s' : LogletStore} {entry : LogEntry} {r : Except Error Unit}
    (h : RepairEffect s entry s' r) : s.Advances s' := by
  cases h with
  | trimmed => exact .refl s
  | conflict e h => exact .refl s
  | kept h => exact .refl s
  | added htrim hfree => exact s.advances_insert entry

/-- No entry stands below the watermark. -/
def Swept (s : LogletStore) : Prop := ∀ e ∈ s.entries, s.trimmedPrefix ≤ e.position

theorem PutEffect.swept {s s' : LogletStore} {entry : LogEntry} {r : Except Error Unit}
    (h : PutEffect s entry s' r) (hs : s.Swept) : s'.Swept := by
  cases h with
  | failed e h => exact hs
  | kept hopen h => exact hs
  | added hopen htrim hfree h =>
      intro e he
      rcases List.mem_append.mp he with he | he
      · exact hs e he
      · rw [List.mem_singleton.mp he]
        exact htrim

theorem RepairEffect.swept {s s' : LogletStore} {entry : LogEntry} {r : Except Error Unit}
    (h : RepairEffect s entry s' r) (hs : s.Swept) : s'.Swept := by
  cases h with
  | trimmed => exact hs
  | conflict e h => exact hs
  | kept h => exact hs
  | added htrim hfree =>
      intro e he
      rcases List.mem_append.mp he with he | he
      · exact hs e he
      · rw [List.mem_singleton.mp he]
        exact htrim

theorem swept_prefixTrim (s : LogletStore) (trimPosition : Nat) :
    (s.prefixTrim trimPosition).1.Swept := by
  intro e he
  exact of_decide_eq_true (List.mem_filter.mp he).2

end LogletStore

end DelosLab.NativeLoglet
