import DelosLab.Async.Sequential
import DelosLab.NativeLoglet.SqlStore

/-!
# Operations of a SQLiteLogletStore, one at a time

Run alone, the statements of an operation do to the rows of its segment what the operation
of the `LogletStore` does, and leave the rows of every other segment as they are. Any
statement but the rollback may be refused; then the operation raises and no row changes.
-/

namespace DelosLab.NativeLoglet.Sql

open Async Async.Coroutine

/-! ## The rows of one segment -/

namespace Tables

theorem entryRow_eq (t : Tables) (segmentId : String) (position n : Nat) :
    t.entryRow segmentId position = (t.store segmentId n).entryAt position := by
  rw [entryRow, LogletStore.entryAt, store, segmentEntries, List.find?_filter]
  congr
  funext e
  simp [Bool.decide_and]

theorem commandRow_eq (t : Tables) (segmentId commandId : String) (n : Nat) :
    (t.commandRow segmentId commandId).map LogEntry.position =
      (t.store segmentId n).positionForCommand commandId := by
  rw [commandRow, LogletStore.positionForCommand, store, segmentEntries, List.find?_filter]
  congr
  funext e
  simp [Bool.decide_and]

/-- The rows of every segment, with the known tails of the process. -/
def rows (t : Tables) (knownTails : String → Nat) (segmentId : String) : LogletStore :=
  t.store segmentId (knownTails segmentId)

variable {t t' : Tables} {k : String → Nat} {segmentId : String}

/-- A change of one segment's rows. -/
theorem rows_eq_update {s : LogletStore} (hown : t'.store segmentId (k segmentId) = s)
    (hothers : ∀ id, id ≠ segmentId → ∀ n, t'.store id n = t.store id n) :
    t'.rows k = Function.update (t.rows k) segmentId s := by
  funext id
  by_cases h : id = segmentId
  · rw [h, Function.update_self]
    exact hown
  · rw [Function.update_of_ne h]
    exact hothers id h _

theorem store_upsert_of_ne {update : SegmentRow → SegmentRow}
    (hid : ∀ r, (update r).segmentId = r.segmentId) {id : String} (h : id ≠ segmentId) (n : Nat) :
    (t.upsert segmentId update).store id n = t.store id n := by
  simp only [store, segmentEntries, entries_upsert, row_upsert hid, if_neg h]

theorem store_upsert {update : SegmentRow → SegmentRow}
    (hid : ∀ r, (update r).segmentId = r.segmentId) (n : Nat) :
    (t.upsert segmentId update).store segmentId n =
      { t.store segmentId n with
        sealed := (update (t.row segmentId)).sealed
        trimmedPrefix := (update (t.row segmentId)).trimmedPrefix } := by
  simp only [store, segmentEntries, entries_upsert, row_upsert hid, if_pos]

/-- A row with the defaults stands for no row. -/
theorem store_upsert_id (other : String) (n : Nat) :
    (t.upsert segmentId id).store other n = t.store other n := by
  by_cases h : other = segmentId
  · subst h
    exact store_upsert (fun _ => rfl) n
  · exact store_upsert_of_ne (fun _ => rfl) h n

theorem rows_upsert {update : SegmentRow → SegmentRow}
    (hid : ∀ r, (update r).segmentId = r.segmentId) :
    (t.upsert segmentId update).rows k = Function.update (t.rows k) segmentId
      { t.rows k segmentId with
        sealed := (update (t.row segmentId)).sealed
        trimmedPrefix := (update (t.row segmentId)).trimmedPrefix } :=
  rows_eq_update (store_upsert hid _) fun _ h n => store_upsert_of_ne hid h n

theorem rows_updateTrimmedPrefix (trimPosition : Nat) :
    (t.upsert segmentId fun r =>
        { r with trimmedPrefix := max r.trimmedPrefix trimPosition }).rows k =
      Function.update (t.rows k) segmentId { t.rows k segmentId with
        trimmedPrefix := max (t.rows k segmentId).trimmedPrefix trimPosition } :=
  rows_upsert fun _ => rfl

theorem rows_deleteEntries (position : Nat) :
    (t.deleteEntries segmentId position).rows k = Function.update (t.rows k) segmentId
      { t.rows k segmentId with
        entries := (t.rows k segmentId).entries.filter fun e => position ≤ e.position } := by
  refine rows_eq_update ?_ fun id h n => ?_
  · have hentries : (t.deleteEntries segmentId position).segmentEntries segmentId =
        (t.segmentEntries segmentId).filter fun e => position ≤ e.position := by
      rw [segmentEntries, deleteEntries, segmentEntries, List.filter_filter, List.filter_filter]
      refine List.filter_congr fun e _ => ?_
      by_cases he : e.segmentId = segmentId
      · simp [he]
      · simp [he]
    rw [store, hentries]
    rfl
  · have hentries : (t.deleteEntries segmentId position).segmentEntries id =
        t.segmentEntries id := by
      rw [segmentEntries, deleteEntries, segmentEntries, List.filter_filter]
      refine List.filter_congr fun e _ => ?_
      by_cases he : e.segmentId = id
      · simp [he, h]
      · simp [he]
    rw [store, hentries]
    rfl

/-- The insertion of an entry for whose keys there is no row. -/
theorem insertEntry_of_none {entry : LogEntry} {n : Nat}
    (hposition : (t.store entry.segmentId n).entryAt entry.position = none)
    (hcommand : (t.store entry.segmentId n).positionForCommand entry.commandId = none) :
    t.insertEntry entry = ({ t with entries := t.entries ++ [entry] }, .ok ()) := by
  rw [← entryRow_eq] at hposition
  rw [← commandRow_eq, Option.map_eq_none_iff] at hcommand
  rw [insertEntry, hposition, hcommand]

theorem rows_insert (entry : LogEntry) :
    ({ t with entries := t.entries ++ [entry] } : Tables).rows k =
      Function.update (t.rows k) entry.segmentId
        ((t.rows k entry.segmentId).insert entry) := by
  refine rows_eq_update ?_ fun id h n => ?_
  · simp [store, segmentEntries, rows, LogletStore.insert, row, segmentRow, List.filter_append]
  · simp [store, segmentEntries, row, segmentRow, List.filter_append, Ne.symm h]

end Tables

/-! ## Running alone -/

/-- A process and which of its next statements are refused. -/
abbrev Script : Type := World × List (Option String)

/-- One task that nothing else interrupts. -/
def scripted : Handler signature Script where
  act := fun s a => (((exec s.1 0 a).1, s.2), (exec s.1 0 a).2)
  wait := fun s e => match e with
    | .acquire =>
        match resume s.1 0 .acquire .done with
        | some (w, r) => ((w, s.2), r)
        | none => (s, .error .cancelled)
    | .execute .rollback => ((s.1.executed 0 .rollback, s.2), .ok ())
    | .execute statement =>
        match s.2 with
        | some message :: rest => ((s.1, rest), .error (.operationalError message))
        | none :: rest => ((s.1.executed 0 statement, rest), (s.1.connection.execute statement).2)
        | [] => ((s.1.executed 0 statement, []), (s.1.connection.execute statement).2)

/-- `p`, from processes that satisfy `P`, whatever statements are refused. -/
abbrev Solo {α : Type} (P : World → Prop) (p : Co α) (Q : World → α → Prop)
    (X : World → StoreError → Prop) : Prop :=
  scripted.Triple (fun s => P s.1) p (fun s a => Q s.1 a) fun s e => X s.1 e

structure Stands (connection : Connection) (lock : Option Nat) (k : String → Nat)
    (w : World) : Prop where
  connection : w.connection = connection
  lock : w.lock = lock
  knownTails : w.knownTails = k

/-- The task is inside the lock. -/
abbrev Inside (connection : Connection) : (String → Nat) → World → Prop :=
  Stands connection (some 0)

/-- Nobody is inside the lock, and `t` is committed. -/
abbrev Idle (t : Tables) : (String → Nat) → World → Prop := Stands (.opened t) none

/-- The task is inside the lock with an error, and `t` is still what is committed. -/
structure Failed (t : Tables) (k : String → Nat) (E : StoreError → Prop) (w : World)
    (e : StoreError) : Prop where
  committed : w.connection.committed = t
  lock : w.lock = some 0
  knownTails : w.knownTails = k
  error : E e

namespace Solo

variable {α β : Type} {t : Tables} {k : String → Nat} {E : StoreError → Prop} {c c' : Connection}

/-- A statement that is not refused does what it does. -/
theorem executed {statement : Statement} {r : statement.Result} {lock : Option Nat}
    (hne : statement ≠ .rollback) (hE : ∀ message, E (.operationalError message))
    (h : c.execute statement = (c', .ok r)) :
    Solo (Stands c lock k) (Sql.execute statement) (fun w a => Stands c' lock k w ∧ a = r)
      fun w e => Stands c lock k w ∧ E e := by
  have hwait : ∀ s : Script, scripted.wait s (.execute statement) =
        ((s.1.executed 0 statement, s.2.tail), (s.1.connection.execute statement).2) ∨
      ∃ message, scripted.wait s (.execute statement) =
        ((s.1, s.2.tail), .error (.operationalError message)) := by
    rintro ⟨w, script⟩
    cases statement <;> first
      | exact absurd rfl hne
      | (cases script with
          | nil => exact .inl rfl
          | cons x rest =>
              cases x with
              | none => exact .inl rfl
              | some message => exact .inr ⟨message, rfl⟩)
  refine .await (fun s s' a hs hr => ?_) fun s s' x hs hr => ?_
  · rcases hwait s with hdone | ⟨message, hrefused⟩
    · rw [hs.connection, h] at hdone
      cases hdone.symm.trans hr
      refine ⟨⟨?_, hs.lock, hs.knownTails⟩, rfl⟩
      show (s.1.connection.execute statement).1 = c'
      rw [hs.connection, h]
    · cases hrefused.symm.trans hr
  · rcases hwait s with hdone | ⟨message, hrefused⟩
    · rw [hs.connection, h] at hdone
      cases hdone.symm.trans hr
    · cases hrefused.symm.trans hr
      exact ⟨hs, hE message⟩

theorem execute {statement : Statement} {r : statement.Result} (hne : statement ≠ .rollback)
    (hc : c.committed = t) (hE : ∀ message, E (.operationalError message))
    (h : c.execute statement = (c', .ok r)) :
    Solo (Inside c k) (Sql.execute statement) (fun w a => Inside c' k w ∧ a = r)
      (Failed t k E) := by
  refine (executed hne hE h).mono (fun _ hs => hs) (fun _ _ hs => hs) fun s e hs => ?_
  exact ⟨by rw [hs.1.connection, hc], hs.1.lock, hs.1.knownTails, hs.2⟩

/-- A step whose result is known goes on with it. -/
theorem seq {P P' : World → Prop} {X : World → StoreError → Prop} {Q : World → β → Prop}
    {p : Co α} {a : α} {f : α → Co β} (h : Solo P p (fun w b => P' w ∧ b = a) X)
    (hf : Solo P' (f a) Q X) : Solo P (p >>= f) Q X := by
  refine .bind h fun b => ?_
  intro s hs
  obtain ⟨hs, rfl⟩ := hs
  exact hf s hs

/-- A check that holds. -/
theorem check {P : World → Prop} {X : World → StoreError → Prop} {p : Prop} [Decidable p]
    {e : StoreError} (hp : p) : Solo P (require p e) (fun w a => P w ∧ a = ()) X :=
  .require (fun _ hs _ => ⟨hs, rfl⟩) fun _ _ hn => absurd hp hn

/-- A check that fails. -/
theorem fails {P : World → Prop} {X : World → StoreError → Prop} {p : Prop} [Decidable p]
    {e : StoreError} {Q : World → β → Prop} {f : Unit → Co β} (hp : ¬p)
    (hx : ∀ w, P w → X w e) : Solo P (require p e >>= f) Q X := by
  rw [require, if_neg hp]
  exact .raise fun s hs => hx s.1 hs

/-- The lock and the transaction around a body: it commits, or it raises and what was
committed stays. -/
theorem transaction {body : Co α} {Q : Tables → α → Prop}
    (hE : ∀ message, E (.operationalError message))
    (hbody : Solo (Inside ⟨t, t, true⟩ k) body
      (fun w a => ∃ t', Inside (.opened t') k w ∧ Q t' a) (Failed t k E)) :
    Solo (Idle t k) (Sql.transaction body) (fun w a => ∃ t', Idle t' k w ∧ Q t' a)
      fun w e => Idle t k w ∧ E e := by
  have hacquire : Solo (Idle t k) (wait .acquire) (fun w _ => Inside (.opened t) k w)
      fun w e => Idle t k w ∧ E e := by
    refine .await (fun s s' a hs hr => ?_) fun s s' x hs hr => ?_
    · have hdone : scripted.wait s .acquire = (({ s.1 with lock := some 0 }, s.2), .ok ()) := by
        simp only [scripted, resume, hs.lock, if_true]
      cases hdone.symm.trans hr
      exact ⟨hs.connection, rfl, hs.knownTails⟩
    · have hdone : scripted.wait s .acquire = (({ s.1 with lock := some 0 }, s.2), .ok ()) := by
        simp only [scripted, resume, hs.lock, if_true]
      cases hdone.symm.trans hr
  have hrollback : Solo (Inside (.opened t) k) (do Sql.execute .begin; orRollback body)
      (fun w a => ∃ t', Inside (.opened t') k w ∧ Q t' a)
      fun w e => Inside (.opened t) k w ∧ E e := by
    refine seq (executed nofun hE rfl) ?_
    refine .handle hbody fun e => ?_
    -- The rollback is not refused.
    refine .bind (Q := fun s _ => Inside (.opened t) k s.1 ∧ E e) ?_ fun _ =>
      .raise fun s hs => hs
    refine .await (fun s s' a hs hr => ?_) fun s s' x hs hr => ?_
    · cases hr
      refine ⟨⟨?_, hs.lock, hs.knownTails⟩, hs.error⟩
      show Connection.opened s.1.connection.committed = .opened t
      rw [hs.committed]
    · cases hr
  refine .bind hacquire fun _ => ?_
  refine .bind (Q := fun s r => match r with
    | .ok a => ∃ t', Inside (.opened t') k s.1 ∧ Q t' a
    | .error e => Inside (.opened t) k s.1 ∧ E e) ?_ fun r => ?_
  · refine .handle (.bind hrollback fun a => .ret fun s hs => hs) fun e => .ret fun s hs => hs
  · cases r with
    | ok a =>
        refine .bind (Q := fun s _ => ∃ t', Idle t' k s.1 ∧ Q t' a) (.perform ?_) fun _ =>
          .ret fun s hs => hs
        rintro s ⟨t', hs, hq⟩
        exact ⟨t', ⟨hs.connection, rfl, hs.knownTails⟩, hq⟩
    | error e =>
        refine .bind (Q := fun s _ => Idle t k s.1 ∧ E e) (.perform ?_) fun _ =>
          .raise fun s hs => hs
        rintro s ⟨hs, he⟩
        exact ⟨⟨hs.connection, rfl, hs.knownTails⟩, he⟩

/-- An error inside the transaction. -/
theorem failed_of_inside {e : StoreError} {w : World} (hc : c.committed = t) (he : E e)
    (h : Inside c k w) : Failed t k E w e :=
  ⟨by rw [h.connection, hc], h.lock, h.knownTails, he⟩

/-! ## What a transaction reads -/

variable {segmentId : String} {T : Tables}

theorem isSealed (hE : ∀ message, E (.operationalError message)) :
    Solo (Inside ⟨t, T, true⟩ k) (Sql.isSealed segmentId)
      (fun w b => Inside ⟨t, T, true⟩ k w ∧ b = (T.rows k segmentId).sealed) (Failed t k E) := by
  refine seq (execute nofun rfl hE rfl) (.ret fun s hs => ⟨hs, ?_⟩)
  rw [Tables.rows, Tables.store, Tables.row]
  cases T.segmentRow segmentId with
  | none => rfl
  | some row => rfl

theorem trimmedPrefix (hE : ∀ message, E (.operationalError message)) :
    Solo (Inside ⟨t, T, true⟩ k) (Sql.trimmedPrefix segmentId)
      (fun w n => Inside ⟨t, T, true⟩ k w ∧ n = (T.rows k segmentId).trimmedPrefix)
      (Failed t k E) := by
  refine seq (execute nofun rfl hE rfl) (.ret fun s hs => ⟨hs, ?_⟩)
  rw [Tables.rows, Tables.store, Tables.row]
  cases T.segmentRow segmentId with
  | none => rfl
  | some row => rfl

theorem entryAt (hE : ∀ message, E (.operationalError message)) (position : Nat) :
    Solo (Inside ⟨t, T, true⟩ k) (Sql.entryAt segmentId position)
      (fun w e => Inside ⟨t, T, true⟩ k w ∧ e = (T.rows k segmentId).entryAt position)
      (Failed t k E) := by
  rw [Tables.rows, ← Tables.entryRow_eq]
  exact execute nofun rfl hE rfl

theorem positionForCommand (hE : ∀ message, E (.operationalError message)) (commandId : String) :
    Solo (Inside ⟨t, T, true⟩ k) (Sql.positionForCommand segmentId commandId)
      (fun w p => Inside ⟨t, T, true⟩ k w ∧ p = (T.rows k segmentId).positionForCommand commandId)
      (Failed t k E) := by
  rw [Tables.rows, ← Tables.commandRow_eq]
  exact execute nofun rfl hE rfl

/-- `p and await q`, where `q` has a known result. -/
theorem andAwait {P : World → Prop} {X : World → StoreError → Prop} {q : Co Bool} {b : Bool}
    (p : Bool) (h : Solo P q (fun w r => P w ∧ r = b) X) :
    Solo P (Sql.andAwait p q) (fun w r => P w ∧ r = (p && b)) X := by
  cases p with
  | true => exact h
  | false => exact .ret fun s hs => ⟨hs, rfl⟩

theorem lacksPredecessor (hE : ∀ message, E (.operationalError message)) (entry : LogEntry) :
    Solo (Inside ⟨t, T, true⟩ k) (Sql.lacksPredecessor entry)
      (fun w b => Inside ⟨t, T, true⟩ k w ∧
        b = (T.rows k entry.segmentId).lacksPredecessor entry) (Failed t k E) := by
  rw [LogletStore.lacksPredecessor, Bool.and_assoc]
  refine andAwait _ (seq (entryAt hE _) ?_)
  cases (T.rows k entry.segmentId).entryAt (entry.position - 1) with
  | some existing => exact .ret fun s hs => ⟨hs, rfl⟩
  | none =>
      have hknown : Solo (Inside ⟨t, T, true⟩ k) (act (.knownTail entry.segmentId))
          (fun w n => Inside ⟨t, T, true⟩ k w ∧ n = k entry.segmentId) (Failed t k E) :=
        .perform fun s hs => ⟨hs, congrFun hs.knownTails _⟩
      exact seq hknown (.ret fun s hs => ⟨hs, (Bool.true_and _).symm⟩)

/-! ## The bodies of the transactions -/

/-- The error is one of the connection, or the operation on the rows raises it as well. -/
def Raises {ρ : Type} (result : Except Error ρ) (e : StoreError) : Prop :=
  (∃ message, e = .operationalError message) ∨ ∃ e', e = .loglet e' ∧ result = .error e'

theorem raises_operational {ρ : Type} (result : Except Error ρ) (message : String) :
    Raises result (.operationalError message) :=
  .inl ⟨message, rfl⟩

theorem commit {Q : Tables → Unit → Prop} (hE : ∀ message, E (.operationalError message))
    (hq : Q T ()) :
    Solo (Inside ⟨t, T, true⟩ k) (Sql.execute .commit)
      (fun w a => ∃ t', Inside (.opened t') k w ∧ Q t' a) (Failed t k E) := by
  have hdone : Solo (Inside ⟨t, T, true⟩ k) (Sql.execute .commit)
      (fun w a => Inside (.opened T) k w ∧ a = ()) (Failed t k E) := execute nofun rfl hE rfl
  exact hdone.mono (fun s hs => hs) (fun s a hs => ⟨T, hs.1, hq⟩) fun s e hs => hs

/-- The last two statements of a write. -/
theorem insertEntry {entry : LogEntry} {Q : Tables → Unit → Prop}
    (hE : ∀ message, E (.operationalError message))
    (hposition : (T.rows k entry.segmentId).entryAt entry.position = none)
    (hcommand : (T.rows k entry.segmentId).positionForCommand entry.commandId = none)
    (hq : ∀ t', t'.rows k = Function.update (T.rows k) entry.segmentId
      ((T.rows k entry.segmentId).insert entry) → Q t' ()) :
    Solo (Inside ⟨t, T, true⟩ k) (do Sql.execute (.insertEntry entry); Sql.execute .commit)
      (fun w a => ∃ t', Inside (.opened t') k w ∧ Q t' a) (Failed t k E) := by
  have hdone : (⟨t, T, true⟩ : Connection).execute (.insertEntry entry) =
      (⟨t, { T with entries := T.entries ++ [entry] }, true⟩, .ok ()) := by
    rw [Connection.execute, Tables.insertEntry_of_none hposition hcommand]
    rfl
  exact seq (execute (by rintro ⟨⟩) rfl hE hdone) (commit hE (hq _ (Tables.rows_insert entry)))

/-- The rows after an operation that does `update` to the rows of one segment. -/
def Updates {ρ : Type} (rows : String → LogletStore) (segmentId : String)
    (update : LogletStore × Except Error ρ) (rows' : String → LogletStore) (a : ρ) : Prop :=
  rows' = Function.update rows segmentId update.1 ∧ update.2 = .ok a

theorem writeBody (entry : LogEntry) (rejectIfSealed requirePredecessor : Bool) :
    Solo (Inside ⟨t, t, true⟩ k) (Sql.writeBody entry rejectIfSealed requirePredecessor)
      (fun w a => ∃ t', Inside (.opened t') k w ∧ Updates (t.rows k) entry.segmentId
        (SQLiteLogletStore.write (t.rows k entry.segmentId) entry rejectIfSealed
          requirePredecessor) (t'.rows k) a)
      (Failed t k (Raises (SQLiteLogletStore.write (t.rows k entry.segmentId) entry
        rejectIfSealed requirePredecessor).2)) := by
  have hE := raises_operational (SQLiteLogletStore.write (t.rows k entry.segmentId) entry
    rejectIfSealed requirePredecessor).2
  -- The inserted row has the defaults, so the rows are those of `t`.
  have hrows : (t.upsert entry.segmentId id).rows k = t.rows k :=
    funext fun other => Tables.store_upsert_id other _
  refine seq (execute nofun rfl hE rfl) ?_
  refine seq (andAwait rejectIfSealed (isSealed hE)) ?_
  rw [hrows]
  have hraise : ∀ {e : Error}, (SQLiteLogletStore.write (t.rows k entry.segmentId) entry
      rejectIfSealed requirePredecessor).2 = .error e → ∀ w,
      Inside ⟨t, t.upsert entry.segmentId id, true⟩ k w →
        Failed t k (Raises (SQLiteLogletStore.write (t.rows k entry.segmentId) entry
          rejectIfSealed requirePredecessor).2) w (.loglet e) :=
    fun he w => failed_of_inside rfl (.inr ⟨_, rfl, he⟩)
  by_cases hsealed : (rejectIfSealed && (t.rows k entry.segmentId).sealed) = true
  · refine fails (by rw [hsealed]; nofun) (hraise ?_)
    rw [SQLiteLogletStore.write, if_pos hsealed]
  refine seq (check (Bool.of_not_eq_true hsealed)) ?_
  refine seq (trimmedPrefix hE) ?_
  rw [hrows]
  by_cases htrimmed : entry.position < (t.rows k entry.segmentId).trimmedPrefix
  · refine fails (Nat.not_le.mpr htrimmed) (hraise ?_)
    rw [SQLiteLogletStore.write, if_neg hsealed, if_pos htrimmed]
  refine seq (check (Nat.not_lt.mp htrimmed)) ?_
  refine seq (entryAt hE _) ?_
  rw [hrows]
  cases hat : (t.rows k entry.segmentId).entryAt entry.position with
  | some existing =>
      by_cases hsame : existing = entry
      · refine seq (check hsame) (commit hE ⟨?_, ?_⟩)
        · rw [hrows, SQLiteLogletStore.write, if_neg hsealed, if_neg htrimmed, hat]
          simp [hsame]
        · rw [SQLiteLogletStore.write, if_neg hsealed, if_neg htrimmed, hat]
          simp [hsame]
      · refine fails hsame (hraise ?_)
        rw [SQLiteLogletStore.write, if_neg hsealed, if_neg htrimmed, hat]
        simp [hsame]
  | none =>
      refine seq (andAwait requirePredecessor (lacksPredecessor hE entry)) ?_
      rw [hrows]
      by_cases hlacking : (requirePredecessor &&
          (t.rows k entry.segmentId).lacksPredecessor entry) = true
      · refine fails (by rw [hlacking]; nofun) (hraise ?_)
        rw [SQLiteLogletStore.write, if_neg hsealed, if_neg htrimmed, hat]
        simp only [if_pos hlacking]
      refine seq (check (Bool.of_not_eq_true hlacking)) ?_
      refine seq (positionForCommand hE _) ?_
      rw [hrows]
      cases hcommand : (t.rows k entry.segmentId).positionForCommand entry.commandId with
      | some commandPosition =>
          -- The command has another position, for there is no entry at this one.
          have hother : commandPosition ≠ entry.position := by
            obtain ⟨e, he, -, hpos⟩ := LogletStore.positionForCommand_some hcommand
            rw [← hpos]
            exact LogletStore.entryAt_none hat e he
          refine fails hother (hraise ?_)
          rw [SQLiteLogletStore.write, if_neg hsealed, if_neg htrimmed, hat, hcommand]
          simp only [if_neg hlacking, if_pos hother]
      | none =>
          refine seq (.ret fun s hs => ⟨hs, rfl⟩) (insertEntry hE ?_ ?_ fun t' ht' => ⟨?_, ?_⟩)
          · rw [hrows, hat]
          · rw [hrows, hcommand]
          · rw [ht', hrows, SQLiteLogletStore.write, if_neg hsealed, if_neg htrimmed, hat,
              hcommand]
            simp only [if_neg hlacking]
          · rw [SQLiteLogletStore.write, if_neg hsealed, if_neg htrimmed, hat, hcommand]
            simp only [if_neg hlacking]

theorem prefixTrimBody (segmentId : String) (trimPosition : Nat) :
    Solo (Inside ⟨t, t, true⟩ k) (Sql.prefixTrimBody segmentId trimPosition)
      (fun w a => ∃ t', Inside (.opened t') k w ∧
        t'.rows k = Function.update (t.rows k) segmentId
          ((t.rows k segmentId).prefixTrim trimPosition).1 ∧
        a = ((t.rows k segmentId).prefixTrim trimPosition).2)
      (Failed t k fun e => ∃ message, e = .operationalError message) := by
  have hE : ∀ message, ∃ message', StoreError.operationalError message =
      .operationalError message' := fun message => ⟨message, rfl⟩
  refine seq (execute nofun rfl hE rfl) ?_
  refine seq (trimmedPrefix hE) ?_
  refine seq (execute nofun rfl hE rfl) ?_
  have htrimmed : ((t.upsert segmentId fun r =>
      { r with trimmedPrefix := max r.trimmedPrefix trimPosition }).rows k
        segmentId).trimmedPrefix = ((t.rows k segmentId).prefixTrim trimPosition).2 := by
    rw [Tables.rows_updateTrimmedPrefix, Function.update_self]
    rfl
  rw [htrimmed]
  refine .bind (commit (Q := fun t' _ => t'.rows k = Function.update (t.rows k) segmentId
    ((t.rows k segmentId).prefixTrim trimPosition).1) hE ?_) fun _ => .ret ?_
  · rw [Tables.rows_deleteEntries]
    simp only [Tables.rows_updateTrimmedPrefix, Function.update_self, Function.update_idem]
    rfl
  · rintro s ⟨t', hs, hrows⟩
    exact ⟨t', hs, hrows, rfl⟩

theorem sealBody (segmentId : String) :
    Solo (Inside ⟨t, t, true⟩ k) (do Sql.execute (.updateSealed segmentId); Sql.execute .commit)
      (fun w _ => ∃ t', Inside (.opened t') k w ∧
        t'.rows k = Function.update (t.rows k) segmentId
          { t.rows k segmentId with sealed := true })
      (Failed t k fun e => ∃ message, e = .operationalError message) := by
  have hE : ∀ message, ∃ message', StoreError.operationalError message =
      .operationalError message' := fun message => ⟨message, rfl⟩
  refine seq (execute nofun rfl hE rfl) (commit hE ?_)
  exact Tables.rows_upsert fun _ => rfl

end Solo

end DelosLab.NativeLoglet.Sql
