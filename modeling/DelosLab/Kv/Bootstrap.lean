import DelosLab.Kv.ExactlyOnce
import DelosLab.Kv.Sessions

/-!
# Starting a replica from a snapshot

A store that has applied the log through any position exports a valid snapshot; a pristine
store that installs it goes on like the one that exported it. An installation that does not
succeed has changed nothing.
-/

namespace DelosLab.Kv

open Async Async.Coroutine

variable {digest : KvSnapshotData → String}

/-! ## Tables that say the same -/

namespace Tables

/-- The same values, requests with results and first positions, entries and progress; the
requests may stand in another order. -/
structure Same (t t' : Tables) : Prop where
  items : t'.items = t.items
  requests : t'.requests.Perm t.requests
  appliedEntries : t'.appliedEntries = t.appliedEntries
  appliedPosition : t'.appliedPosition = t.appliedPosition

variable {t t' : Tables} {p : Nat} {c : KvCommandEnvelope}

/-- With distinct keys a lookup finds the row of its key. -/
theorem requestRow_eq_some (h : (t.requests.map KvRequestRow.key).Nodup) {key : String × String}
    {row : KvRequestRow} : t.requestRow key = some row ↔ row ∈ t.requests ∧ row.key = key := by
  unfold requestRow
  constructor
  · intro hfind
    exact ⟨List.mem_of_find?_eq_some hfind, by simpa using List.find?_some hfind⟩
  · rintro ⟨hrow, hkey⟩
    cases hfind : t.requests.find? fun row => decide (row.key = key) with
    | none => exact absurd (decide_eq_true hkey) (List.find?_eq_none.mp hfind row hrow)
    | some found =>
        have hfound : found.key = key := by simpa using List.find?_some hfind
        rw [List.inj_on_of_nodup_map h (List.mem_of_find?_eq_some hfind) hrow
          (hfound.trans hkey.symm)]

namespace Same

/-- Lookups do not see the order of the requests. -/
theorem requestRow (h : t.Same t') (ht : t.WellFormed) (key : String × String) :
    t'.requestRow key = t.requestRow key := by
  have hnodup : (t'.requests.map KvRequestRow.key).Nodup :=
    (h.requests.map _).nodup_iff.mpr ht.distinct
  ext row
  rw [requestRow_eq_some hnodup, requestRow_eq_some ht.distinct, h.requests.mem_iff]

theorem request (h : t.Same t') (ht : t.WellFormed) (key : String × String) :
    t'.request key = t.request key := by
  unfold Tables.request
  rw [h.requestRow ht]

theorem entryAt (h : t.Same t') (p : Nat) : t'.entryAt p = t.entryAt p := by
  unfold Tables.entryAt entryRow
  rw [h.appliedEntries]

theorem wellFormed (h : t.Same t') (ht : t.WellFormed) : t'.WellFormed := by
  constructor
  · rw [h.appliedPosition]
    exact ht.low
  · rw [h.appliedEntries]
    exact ht.ordered
  · rw [h.appliedEntries, h.appliedPosition]
    exact ht.last
  · intro hposition
    rw [h.appliedPosition] at hposition
    have hempty := ht.unapplied hposition
    subst hempty
    obtain ⟨hitems, hrequests, hentries, happlied⟩ := h
    cases t'
    subst hitems hentries happlied
    obtain rfl := hrequests.eq_nil
    rfl
  · rw [h.appliedEntries, h.appliedPosition]
    exact ht.applied
  · exact (h.requests.map _).nodup_iff.mpr ht.distinct
  · intro row hrow
    rw [h.appliedPosition]
    exact ht.first row (h.requests.mem_iff.mp hrow)
  · intro row hrow
    exact ht.named row (h.requests.mem_iff.mp hrow)

/-- A transaction of `apply` on both sides. -/
theorem applied (h : t.Same t') (ht : t.WellFormed) (p : Nat) (c : KvCommandEnvelope) :
    (t.applied p c).1.Same (t'.applied p c).1 ∧ (t'.applied p c).2 = (t.applied p c).2 := by
  unfold Tables.applied
  rw [h.request ht]
  cases t.request c.identity with
  | some prior =>
      refine ⟨⟨h.items, h.requests, ?_, rfl⟩, rfl⟩
      simp only [h.appliedEntries]
  | none =>
      simp only [h.items, h.appliedEntries]
      exact ⟨⟨rfl, h.requests.append_right _, rfl, rfl⟩, trivial⟩

/-- **The simulation of `apply`**: the same outcome, and tables that say the same. -/
theorem outcome (h : t.Same t') (ht : t.WellFormed) (p : Nat) (c : KvCommandEnvelope) :
    (t.outcome p c).1.Same (t'.outcome p c).1 ∧ (t'.outcome p c).2 = (t.outcome p c).2 := by
  obtain ⟨happlied, hresult⟩ := h.applied ht p c
  unfold Tables.outcome
  rw [h.appliedPosition, h.entryAt, h.request ht]
  by_cases hp : (p : Int) ≤ t.appliedPosition
  · rw [if_pos hp, if_pos hp]
    cases t.entryAt p with
    | none => exact ⟨h, rfl⟩
    | some row => exact ⟨h, rfl⟩
  · rw [if_neg hp, if_neg hp]
    cases t.request c.identity with
    | none => exact ⟨happlied, congrArg Except.ok hresult⟩
    | some prior =>
        by_cases heq : prior.1 = c
        · simp only [heq, if_true]
          exact ⟨happlied, congrArg Except.ok hresult⟩
        · simp only [heq, if_false]
          exact ⟨h, trivial⟩

end Same

end Tables

/-! ## Applying a log -/

/-- Apply the entries of a log one after the other, and collect what each one comes to. -/
def applyAll : List (Nat × KvCommandEnvelope) → Co (List (Except Error KvResult))
  | [] => ret []
  | (position, command) :: log => do
      let outcome ← handle (do
        let result ← SQLiteKvStore.apply position command
        ret (Except.ok result)) fun e => ret (Except.error e)
      let outcomes ← applyAll log
      ret (outcome :: outcomes)

namespace Tables

/-- The tables and the outcomes that a log leads to. -/
def outcomes (t : Tables) : List (Nat × KvCommandEnvelope) → Tables × List (Except Error KvResult)
  | [] => (t, [])
  | (position, command) :: log =>
      let rest := (t.outcome position command).1.outcomes log
      (rest.1, (t.outcome position command).2 :: rest.2)

variable {t t' : Tables}

theorem WellFormed.outcomes (ht : t.WellFormed) (log : List (Nat × KvCommandEnvelope)) :
    (t.outcomes log).1.WellFormed := by
  induction log generalizing t with
  | nil => exact ht
  | cons entry log ih => exact ih (ht.outcome entry.1 entry.2)

theorem run_applyAll (ht : t.WellFormed) (log : List (Nat × KvCommandEnvelope)) :
    direct.run (.opened t) (applyAll log) =
      (.opened (t.outcomes log).1, .ok (t.outcomes log).2) := by
  induction log generalizing t with
  | nil => rfl
  | cons entry log ih =>
      obtain ⟨p, c⟩ := entry
      have houtcome : direct.run (.opened t) (handle (do
          let result ← SQLiteKvStore.apply p c
          ret (Except.ok result)) fun e => ret (Except.error e)) =
          (.opened (t.outcome p c).1, .ok (t.outcome p c).2) := by
        rw [Handler.run_handle, Handler.run_bind, run_apply ht]
        cases (t.outcome p c).2 <;> rfl
      unfold applyAll
      rw [Handler.run_bind_ok houtcome, Handler.run_bind_ok (ih (ht.outcome p c))]
      rfl

theorem outcomes_append (log rest : List (Nat × KvCommandEnvelope)) :
    t.outcomes (log ++ rest) =
      (((t.outcomes log).1.outcomes rest).1,
        (t.outcomes log).2 ++ ((t.outcomes log).1.outcomes rest).2) := by
  induction log generalizing t with
  | nil => rfl
  | cons entry log ih =>
      simp only [List.cons_append, Tables.outcomes, ih]

/-- Two stores that say the same go through every log alike. -/
theorem Same.outcomes (h : t.Same t') (ht : t.WellFormed) (log : List (Nat × KvCommandEnvelope)) :
    (t.outcomes log).1.Same (t'.outcomes log).1 ∧ (t'.outcomes log).2 = (t.outcomes log).2 := by
  induction log generalizing t t' with
  | nil => exact ⟨h, rfl⟩
  | cons entry log ih =>
      obtain ⟨hsame, houtcome⟩ := h.outcome ht entry.1 entry.2
      obtain ⟨hrest, hresults⟩ := ih hsame (ht.outcome entry.1 entry.2)
      refine ⟨hrest, ?_⟩
      simp only [Tables.outcomes, houtcome, hresults]

end Tables

/-! ## Export -/

/-- The rows of the requests are all fit for a snapshot. -/
theorem mapM_ofRow {rows : List KvRequestRow}
    (h : ∀ row ∈ rows, row.clientId ≠ "" ∧ row.requestId ≠ "") :
    ∃ requests, rows.mapM SnapshotRequest.ofRow = some requests ∧
      requests.map SnapshotRequest.row = rows := by
  induction rows with
  | nil => exact ⟨[], rfl, rfl⟩
  | cons row rows ih =>
      obtain ⟨requests, hrequests, hrows⟩ := ih fun r hr => h r (List.mem_cons_of_mem _ hr)
      have hnamed := h row List.mem_cons_self
      refine ⟨⟨⟨row.clientId, hnamed.1⟩, ⟨row.requestId, hnamed.2⟩, row.command, row.result,
        row.firstPosition⟩ :: requests, ?_, ?_⟩
      · simp [List.mapM_cons, SnapshotRequest.ofRow, hnamed, hrequests]
      · simp [SnapshotRequest.row, hrows]

theorem map_row_ofRow (rows : List KvAppliedRow) :
    (rows.map SnapshotAppliedEntry.ofRow).map SnapshotAppliedEntry.row = rows := by
  rw [List.map_map]
  exact List.map_id _

namespace Tables

variable {t : Tables}

/-- The entries of a well-formed store are in the order of their positions. -/
theorem WellFormed.selectEntries (ht : t.WellFormed) :
    t.appliedEntries.mergeSort entryLE = t.appliedEntries := by
  apply List.mergeSort_of_pairwise
  refine (List.pairwise_map.mp ht.ordered).imp fun hlt => ?_
  exact decide_eq_true (Nat.le_of_lt hlt)

/-- **What a well-formed store exports passes the validation of its progress.** -/
theorem WellFormed.progress (ht : t.WellFormed) {requests : List SnapshotRequest}
    (hrequests : (requests.map SnapshotRequest.row).Perm t.requests) :
    validateProgress t.appliedPosition t.items requests
      (t.appliedEntries.map SnapshotAppliedEntry.ofRow) = .ok () := by
  have hpositions : (t.appliedEntries.map SnapshotAppliedEntry.ofRow).map
      SnapshotAppliedEntry.position = t.appliedEntries.map KvAppliedRow.position := by
    rw [List.map_map]
    rfl
  have hsorted : (t.appliedEntries.map KvAppliedRow.position).dedup.insertionSort (· ≤ ·) =
      t.appliedEntries.map KvAppliedRow.position := by
    have hnodup : (t.appliedEntries.map KvAppliedRow.position).Nodup := ht.ordered.imp Nat.ne_of_lt
    rw [hnodup.dedup]
    exact (ht.ordered.imp Nat.le_of_lt).insertionSort_eq
  have hfirst : requests.any (fun request => decide (t.appliedPosition < request.firstPosition)) =
      false := by
    rw [List.any_eq_false]
    intro request hrequest hlt
    have hmem := hrequests.mem_iff.mp (List.mem_map_of_mem hrequest)
    exact Int.not_lt.mpr (ht.first _ hmem) (of_decide_eq_true hlt)
  unfold validateProgress
  simp only [hpositions, hsorted, ne_eq, not_true_eq_false, if_false]
  by_cases hposition : t.appliedPosition = -1
  · -- Nothing has been applied.
    have hempty := ht.unapplied hposition
    subst hempty
    have hnone : requests = [] := List.map_eq_nil_iff.mp (List.Perm.eq_nil hrequests)
    simp [hnone, empty]
  · rw [if_neg hposition, if_neg (not_not_intro (ht.last hposition)), hfirst]
    rfl

end Tables

theorem run_exportRows (t : Tables) :
    direct.run (.opened t) SQLiteKvStore.exportRows =
      (.opened t, .ok ⟨t.items, t.appliedPosition, t.requests.mergeSort requestLE,
        t.appliedEntries.mergeSort entryLE⟩) := by
  unfold SQLiteKvStore.exportRows
  rw [run_transaction]
  apply run_orRollback_ok
  simp [SQLiteKvStore.snapshot, SQLiteKvStore.appliedPosition, Handler.run_bind, Connection.began]

/-- A snapshot says what the tables say. -/
structure KvSnapshotData.Of (data : KvSnapshotData) (t : Tables) : Prop where
  values : data.values = t.items
  requests : (data.requests.map SnapshotRequest.row).Perm t.requests
  appliedEntries : data.appliedEntries.map SnapshotAppliedEntry.row = t.appliedEntries
  appliedPosition : data.appliedPosition = t.appliedPosition

/-- **An export of a well-formed store is a valid snapshot.** -/
theorem run_exportSnapshot (hdigest : ∀ data, IsSha256 (digest data)) {t : Tables}
    (ht : t.WellFormed) : ∃ snapshot : KvSnapshot digest,
      direct.run (.opened t) (SQLiteKvStore.exportSnapshot digest) = (.opened t, .ok snapshot) ∧
        snapshot.data.Of t := by
  have hperm : (t.requests.mergeSort requestLE).Perm t.requests := List.mergeSort_perm _ _
  have hnamed : ∀ row ∈ t.requests.mergeSort requestLE, row.clientId ≠ "" ∧ row.requestId ≠ "" :=
    fun row hrow => ht.named row (hperm.mem_iff.mp hrow)
  obtain ⟨requests, hrequests, hrows⟩ := mapM_ofRow hnamed
  have hprogress := ht.progress (hrows ▸ hperm)
  let data : KvSnapshotData := ⟨t.appliedPosition, t.items, requests,
    t.appliedEntries.map SnapshotAppliedEntry.ofRow, ht.low, hprogress⟩
  refine ⟨⟨data, digest data, hdigest data, rfl⟩, ?_, ⟨rfl, hrows ▸ hperm, map_row_ofRow _, rfl⟩⟩
  have hcreate : KvSnapshotData.create t.appliedPosition t.items requests
      (t.appliedEntries.map SnapshotAppliedEntry.ofRow) = .ok data := by
    unfold KvSnapshotData.create
    rw [dif_pos ht.low]
    split
    · rfl
    · next e he =>
        rw [hprogress] at he
        cases he
  have hsnapshot : KvSnapshot.create digest data = .ok ⟨data, digest data, hdigest data, rfl⟩ := by
    unfold KvSnapshot.create KvSnapshot.validate
    rw [dif_pos (hdigest data), dif_pos rfl]
  unfold SQLiteKvStore.exportSnapshot
  rw [Handler.run_bind_ok (run_exportRows t)]
  simp only [hrequests, ht.selectEntries, orRaise, hcreate, Coroutine.ofExcept, ret_bind, hsnapshot,
    Handler.run_ret]

/-! ## Installation -/

/-- What a snapshot restores. -/
def KvSnapshotData.tables (data : KvSnapshotData) : Tables :=
  ⟨data.values, data.requests.map SnapshotRequest.row,
    data.appliedEntries.map SnapshotAppliedEntry.row, data.appliedPosition⟩

theorem KvSnapshotData.Of.same {data : KvSnapshotData} {t : Tables} (h : data.Of t) :
    t.Same data.tables :=
  ⟨h.values, h.requests, h.appliedEntries, h.appliedPosition⟩

namespace Tables

variable {t : Tables} {Row : Type} {insert : Tables → Row → Tables × Except Error Unit}
  {added : Tables → List Row → Tables}

/-- Rows that are free to be inserted are all inserted. -/
theorem insertMany_free (hnil : ∀ t, added t [] = t)
    (hcons : ∀ t row rows, added (added t [row]) rows = added t (row :: rows))
    {F : Tables → List Row → Prop}
    (hfree : ∀ t row rows, F t (row :: rows) →
      insert t row = (added t [row], .ok ()) ∧ F (added t [row]) rows)
    {rows : List Row} (h : F t rows) : t.insertMany insert rows = (added t rows, .ok ()) := by
  induction rows generalizing t with
  | nil =>
      rw [hnil]
      rfl
  | cons row rows ih =>
      obtain ⟨hrow, hrows⟩ := hfree t row rows h
      unfold insertMany
      rw [hrow]
      exact (ih hrows).trans (by rw [hcons])

/-- An `executemany` that succeeds has inserted all its rows. -/
theorem insertMany_ok (hnil : ∀ t, added t [] = t)
    (hcons : ∀ t row rows, added (added t [row]) rows = added t (row :: rows))
    (hinsert : ∀ t row t', insert t row = (t', .ok ()) → t' = added t [row])
    {rows : List Row} {t' : Tables} (h : t.insertMany insert rows = (t', .ok ())) :
    t' = added t rows := by
  induction rows generalizing t with
  | nil =>
      obtain ⟨rfl, -⟩ := Prod.mk.inj h
      exact (hnil _).symm
  | cons row rows ih =>
      unfold insertMany at h
      cases hrow : insert t row with
      | mk t₁ answer =>
          rw [hrow] at h
          cases answer with
          | ok _ =>
              obtain rfl := hinsert t row t₁ hrow
              exact (ih h).trans (hcons t row rows)
          | error e => cases h

/-- The tables with more requests, or with more applied entries. -/
def addRequests (t : Tables) (rows : List KvRequestRow) : Tables :=
  { t with requests := t.requests ++ rows }

def addEntries (t : Tables) (rows : List KvAppliedRow) : Tables :=
  { t with appliedEntries := t.appliedEntries ++ rows }

theorem addRequests_nil (t : Tables) : t.addRequests [] = t := by
  unfold addRequests
  rw [List.append_nil]

theorem addEntries_nil (t : Tables) : t.addEntries [] = t := by
  unfold addEntries
  rw [List.append_nil]

theorem addRequests_cons (t : Tables) (row : KvRequestRow) (rows : List KvRequestRow) :
    (t.addRequests [row]).addRequests rows = t.addRequests (row :: rows) := by
  unfold addRequests
  rw [List.append_assoc]
  rfl

theorem addEntries_cons (t : Tables) (row : KvAppliedRow) (rows : List KvAppliedRow) :
    (t.addEntries [row]).addEntries rows = t.addEntries (row :: rows) := by
  unfold addEntries
  rw [List.append_assoc]
  rfl

/-- Rows with new keys can be inserted. -/
theorem insertRequests_free {rows : List KvRequestRow}
    (h : ((t.requests ++ rows).map KvRequestRow.key).Nodup) :
    t.insertMany insertRequest rows = (t.addRequests rows, .ok ()) := by
  refine insertMany_free addRequests_nil addRequests_cons
    (F := fun t rows => ((t.requests ++ rows).map KvRequestRow.key).Nodup) ?_ h
  intro t row rows hnodup
  refine ⟨?_, ?_⟩
  · have hnone : t.requestRow row.key = none := by
      apply List.find?_eq_none.mpr
      intro old hold heq
      rw [List.map_append, List.nodup_append] at hnodup
      exact hnodup.2.2 _ (List.mem_map_of_mem hold) _ (List.mem_map_of_mem List.mem_cons_self)
        (of_decide_eq_true heq)
    unfold insertRequest
    rw [hnone]
    rfl
  · show ((t.requests ++ [row] ++ rows).map KvRequestRow.key).Nodup
    rw [List.append_assoc]
    exact hnodup

theorem insertEntries_free {rows : List KvAppliedRow}
    (h : ((t.appliedEntries ++ rows).map KvAppliedRow.position).Nodup) :
    t.insertMany insertEntry rows = (t.addEntries rows, .ok ()) := by
  refine insertMany_free addEntries_nil addEntries_cons
    (F := fun t rows => ((t.appliedEntries ++ rows).map KvAppliedRow.position).Nodup) ?_ h
  intro t row rows hnodup
  refine ⟨?_, ?_⟩
  · have hnone : t.entryRow row.position = none := by
      apply List.find?_eq_none.mpr
      intro old hold heq
      rw [List.map_append, List.nodup_append] at hnodup
      exact hnodup.2.2 _ (List.mem_map_of_mem hold) _ (List.mem_map_of_mem List.mem_cons_self)
        (of_decide_eq_true heq)
    unfold insertEntry
    rw [hnone]
    rfl
  · show ((t.appliedEntries ++ [row] ++ rows).map KvAppliedRow.position).Nodup
    rw [List.append_assoc]
    exact hnodup

end Tables

theorem KvSnapshot.validate_self (snapshot : KvSnapshot digest) :
    KvSnapshot.validate digest snapshot.data snapshot.sha256 = .ok snapshot := by
  unfold KvSnapshot.validate
  rw [dif_pos snapshot.pattern, dif_pos snapshot.checksum]

/-- **A pristine store installs the snapshot of a well-formed one.** -/
theorem run_installSnapshot {t : Tables} (ht : t.WellFormed) {snapshot : KvSnapshot digest}
    (h : snapshot.data.Of t) :
    direct.run (.opened .empty) (SQLiteKvStore.installSnapshot snapshot) =
      (.opened snapshot.data.tables, .ok ()) := by
  have hkeys : ((snapshot.data.requests.map SnapshotRequest.row).map KvRequestRow.key).Nodup :=
    (h.requests.map _).nodup_iff.mpr ht.distinct
  have hpositions : ((snapshot.data.appliedEntries.map SnapshotAppliedEntry.row).map
      KvAppliedRow.position).Nodup := by
    rw [h.appliedEntries]
    exact ht.ordered.imp Nat.ne_of_lt
  have hrequests : ∀ items position, (⟨items, [], [], position⟩ : Tables).insertMany
      Tables.insertRequest (snapshot.data.requests.map SnapshotRequest.row) =
        (⟨items, snapshot.data.requests.map SnapshotRequest.row, [], position⟩, .ok ()) :=
    fun _ _ => Tables.insertRequests_free hkeys
  have hentries : ∀ items requests position, (⟨items, requests, [], position⟩ : Tables).insertMany
      Tables.insertEntry (snapshot.data.appliedEntries.map SnapshotAppliedEntry.row) =
        (⟨items, requests, snapshot.data.appliedEntries.map SnapshotAppliedEntry.row, position⟩,
          .ok ()) :=
    fun _ _ _ => Tables.insertEntries_free hpositions
  have hlow : ¬snapshot.data.appliedPosition < -1 := Int.not_lt.mpr snapshot.data.low
  unfold SQLiteKvStore.installSnapshot SQLiteKvStore.restoreSnapshot
  rw [snapshot.validate_self]
  show direct.run (.opened .empty) (withLock .store do
    execute .begin
    SQLiteKvStore.orRollback _) = _
  rw [run_transaction]
  apply run_orRollback_ok
  simp [SQLiteKvStore.requirePristine, SQLiteKvStore.isPristine, SQLiteKvStore.pristineTables,
    SQLiteKvStore.appliedPosition, SQLiteKvStore.restoreRows, SQLiteKvStore.deleteTables,
    SQLiteKvStore.deleteTable, Handler.run_bind, Connection.began, Tables.empty, Tables.occupied,
    Coroutine.require, Connection.write, Tables.insertItems, hrequests, hentries,
    Tables.updateProgress, hlow, KvSnapshotData.tables]

/-! ## Failing statements -/

/-- A store without progress and without rows is pristine. -/
theorem Tables.eq_empty {t : Tables} (hposition : t.appliedPosition = -1)
    (h : ∀ table, t.occupied table = false) : t = .empty := by
  have hitems : t.items = ∅ := by simpa [occupied] using h .items
  have hrequests : t.requests = [] := by simpa [occupied] using h .requests
  have hentries : t.appliedEntries = [] := by simpa [occupied] using h .appliedEntries
  cases t
  subst hposition hitems hrequests hentries
  rfl

section Faulty

variable {script : Script} {t : Tables} {k : Connection}

/-- No statement has failed, and the connection is `k`. -/
def At (k : Connection) (s : Session) : Prop := s.connection = k ∧ s.failed = []

/-- What is committed is still `t`, and the rollback has not failed. -/
def Undone (t : Tables) (s : Session) (_ : Error) : Prop :=
  s.connection.committed = t ∧ .rollback ∉ s.failed

theorem Connection.fail_committed (k : Connection) (left : Tables) (s : Statement) :
    (k.fail left s).committed = k.committed := by
  cases s <;> rfl

theorem run_faulty (session : Session) (s : Statement) :
    (faulty script).run session (execute s) = session.sql script s := by
  show (faulty script).run (session.sql script s).1
    (Coroutine.ofExcept (session.sql script s).2) = _
  cases h : session.sql script s with
  | mk session' answer => cases answer <;> rfl

/-- A statement succeeds, or what is committed stays. -/
theorem faulty_execute {s : Statement} (hs : s ≠ .rollback) :
    (faulty script).Triple (At k) (execute s)
      (fun session a => At (k.execute s).1 session ∧ (k.execute s).2 = .ok a)
      (Undone k.committed) := by
  rintro session ⟨hk, hfailed⟩
  rw [run_faulty]
  unfold Session.sql
  rw [hk, hfailed]
  cases script session.ran s with
  | some failure =>
      refine ⟨Connection.fail_committed k _ s, ?_⟩
      simpa using hs.symm
  | none =>
      simp only
      cases hanswer : (k.execute s).2 with
      | ok a => exact ⟨⟨rfl, rfl⟩, rfl⟩
      | error e =>
          refine ⟨?_, List.not_mem_nil⟩
          rcases Connection.execute_committed k s with hc | rfl
          · exact hc
          · cases hanswer

theorem faulty_require {p : Prop} [Decidable p] {e : Error} :
    (faulty script).Triple (At k) (Coroutine.require p e) (fun session _ => At k session ∧ p)
      (Undone k.committed) := by
  rintro session ⟨rfl, hfailed⟩
  unfold Coroutine.require
  by_cases h : p
  · rw [if_pos h]
    exact ⟨⟨rfl, hfailed⟩, h⟩
  · rw [if_neg h]
    refine ⟨rfl, ?_⟩
    rw [hfailed]
    exact List.not_mem_nil

/-- A table that is found empty is empty. -/
theorem faulty_pristineTables (tables : List Table) :
    (faulty script).Triple (At k) (SQLiteKvStore.pristineTables tables)
      (fun session pristine => At k session ∧
        (pristine = true → ∀ table ∈ tables, k.working.occupied table = false))
      (Undone k.committed) := by
  induction tables with
  | nil => exact .ret fun session h => ⟨h, nofun⟩
  | cons table tables ih =>
      refine .bind (faulty_execute (s := .selectAny table) nofun) fun found => .given fun hfound => ?_
      obtain rfl : k.working.occupied table = found := Except.ok.inj hfound
      cases hoccupied : k.working.occupied table with
      | true => exact .ret fun session h => ⟨h, nofun⟩
      | false =>
          refine ih.mono (fun _ h => h) (fun session pristine h => ⟨h.1, fun hp other hother => ?_⟩)
            fun _ _ h => h
          rcases List.mem_cons.mp hother with rfl | hother
          · exact hoccupied
          · exact h.2 hp other hother

theorem faulty_requirePristine :
    (faulty script).Triple (At k) SQLiteKvStore.requirePristine
      (fun session _ => At k session ∧ k.working = .empty) (Undone k.committed) := by
  have hpristine : (faulty script).Triple (At k) SQLiteKvStore.isPristine
      (fun session pristine => At k session ∧ (pristine = true → k.working = .empty))
      (Undone k.committed) := by
    refine .bind (faulty_execute (s := .selectProgress) nofun) fun position => .given fun hposition => ?_
    obtain rfl : k.working.appliedPosition = position := Except.ok.inj hposition
    by_cases hne : k.working.appliedPosition ≠ -1
    · rw [if_pos hne]
      exact .ret fun session h => ⟨h, nofun⟩
    · rw [if_neg hne]
      refine (faulty_pristineTables _).mono (fun _ h => h) (fun session pristine h => ⟨h.1, fun hp => ?_⟩)
        fun _ _ h => h
      exact Tables.eq_empty (not_not.mp hne) fun table => h.2 hp table (by cases table <;> simp)
  refine .bind hpristine fun pristine => .given fun hempty => ?_
  refine faulty_require.mono (fun _ h => h) (fun session _ h => ⟨h.1, hempty h.2⟩) fun _ _ h => h

theorem faulty_deleteTables :
    (faulty script).Triple (At k) (SQLiteKvStore.deleteTables [.items, .requests, .appliedEntries])
      (fun session _ => At ⟨k.committed, ⟨∅, [], [], k.working.appliedPosition⟩, k.inTransaction,
        true⟩ session) (Undone k.committed) := by
  refine .bind (faulty_execute (s := .deleteItems) nofun) fun _ => .given fun _ => ?_
  refine .bind (faulty_execute (s := .deleteRequests) nofun) fun _ => .given fun _ => ?_
  refine .bind (faulty_execute (s := .deleteEntries) nofun) fun _ => .given fun _ => ?_
  exact .ret fun _ h => h

/-- The rows of a snapshot replace what the transaction sees, and are committed. -/
theorem faulty_restoreRows (data : KvSnapshotData) :
    (faulty script).Triple (At k) (SQLiteKvStore.restoreRows data)
      (fun session _ => At (.opened data.tables) session) (Undone k.committed) := by
  refine .bind faulty_deleteTables fun _ => ?_
  refine .bind (faulty_execute (s := .insertItems data.values) nofun) fun _ => .given fun _ => ?_
  let t₁ : Tables := ⟨data.values ∪ ∅, [], [], k.working.appliedPosition⟩
  refine .bind (faulty_execute (s := .insertRequests (data.requests.map SnapshotRequest.row)) nofun)
    fun _ => .given fun hrequests => ?_
  let t₂ := (t₁.insertMany Tables.insertRequest (data.requests.map SnapshotRequest.row)).1
  have ht₂ : t₂ = t₁.addRequests (data.requests.map SnapshotRequest.row) :=
    Tables.insertMany_ok Tables.addRequests_nil Tables.addRequests_cons
      (fun _ _ _ h => (Tables.insertRequest_ok h).2) (Prod.ext rfl hrequests)
  refine .bind (faulty_execute
    (s := .insertEntries (data.appliedEntries.map SnapshotAppliedEntry.row)) nofun)
    fun _ => .given fun hentries => ?_
  let t₃ := (t₂.insertMany Tables.insertEntry
    (data.appliedEntries.map SnapshotAppliedEntry.row)).1
  have ht₃ : t₃ = t₂.addEntries (data.appliedEntries.map SnapshotAppliedEntry.row) :=
    Tables.insertMany_ok Tables.addEntries_nil Tables.addEntries_cons
      (fun _ _ _ h => (Tables.insertEntry_ok h).2) (Prod.ext rfl hentries)
  refine .bind (faulty_execute (s := .updateProgress data.appliedPosition) nofun)
    fun _ => .given fun _ => ?_
  have htables : (t₃.updateProgress data.appliedPosition).1 = data.tables := by
    unfold Tables.updateProgress
    rw [if_neg (Int.not_lt.mpr data.low), ht₃, ht₂]
    simp [Tables.addEntries, Tables.addRequests, t₁, KvSnapshotData.tables]
  refine (faulty_execute (s := .commit) nofun).mono (fun _ h => h) (fun session _ h => ?_)
    fun _ _ h => h
  rw [← htables]
  exact h.1

/-- The rollback of a transaction that has not committed. -/
def RolledBack (t : Tables) (s : Session) : Prop :=
  s.connection.committed = t ∧ (.rollback ∉ s.failed → s.connection = .opened t)

theorem faulty_orRollback {α : Type} {body : Co α} {P : Session → Prop} {Q : Session → α → Prop}
    (h : (faulty script).Triple P body Q (Undone t)) :
    (faulty script).Triple P (SQLiteKvStore.orRollback body) Q fun session _ =>
      RolledBack t session := by
  refine .handle h fun e => ?_
  rintro session ⟨hcommitted, hfailed⟩
  rw [Handler.run_bind, run_faulty]
  unfold Session.sql
  cases script session.ran .rollback with
  | some failure =>
      refine ⟨hcommitted, fun hnot => absurd ?_ hnot⟩
      exact List.mem_append_right _ List.mem_cons_self
  | none => exact ⟨hcommitted, fun _ => congrArg Connection.opened hcommitted⟩

/-- **An installation** restores a pristine store, or leaves the store as it was. -/
theorem faulty_installSnapshot (script : Script) (t : Tables) (snapshot : KvSnapshot digest) :
    (faulty script).Triple (At (.opened t)) (SQLiteKvStore.installSnapshot snapshot)
      (fun session _ => At (.opened snapshot.data.tables) session ∧ t = .empty)
      fun session _ => RolledBack t session := by
  unfold SQLiteKvStore.installSnapshot SQLiteKvStore.restoreSnapshot
  rw [snapshot.validate_self]
  have hbody : (faulty script).Triple (At (.began t))
      (SQLiteKvStore.requirePristine >>= fun _ => SQLiteKvStore.restoreRows snapshot.data)
      (fun session _ => At (.opened snapshot.data.tables) session ∧ t = .empty) (Undone t) := by
    refine .bind faulty_requirePristine fun _ => .given fun hempty => ?_
    exact (faulty_restoreRows snapshot.data).mono (fun _ h => h) (fun _ _ h => ⟨h, hempty⟩)
      fun _ _ h => h
  have hbegin : (faulty script).Triple (At (.opened t)) (execute .begin)
      (fun session _ => At (.began t) session) fun session _ => RolledBack t session := by
    rintro session ⟨hk, hfailed⟩
    rw [run_faulty]
    unfold Session.sql
    rw [hk, hfailed]
    cases script session.ran .begin with
    | some failure => exact ⟨rfl, fun _ => rfl⟩
    | none => exact ⟨rfl, rfl⟩
  have hlocked := hbegin.bind fun _ => faulty_orRollback hbody
  intro session hsession
  have hrun := hlocked session hsession
  rw [← run_withLock (fun _ => rfl) (fun _ => rfl) session] at hrun
  exact hrun

end Faulty

/-! ## The bootstrap -/

/-- A store that has applied `log` exports a snapshot; a pristine store installs it, and then
`rest` gives it what the whole log gives without a snapshot, with the same outcome for every
command. -/
def Bootstraps (digest : KvSnapshotData → String) (log rest : List (Nat × KvCommandEnvelope)) :
    Prop :=
  ∃ (t t' u u' : Tables) (snapshot : KvSnapshot digest) (outcomes results : List _),
    direct.run (.opened .empty) (applyAll log) = (.opened t, .ok outcomes) ∧
    direct.run (.opened t) (SQLiteKvStore.exportSnapshot digest) = (.opened t, .ok snapshot) ∧
    direct.run (.opened .empty) (SQLiteKvStore.installSnapshot snapshot) = (.opened t', .ok ()) ∧
    direct.run (.opened .empty) (applyAll (log ++ rest)) =
      (.opened u, .ok (outcomes ++ results)) ∧
    direct.run (.opened t') (applyAll rest) = (.opened u', .ok results) ∧ u.Same u'

/-- An installation on a store that is not pristine, or one with a failing statement, raises
and leaves the store as it was. -/
def InstallsAtomically (digest : KvSnapshotData → String) : Prop :=
  ∀ (script : Script) (t : Tables) (snapshot : KvSnapshot digest) (session : Session)
    (answer : Except Error Unit),
    (faulty script).run ⟨.opened t, 0, []⟩ (SQLiteKvStore.installSnapshot snapshot) =
      (session, answer) →
    t ≠ .empty ∨ session.failed ≠ [] → (∃ e, answer = .error e) ∧ RolledBack t session

theorem bootstraps (hdigest : ∀ data, IsSha256 (digest data))
    (log rest : List (Nat × KvCommandEnvelope)) : Bootstraps digest log rest := by
  have hempty := Tables.wellFormed_empty
  have ht := hempty.outcomes log
  obtain ⟨snapshot, hexport, hof⟩ := run_exportSnapshot hdigest ht
  have hsame := hof.same
  have hinstall := run_installSnapshot ht hof
  obtain ⟨hfinal, hresults⟩ := hsame.outcomes ht rest
  -- The installed store is well formed because an empty one that went through the log is.
  have ht' : snapshot.data.tables.WellFormed := hsame.wellFormed ht
  refine ⟨_, _, _, _, snapshot, _, _, Tables.run_applyAll hempty log, hexport, hinstall, ?_,
    Tables.run_applyAll ht' rest, hfinal⟩
  rw [Tables.run_applyAll hempty, Tables.outcomes_append, hresults]

theorem installsAtomically : InstallsAtomically digest := by
  intro script t snapshot session answer hrun hcause
  have htriple := faulty_installSnapshot script t snapshot
  have hstart : At (.opened t) ⟨.opened t, 0, []⟩ := ⟨rfl, rfl⟩
  cases answer with
  | ok _ =>
      obtain ⟨⟨-, hfailed⟩, hempty⟩ := htriple.ok hstart hrun
      rcases hcause with hne | hne
      · exact absurd hempty hne
      · exact absurd hfailed hne
  | error e => exact ⟨⟨e, rfl⟩, htriple.error hstart hrun⟩

/-- **Starting from a snapshot is replaying the whole log**, and an installation that does
not succeed changes nothing. -/
theorem snapshot_bootstrap (hdigest : ∀ data, IsSha256 (digest data)) :
    (∀ log rest, Bootstraps digest log rest) ∧ InstallsAtomically digest :=
  ⟨bootstraps hdigest, installsAtomically⟩

/-- The SHA-256 of the snapshot of a store that has applied `firstPut` at position 0. -/
def firstDigest (data : KvSnapshotData) : String :=
  if data.appliedPosition = 0 then
    "511970dd0a6e76fd2666b14acfa6735e03fb5238fb31d4efc08ce1c241334e4c"
  else "0000000000000000000000000000000000000000000000000000000000000000"

/-- A store that has applied one command, and a rest of the log with a duplicate and a gap. -/
theorem snapshot_bootstrap_first :
    Bootstraps firstDigest [(0, firstPut)] [(1, firstPut), (3, secondPut)] ∧
      InstallsAtomically firstDigest := by
  have hdigest : ∀ data, IsSha256 (firstDigest data) := by
    intro data
    unfold firstDigest
    split <;> decide +kernel
  obtain ⟨hboot, hatomic⟩ := snapshot_bootstrap hdigest
  exact ⟨hboot _ _, hatomic⟩

end DelosLab.Kv
