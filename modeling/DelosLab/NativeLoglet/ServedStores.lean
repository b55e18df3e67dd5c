import DelosLab.NativeLoglet.StateReports
import DelosLab.NativeLoglet.Wakeups

/-!
# The stores of a NativeLogServer

What each of the two stores owes the server. The memory store does an operation in one step.
In the SQLite store the holder of the lock writes the rows of its own segment, inside a
transaction that leaves all others as they are committed; a report comes from two queries.
-/

namespace DelosLab.NativeLoglet

open Async Async.Coroutine Async.Discipline

/-! ## Coroutines of a store -/

namespace NativeLogServer

section Lift

variable {E : StorageEngine} {α β : Type}

theorem lift_bind (p : Coroutine E.signature α) (f : α → Coroutine E.signature β) :
    lift (p >>= f) = lift p >>= fun a => lift (f a) := by
  induction p with
  | ret a => rfl
  | raise e => rfl
  | act a k ih => exact congrArg (Coroutine.act (S := signature E) (Act.store a)) (funext ih)
  | wait e k ih => exact congrArg (Coroutine.wait (S := signature E) (Wait.store e)) (funext ih)

theorem lift_handle (p : Coroutine E.signature α)
    (h : E.signature.Error → Coroutine E.signature α) :
    lift (p.handle h) = (lift p).handle (S := signature E) fun e => lift (h e) := by
  induction p with
  | ret a => rfl
  | raise e => rfl
  | act a k ih => exact congrArg (Coroutine.act (S := signature E) (Act.store a)) (funext ih)
  | wait e k ih => exact congrArg (Coroutine.wait (S := signature E) (Wait.store e)) (funext ih)

theorem lift_ofExcept (r : Except E.signature.Error α) :
    lift (ofExcept r) = (ofExcept (S := signature E) r : Co E α) := by
  cases r with
  | ok a => rfl
  | error e => rfl

theorem lift_await (e : E.signature.Wait) :
    lift (await e) = await (S := signature E) (Wait.store e) :=
  congrArg (Coroutine.wait (S := signature E) (Wait.store e)) (funext lift_ofExcept)

theorem lift_require (p : Prop) [Decidable p] (e : E.signature.Error) :
    lift (require p e) = (require (S := signature E) p e : Co E Unit) := by
  rw [require, require]
  split
  · rfl
  · rfl

end Lift

section Rules

variable {E : StorageEngine} {T : Terms E} {t : Nat} {c : Call} {α β : Type}
  {P : World E → Prop} {Q : World E → α → Prop} {X Y : World E → E.signature.Error → Prop}

theorem lifted_bind {R : World E → β → Prop} {p : Coroutine E.signature α}
    {f : α → Coroutine E.signature β} (h : (discipline T).Triple t c P (lift p) Q X)
    (hf : ∀ a, (discipline T).Triple t c (fun w => Q w a) (lift (f a)) R X) :
    (discipline T).Triple t c P (lift (p >>= f)) R X := by
  rw [lift_bind]
  exact .bind h hf

theorem lifted_handle {p : Coroutine E.signature α}
    {f : E.signature.Error → Coroutine E.signature α}
    (h : (discipline T).Triple t c P (lift p) Q Y)
    (hf : ∀ e, (discipline T).Triple t c (fun w => Y w e) (lift (f e)) Q X) :
    (discipline T).Triple t c P (lift (p.handle f)) Q X := by
  rw [lift_handle]
  exact .handle h hf

theorem lifted_ofExcept {r : Except E.signature.Error α}
    (hQ : ∀ w a, Inv T w → P w → r = .ok a → Q w a)
    (hX : ∀ w e, Inv T w → P w → r = .error e → X w e) :
    (discipline T).Triple t c P (lift (ofExcept r)) Q X := by
  rw [lift_ofExcept]
  exact .ofExcept hQ hX

theorem lifted_require {p : Prop} [Decidable p] {e : E.signature.Error}
    {Q : World E → Unit → Prop} (hQ : ∀ w, P w → Q w ()) (hX : ∀ w, P w → X w e) :
    (discipline T).Triple t c P (lift (require p e)) Q X := by
  rw [lift_require]
  exact .require (fun w _ h _ => hQ w h) fun w _ h _ => hX w h

/-- A step of the store that is answered at once. -/
theorem lifted_perform {a : E.signature.Act} {Q : World E → E.signature.ActResult a → Prop}
    (hw : ∀ w, P w → Working t c w)
    (h : ∀ w, Inv T w → P w → Confined c w.store (E.exec w.store t a).1 ∧
      T.Inv (E.exec w.store t a).1 ∧ ∀ u, u ≠ t → T.Rely u w.store (E.exec w.store t a).1)
    (hQ : ∀ w, P w → Q (w.stored t (E.exec w.store t a).1) (E.exec w.store t a).2) :
    (discipline T).Triple t c P (lift (perform a)) Q X := by
  show (discipline T).Triple t c P (perform (S := signature E) (Act.store a)) Q X
  refine .act fun w hi hp => ?_
  obtain ⟨hconfined, hstore, hrely⟩ := h w hi hp
  exact ⟨(stored_kept hi (hw w hp) hconfined hstore hrely).1, hQ w hp⟩

/-- What `t` knows of the rows of a segment whose condition it holds. -/
def Watching (t : Nat) (c : Call) (segmentId : String) (F : SegmentRows → Prop) (w : World E) :
    Prop :=
  (Working t c w ∧ Holds t segmentId w) ∧ (w.Quiet segmentId → F (E.rows w.store segmentId))

theorem watching_lasting (segmentId : String) (F : SegmentRows → Prop) :
    (discipline T).Lasting t (Watching t c segmentId F) := by
  rintro w w' hg hr ⟨⟨hw, hl⟩, hf⟩
  obtain ⟨hl', hquiet⟩ := hr.held segmentId hl
  refine ⟨⟨working_lasting w w' hg hr hw, hl'⟩, fun hq => ?_⟩
  obtain ⟨hq, hrows⟩ := hquiet hq
  rw [hrows]
  exact hf hq

/-- A step that leaves the rows as they are tells of the rows before and after it. -/
theorem Watching.stored {segmentId : String} {F G : SegmentRows → Prop} {w : World E}
    {s : E.World} (h : Watching t c segmentId F w) (hs : ∀ id, E.rows s id = E.rows w.store id)
    (hG : F (E.rows w.store segmentId) → G (E.rows w.store segmentId)) :
    Watching t c segmentId G (w.stored t s) := by
  refine ⟨h.1, fun hq => ?_⟩
  obtain ⟨hq, hrows⟩ := quiet_of_stored h.1.1.1 (Confined.of_rows hs) hq
  show G (E.rows s segmentId)
  rw [hrows]
  exact hG (h.2 hq)

end Rules

end NativeLogServer

/-! ## The memory store -/

namespace MemoryStore

open NativeLogServer

/-- The tasks of the memory store never wait, so they keep nothing among themselves. -/
def terms : Terms engine where
  Inv := fun _ => True
  Rely := fun _ _ _ => True
  rely_refl := fun _ _ => trivial
  rely_trans := fun _ _ => trivial

variable {t : Nat} {c : NativeLogServer.Call}

/-- The rows follow from what the segment's store has. -/
theorem rows_of_segment {s s' : MemoryStore} {segmentId : String} {store : LogletStore}
    (h : s'.segment = Function.update s.segment segmentId store) {id : String}
    (hid : id ≠ segmentId) : engine.rows s' id = engine.rows s id := by
  have hsegment : s'.segment id = s.segment id := by rw [h, Function.update_of_ne hid]
  simp only [engine, hsegment]

theorem rows_state (s : MemoryStore) (segmentId : String) (knownTail : Nat) (id : String) :
    engine.rows (s.state segmentId knownTail).1 id = engine.rows s id := by
  by_cases hid : id = segmentId
  · have hsegment : (s.observeKnownTail segmentId knownTail).segment id =
        (s.segment id).observeKnownTail knownTail := by
      rw [segment_observeKnownTail, hid, Function.update_self]
    show engine.rows (s.observeKnownTail segmentId knownTail) id = engine.rows s id
    simp only [engine, hsegment]
    rfl
  · exact rows_of_segment (segment_observeKnownTail segmentId knownTail) hid

/-- A report of the memory store shows the rows. -/
theorem shows_state (s : MemoryStore) (segmentId : String) (knownTail : Nat) :
    SegmentRows.Shows (engine.rows s segmentId) (s.state segmentId knownTail).2 := by
  rw [state_eq]
  exact ⟨congrArg (max · _) (LogletStore.entriesTail_eq_max _), rfl⟩

theorem rows_prefixTrim (s : MemoryStore) (segmentId : String) (trimPosition : Int) {id : String}
    (hid : id ≠ segmentId) :
    engine.rows (s.prefixTrim segmentId trimPosition).1 id = engine.rows s id := by
  cases trimPosition with
  | ofNat n => exact rows_of_segment (segment_prefixTrim segmentId n).1 hid
  | negSucc n =>
      have h : (s.prefixTrim segmentId (Int.negSucc n)).1 = s := by
        rw [prefixTrim, if_pos (Int.negSucc_lt_zero n)]
      rw [h]

/-- One of the store's operations, and what it raises. -/
theorem operation_spec {α : Type} {a : Act} (f : ActResult a → Except Error α)
    (hm : c.mutates = true)
    (h : ∀ (s : MemoryStore) (id : String), id ≠ c.segmentId →
      engine.rows (exec s t a).1 id = engine.rows s id) :
    (NativeLogServer.discipline terms).Triple t c (Working t c)
      (lift (E := engine) (do
        let r ← perform (S := signature) a
        raised (f r)))
      (fun w _ => Working t c w) fun w _ => Working t c w := by
  refine lifted_bind (E := engine) (Q := fun w _ => Working t c w) ?_ fun r => ?_
  · refine lifted_perform (E := engine) (fun _ h => h) (fun w _ _ => ?_) fun _ hw => hw
    exact ⟨⟨h w.store, fun hc => by rw [hm] at hc; cases hc⟩, trivial, fun _ _ => trivial⟩
  · exact lifted_ofExcept (E := engine) (fun _ _ _ h _ => h) fun _ _ _ h _ => h

theorem confined_state (s : MemoryStore) (segmentId : String) (knownTail : Nat) :
    Confined (E := engine) c s (s.state segmentId knownTail).1 :=
  .of_rows (rows_state s segmentId knownTail)

/-- **The memory store serves a NativeLogServer.** -/
def lawful : Lawful engine where
  toTerms := terms
  put := by
    intro t c entry knownTail hm hc
    refine operation_spec (a := .put entry knownTail) id hm fun s id hid => ?_
    exact rows_of_segment (s.segment_put entry knownTail).1 (hc ▸ hid)
  repair := by
    intro t c entry knownTail hm hc
    refine operation_spec (a := .repair entry knownTail) id hm fun s id hid => ?_
    exact rows_of_segment (s.segment_repair entry knownTail).1 (hc ▸ hid)
  prefixTrim := by
    intro t c trimPosition hm
    refine operation_spec (a := .prefixTrim c.segmentId trimPosition) id hm fun s id hid => ?_
    exact s.rows_prefixTrim c.segmentId trimPosition hid
  sealSegment := by
    intro t c knownTail hm
    refine lifted_perform (E := engine) (fun _ h => h) (fun w _ _ => ?_) fun _ hw => hw
    refine ⟨⟨fun id hid => ?_, fun hc => ?_⟩, trivial, fun _ _ => trivial⟩
    · exact rows_of_segment (w.store.segment_sealSegment c.segmentId knownTail) hid
    · rw [hm] at hc
      cases hc
  state := by
    intro t c segmentId knownTail
    refine lifted_perform (E := engine) (fun _ h => h) (fun w _ _ => ?_) fun _ hw => hw
    exact ⟨confined_state w.store segmentId knownTail, trivial, fun _ _ => trivial⟩
  report := by
    intro t c segmentId knownTail
    refine lifted_perform (E := engine) (fun _ h => h.1) (fun w _ _ => ?_) fun w hw => ?_
    · exact ⟨confined_state w.store segmentId knownTail, trivial, fun _ _ => trivial⟩
    · have hwatching : Watching (E := engine) t c segmentId (fun _ => True) w :=
        ⟨hw, fun _ => trivial⟩
      exact hwatching.stored (G := fun rows => rows.Shows (w.store.state segmentId knownTail).2)
        (rows_state w.store segmentId knownTail) fun _ => shows_state w.store segmentId knownTail

end MemoryStore

/-! ## The SQLite store -/

namespace Sql

open NativeLogServer

/-- The segment that a statement writes. -/
def Statement.writes : Statement → Option String
  | .insertSegment segmentId => some segmentId
  | .updateTrimmedPrefix segmentId _ => some segmentId
  | .updateSealed segmentId => some segmentId
  | .insertEntry entry => some entry.segmentId
  | .deleteEntries segmentId _ => some segmentId
  | _ => none

theorem rows_upsert_of_ne {t : Tables} {segmentId : String} {update : SegmentRow → SegmentRow}
    (hid : ∀ r, (update r).segmentId = r.segmentId) {id : String} (h : id ≠ segmentId) :
    rows (t.upsert segmentId update) id = rows t id := by
  rw [rows, rows, Tables.row_upsert hid, if_neg h]
  rw [Tables.maxPosition, Tables.maxPosition, Tables.segmentEntries, Tables.segmentEntries,
    Tables.entries_upsert]

theorem rows_insertEntry_of_ne {t : Tables} {entry : LogEntry} {id : String}
    (h : id ≠ entry.segmentId) : rows (t.insertEntry entry).1 id = rows t id := by
  rw [Tables.insertEntry]
  split
  · rfl
  · split
    · rfl
    · have hentries : (t.entries ++ [entry]).filter (fun e => decide (e.segmentId = id)) =
          t.entries.filter fun e => decide (e.segmentId = id) := by
        simp [List.filter_append, Ne.symm h]
      have hmax : Tables.maxPosition ⟨t.segments, t.entries ++ [entry]⟩ id = t.maxPosition id :=
        congrArg (fun l => (List.map LogEntry.position l).max?) hentries
      exact congrArg (SegmentRows.mk · _ _) hmax

theorem rows_deleteEntries_of_ne {t : Tables} {segmentId : String} {position : Nat} {id : String}
    (h : id ≠ segmentId) : rows (t.deleteEntries segmentId position) id = rows t id := by
  have hentries : (t.deleteEntries segmentId position).segmentEntries id =
      t.segmentEntries id := by
    rw [Tables.segmentEntries, Tables.segmentEntries, Tables.deleteEntries, List.filter_filter]
    refine List.filter_congr fun e _ => ?_
    by_cases hid : e.segmentId = id
    · simp [hid, h]
    · simp [hid]
  have hmax : (t.deleteEntries segmentId position).maxPosition id = t.maxPosition id :=
    congrArg (fun l => (List.map LogEntry.position l).max?) hentries
  exact congrArg (SegmentRows.mk · _ _) hmax

/-- A statement that writes a segment writes the working rows of that segment alone. -/
theorem execute_writes {s : Statement} {segmentId : String} (h : s.writes = some segmentId)
    (c : Connection) :
    (c.execute s).1 = c.write (c.execute s).1.working ∧
      ∀ id, id ≠ segmentId → rows (c.execute s).1.working id = rows c.working id := by
  cases s with
  | insertSegment segmentId =>
      cases h
      refine ⟨rfl, fun id hid => rows_upsert_of_ne ?_ hid⟩
      exact fun _ => rfl
  | updateTrimmedPrefix segmentId trimPosition =>
      cases h
      refine ⟨rfl, fun id hid => rows_upsert_of_ne ?_ hid⟩
      exact fun _ => rfl
  | updateSealed segmentId =>
      cases h
      refine ⟨rfl, fun id hid => rows_upsert_of_ne ?_ hid⟩
      exact fun _ => rfl
  | insertEntry entry =>
      cases h
      exact ⟨rfl, fun id hid => rows_insertEntry_of_ne hid⟩
  | deleteEntries segmentId position =>
      cases h
      exact ⟨rfl, fun id hid => rows_deleteEntries_of_ne hid⟩
  | _ => cases h

/-- Outside a transaction everything is committed, and what the lock protects belongs to its
holder. -/
def terms : Terms engine where
  Inv := fun (w : World) =>
    w.connection.inTransaction = false → w.connection.committed = w.connection.working
  Rely := fun t (w w' : World) =>
    w.lock = some t → w'.lock = some t ∧ w'.connection = w.connection
  rely_refl := fun _ _ h => ⟨h, rfl⟩
  rely_trans := by
    intro t w₁ w₂ w₃ h h' hl
    obtain ⟨hl₂, hc⟩ := h hl
    obtain ⟨hl₃, hc'⟩ := h' hl₂
    exact ⟨hl₃, hc'.trans hc⟩

/-- The tables of the server's store. -/
abbrev connection (w : NativeLogServer.World engine) : Connection := World.connection w.store

variable {t : Nat} {c : NativeLogServer.Call} {α : Type}

/-- `t` has the lock of the store. -/
def Locked (t : Nat) (c : NativeLogServer.Call) (w : NativeLogServer.World engine) : Prop :=
  Working t c w ∧ World.lock w.store = some t

/-- It has written no rows but those of its own segment since the last commit. -/
def Owns (t : Nat) (c : NativeLogServer.Call) (w : NativeLogServer.World engine) : Prop :=
  Locked t c w ∧
    ∀ id, id ≠ c.segmentId → rows (connection w).committed id = rows (connection w).working id

/-- It is in a transaction. -/
def Writing (t : Nat) (c : NativeLogServer.Call) (w : NativeLogServer.World engine) : Prop :=
  Owns t c w ∧ (connection w).inTransaction = true

theorem locked_lasting : (NativeLogServer.discipline terms).Lasting t (Locked t c) :=
  fun w w' hg hr h => ⟨working_lasting w w' hg hr h.1, (hr.store h.2).1⟩

theorem owns_lasting : (NativeLogServer.discipline terms).Lasting t (Owns t c) := by
  intro w w' hg hr h
  refine ⟨locked_lasting w w' hg hr h.1, ?_⟩
  rw [connection, (hr.store h.1.2).2]
  exact h.2

theorem writing_lasting : (NativeLogServer.discipline terms).Lasting t (Writing t c) := by
  intro w w' hg hr h
  refine ⟨owns_lasting w w' hg hr h.1, ?_⟩
  rw [connection, (hr.store h.1.1.2).2]
  exact h.2

/-! ### Statements -/

theorem stored_self (w : NativeLogServer.World engine) : w.stored t w.store = w := by
  have hchanges : w.changes t w.store = false := by
    rw [NativeLogServer.World.changes]
    split
    · exact decide_eq_false fun h => h rfl
    · rfl
  rw [NativeLogServer.World.stored, hchanges, Bool.or_false, Function.update_eq_self]

/-- The store after a statement of `t`, in the server. -/
abbrev after (w : NativeLogServer.World engine) (t : Nat) (s : Statement) :
    NativeLogServer.World engine :=
  w.stored t (World.executed w.store t s)

/-- One statement of the store. -/
theorem statement_spec {s : Statement} {P : NativeLogServer.World engine → Prop}
    {Q : NativeLogServer.World engine → s.Result → Prop}
    {X : NativeLogServer.World engine → StoreError → Prop}
    (hP : (NativeLogServer.discipline terms).Lasting t P) (hw : ∀ w, P w → Working t c w)
    (hl : ∀ w, P w → s.selects = false → World.lock w.store = some t)
    (h : ∀ w, P w → terms.Inv w.store → Confined (E := engine) c w.store (after w t s).store ∧
      terms.Inv (after w t s).store)
    (hQ : ∀ w a, P w → terms.Inv w.store → ((connection w).execute s).2 = .ok a →
      Q (after w t s) a)
    (hX : ∀ w e, P w → X w e ∧ X (after w t s) e) :
    (NativeLogServer.discipline terms).Triple t c P (lift (E := engine) (execute s)) Q X := by
  have hlift : lift (E := engine) (execute s) =
      await (S := NativeLogServer.signature engine) (.store (.execute s)) :=
    lift_await (E := engine) (Sql.Wait.execute s)
  rw [hlift]
  refine .wait hP.stable fun w x w' r hi hp _ hr => ?_
  have hexecuted : (NativeLogServer.discipline terms).Kept t w (after w t s) := by
    obtain ⟨hconfined, hinv⟩ := h w hp hi.store
    refine (stored_kept hi (hw w hp) hconfined hinv fun u hu hlock => ⟨hlock, ?_⟩).1
    cases hsel : s.selects with
    | true => exact Connection.execute_selects hsel _
    | false =>
        have hlock : World.lock w.store = some u := hlock
        rw [hl w hp hsel] at hlock
        exact absurd (Option.some.inj hlock).symm hu
  cases x with
  | store x =>
      obtain ⟨⟨v, r'⟩, hres, heq⟩ := Option.map_eq_some_iff.mp hr
      obtain ⟨rfl, rfl⟩ := Prod.mk.inj heq
      have hres : Sql.resume w.store t (.execute s) x = some (v, r') := hres
      cases resumed_of_resume hres with
      | executed s => exact ⟨hexecuted, fun a ha => hQ w a hp hi.store ha, fun e _ => (hX w e hp).2⟩
      | refused s message =>
          rw [stored_self]
          exact ⟨.refl hi, nofun, fun e _ => (hX w e hp).1⟩
      | cancelled s => exact ⟨hexecuted, nofun, fun e _ => (hX w e hp).2⟩
  | done => cases hr
  | cancelled => cases hr

/-- A query changes nothing. -/
theorem query_spec {s : Statement} (hs : s.selects = true)
    {P : NativeLogServer.World engine → Prop}
    {Q : NativeLogServer.World engine → s.Result → Prop}
    {X : NativeLogServer.World engine → StoreError → Prop}
    (hP : (NativeLogServer.discipline terms).Lasting t P) (hw : ∀ w, P w → Working t c w)
    (hQ : ∀ w a, P w → connection (after w t s) = connection w →
      ((connection w).execute s).2 = .ok a → Q (after w t s) a)
    (hX : ∀ w e, P w → connection (after w t s) = connection w → X w e ∧ X (after w t s) e) :
    (NativeLogServer.discipline terms).Triple t c P (lift (E := engine) (execute s)) Q X := by
  have hsame : ∀ w : NativeLogServer.World engine, connection (after w t s) = connection w :=
    fun w => Connection.execute_selects hs _
  refine statement_spec hP hw (fun w _ hsel => ?_) (fun w _ hi => ⟨.of_rows fun id => ?_, ?_⟩)
    (fun w a hp _ ha => hQ w a hp (hsame w) ha) fun w e hp => hX w e hp (hsame w)
  · rw [hs] at hsel
    cases hsel
  · exact congrArg (fun c : Connection => rows c.working id) (hsame w)
  · show (connection (after w t s)).inTransaction = false →
      (connection (after w t s)).committed = (connection (after w t s)).working
    rw [hsame]
    exact hi

/-- A triple of code inside the transaction, before its commit. -/
abbrev Writes (t : Nat) (c : NativeLogServer.Call) (p : Co α) : Prop :=
  (NativeLogServer.discipline terms).Triple t c (Writing t c) (lift (E := engine) p) (fun w _ => Writing t c w)
    fun w _ => Owns t c w

theorem select_spec {s : Statement} (hs : s.selects = true) : Writes t c (execute s) := by
  have hkept : ∀ w : NativeLogServer.World engine, Writing t c w →
      connection (after w t s) = connection w → Writing t c (after w t s) := by
    intro w h hsame
    refine ⟨⟨h.1.1, ?_⟩, ?_⟩
    · rw [hsame]
      exact h.1.2
    · rw [hsame]
      exact h.2
  exact query_spec hs writing_lasting (fun _ h => h.1.1.1) (fun w _ h hsame _ => hkept w h hsame)
    fun w _ h hsame => ⟨h.1, (hkept w h hsame).1⟩

/-- A statement that writes the call's segment. -/
theorem write_spec {s : Statement} (hs : s.writes = some c.segmentId) (hm : c.mutates = true) :
    Writes t c (execute s) := by
  have hwritten : ∀ w : NativeLogServer.World engine, Writing t c w →
      Writing t c (after w t s) := by
    intro w h
    obtain ⟨hwrite, hothers⟩ := execute_writes hs (connection w)
    have hafter : connection (after w t s) = ((connection w).execute s).1 := rfl
    refine ⟨⟨h.1.1, fun id hid => ?_⟩, ?_⟩
    · rw [hafter, hothers id hid, hwrite]
      exact h.1.2 id hid
    · rw [hafter, hwrite]
      exact h.2
  refine statement_spec writing_lasting (fun _ h => h.1.1.1) (fun _ h _ => h.1.1.2)
    (fun w h hi => ⟨⟨?_, ?_⟩, ?_⟩) (fun w _ h _ _ => hwritten w h)
    fun w _ h => ⟨h.1, (hwritten w h).1⟩
  · exact (execute_writes hs (connection w)).2
  · intro hc
    rw [hm] at hc
    cases hc
  · intro hidle
    have hidle : (connection (after w t s)).inTransaction = false := hidle
    rw [(hwritten w h).2] at hidle
    cases hidle

theorem commit_spec : (NativeLogServer.discipline terms).Triple t c (Writing t c)
    (lift (E := engine) (execute .commit)) (fun w _ => Locked t c w) fun w _ => Owns t c w := by
  refine statement_spec writing_lasting (fun _ h => h.1.1.1) (fun _ h _ => h.1.1.2)
    (fun w h hi => ⟨.of_rows fun _ => rfl, fun _ => rfl⟩) (fun w _ h _ _ => h.1.1)
    fun w _ h => ⟨h.1, h.1.1, fun _ _ => rfl⟩

theorem rollback_spec (hm : c.mutates = true) : (NativeLogServer.discipline terms).Triple t c (Owns t c)
    (lift (E := engine) (execute .rollback)) (fun w _ => Locked t c w)
    fun w _ => Locked t c w := by
  refine statement_spec owns_lasting (fun _ h => h.1.1) (fun _ h _ => h.1.2)
    (fun w h hi => ⟨⟨h.2, fun hc => ?_⟩, fun _ => rfl⟩) (fun w _ h _ _ => h.1)
    fun w _ h => ⟨h.1, h.1⟩
  rw [hm] at hc
  cases hc

theorem begin_spec : (NativeLogServer.discipline terms).Triple t c (Locked t c)
    (lift (E := engine) (execute .begin)) (fun w _ => Writing t c w)
    fun w _ => Locked t c w := by
  have htables : ∀ w : NativeLogServer.World engine,
      (connection (after w t .begin)).committed = (connection w).committed ∧
      (connection (after w t .begin)).working = (connection w).working ∧
      ((connection (after w t .begin)).inTransaction = true) := by
    intro w
    show ((connection w).execute .begin).1.committed = _ ∧
      ((connection w).execute .begin).1.working = _ ∧
      ((connection w).execute .begin).1.inTransaction = true
    rw [Connection.execute]
    split
    · next h => exact ⟨rfl, rfl, h⟩
    · exact ⟨rfl, rfl, rfl⟩
  refine statement_spec locked_lasting (fun _ h => h.1) (fun _ h _ => h.2)
    (fun w h hi => ⟨.of_rows fun id => ?_, fun hidle => ?_⟩) (fun w a h hi ha => ?_)
    fun w _ h => ⟨h, h⟩
  · exact congrArg (rows · id) (htables w).2.1
  · have hidle : (connection (after w t .begin)).inTransaction = false := hidle
    rw [(htables w).2.2] at hidle
    cases hidle
  · refine ⟨⟨h, fun id _ => ?_⟩, (htables w).2.2⟩
    rw [(htables w).1, (htables w).2.1]
    have hidle : (connection w).inTransaction = false := by
      cases hin : (connection w).inTransaction with
      | false => rfl
      | true =>
          rw [Connection.execute, if_pos hin] at ha
          cases ha
    exact congrArg (rows · id) (hi hidle)

/-! ### Operations -/

theorem writes_ret {a : α} : Writes t c (ret a : Co α) := .ret fun _ _ h => h

theorem writes_bind {β : Type} {p : Co α} {f : α → Co β} (hp : Writes t c p)
    (hf : ∀ a, Writes t c (f a)) : Writes t c (p >>= f) := lifted_bind (E := engine) hp hf

theorem writes_require {p : Prop} [Decidable p] {e : StoreError} :
    Writes t c (require (S := signature) p e) :=
  lifted_require (E := engine) (fun _ h => h) fun _ h => h.1

theorem writes_andAwait {p : Bool} {q : Co Bool} (hq : Writes t c q) :
    Writes t c (andAwait p q) := by
  cases p with
  | true => exact hq
  | false => exact writes_ret

theorem writes_knownTail (segmentId : String) : Writes t c (act (.knownTail segmentId)) := by
  refine lifted_perform (E := engine) (fun _ h => h.1.1.1) (fun w hi _ => ?_) fun _ h => h
  exact ⟨.of_rows fun _ => rfl, hi.store, fun u _ => terms.rely_refl u _⟩

theorem writes_lacksPredecessor (entry : LogEntry) : Writes t c (lacksPredecessor entry) := by
  refine writes_andAwait (writes_bind (select_spec rfl) fun previous => ?_)
  cases previous with
  | some _ => exact writes_ret
  | none => exact writes_bind (writes_knownTail _) fun _ => writes_ret

theorem writes_requireSamePosition (entry : LogEntry) (p : Option Nat) :
    Writes t c (requireSamePosition entry p) := by
  cases p with
  | some p => exact writes_require
  | none => exact writes_ret

/-- The triple of a transaction's body, up to its commit. -/
abbrev Commits (t : Nat) (c : NativeLogServer.Call) (p : Co α) : Prop :=
  (NativeLogServer.discipline terms).Triple t c (Writing t c) (lift (E := engine) p) (fun w _ => Locked t c w)
    fun w _ => Owns t c w

theorem commits_bind {β : Type} {p : Co α} {f : α → Co β} (hp : Writes t c p)
    (hf : ∀ a, Commits t c (f a)) : Commits t c (p >>= f) := lifted_bind (E := engine) hp hf

theorem writeBody_commits (entry : LogEntry) (rejectIfSealed requirePredecessor : Bool)
    (hm : c.mutates = true) (hc : c.segmentId = entry.segmentId) :
    Commits t c (writeBody entry rejectIfSealed requirePredecessor) := by
  refine commits_bind (write_spec (congrArg some hc.symm) hm) fun _ => ?_
  refine commits_bind (writes_andAwait (writes_bind (select_spec rfl) fun _ => writes_ret))
    fun isSealed => ?_
  refine commits_bind writes_require fun _ => ?_
  refine commits_bind (writes_bind (select_spec rfl) fun _ => writes_ret) fun trimmed => ?_
  refine commits_bind writes_require fun _ => ?_
  refine commits_bind (select_spec rfl) fun existing => ?_
  cases existing with
  | some existing => exact commits_bind writes_require fun _ => commit_spec
  | none =>
      refine commits_bind (writes_andAwait (writes_lacksPredecessor entry)) fun lacking => ?_
      refine commits_bind writes_require fun _ => ?_
      refine commits_bind (select_spec rfl) fun commandPosition => ?_
      refine commits_bind (writes_requireSamePosition entry commandPosition) fun _ => ?_
      exact commits_bind (write_spec (congrArg some hc.symm) hm) fun _ => commit_spec

theorem prefixTrimBody_commits (trimPosition : Nat) (hm : c.mutates = true) :
    Commits t c (prefixTrimBody c.segmentId trimPosition) := by
  refine commits_bind (write_spec rfl hm) fun _ => ?_
  refine commits_bind (writes_bind (select_spec rfl) fun _ => writes_ret) fun watermark => ?_
  refine commits_bind (write_spec rfl hm) fun _ => ?_
  exact lifted_bind (E := engine) commit_spec fun _ => .ret fun _ _ h => h

theorem sealBody_commits (hm : c.mutates = true) :
    Commits t c (do execute (.updateSealed c.segmentId); execute .commit) :=
  commits_bind (write_spec rfl hm) fun _ => commit_spec

/-- `t` takes the lock of the store. -/
abbrev locked (w : World) (t : Nat) : World := { w with lock := some t }

theorem acquireStore_spec : (NativeLogServer.discipline terms).Triple t c (Working t c)
    (lift (E := engine) (wait .acquire)) (fun w _ => Locked t c w)
    fun w _ => Working t c w := by
  have hlift : lift (E := engine) (wait .acquire) =
      await (S := NativeLogServer.signature engine) (.store .acquire) :=
    lift_await (E := engine) Sql.Wait.acquire
  rw [hlift]
  refine .wait working_lasting.stable fun w x w' r hi hw _ hr => ?_
  cases x with
  | store x =>
      obtain ⟨⟨v, r'⟩, hres, heq⟩ := Option.map_eq_some_iff.mp hr
      obtain ⟨rfl, rfl⟩ := Prod.mk.inj heq
      have hres : Sql.resume w.store t .acquire x = some (v, r') := hres
      cases resumed_of_resume hres with
      | acquired hfree =>
          have hrely : ∀ u, u ≠ t →
              terms.Rely u w.store (locked w.store t) := by
            intro u _ hl
            have hl : World.lock w.store = some u := hl
            rw [hfree] at hl
            cases hl
          exact ⟨(stored_kept (s := locked w.store t) hi hw (.of_rows fun _ => rfl) hi.store
            hrely).1, fun _ _ => ⟨hw, rfl⟩, nofun⟩
      | waited =>
          rw [stored_self]
          exact ⟨.refl hi, nofun, fun _ _ => hw⟩
  | done => cases hr
  | cancelled => cases hr

theorem releaseStore_spec {X : NativeLogServer.World engine → StoreError → Prop} :
    (NativeLogServer.discipline terms).Triple t c (Locked t c) (lift (E := engine) (act .release))
      (fun w _ => Working t c w) X := by
  refine lifted_perform (E := engine) (fun _ h => h.1) (fun w hi h => ?_) fun _ h => h.1
  refine ⟨.of_rows fun _ => rfl, hi.store, fun u hu hl => ?_⟩
  have hl : World.lock w.store = some u := hl
  rw [h.2] at hl
  exact absurd (Option.some.inj hl).symm hu

theorem transaction_served {body : Co α} (hm : c.mutates = true) (hbody : Commits t c body) :
    (NativeLogServer.discipline terms).Triple t c (Working t c) (lift (E := engine) (transaction body))
      (fun w _ => Working t c w) fun w _ => Working t c w := by
  have hrolled : (NativeLogServer.discipline terms).Triple t c (Writing t c)
      (lift (E := engine) (orRollback body)) (fun w _ => Locked t c w)
      fun w _ => Locked t c w :=
    lifted_handle (E := engine) hbody fun e =>
      lifted_bind (E := engine) (rollback_spec hm) fun _ => .raise fun _ _ h => h
  have hlocked : (NativeLogServer.discipline terms).Triple t c (Locked t c)
      (lift (E := engine) (do execute .begin; orRollback body)) (fun w _ => Locked t c w)
      fun w _ => Locked t c w :=
    lifted_bind (E := engine) begin_spec fun _ => hrolled
  refine lifted_bind (E := engine) acquireStore_spec fun _ => ?_
  refine lifted_bind (E := engine) (Q := fun w _ => Locked t c w) ?_ fun result => ?_
  · exact lifted_handle (E := engine)
      (lifted_bind (E := engine) hlocked fun a => .ret fun _ _ h => h) fun e => .ret fun _ _ h => h
  · exact lifted_bind (E := engine) releaseStore_spec fun _ =>
      lifted_ofExcept (E := engine) (fun _ _ _ h _ => h) fun _ _ _ h _ => h

/-! ### Reports -/

theorem act_spec {a : Act} {F : NativeLogServer.World engine → Prop}
    {X : NativeLogServer.World engine → StoreError → Prop}
    (hw : ∀ w, F w → Working t c w)
    (hF : ∀ (w : NativeLogServer.World engine) s, F w → engine.rows s = engine.rows w.store →
      F (w.stored t s))
    (ha : ∀ (w : World) u, (exec w u a).1.connection = w.connection ∧
      (exec w u a).1.lock = w.lock) :
    (NativeLogServer.discipline terms).Triple t c F (lift (E := engine) (act a)) (fun w _ => F w)
      X := by
  have hrows : ∀ w : NativeLogServer.World engine,
      engine.rows (exec w.store t a).1 = engine.rows w.store :=
    fun w => congrArg (fun c : Connection => rows c.working) (ha w.store t).1
  refine lifted_perform (E := engine) hw (fun w hi _ => ?_) fun w h => hF w _ h (hrows w)
  refine ⟨.of_rows fun id => congrFun (hrows w) id, ?_, fun u _ hl => ?_⟩
  · show (World.connection (exec w.store t a).1).inTransaction = false →
      (World.connection (exec w.store t a).1).committed =
        (World.connection (exec w.store t a).1).working
    rw [(ha w.store t).1]
    exact hi.store
  · exact ⟨(ha w.store t).2.trans hl, (ha w.store t).1⟩

/-- What `state` reads between two of its steps, for a caller that knows `F` of the rows. -/
theorem state_served {segmentId : String} {knownTail : Nat}
    {F : (SegmentRows → Prop) → NativeLogServer.World engine → Prop}
    (hF : ∀ P, (NativeLogServer.discipline terms).Lasting t (F P))
    (hw : ∀ P w, F P w → Working t c w)
    (hstored : ∀ P Q (w : NativeLogServer.World engine) s, F P w →
      engine.rows s = engine.rows w.store →
      (P (engine.rows w.store segmentId) → Q (engine.rows w.store segmentId)) →
      F Q (w.stored t s)) :
    (NativeLogServer.discipline terms).Triple t c (F fun _ => True)
      (lift (E := engine) (state segmentId knownTail)) (fun w r => F (·.Shows r) w)
      fun w _ => F (fun _ => True) w := by
  have hrows : ∀ (w : NativeLogServer.World engine) (s : Statement),
      connection (after w t s) = connection w →
      engine.rows (World.executed w.store t s) = engine.rows w.store :=
    fun w s h => congrArg (fun c : Connection => rows c.working) h
  have herror : ∀ P w, F P w → F (fun _ => True) w := fun P w h => by
    have := hstored P (fun _ => True) w w.store h rfl fun _ => trivial
    rwa [stored_self] at this
  refine lifted_bind (E := engine) (act_spec (hw _)
    (fun w s h heq => hstored _ _ w s h heq fun _ => trivial) fun _ _ => ⟨rfl, rfl⟩) fun _ => ?_
  refine lifted_bind (E := engine) (query_spec (s := .selectSegment segmentId) rfl (hF _) (hw _)
    (Q := fun w segment => F (fun r =>
      r.trimmedPrefix = (segment.getD (.default segmentId)).trimmedPrefix ∧
        r.sealed = (segment.getD (.default segmentId)).sealed) w)
    (fun w segment h hsame hr => ?_) fun w e h hsame => ⟨h, ?_⟩) fun segment => ?_
  · refine hstored _ _ w _ h (hrows w _ hsame) fun _ => ?_
    cases hr
    exact ⟨rfl, rfl⟩
  · exact hstored _ _ w _ h (hrows w _ hsame) fun _ => trivial
  refine lifted_bind (E := engine) (query_spec (s := .selectMaxPosition segmentId) rfl (hF _) (hw _)
    (Q := fun w tailValue => F (fun r => ∀ known,
      r.Shows (reportOf segmentId segment tailValue known)) w)
    (fun w tailValue h hsame hr => ?_) fun w e h hsame => ⟨herror _ w h, ?_⟩) fun tailValue => ?_
  · refine hstored _ _ w _ h (hrows w _ hsame) fun hrow known => ?_
    cases hr
    exact ⟨congrArg (max _) hrow.1.symm, hrow.2.symm⟩
  · exact hstored _ _ w _ h (hrows w _ hsame) fun _ => trivial
  refine lifted_bind (E := engine) (act_spec (hw _)
    (fun w s h heq => hstored _ _ w s h heq fun h => h) fun _ _ => ⟨rfl, rfl⟩) fun known => ?_
  refine .ret fun w _ h => ?_
  have := hstored _ (·.Shows (reportOf segmentId segment tailValue known)) w w.store h rfl
    fun h => h known
  rwa [stored_self] at this

/-- **The SQLite store serves a NativeLogServer.** -/
def lawful : Lawful engine where
  toTerms := terms
  put := by
    intro t c entry knownTail hm hc
    refine lifted_bind (E := engine) (act_spec (fun _ h => h) (fun _ _ h _ => h)
      fun _ _ => ⟨rfl, rfl⟩) fun _ => ?_
    exact transaction_served hm (writeBody_commits entry true true hm hc)
  repair := by
    intro t c entry knownTail hm hc
    refine lifted_bind (E := engine) (act_spec (fun _ h => h) (fun _ _ h _ => h)
      fun _ _ => ⟨rfl, rfl⟩) fun _ => ?_
    exact transaction_served hm (writeBody_commits entry false false hm hc)
  prefixTrim := by
    intro t c trimPosition hm
    refine lifted_bind (E := engine) (lifted_require (E := engine)
      (Q := fun w _ => Working t c w) (fun _ h => h) fun _ h => h) fun _ => ?_
    exact transaction_served hm (prefixTrimBody_commits trimPosition.toNat hm)
  sealSegment := by
    intro t c knownTail hm
    refine lifted_bind (E := engine) (act_spec (fun _ h => h) (fun _ _ h _ => h)
      fun _ _ => ⟨rfl, rfl⟩) fun _ => ?_
    exact transaction_served hm (sealBody_commits hm)
  state := by
    intro t c segmentId knownTail
    exact state_served (F := fun _ w => Working t c w) (fun _ => working_lasting)
      (fun _ _ h => h) fun _ _ _ _ h _ _ => h
  report := by
    intro t c segmentId knownTail
    refine (state_served (F := fun P w => Watching (E := engine) t c segmentId P w)
      (fun P => watching_lasting segmentId P) (fun _ _ h => h.1.1) ?_).mono
      (fun _ _ h => ⟨h, fun _ => trivial⟩) (fun _ _ _ h => h) fun _ _ _ h => h.1
    exact fun P Q w s h heq hpq => h.stored (fun id => congrFun heq id) hpq

end Sql

namespace NativeLogServer

/-- What either store owes the server. -/
def lawful : (kind : StoreKind) → Lawful kind.engine
  | .memory => MemoryStore.lawful
  | .sqlite => Sql.lawful

theorem inv_of_opened (kind : StoreKind) {store : kind.engine.World} (h : kind.Opened store) :
    (lawful kind).Inv store := by
  cases kind with
  | memory => trivial
  | sqlite =>
      obtain ⟨t, rfl⟩ := h
      exact fun _ => rfl

/-- **No tail wake-up is lost.** Where no mutating call of a segment is between its update of
the store and its notification, every parked waiter waits for more than the segment has; and
a waiter only ever returns a state that is due to it. In these runs (`waitersCancelled`) waiters
are cancelled anywhere, and stores fail anywhere, but no mutating call is cancelled while it
acquires the condition that it is to notify: its update would wake nobody. -/
theorem no_lost_wakeup (kind : StoreKind) {s : SystemState kind.engine}
    (h : (runtime kind.engine).ReachableUnder (waitersCancelled kind.engine)
      (fun w => ∃ store, kind.Opened store ∧ w = .opened store) s) :
    (∀ segmentId, s.world.Quiet segmentId → ∀ t ∈ s.world.parked segmentId,
      ∃ localTail knownTail turns,
        s.world.calls t = some (.waitForTail segmentId localTail knownTail turns) ∧
        (kind.engine.rows s.world.store segmentId).sealed = false ∧
        (kind.engine.rows s.world.store segmentId).localTail < localTail) ∧
    ∀ r ∈ s.world.returned, ∀ segmentId localTail knownTail turns,
      r.1 = .waitForTail segmentId localTail knownTail turns →
        localTail ≤ r.2.localTail ∨ r.2.sealed = true := by
  have hi : Inv (lawful kind).toTerms s.world := by
    refine ((sound (lawful kind)).reachable ?_ h).1
    rintro w ⟨store, hstore, rfl⟩
    exact inv_opened (lawful kind) (inv_of_opened kind hstore)
  constructor
  · intro segmentId hq t ht
    obtain ⟨localTail, knownTail, turns, hc, hdue⟩ := hi.parked segmentId t ht
    obtain ⟨htail, hsealed⟩ := not_or.mp (hdue hq)
    exact ⟨localTail, knownTail, turns, hc, Bool.eq_false_iff.mpr hsealed, Int.not_le.mp htail⟩
  · exact fun r hr => hi.returned r hr

/-- A waiter parks, a put wakes it, and it returns; then another one waits for more. -/
def wokenOnce : List (Action Nat Call (Choice MemoryStore.engine) Empty) :=
  [.launch 0 (.waitForTail "segment" 1 0 2), .resume 0 .done,
    .launch 1 (.put ⟨"segment", 0, "command", []⟩ 0), .resume 1 .done,
    .resume 0 .done, .resume 0 .done,
    .launch 2 (.waitForTail "segment" 2 0 2), .resume 2 .done]

/-- The calls in progress after `wokenOnce`. -/
def wokenOnceCalls : Nat → Option Call :=
  let started := Function.update (fun _ => none) 0 (some (.waitForTail "segment" 1 0 2))
  let mutating := Function.update started 1 (some (.put ⟨"segment", 0, "command", []⟩ 0))
  let ended := Function.update (Function.update mutating 1 none) 0 none
  Function.update ended 2 (some (.waitForTail "segment" 2 0 2))

/-- Nothing is cancelled. -/
def uncancelled {E : StorageEngine} (_ : SystemState E) :
    Action Nat Call (Choice E) Empty → Bool
  | .resume _ .cancelled => false
  | _ => true

theorem meets_of_uncancelled {E : StorageEngine} (s : SystemState E)
    (a : Action Nat Call (Choice E) Empty) (h : uncancelled s a = true) :
    Runtime.Meets (waitersCancelled E) s a := by
  cases a with
  | launch t c => trivial
  | resume t x =>
      intro c e k _
      cases x with
      | store x => cases e <;> trivial
      | done => cases e <;> trivial
      | cancelled => cases h
  | disturb d => trivial

theorem wokenOnce_runs : ∃ s, (runtime MemoryStore.engine).runWhile uncancelled
      (Runtime.fresh _ _ _ _ (.opened MemoryStore.empty)) wokenOnce = some s ∧
    s.world.calls = wokenOnceCalls ∧ s.world.parked "segment" = [2] ∧
    s.world.returned.map Prod.snd =
      [⟨"segment", 1, 0, 0, false⟩, ⟨"segment", 1, 0, 0, false⟩] :=
  ⟨_, rfl, rfl, rfl, rfl⟩

theorem wokenOnce_waits {t : Nat} {c : Call} (h : wokenOnceCalls t = some c) :
    c.mutates = false := by
  simp only [wokenOnceCalls, Function.update_apply] at h
  split at h
  · cases h
    rfl
  · split at h
    · cases h
    · split at h
      · cases h
      · cases h

theorem no_lost_wakeup_memory : ∃ s : SystemState MemoryStore.engine,
    (∃ localTail knownTail turns,
      s.world.calls 2 = some (.waitForTail "segment" localTail knownTail turns) ∧
      (MemoryStore.engine.rows s.world.store "segment").sealed = false ∧
      (MemoryStore.engine.rows s.world.store "segment").localTail < localTail) ∧
    ∀ r ∈ s.world.returned, ∀ segmentId localTail knownTail turns,
      r.1 = .waitForTail segmentId localTail knownTail turns →
        localTail ≤ r.2.localTail ∨ r.2.sealed = true := by
  obtain ⟨s, hrun, hcalls, hparked, -⟩ := wokenOnce_runs
  have hreached : (runtime MemoryStore.engine).ReachableUnder (waitersCancelled MemoryStore.engine)
      (fun w => ∃ store, StoreKind.memory.Opened store ∧ w = .opened store) s :=
    Runtime.ReachableUnder.runWhile meets_of_uncancelled
      (.init ⟨MemoryStore.empty, trivial, rfl⟩) hrun
  obtain ⟨hwaiting, hreturned⟩ := no_lost_wakeup .memory hreached
  refine ⟨s, hwaiting "segment" (fun t c hc hm => ?_) 2 ?_, hreturned⟩
  · rw [hcalls] at hc
    rw [wokenOnce_waits hc] at hm
    cases hm
  · rw [hparked]
    exact List.mem_singleton_self 2

end NativeLogServer

end DelosLab.NativeLoglet
