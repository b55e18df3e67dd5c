import DelosLab.Async.RelyGuarantee
import DelosLab.NativeLoglet.SqlStore

/-!
# What a LogServer reports of itself

`state` puts its report together from two queries that no lock holds together. When the
segment's last position stays where it is once its row has moved on between them, and
neither sees an open transaction, the report is one committed state of the segment.
-/

namespace DelosLab.NativeLoglet.Sql

open Async Async.Coroutine Async.Discipline

/-! ## Reports -/

/-- The tables show what a report says. -/
def Tables.Shows (t : Tables) (r : LogServerState) : Prop :=
  t.localTail r.segmentId = r.localTail ∧ (t.row r.segmentId).trimmedPrefix = r.trimmedPrefix ∧
    (t.row r.segmentId).sealed = r.sealed

instance (t : Tables) (r : LogServerState) : Decidable (t.Shows r) :=
  inferInstanceAs (Decidable (_ ∧ _ ∧ _))

namespace World

/-- The committed states that held during a call. -/
def during (w : World) (r : Report) : List Tables := (w.history.take r.returned).drop r.began

/-- Every report is one committed state of its segment that held during its call. -/
def ReportsCommitted (w : World) : Prop := ∀ r ∈ w.reports, ∃ t ∈ w.during r, t.Shows r.state

/-- No report of a segment has a local tail below that of an earlier one. -/
def ReportsAdvance (w : World) : Prop :=
  w.reports.Pairwise fun r r' => r.state.segmentId = r'.state.segmentId →
    r.state.localTail ≤ r'.state.localTail

/-- No report has a local tail below a watermark that was committed by then. -/
def ReportsCover (w : World) : Prop :=
  ∀ r ∈ w.reports, ∀ t ∈ w.history.take r.returned,
    (t.row r.state.segmentId).trimmedPrefix ≤ r.state.localTail

instance (w : World) : Decidable w.ReportsCommitted :=
  inferInstanceAs (Decidable (∀ r ∈ w.reports, ∃ t ∈ w.during r, t.Shows r.state))

instance (w : World) : Decidable w.ReportsAdvance :=
  inferInstanceAs (Decidable (w.reports.Pairwise _))

instance (w : World) : Decidable w.ReportsCover :=
  inferInstanceAs (Decidable (∀ r ∈ w.reports, ∀ t ∈ w.history.take r.returned,
    (t.row r.state.segmentId).trimmedPrefix ≤ r.state.localTail))

end World

/-! ## When the two queries see one state -/

/-- Of two committed states in a row: the segment has the given row in the second, or its
last position and its local tail stayed as they were. -/
def Settled (segmentId : String) (row : SegmentRow) (t t' : Tables) : Prop :=
  t'.row segmentId = row ∨
    t'.maxPosition segmentId = t.maxPosition segmentId ∧
      t'.localTail segmentId = t.localTail segmentId

instance (segmentId : String) (row : SegmentRow) (t t' : Tables) :
    Decidable (Settled segmentId row t t') :=
  inferInstanceAs (Decidable (_ ∨ _ ∧ _))

namespace World

/-- Since the first query of `t`, each commit that left the segment with another row than
it had then left its last position and its local tail alone. -/
def Undisturbed (w : World) (t : Nat) (segmentId : String) : Prop :=
  ∀ first ∈ (w.history.drop (w.queried t)).head?,
    (w.history.drop (w.queried t)).IsChain (Settled segmentId (first.row segmentId))

instance (w : World) (t : Nat) (segmentId : String) : Decidable (w.Undisturbed t segmentId) :=
  inferInstanceAs (Decidable (∀ first ∈ (w.history.drop (w.queried t)).head?,
    (w.history.drop (w.queried t)).IsChain (Settled segmentId (first.row segmentId))))

/-- What the next query of `state` reads is committed, and the second one finds the segment
undisturbed. -/
def Coherent (w : World) (t : Nat) : Statement → Prop
  | .selectSegment segmentId =>
      w.connection.working.row segmentId = w.connection.committed.row segmentId
  | .selectMaxPosition segmentId =>
      w.connection.working.maxPosition segmentId = w.connection.committed.maxPosition segmentId ∧
        w.Undisturbed t segmentId
  | _ => True

instance (w : World) (t : Nat) : (s : Statement) → Decidable (w.Coherent t s)
  | .selectSegment _ => inferInstanceAs (Decidable (_ = _))
  | .selectMaxPosition _ => inferInstanceAs (Decidable (_ ∧ _))
  | .begin | .commit | .rollback | .insertSegment _ | .updateTrimmedPrefix _ _
  | .updateSealed _ | .insertEntry _ | .deleteEntries _ _ | .selectSealed _
  | .selectTrimmedPrefix _ | .selectEntry _ _ | .selectPosition _ _ => isTrue trivial

end World

/-- The runs in which no query of `state` is torn from the other. -/
def coherentQueries : Condition signature World Nat Call Choice where
  launch := fun _ _ _ => True
  resume := fun w t _ e x =>
    match e, x with
    | .execute s, .done => w.Coherent t s
    | _, _ => True

/-- `t` has the row, and the last position and the local tail of `t'`. -/
def StandsFor (segmentId : String) (row : SegmentRow) (t t' : Tables) : Prop :=
  t.row segmentId = row ∧ t.maxPosition segmentId = t'.maxPosition segmentId ∧
    t.localTail segmentId = t'.localTail segmentId

/-- At the end of a chain of settled states one of them that has the row stands for the
last. -/
theorem exists_of_settled {segmentId : String} {row : SegmentRow} {l : List Tables}
    {t first last : Tables} (ht : StandsFor segmentId row t first)
    (h : (first :: l).IsChain (Settled segmentId row))
    (hlast : (first :: l).getLast? = some last) :
    ∃ t' ∈ t :: l, StandsFor segmentId row t' last := by
  induction l generalizing t first with
  | nil =>
      obtain rfl := Option.some.inj hlast
      exact ⟨t, List.mem_cons_self, ht⟩
  | cons next l ih =>
      obtain ⟨hnext, hrest⟩ := List.isChain_cons_cons.mp h
      rw [List.getLast?_cons_cons] at hlast
      rcases hnext with hrow | ⟨hmax, htail⟩
      · obtain ⟨t', hmem, ht'⟩ := ih ⟨hrow, rfl, rfl⟩ hrest hlast
        exact ⟨t', List.mem_cons_of_mem _ hmem, ht'⟩
      · obtain ⟨t', hmem, ht'⟩ :=
          ih ⟨ht.1, ht.2.1.trans hmax.symm, ht.2.2.trans htail.symm⟩ hrest hlast
        rcases List.mem_cons.mp hmem with rfl | hmem
        · exact ⟨t', List.mem_cons_self, ht'⟩
        · exact ⟨t', List.mem_cons_of_mem _ (List.mem_cons_of_mem _ hmem), ht'⟩

/-! ## What the tasks keep -/

/-- What is known of a report. -/
structure Genuine (w : World) (r : Report) : Prop where
  returned : r.returned ≤ w.history.length
  committed : ∃ t ∈ w.during r, t.Shows r.state
  current : ∀ t, (w.history.take r.returned).getLast? = some t →
    r.state.localTail = t.localTail r.state.segmentId

structure Inv (w : World) : Prop where
  advances : w.connection.committed.Advances w.connection.working
  last : w.history.getLast? = some w.connection.committed
  chain : w.history.Pairwise Tables.Advances
  genuine : ∀ r ∈ w.reports, Genuine w r
  ordered : w.reports.Pairwise fun r r' => r.returned ≤ r'.returned

/-- Committed states and reports are never taken back. -/
structure Grow (w w' : World) : Prop where
  history : w.history <+: w'.history
  reports : w.reports <+: w'.reports

/-- What the others leave alone while `t` waits. -/
structure Rely (t : Nat) (w w' : World) : Prop where
  held : w.lock = some t → w'.lock = some t ∧ w'.connection = w.connection
  began : w'.began t = w.began t
  queried : w'.queried t = w.queried t

theorem Grow.refl (w : World) : Grow w w := ⟨List.prefix_refl _, List.prefix_refl _⟩

theorem Grow.trans {w₁ w₂ w₃ : World} (h : Grow w₁ w₂) (h' : Grow w₂ w₃) : Grow w₁ w₃ :=
  ⟨h.history.trans h'.history, h.reports.trans h'.reports⟩

theorem Rely.refl (t : Nat) (w : World) : Rely t w w := ⟨fun h => ⟨h, rfl⟩, rfl, rfl⟩

theorem Rely.trans {t : Nat} {w₁ w₂ w₃ : World} (h : Rely t w₁ w₂) (h' : Rely t w₂ w₃) :
    Rely t w₁ w₃ := by
  refine ⟨fun hl => ?_, h'.began.trans h.began, h'.queried.trans h.queried⟩
  obtain ⟨hl₂, hc⟩ := h.held hl
  obtain ⟨hl₃, hc'⟩ := h'.held hl₂
  exact ⟨hl₃, hc'.trans hc⟩

theorem Genuine.grow {w w' : World} {r : Report} (h : Genuine w r)
    (hg : w.history <+: w'.history) : Genuine w' r := by
  have htake : w'.history.take r.returned = w.history.take r.returned := by
    obtain ⟨tail, heq⟩ := hg
    rw [← heq, List.take_append_of_le_length h.returned]
  refine ⟨Nat.le_trans h.returned hg.length_le, ?_, ?_⟩
  · rw [World.during, htake]
    exact h.committed
  · rw [htake]
    exact h.current

theorem historyAfter_grows (w : World) (s : Statement) : w.history <+: w.historyAfter s := by
  cases s with
  | commit => exact List.prefix_append _ _
  | _ => exact List.prefix_refl _

theorem Grow.of_eq {w w' : World} (hh : w'.history = w.history) (hr : w'.reports = w.reports) :
    Grow w w' :=
  ⟨hh ▸ List.prefix_refl _, hr ▸ List.prefix_refl _⟩

theorem exec_grow (w : World) (t : Nat) (a : Act) : Grow w (exec w t a).1 := by
  cases a with
  | observeKnownTail segmentId knownTail => exact .of_eq rfl rfl
  | knownTail segmentId => exact .refl w
  | release => exact .of_eq rfl rfl

theorem grow_executed (w : World) (t : Nat) (s : Statement) : Grow w (w.executed t s) :=
  ⟨historyAfter_grows w s, List.prefix_refl _⟩

theorem finish_grow (w : World) (t : Nat) (o : Except StoreError Outcome) :
    Grow w (finish w t o) := by
  unfold finish
  split
  · exact ⟨List.prefix_refl _, List.prefix_append _ _⟩
  · exact .refl w

/-- How a wait of task `t` may end. -/
inductive Resumed (t : Nat) (w : World) : (e : Wait) → Choice → World →
    Except StoreError (WaitResult e) → Prop
  | acquired (h : w.lock = none) :
      Resumed t w .acquire .done { w with lock := some t } (.ok ())
  | waited : Resumed t w .acquire .cancelled w (.error .cancelled)
  | executed (s : Statement) :
      Resumed t w (.execute s) .done (w.executed t s) (w.connection.execute s).2
  | refused (s : Statement) (message : String) :
      Resumed t w (.execute s) (.refused message) w (.error (.operationalError message))
  | cancelled (s : Statement) :
      Resumed t w (.execute s) .cancelled (w.executed t s) (.error .cancelled)

theorem resumed_of_resume {t : Nat} {w w' : World} {e : Wait} {x : Choice}
    {r : Except StoreError (WaitResult e)} (h : resume w t e x = some (w', r)) :
    Resumed t w e x w' r := by
  unfold resume at h
  split at h
  · split at h
    · next hfree =>
        cases h
        exact .acquired hfree
    · cases h
  · cases h
    exact .waited
  · cases h
    exact .executed _
  · cases h
    exact .refused _ _
  · cases h
    exact .cancelled _
  · cases h

theorem Resumed.grow {t : Nat} {w w' : World} {e : Wait} {x : Choice}
    {r : Except StoreError (WaitResult e)} (h : Resumed t w e x w' r) : Grow w w' := by
  cases h with
  | acquired h => exact .of_eq rfl rfl
  | waited => exact .refl _
  | executed s => exact grow_executed w t s
  | refused s message => exact .refl _
  | cancelled s => exact grow_executed w t s

def discipline : Discipline runtime coherentQueries where
  Inv := Inv
  Grow := Grow
  Rely := Rely
  grow_refl := Grow.refl
  grow_trans := Grow.trans
  rely_refl := Rely.refl
  rely_trans := Rely.trans
  exec_grow := exec_grow
  resume_grow := fun h => (resumed_of_resume h).grow
  finish_grow := fun w t _ o => finish_grow w t o

/-! ## Rules for the statements -/

section Rules

variable {t : Nat} {c : Call} {w w' : World} {α : Type}

theorem Inv.of_eq (h : Inv w) (hc : w'.connection = w.connection) (hh : w'.history = w.history)
    (hr : w'.reports = w.reports) : Inv w' := by
  have hg : w.history <+: w'.history := hh ▸ List.prefix_refl _
  refine ⟨hc ▸ h.advances, ?_, hh ▸ h.chain, fun r hr' => ?_, hr ▸ h.ordered⟩
  · rw [hh, hc]
    exact h.last
  · rw [hr] at hr'
    exact (h.genuine r hr').grow hg

/-- Every committed state has been overtaken by the last one. -/
theorem Inv.advances_committed (h : Inv w) {x : Tables} (hx : x ∈ w.history) :
    x.Advances w.connection.committed := by
  obtain ⟨front, heq⟩ := List.getLast?_eq_some_iff.mp h.last
  have hchain := h.chain
  rw [heq] at hx hchain
  rcases List.mem_append.mp hx with hx | hx
  · exact (List.pairwise_append.mp hchain).2.2 x hx _ List.mem_cons_self
  · exact List.mem_singleton.mp hx ▸ .refl _

/-- A statement keeps the invariant. -/
theorem Inv.executed (h : Inv w) {s : Statement} (hs : s.Covered w.connection.working) :
    Inv (w.executed t s) := by
  have hadv := Connection.execute_advances h.advances hs
  have hgenuine : ∀ r ∈ w.reports, Genuine (w.executed t s) r := fun r hr =>
    (h.genuine r hr).grow (historyAfter_grows w s)
  by_cases hcommit : s = .commit
  · subst hcommit
    refine ⟨hadv, List.getLast?_concat, ?_, hgenuine, h.ordered⟩
    refine List.pairwise_append.mpr ⟨h.chain, List.pairwise_singleton _ _, fun x hx y hy => ?_⟩
    rw [List.mem_singleton.mp hy]
    exact (h.advances_committed hx).trans h.advances
  · have hhistory : w.historyAfter s = w.history := by
      cases s <;> first | rfl | exact absurd rfl hcommit
    refine ⟨hadv, ?_, ?_, hgenuine, h.ordered⟩
    · show (w.historyAfter s).getLast? = some (w.connection.execute s).1.committed
      rw [hhistory, Connection.execute_committed hcommit]
      exact h.last
    · show (w.historyAfter s).Pairwise Tables.Advances
      rw [hhistory]
      exact h.chain

/-- A query of anybody, and any statement of the lock's holder, keep the discipline. -/
theorem executed_kept (h : Inv w) {s : Statement} (hs : s.Covered w.connection.working)
    (hl : s.selects = false → w.lock = some t) : discipline.Kept t w (w.executed t s) := by
  refine ⟨h.executed hs, fun u hu => ⟨fun hlock => ⟨hlock, ?_⟩, rfl, ?_⟩⟩
  · cases hsel : s.selects with
    | true => exact Connection.execute_selects hsel w.connection
    | false =>
        rw [hl hsel] at hlock
        exact absurd (Option.some.inj hlock).symm hu
  · show w.queriedAfter t s u = w.queried u
    cases s with
    | selectSegment segmentId => exact Function.update_of_ne hu _ _
    | _ => rfl

/-- One statement. -/
theorem execute_spec {s : Statement} {F : World → Prop} {Q : World → s.Result → Prop}
    {X : World → StoreError → Prop} (hF : discipline.Lasting t F)
    (hs : ∀ w, Inv w → F w → s.Covered w.connection.working)
    (hl : ∀ w, F w → s.selects = false → w.lock = some t)
    (hQ : ∀ w a, Inv w → F w → w.Coherent t s → (w.connection.execute s).2 = .ok a →
      Q (w.executed t s) a)
    (hX : ∀ w e, F w → X w e ∧ X (w.executed t s) e) :
    discipline.Triple t c F (execute s) Q X := by
  refine Triple.wait hF.stable fun w x w' r hi hf hc hr => ?_
  have hkept := executed_kept hi (hs w hi hf) (hl w hf)
  cases resumed_of_resume hr with
  | executed s => exact ⟨hkept, fun a ha => hQ w a hi hf hc ha, fun e _ => (hX w e hf).2⟩
  | refused s message =>
      refine ⟨.refl hi, nofun, fun e he => ?_⟩
      exact (hX w e hf).1
  | cancelled s =>
      refine ⟨hkept, nofun, fun e he => ?_⟩
      exact (hX w e hf).2

/-- `t` holds the lock. -/
def Held (t : Nat) (w : World) : Prop := w.lock = some t

theorem held_lasting : discipline.Lasting t (Held t) := fun _ _ _ hr h => (hr.held h).1

/-- The triple of code that keeps the lock. -/
abbrev Holds (t : Nat) (c : Call) (p : Co α) : Prop :=
  discipline.Triple t c (Held t) p (fun w _ => Held t w) fun w _ => Held t w

/-- A statement of the holder. -/
theorem held_spec (s : Statement) (hs : ∀ tables, s.Covered tables) : Holds t c (execute s) :=
  execute_spec held_lasting (fun _ _ _ => hs _) (fun _ h _ => h) (fun _ _ _ h _ _ => h)
    fun _ _ h => ⟨h, h⟩

theorem held_require {p : Prop} [Decidable p] {e : StoreError} :
    Holds t c (require (S := signature) p e) :=
  Triple.require (fun _ _ h _ => h) fun _ _ h _ => h

theorem held_ret {a : α} : Holds t c (ret a : Co α) := .ret fun _ _ h => h

theorem isSealed_spec (segmentId : String) : Holds t c (isSealed segmentId) :=
  .bind (held_spec _ fun _ => trivial) fun _ => held_ret

theorem trimmedPrefix_spec (segmentId : String) :
    discipline.Triple t c (Held t) (trimmedPrefix segmentId)
      (fun w n => Held t w ∧ n = (w.connection.working.row segmentId).trimmedPrefix)
      fun w _ => Held t w := by
  refine .bind (Q := fun w r => Held t w ∧
    r = (w.connection.working.segmentRow segmentId).map SegmentRow.trimmedPrefix) ?_ fun r => ?_
  · refine execute_spec held_lasting (fun _ _ _ => trivial) (fun _ h _ => h) ?_
      fun _ _ h => ⟨h, h⟩
    intro w a _ h _ ha
    cases ha
    exact ⟨h, rfl⟩
  · refine .ret fun w _ h => ⟨h.1, ?_⟩
    rw [h.2, Tables.row]
    cases w.connection.working.segmentRow segmentId with
    | none => rfl
    | some r => rfl

theorem andAwait_spec {p : Bool} {q : Co Bool} (hq : Holds t c q) :
    Holds t c (andAwait p q) := by
  cases p with
  | true => exact hq
  | false => exact held_ret

theorem lacksPredecessor_spec (entry : LogEntry) : Holds t c (lacksPredecessor entry) := by
  refine andAwait_spec (.bind (held_spec _ fun _ => trivial) fun previous => ?_)
  cases previous with
  | some _ => exact held_ret
  | none => exact .bind (.act fun w hi h => ⟨.refl hi, h⟩) fun _ => held_ret

theorem requireSamePosition_spec (entry : LogEntry) (p : Option Nat) :
    Holds t c (requireSamePosition entry p) := by
  cases p with
  | some p => exact held_require
  | none => exact held_ret

theorem writeBody_spec (entry : LogEntry) (rejectIfSealed requirePredecessor : Bool) :
    Holds t c (writeBody entry rejectIfSealed requirePredecessor) := by
  refine .bind (held_spec _ fun _ => trivial) fun _ => ?_
  refine .bind (andAwait_spec (isSealed_spec _)) fun isSealed => ?_
  refine .bind held_require fun _ => ?_
  refine .bind ((trimmedPrefix_spec _).post fun _ _ _ h => h.1) fun trimmed => ?_
  refine .bind held_require fun _ => ?_
  refine .bind (held_spec _ fun _ => trivial) fun existing => ?_
  cases existing with
  | some existing => exact .bind held_require fun _ => held_spec _ fun _ => trivial
  | none =>
      refine .bind (andAwait_spec (lacksPredecessor_spec entry)) fun lacking => ?_
      refine .bind held_require fun _ => ?_
      refine .bind (held_spec _ fun _ => trivial) fun commandPosition => ?_
      refine .bind (requireSamePosition_spec entry commandPosition) fun _ => ?_
      exact .bind (held_spec _ fun _ => trivial) fun _ => held_spec _ fun _ => trivial

/-- The transaction deletes below the watermark that it has just read. -/
theorem prefixTrimBody_spec (segmentId : String) (trimPosition : Nat) :
    Holds t c (prefixTrimBody segmentId trimPosition) := by
  refine .bind (held_spec _ fun _ => trivial) fun _ => ?_
  refine .bind (trimmedPrefix_spec segmentId) fun watermark => ?_
  refine .bind (Q := fun w _ => Held t w) ?_ fun _ =>
    .bind (held_spec _ fun _ => trivial) fun _ => held_ret
  refine execute_spec (fun w w' _ hr h => ?_) (fun w _ h => Nat.le_of_eq h.2) (fun _ h _ => h.1)
    (fun _ _ _ h _ _ => h.1) fun _ _ h => ⟨h.1, h.1⟩
  obtain ⟨hl, hc⟩ := hr.held h.1
  exact ⟨hl, hc ▸ h.2⟩

theorem transaction_spec {body : Co α} (hbody : Holds t c body) :
    discipline.Triple t c (fun _ => True) (transaction body) (fun _ _ => True)
      fun _ _ => True := by
  have hrolled : Holds t c (orRollback body) :=
    .handle hbody fun e => .bind (held_spec _ fun _ => trivial) fun _ => .raise fun _ _ h => h
  have hlocked : Holds t c (do execute .begin; orRollback body) :=
    .bind (held_spec _ fun _ => trivial) fun _ => hrolled
  refine .bind (Q := fun w _ => Held t w) ?_ fun _ => ?_
  · refine Triple.wait (fun _ _ _ _ _ h => h) fun w x w' r hi _ _ hr => ?_
    cases resumed_of_resume hr with
    | acquired hfree =>
        refine ⟨⟨hi.of_eq rfl rfl rfl, fun u _ => ⟨fun hl => ?_, rfl, rfl⟩⟩, fun _ _ => rfl, nofun⟩
        rw [hfree] at hl
        cases hl
    | waited => exact ⟨.refl hi, nofun, fun _ _ => trivial⟩
  · refine .bind (Q := fun w _ => Held t w) ?_ fun result => ?_
    · exact .handle (.bind hlocked fun a => .ret fun _ _ h => h) fun e => .ret fun _ _ h => h
    · refine .bind (Q := fun _ _ => True) (.act fun w hi h => ⟨⟨hi.of_eq rfl rfl rfl, ?_⟩, trivial⟩)
        fun _ => .ofExcept (fun _ _ _ _ _ => trivial) fun _ _ _ _ _ => trivial
      refine fun u hu => ⟨fun hl => ?_, rfl, rfl⟩
      have hl : w.lock = some u := hl
      rw [show w.lock = some t from h] at hl
      exact absurd (Option.some.inj hl).symm hu

theorem observe_spec {F : World → Prop} (hF : discipline.Lasting t F) (segmentId : String)
    (knownTail : Nat) : discipline.Triple t c F (act (.observeKnownTail segmentId knownTail))
      (fun w _ => F w) fun _ _ => True := by
  refine .act fun w hi h => ?_
  have hr : ∀ u, Rely u w (exec w t (.observeKnownTail segmentId knownTail)).1 :=
    fun u => ⟨fun hl => ⟨hl, rfl⟩, rfl, rfl⟩
  exact ⟨⟨hi.of_eq rfl rfl rfl, fun u _ => hr u⟩, hF _ _ (exec_grow w t _) (hr t) h⟩

/-! ## The report -/

/-- `t` may report `r` now. -/
structure Reportable (t : Nat) (w : World) (r : LogServerState) : Prop where
  committed : ∃ tables ∈ w.history.drop (w.began t), tables.Shows r
  current : r.localTail = w.connection.committed.localTail r.segmentId

/-- The first query has read the row of a committed state that held since the call. -/
def Queried (t : Nat) (segmentId : String) (segment : Option SegmentRow) (w : World) : Prop :=
  w.began t ≤ w.queried t ∧ ∃ first, w.history[w.queried t]? = some first ∧
    first.row segmentId = segment.getD (.default segmentId)

theorem queried_lasting (segmentId : String) (segment : Option SegmentRow) :
    discipline.Lasting t (Queried t segmentId segment) := by
  intro w w' hg hr h
  obtain ⟨hle, first, hfirst, hrow⟩ := h
  obtain ⟨tail, heq⟩ := hg.history
  refine ⟨by rw [hr.began, hr.queried]; exact hle, first, ?_, hrow⟩
  have hlt := (List.getElem?_eq_some_iff.mp hfirst).1
  rw [hr.queried, ← heq, List.getElem?_append_left hlt]
  exact hfirst

/-- The second query completes a report of a committed state. -/
theorem Queried.reportable (hi : Inv w) {segmentId : String} {segment : Option SegmentRow}
    (h : Queried t segmentId segment w) (hc : w.Coherent t (.selectMaxPosition segmentId))
    (knownTail : Nat) : Reportable t w (reportOf segmentId segment
      (w.connection.working.maxPosition segmentId) knownTail) := by
  obtain ⟨hle, first, hfirst, hrow⟩ := h
  obtain ⟨hlt, heq⟩ := List.getElem?_eq_some_iff.mp hfirst
  obtain ⟨hmax, hsettled⟩ := hc
  have hdrop : w.history.drop (w.queried t) = first :: w.history.drop (w.queried t + 1) := by
    rw [List.drop_eq_getElem_cons hlt, heq]
  have hchain := hsettled first (by rw [hdrop]; rfl)
  have hlast : (w.history.drop (w.queried t)).getLast? = some w.connection.committed := by
    rw [List.getLast?_drop, if_neg (Nat.not_le_of_lt hlt)]
    exact hi.last
  rw [hdrop] at hchain hlast
  obtain ⟨tables, hmem, hrow', hmax', htail⟩ := exists_of_settled ⟨rfl, rfl, rfl⟩ hchain hlast
  rw [hrow] at hrow'
  have hshows : tables.Shows (reportOf segmentId segment
      (w.connection.working.maxPosition segmentId) knownTail) := by
    refine ⟨?_, congrArg SegmentRow.trimmedPrefix hrow', congrArg SegmentRow.sealed hrow'⟩
    show tables.localTail segmentId = _
    rw [Tables.localTail_eq, hmax', hrow', hmax]
    rfl
  refine ⟨⟨tables, ?_, hshows⟩, hshows.1.symm.trans htail⟩
  rw [← hdrop, ← Nat.sub_add_cancel hle, Nat.add_comm, ← List.drop_drop] at hmem
  exact List.mem_of_mem_drop hmem

/-- `t` began in a committed state. -/
def Begun (t : Nat) (w : World) : Prop := w.began t < w.history.length

theorem begun_lasting : discipline.Lasting t (Begun t) := by
  intro w w' hg hr h
  have hle := hg.history.length_le
  rw [Begun, hr.began]
  exact Nat.lt_of_lt_of_le h hle

theorem state_spec (segmentId : String) (knownTail : Nat) :
    discipline.Triple t c (Begun t) (state segmentId knownTail) (Reportable t)
      fun _ _ => True := by
  refine .bind (observe_spec begun_lasting segmentId knownTail) fun _ => ?_
  refine .bind (execute_spec (s := .selectSegment segmentId)
    (Q := fun w segment => Queried t segmentId segment w) begun_lasting
    (fun _ _ _ => trivial) (fun _ _ h => nomatch h) ?_ fun _ _ _ => ⟨trivial, trivial⟩)
    fun segment => ?_
  · intro w segment hi h hc hsegment
    have hlast := hi.last
    rw [List.getLast?_eq_getElem?] at hlast
    have hqueried : (w.executed t (.selectSegment segmentId)).queried t = w.now :=
      Function.update_self _ _ _
    rw [Queried, hqueried]
    refine ⟨Nat.le_sub_one_of_lt h, _, hlast, ?_⟩
    cases hsegment
    exact hc.symm
  refine .bind (execute_spec (s := .selectMaxPosition segmentId)
    (Q := fun w tailValue => ∀ known, Reportable t w (reportOf segmentId segment tailValue known))
    (queried_lasting segmentId segment) (fun _ _ _ => trivial) (fun _ _ h => nomatch h) ?_
    fun _ _ _ => ⟨trivial, trivial⟩) fun tailValue => ?_
  · intro w tailValue hi h hc htail known
    cases htail
    exact h.reportable hi hc known
  refine .bind (Q := fun w known => Reportable t w (reportOf segmentId segment tailValue known))
    (.act fun w hi h => ⟨.refl hi, h _⟩) fun known => ?_
  exact .ret fun _ _ h => h

/-! ## Every call -/

/-- What a call leaves to its end. -/
def CallPost (t : Nat) (w : World) (o : Outcome) : Prop :=
  ∀ report, o = .state report → Reportable t w report

theorem put_spec (entry : LogEntry) (knownTail : Nat) :
    discipline.Triple t c (fun _ => True) (put entry knownTail) (fun _ _ => True)
      fun _ _ => True :=
  .bind (observe_spec (persistent_const True).lasting _ _) fun _ =>
    transaction_spec (writeBody_spec entry true true)

theorem repair_spec (entry : LogEntry) (knownTail : Nat) :
    discipline.Triple t c (fun _ => True) (repair entry knownTail) (fun _ _ => True)
      fun _ _ => True :=
  .bind (observe_spec (persistent_const True).lasting _ _) fun _ =>
    transaction_spec (writeBody_spec entry false false)

theorem prefixTrim_spec (segmentId : String) (trimPosition : Int) :
    discipline.Triple t c (fun _ => True) (prefixTrim segmentId trimPosition) (fun _ _ => True)
      fun _ _ => True :=
  .bind (.require (fun _ _ _ _ => trivial) fun _ _ _ _ => trivial) fun _ =>
    transaction_spec (prefixTrimBody_spec segmentId trimPosition.toNat)

theorem sealSegment_spec (segmentId : String) (knownTail : Nat) :
    discipline.Triple t c (fun _ => True) (sealSegment segmentId knownTail) (fun _ _ => True)
      fun _ _ => True :=
  .bind (observe_spec (persistent_const True).lasting _ _) fun _ =>
    transaction_spec (.bind (held_spec _ fun _ => trivial) fun _ => held_spec _ fun _ => trivial)

theorem program_spec (c' : Call) :
    discipline.Triple t c (Begun t) (program c') (CallPost t) fun _ _ => True := by
  cases c' with
  | put entry knownTail =>
      exact .bind ((put_spec entry knownTail).pre fun _ _ _ => trivial) fun _ =>
        .ret fun _ _ _ => nofun
  | repair entry knownTail =>
      exact .bind ((repair_spec entry knownTail).pre fun _ _ _ => trivial) fun _ =>
        .ret fun _ _ _ => nofun
  | prefixTrim segmentId trimPosition =>
      exact .bind ((prefixTrim_spec segmentId trimPosition).pre fun _ _ _ => trivial) fun _ =>
        .ret fun _ _ _ => nofun
  | sealSegment segmentId knownTail =>
      exact .bind ((sealSegment_spec segmentId knownTail).pre fun _ _ _ => trivial) fun _ =>
        .ret fun _ _ _ => nofun
  | state segmentId knownTail =>
      refine .bind (state_spec segmentId knownTail) fun report => .ret fun w _ h r hr => ?_
      cases hr
      exact h

/-- A report that may be made is made. -/
theorem report_kept (hi : Inv w) {report : LogServerState} (h : Reportable t w report) :
    discipline.Kept t w (finish w t (.ok (.state report))) := by
  refine ⟨⟨hi.advances, hi.last, hi.chain, fun r hr => ?_, ?_⟩, fun u _ => ⟨fun hl => ⟨hl, rfl⟩, rfl, rfl⟩⟩
  · rcases List.mem_append.mp hr with hr | hr
    · exact (hi.genuine r hr).grow (List.prefix_refl _)
    · obtain rfl := List.mem_singleton.mp hr
      refine ⟨Nat.le_refl _, ?_, fun last hlast => ?_⟩
      · show ∃ tables ∈ (w.history.take w.history.length).drop (w.began t), tables.Shows report
        rw [List.take_length]
        exact h.committed
      · have hlast : (w.history.take w.history.length).getLast? = some last := hlast
        rw [List.take_length, hi.last] at hlast
        cases hlast
        exact h.current
  · refine List.pairwise_append.mpr ⟨hi.ordered, List.pairwise_singleton _ _, fun r hr r' hr' => ?_⟩
    rw [List.mem_singleton.mp hr']
    exact (hi.genuine r hr).returned

/-- **Every call keeps the discipline.** -/
theorem sound : discipline.Sound where
  start := by
    intro w t c w' p hi _ hst
    cases hst
    refine ⟨.of_eq rfl rfl, ?_⟩
    have hk : discipline.Kept t w { w with began := Function.update w.began t w.now } := by
      refine ⟨hi.of_eq rfl rfl rfl, fun u hu => ⟨fun hl => ⟨hl, rfl⟩, ?_, rfl⟩⟩
      exact Function.update_of_ne hu _ _
    have hbegun : Begun t { w with began := Function.update w.began t w.now } := by
      have hlast := hi.last
      rw [List.getLast?_eq_getElem?] at hlast
      have hlt : w.now < w.history.length := (List.getElem?_eq_some_iff.mp hlast).1
      show Function.update w.began t w.now t < w.history.length
      rw [Function.update_self]
      exact hlt
    refine (program_spec c).safe_finish hk hbegun (fun v o hi' h => ?_) fun v e hi' _ => ?_
    · cases o with
      | state report => exact report_kept hi' (h report rfl)
      | done => exact .refl hi'
      | watermark value => exact .refl hi'
    · exact .refl hi'
  disturb := by
    intro w d w' hi hd
    cases d with
    | crash =>
        cases hd
        refine ⟨⟨.refl _, hi.last, hi.chain, fun r hr => ?_, hi.ordered⟩, .of_eq rfl rfl, nofun⟩
        exact (hi.genuine r hr).grow (List.prefix_refl _)

end Rules

/-! ## The reports of a run -/

theorem inv_opened (t : Tables) : Inv (.opened t) where
  advances := .refl t
  last := rfl
  chain := List.pairwise_singleton _ _
  genuine := fun _ hr => nomatch hr
  ordered := .nil

theorem Inv.last_returned {w : World} (h : Inv w) {r : Report} (hr : r ∈ w.reports) :
    ∃ t, (w.history.take r.returned).getLast? = some t ∧
      r.state.localTail = t.localTail r.state.segmentId := by
  obtain ⟨t, hmem, -⟩ := (h.genuine r hr).committed
  have hne : w.history.take r.returned ≠ [] := List.ne_nil_of_mem (List.mem_of_mem_drop hmem)
  exact ⟨_, List.getLast?_eq_getLast_of_ne_nil hne,
    (h.genuine r hr).current _ (List.getLast?_eq_getLast_of_ne_nil hne)⟩

/-- No state that was committed by the time of a report has a greater local tail. -/
theorem Inv.localTail_le {w : World} (h : Inv w) {r : Report} (hr : r ∈ w.reports) {t : Tables}
    (ht : t ∈ w.history.take r.returned) :
    t.localTail r.state.segmentId ≤ r.state.localTail := by
  obtain ⟨last, hlast, heq⟩ := h.last_returned hr
  obtain ⟨front, hfront⟩ := List.getLast?_eq_some_iff.mp hlast
  have hchain := h.chain.take (i := r.returned)
  rw [hfront] at ht hchain
  rw [heq]
  rcases List.mem_append.mp ht with ht | ht
  · exact ((List.pairwise_append.mp hchain).2.2 t ht last List.mem_cons_self _).localTail
  · exact List.mem_singleton.mp ht ▸ Nat.le_refl _

/-- **The reports of a LogServer are atomic** in every run in which no query of `state` is
torn from the other: each is one committed state that held during the call, and its local
tail is below no earlier one and no watermark. -/
theorem state_reports_atomic {s : SystemState}
    (h : runtime.ReachableUnder coherentQueries (fun w => ∃ t, w = .opened t) s) :
    s.world.ReportsCommitted ∧ s.world.ReportsAdvance ∧ s.world.ReportsCover := by
  have hi : Inv s.world := (sound.reachable (by rintro w ⟨t, rfl⟩; exact inv_opened t) h).1
  refine ⟨fun r hr => (hi.genuine r hr).committed, ?_, fun r hr t ht => ?_⟩
  · refine hi.ordered.imp_of_mem fun {r r'} hr hr' hle heq => ?_
    obtain ⟨last, hlast, htail⟩ := hi.last_returned hr
    have hmem : last ∈ s.world.history.take r'.returned :=
      (List.take_prefix_take_left hle).subset (List.mem_of_getLast? hlast)
    rw [htail, heq]
    exact hi.localTail_le hr' hmem
  · exact Nat.le_trans (Nat.le_max_right _ _) (hi.localTail_le hr ht)

/-! ## Two runs of one segment -/

def meetsCoherent (s : SystemState) : Action Nat Call Choice Disturbance → Bool
  | .resume t .done =>
      match s.tasks t with
      | some (_, .wait (.execute statement) _) => decide (s.world.Coherent t statement)
      | _ => true
  | _ => true

theorem meets_of_meetsCoherent (s : SystemState) (a : Action Nat Call Choice Disturbance)
    (h : meetsCoherent s a = true) : Runtime.Meets coherentQueries s a := by
  cases a with
  | launch t c => trivial
  | resume t x =>
      intro c e k ht
      cases x with
      | done =>
          cases e with
          | acquire => trivial
          | execute statement =>
              simp only [meetsCoherent, ht] at h
              exact of_decide_eq_true (p := s.world.Coherent t statement) h
      | refused message => cases e <;> trivial
      | cancelled => cases e <;> trivial
  | disturb d => trivial

/-- Task `t` calls `c`, and nobody comes between its next `n` waits. -/
def alone (t : Nat) (c : Call) (n : Nat) : List (Action Nat Call Choice Disturbance) :=
  .launch t c :: List.replicate n (.resume t .done)

/-- The first entry of a segment is put. -/
def putFirst : List (Action Nat Call Choice Disturbance) :=
  alone 0 (.put ⟨"segment", 0, "command", []⟩ 0) 9

/-- The segment is sealed between the two queries of a report. -/
def sealedBetween : List (Action Nat Call Choice Disturbance) :=
  putFirst ++ alone 1 (.state "segment" 0) 1 ++ alone 2 (.sealSegment "segment" 0) 4 ++
    [.resume 1 .done]

theorem sealedBetween_runs :
    ((runtime.runWhile meetsCoherent (Runtime.fresh _ _ _ _ (.opened ⟨[], []⟩)) sealedBetween).map
      fun s => (s.world.history.length, s.world.reports)) =
    some (3, [⟨1, 3, ⟨"segment", 1, 0, 0, false⟩⟩]) := by
  decide +kernel

theorem state_reports_atomic_sealed :
    ∃ s : SystemState, s.world.reports = [⟨1, 3, ⟨"segment", 1, 0, 0, false⟩⟩] ∧
      s.world.ReportsCommitted ∧ s.world.ReportsAdvance ∧ s.world.ReportsCover := by
  obtain ⟨s, hs, hpost⟩ := Option.map_eq_some_iff.mp sealedBetween_runs
  exact ⟨s, (Prod.mk.inj hpost).2, state_reports_atomic
    (Runtime.ReachableUnder.runWhile meets_of_meetsCoherent (.init ⟨_, rfl⟩) hs)⟩

/-- The segment is reported; then it is trimmed between the two queries of a report. -/
def trimmedBetween : List (Action Nat Call Choice Disturbance) :=
  putFirst ++ alone 1 (.state "segment" 0) 2 ++ alone 2 (.state "segment" 0) 1 ++
    alone 3 (.prefixTrim "segment" 1) 6 ++ [.resume 2 .done]

/-- The second report has lost the segment's tail: no committed state shows it. -/
theorem trimmedBetween_runs :
    ((runtime.run (Runtime.fresh _ _ _ _ (.opened ⟨[], []⟩)) trimmedBetween).map fun s =>
      (s.world.reports.map Report.state, decide s.world.ReportsCommitted,
        decide s.world.ReportsAdvance, decide s.world.ReportsCover)) =
    some ([⟨"segment", 1, 0, 0, false⟩, ⟨"segment", 0, 0, 0, false⟩], false, false, false) := by
  decide +kernel

theorem state_reports_torn :
    ∃ s : SystemState, runtime.Reachable (fun w => ∃ t, w = .opened t) s ∧
      ¬s.world.ReportsCommitted ∧ ¬s.world.ReportsAdvance ∧ ¬s.world.ReportsCover := by
  obtain ⟨s, hs, hpost⟩ := Option.map_eq_some_iff.mp trimmedBetween_runs
  obtain ⟨-, hpost⟩ := Prod.mk.inj hpost
  obtain ⟨hcommitted, hpost⟩ := Prod.mk.inj hpost
  obtain ⟨hadvance, hcover⟩ := Prod.mk.inj hpost
  exact ⟨s, Runtime.Reachable.run (.init ⟨_, rfl⟩) hs, of_decide_eq_false hcommitted,
    of_decide_eq_false hadvance, of_decide_eq_false hcover⟩

end DelosLab.NativeLoglet.Sql
