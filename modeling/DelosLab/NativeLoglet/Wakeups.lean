import DelosLab.Async.RelyGuarantee
import DelosLab.NativeLoglet.LogServer

/-!
# No tail wake-up is lost

A waiter tests the store and parks while it holds the condition of its segment, and nobody
notifies without it. So a change of the rows since the test is the work of a call that has
not notified yet: as long as there is none, the rows are as the waiter saw them.
-/

namespace DelosLab.NativeLoglet.NativeLogServer

open Async Async.Coroutine Async.Discipline

/-! ## What the tasks keep -/

/-- What the tasks of a store keep among themselves. -/
structure Terms (E : StorageEngine) where
  Inv : E.World → Prop
  Rely : Nat → E.World → E.World → Prop
  rely_refl : ∀ t w, Rely t w w
  rely_trans : ∀ {t w₁ w₂ w₃}, Rely t w₁ w₂ → Rely t w₂ w₃ → Rely t w₁ w₃

section Discipline

variable {E : StorageEngine} (T : Terms E)

/-- A parked task is a caller of `wait_for_tail` that nothing is due to. -/
def Parked (w : World E) (segmentId : String) (t : Nat) : Prop :=
  ∃ localTail knownTail turns,
    w.calls t = some (.waitForTail segmentId localTail knownTail turns) ∧
      (w.Quiet segmentId →
        ¬Due localTail (E.rows w.store segmentId).localTail (E.rows w.store segmentId).sealed)

/-- What a waiter returns is due to it. -/
def Answers (r : Call × LogServerState) : Prop :=
  ∀ segmentId localTail knownTail turns, r.1 = .waitForTail segmentId localTail knownTail turns →
    Due localTail r.2.localTail r.2.sealed

structure Inv (w : World E) : Prop where
  store : T.Inv w.store
  parked : ∀ segmentId, ∀ t ∈ w.parked segmentId, Parked w segmentId t
  returned : ∀ r ∈ w.returned, Answers r

/-- What the others leave alone while `t` waits. While `t` holds a condition, the segment is
quiet only as long as its rows have not changed. -/
structure Rely (t : Nat) (w w' : World E) : Prop where
  store : T.Rely t w.store w'.store
  calls : w'.calls t = w.calls t
  updated : w'.updated t = w.updated t
  parked : ∀ segmentId, t ∈ w'.parked segmentId → t ∈ w.parked segmentId
  held : ∀ segmentId, w.lock segmentId = some t → w'.lock segmentId = some t ∧
    (w'.Quiet segmentId → w.Quiet segmentId ∧
      E.rows w'.store segmentId = E.rows w.store segmentId)

variable {T}

theorem Rely.refl (t : Nat) (w : World E) : Rely T t w w :=
  ⟨T.rely_refl t w.store, rfl, rfl, fun _ h => h, fun _ hl => ⟨hl, fun hq => ⟨hq, rfl⟩⟩⟩

theorem Rely.trans {t : Nat} {w₁ w₂ w₃ : World E} (h : Rely T t w₁ w₂) (h' : Rely T t w₂ w₃) :
    Rely T t w₁ w₃ := by
  refine ⟨T.rely_trans h.store h'.store, h'.calls.trans h.calls, h'.updated.trans h.updated,
    fun segmentId hp => h.parked segmentId (h'.parked segmentId hp), fun segmentId hl => ?_⟩
  obtain ⟨hl₂, hquiet⟩ := h.held segmentId hl
  obtain ⟨hl₃, hquiet'⟩ := h'.held segmentId hl₂
  refine ⟨hl₃, fun hq => ?_⟩
  obtain ⟨hq₂, hrows'⟩ := hquiet' hq
  obtain ⟨hq₁, hrows⟩ := hquiet hq₂
  exact ⟨hq₁, hrows'.trans hrows⟩

variable (T) in
def discipline : Discipline (runtime E) (waitersCancelled E) where
  Inv := Inv T
  Grow := fun _ _ => True
  Rely := Rely T
  grow_refl := fun _ => trivial
  grow_trans := fun _ _ => trivial
  rely_refl := Rely.refl
  rely_trans := Rely.trans
  exec_grow := fun _ _ _ => trivial
  resume_grow := fun _ => trivial
  finish_grow := fun _ _ _ _ => trivial

/-! ## What the calls know -/

/-- `t` works on call `c` and waits for no notification. -/
def Working (t : Nat) (c : Call) (w : World E) : Prop :=
  w.calls t = some c ∧ ∀ segmentId, t ∉ w.parked segmentId

/-- `t` holds the condition of the segment. -/
def Holds (t : Nat) (segmentId : String) (w : World E) : Prop := w.lock segmentId = some t

variable {t : Nat} {c : Call} {segmentId : String} {w w' : World E}

theorem working_lasting : (discipline T).Lasting t (Working t c) := by
  rintro w w' - hr ⟨hc, hp⟩
  exact ⟨hr.calls.trans hc, fun segmentId h => hp segmentId (hr.parked segmentId h)⟩

theorem holds_lasting : (discipline T).Lasting t (Holds t segmentId) :=
  fun _ _ _ hr h => (hr.held segmentId h).1

/-- The invariant looks at the parked tasks, their calls and the segments' rows. -/
theorem Inv.of_parked (h : Inv T w) (hstore : T.Inv w'.store)
    (hparked : ∀ id, ∀ u ∈ w'.parked id, u ∈ w.parked id ∧ w'.calls u = w.calls u ∧
      (w'.Quiet id → w.Quiet id ∧ E.rows w'.store id = E.rows w.store id))
    (hreturned : w'.returned = w.returned) : Inv T w' := by
  refine ⟨hstore, fun id u hu => ?_, hreturned ▸ h.returned⟩
  obtain ⟨hu, hcalls, hquiet⟩ := hparked id u hu
  obtain ⟨localTail, knownTail, turns, hc, hdue⟩ := h.parked id u hu
  refine ⟨localTail, knownTail, turns, hcalls.trans hc, fun hq => ?_⟩
  obtain ⟨hq, hrows⟩ := hquiet hq
  rw [hrows]
  exact hdue hq

/-! ## Steps in the store -/

/-- A step of the store that changes the rows of no segment but that of the call, and none
at all when the call only waits. -/
structure Confined (c : Call) (s s' : E.World) : Prop where
  others : ∀ id, id ≠ c.segmentId → E.rows s' id = E.rows s id
  waits : c.mutates = false → E.rows s' c.segmentId = E.rows s c.segmentId

theorem Confined.of_rows {c : Call} {s s' : E.World} (h : ∀ id, E.rows s' id = E.rows s id) :
    Confined c s s' :=
  ⟨fun id _ => h id, fun _ => h _⟩

/-- **A segment stays quiet over a step of the store only when its rows stay as they are.** -/
theorem quiet_of_stored {s : E.World} (hw : w.calls t = some c) (hs : Confined c w.store s)
    {id : String} (hq : (w.stored t s).Quiet id) :
    w.Quiet id ∧ E.rows s id = E.rows w.store id := by
  have hupdated : ∀ u, (w.stored t s).updated u = false → w.updated u = false := by
    intro u hu
    by_cases hut : u = t
    · subst hut
      have hu : Function.update w.updated u _ u = false := hu
      rw [Function.update_self, Bool.or_eq_false_iff] at hu
      exact hu.1
    · have hu : Function.update w.updated t _ u = false := hu
      rwa [Function.update_of_ne hut] at hu
  refine ⟨fun u d hd hm hid => hupdated u (hq u d hd hm hid), ?_⟩
  by_cases hid : id = c.segmentId
  · subst hid
    cases hm : c.mutates with
    | false => exact hs.waits hm
    | true =>
        have hu : Function.update w.updated t _ t = false := hq t c hw hm rfl
        rw [Function.update_self, Bool.or_eq_false_iff] at hu
        have hchanges := hu.2
        rw [World.changes, hw] at hchanges
        exact not_not.mp (of_decide_eq_false hchanges)
  · exact hs.others id hid

theorem stored_kept {s : E.World} (hi : Inv T w) (hw : Working t c w)
    (hs : Confined c w.store s) (hstore : T.Inv s) (hrely : ∀ u, u ≠ t → T.Rely u w.store s) :
    (discipline T).Kept t w (w.stored t s) ∧ Working t c (w.stored t s) := by
  refine ⟨⟨hi.of_parked hstore (fun id u hu => ⟨hu, rfl, quiet_of_stored hw.1 hs⟩) rfl, ?_⟩, hw⟩
  intro u hu
  exact ⟨hrely u hu, rfl, Function.update_of_ne hu _ _, fun _ h => h,
    fun id hl => ⟨hl, quiet_of_stored hw.1 hs⟩⟩

/-! ## Steps of the condition -/

/-- A change of a free lock, or of a lock that `t` holds. -/
theorem lock_kept (hi : Inv T w) {holder : Option Nat}
    (hfree : ∀ u, u ≠ t → w.lock segmentId ≠ some u) :
    (discipline T).Kept t w { w with lock := Function.update w.lock segmentId holder } := by
  refine ⟨hi.of_parked hi.store (fun id u hu => ⟨hu, rfl, fun hq => ⟨hq, rfl⟩⟩) rfl, ?_⟩
  refine fun u hu => ⟨T.rely_refl u _, rfl, rfl, fun _ h => h, fun id hl => ⟨?_, fun hq => ⟨hq, rfl⟩⟩⟩
  show Function.update w.lock segmentId holder id = some u
  by_cases hid : id = segmentId
  · rw [hid] at hl
    exact absurd hl (hfree u hu)
  · rw [Function.update_of_ne hid]
    exact hl

theorem Holds.free (h : Holds t segmentId w) {u : Nat} (hu : u ≠ t) :
    w.lock segmentId ≠ some u := by
  intro hl
  rw [show w.lock segmentId = some t from h] at hl
  exact hu (Option.some.inj hl).symm

/-- `async with condition` begins. -/
theorem acquire_spec : (discipline T).Triple t c (Working t c) (wait (.acquire segmentId))
    (fun w _ => Working t c w ∧ Holds t segmentId w)
    fun w _ => Working t c w ∧ c.mutates = false := by
  refine Triple.wait working_lasting.stable fun w x w' r hi hw hx hr => ?_
  cases x with
  | store x => cases hr
  | done =>
      have hr : (if w.lock segmentId = none then some (w.locked t segmentId, .ok ()) else none) =
        some (w', r) := hr
      split at hr
      · next hfree =>
          cases hr
          refine ⟨lock_kept hi fun _ _ hl => ?_, fun _ _ => ⟨hw, Function.update_self _ _ _⟩, nofun⟩
          rw [hfree] at hl
          cases hl
      · cases hr
  | cancelled =>
      cases hr
      exact ⟨.refl hi, nofun, fun _ _ => ⟨hw, hx⟩⟩

/-- The lock is there after a wait, whether it was cancelled or not. -/
theorem reacquire_spec : (discipline T).Triple t c (Working t c) (wait (.reacquire segmentId))
    (fun w _ => Working t c w ∧ Holds t segmentId w)
    fun w _ => Working t c w ∧ Holds t segmentId w := by
  refine Triple.wait working_lasting.stable fun w x w' r hi hw hx hr => ?_
  have hlocked : w.lock segmentId = none → (discipline T).Kept t w (w.locked t segmentId) ∧
      Working t c (w.locked t segmentId) ∧ Holds t segmentId (w.locked t segmentId) := by
    refine fun hfree => ⟨lock_kept hi fun _ _ hl => ?_, hw, Function.update_self _ _ _⟩
    rw [hfree] at hl
    cases hl
  cases x with
  | store x => cases hr
  | done =>
      have hr : (if w.lock segmentId = none then some (w.locked t segmentId, .ok ()) else none) =
        some (w', r) := hr
      split at hr
      · next hfree =>
          cases hr
          exact ⟨(hlocked hfree).1, fun _ _ => (hlocked hfree).2, nofun⟩
      · cases hr
  | cancelled =>
      have hr : (if w.lock segmentId = none then
        some (w.locked t segmentId, .error E.cancelled) else none) = some (w', r) := hr
      split at hr
      · next hfree =>
          cases hr
          exact ⟨(hlocked hfree).1, nofun, fun _ _ => (hlocked hfree).2⟩
      · cases hr

theorem release_spec {F : World E → Prop}
    (hF : ∀ w lock, F w → F { w with lock := lock }) :
    (discipline T).Triple t c (fun w => F w ∧ Holds t segmentId w) (act (.release segmentId))
      (fun w _ => F w) fun _ _ => False :=
  .act fun w hi h => ⟨lock_kept hi fun _ hu => h.2.free hu, hF w _ h.1⟩

/-- `t` may park: it waits for more than what a quiet segment has. -/
def Waiting (t : Nat) (segmentId : String) (localTail : Int) (knownTail turns : Nat)
    (w : World E) : Prop :=
  Working t (.waitForTail segmentId localTail knownTail turns) w ∧ Holds t segmentId w ∧
    (w.Quiet segmentId →
      ¬Due localTail (E.rows w.store segmentId).localTail (E.rows w.store segmentId).sealed)

/-- `t` is on call `c` and waits for no notification but that of the segment. -/
def OnlyParked (t : Nat) (c : Call) (segmentId : String) (w : World E) : Prop :=
  w.calls t = some c ∧ ∀ id, id ≠ segmentId → t ∉ w.parked id

theorem onlyParked_lasting : (discipline T).Lasting t (OnlyParked t c segmentId) := by
  rintro w w' - hr ⟨hc, hp⟩
  exact ⟨hr.calls.trans hc, fun id hid h => hp id hid (hr.parked id h)⟩

theorem park_spec {localTail : Int} {knownTail turns : Nat} :
    (discipline T).Triple t c (Waiting t segmentId localTail knownTail turns)
      (act (.park segmentId))
      (fun w _ => OnlyParked t (.waitForTail segmentId localTail knownTail turns) segmentId w)
      fun _ _ => False := by
  refine .act fun w hi ⟨hw, hl, hdue⟩ => ⟨⟨⟨hi.store, fun id u hu => ?_, hi.returned⟩, ?_⟩, ?_⟩
  · have hu : u ∈ Function.update w.parked segmentId (w.parked segmentId ++ [t]) id := hu
    by_cases hid : id = segmentId
    · subst hid
      rw [Function.update_self] at hu
      rcases List.mem_append.mp hu with hu | hu
      · exact hi.parked id u hu
      · obtain rfl := List.mem_singleton.mp hu
        exact ⟨localTail, knownTail, turns, hw.1, hdue⟩
    · rw [Function.update_of_ne hid] at hu
      exact hi.parked id u hu
  · refine fun u hu => ⟨T.rely_refl u _, rfl, rfl, fun id hp => ?_, fun id hl' => ?_⟩
    · have hp : u ∈ Function.update w.parked segmentId (w.parked segmentId ++ [t]) id := hp
      by_cases hid : id = segmentId
      · subst hid
        rw [Function.update_self] at hp
        rcases List.mem_append.mp hp with hp | hp
        · exact hp
        · exact absurd (List.mem_singleton.mp hp) hu
      · rwa [Function.update_of_ne hid] at hp
    · refine ⟨?_, fun hq => ⟨hq, rfl⟩⟩
      have hid : id ≠ segmentId := fun hid => hl.free hu (hid ▸ hl')
      show Function.update w.lock segmentId none id = some u
      rw [Function.update_of_ne hid]
      exact hl'
  · refine ⟨hw.1, fun id hid hp => hw.2 id ?_⟩
    have hp : t ∈ Function.update w.parked segmentId (w.parked segmentId ++ [t]) id := hp
    rwa [Function.update_of_ne hid] at hp

theorem mem_unparked {id : String} {u : Nat} (h : u ∈ (w.unparked t segmentId).parked id) :
    u ∈ w.parked id ∧ (id = segmentId → u ≠ t) := by
  have h : u ∈ Function.update w.parked segmentId ((w.parked segmentId).filter (· ≠ t)) id := h
  by_cases hid : id = segmentId
  · subst hid
    rw [Function.update_self] at h
    obtain ⟨hmem, hne⟩ := List.mem_filter.mp h
    exact ⟨hmem, fun _ => of_decide_eq_true hne⟩
  · rw [Function.update_of_ne hid] at h
    exact ⟨h, fun h => absurd h hid⟩

/-- A wait for a notification ends. -/
theorem parked_spec : (discipline T).Triple t c (OnlyParked t c segmentId)
    (wait (.parked segmentId)) (fun w _ => Working t c w) fun w _ => Working t c w := by
  refine Triple.wait onlyParked_lasting.stable fun w x w' r hi hw _ hr => ?_
  have hunparked : (discipline T).Kept t w (w.unparked t segmentId) ∧
      Working t c (w.unparked t segmentId) := by
    refine ⟨⟨hi.of_parked hi.store ?_ rfl, fun u _ => ?_⟩, hw.1, fun id hp => ?_⟩
    · exact fun id u hu => ⟨(mem_unparked hu).1, rfl, fun hq => ⟨hq, rfl⟩⟩
    · exact ⟨T.rely_refl u _, rfl, rfl, fun id hp => (mem_unparked hp).1,
        fun id hl => ⟨hl, fun hq => ⟨hq, rfl⟩⟩⟩
    · obtain ⟨hp, hne⟩ := mem_unparked hp
      by_cases hid : id = segmentId
      · exact hne hid rfl
      · exact hw.2 id hid hp
  cases x with
  | store x => cases hr
  | done =>
      cases hr
      exact ⟨hunparked.1, fun _ _ => hunparked.2, nofun⟩
  | cancelled =>
      cases hr
      exact ⟨hunparked.1, nofun, fun _ _ => hunparked.2⟩

/-- `t` has notified. -/
def Notified (t : Nat) (c : Call) (w : World E) : Prop := Working t c w ∧ w.updated t = false

/-- The segment becomes quiet when its waiters are woken. -/
theorem notifyAll_spec :
    (discipline T).Triple t c (fun w => Working t c w ∧ Holds t c.segmentId w)
      (act (.notifyAll c.segmentId)) (fun w _ => Notified t c w ∧ Holds t c.segmentId w)
      fun _ _ => False := by
  refine .act fun w hi ⟨hw, hl⟩ => ?_
  -- Another segment is as quiet as before, since the call is not about it.
  have hquiet : ∀ id, id ≠ c.segmentId →
      (exec w t (.notifyAll c.segmentId)).1.Quiet id → w.Quiet id := by
    intro id hid hq u d hd hm hseg
    have hut : u ≠ t := by
      rintro rfl
      rw [hw.1] at hd
      cases hd
      exact hid hseg.symm
    have hu : Function.update w.updated t false u = false := hq u d hd hm hseg
    rwa [Function.update_of_ne hut] at hu
  have hparked : ∀ id u, u ∈ (exec w t (.notifyAll c.segmentId)).1.parked id →
      u ∈ w.parked id ∧ id ≠ c.segmentId := by
    intro id u hu
    have hu : u ∈ Function.update w.parked c.segmentId [] id := hu
    by_cases hid : id = c.segmentId
    · rw [hid, Function.update_self] at hu
      cases hu
    · rw [Function.update_of_ne hid] at hu
      exact ⟨hu, hid⟩
  refine ⟨⟨hi.of_parked hi.store (fun id u hu => ?_) rfl, fun u hu => ?_⟩, ⟨⟨hw.1, ?_⟩, ?_⟩, hl⟩
  · obtain ⟨hu, hid⟩ := hparked id u hu
    exact ⟨hu, rfl, fun hq => ⟨hquiet id hid hq, rfl⟩⟩
  · refine ⟨T.rely_refl u _, rfl, Function.update_of_ne hu _ _,
      fun id hp => (hparked id u hp).1, fun id hl' => ⟨hl', fun hq => ⟨?_, rfl⟩⟩⟩
    exact hquiet id (fun hid => hl.free hu (hid ▸ hl')) hq
  · exact fun id hp => hw.2 id (hparked id t hp).1
  · exact Function.update_self _ _ _

/-! ## What a store owes the server -/

variable (E) in
/-- The operations of the store change the rows of their own segment only, a report of
`state` changes none, and a report on a segment whose rows stay as they are shows them. -/
structure Lawful extends Terms E where
  put : ∀ {t c} entry knownTail, c.mutates = true → c.segmentId = entry.segmentId →
    (discipline toTerms).Triple t c (Working t c) (lift (E.put entry knownTail))
      (fun w _ => Working t c w) fun w _ => Working t c w
  repair : ∀ {t c} entry knownTail, c.mutates = true → c.segmentId = entry.segmentId →
    (discipline toTerms).Triple t c (Working t c) (lift (E.repair entry knownTail))
      (fun w _ => Working t c w) fun w _ => Working t c w
  prefixTrim : ∀ {t c} trimPosition, c.mutates = true →
    (discipline toTerms).Triple t c (Working t c) (lift (E.prefixTrim c.segmentId trimPosition))
      (fun w _ => Working t c w) fun w _ => Working t c w
  sealSegment : ∀ {t c} knownTail, c.mutates = true →
    (discipline toTerms).Triple t c (Working t c) (lift (E.sealSegment c.segmentId knownTail))
      (fun w _ => Working t c w) fun w _ => Working t c w
  state : ∀ {t c} segmentId knownTail,
    (discipline toTerms).Triple t c (Working t c) (lift (E.state segmentId knownTail))
      (fun w _ => Working t c w) fun w _ => Working t c w
  report : ∀ {t c} segmentId knownTail,
    (discipline toTerms).Triple t c (fun w => Working t c w ∧ Holds t segmentId w)
      (lift (E.state segmentId knownTail))
      (fun w r => (Working t c w ∧ Holds t segmentId w) ∧
        (w.Quiet segmentId → (E.rows w.store segmentId).Shows r))
      fun w _ => Working t c w ∧ Holds t segmentId w

/-! ## The methods -/

theorem tryFinally_spec {α : Type} {body : Co E α} {last : Co E Unit} {P : World E → Prop}
    {Q Q' : World E → α → Prop} {X X' : World E → E.signature.Error → Prop}
    (hbody : (discipline T).Triple t c P body Q X)
    (hok : ∀ a, (discipline T).Triple t c (fun w => Q w a) last (fun w _ => Q' w a) X')
    (herr : ∀ e, (discipline T).Triple t c (fun w => X w e) last (fun w _ => X' w e) X') :
    (discipline T).Triple t c P (tryFinally body last) Q' X' :=
  .tryFinally hbody hok herr

/-- `async with condition`: what the body leaves is left when the condition is free again. -/
theorem withCondition_spec {α : Type} {body : Co E α} {Q : World E → α → Prop}
    {X : World E → E.signature.Error → Prop}
    (hQ : ∀ w a lock, Q w a → Q { w with lock := lock } a)
    (hX : ∀ w e lock, X w e → X { w with lock := lock } e)
    (hcancelled : ∀ w e, Working t c w → c.mutates = false → X w e)
    (hbody : (discipline T).Triple t c (fun w => Working t c w ∧ Holds t segmentId w) body
      (fun w a => Q w a ∧ Holds t segmentId w) fun w e => X w e ∧ Holds t segmentId w) :
    (discipline T).Triple t c (Working t c) (withCondition segmentId body) Q X := by
  refine .bind (acquire_spec.mono (fun _ _ h => h) (fun _ _ _ h => h)
    fun w e _ h => hcancelled w e h.1 h.2) fun _ => ?_
  refine tryFinally_spec hbody (fun a => ?_) fun e => ?_
  · exact (release_spec fun w lock h => hQ w a lock h).mono (fun _ _ h => h) (fun _ _ _ h => h)
      fun _ _ _ h => h.elim
  · exact (release_spec fun w lock h => hX w e lock h).mono (fun _ _ h => h) (fun _ _ _ h => h)
      fun _ _ _ h => h.elim

/-- `_notify` is never cancelled, so it notifies. -/
theorem notify_spec (hm : c.mutates = true) :
    (discipline T).Triple t c (Working t c) (notify c.segmentId)
      (fun w _ => Notified t c w) fun w _ => Notified t c w := by
  refine withCondition_spec (fun _ _ _ h => h) (fun _ _ _ h => h) (fun w e _ h => ?_) ?_
  · rw [hm] at h
    cases h
  · exact notifyAll_spec.mono (fun _ _ h => h) (fun _ _ _ h => h) fun _ _ _ h => h.elim

/-- A mutating method notifies, however its operation ends. -/
theorem mutating_spec {body : Co E LogServerState} (hm : c.mutates = true)
    (hbody : (discipline T).Triple t c (Working t c) body (fun w _ => Working t c w)
      fun w _ => Working t c w) :
    (discipline T).Triple t c (Working t c) (tryFinally body (notify c.segmentId))
      (fun w _ => Notified t c w) fun w _ => Notified t c w :=
  tryFinally_spec hbody (fun _ => notify_spec hm) fun _ => notify_spec hm

theorem conditionWait_spec {localTail : Int} {knownTail turns : Nat} :
    (discipline T).Triple t (.waitForTail segmentId localTail knownTail turns)
      (Waiting t segmentId localTail knownTail turns) (conditionWait segmentId)
      (fun w _ => Working t (.waitForTail segmentId localTail knownTail turns) w ∧
        Holds t segmentId w)
      fun w _ => Working t (.waitForTail segmentId localTail knownTail turns) w ∧
        Holds t segmentId w := by
  refine .bind (park_spec.mono (fun _ _ h => h) (fun _ _ _ h => h) fun _ _ _ h => h.elim)
    fun _ => ?_
  refine .bind (Q := fun w _ => Working t (.waitForTail segmentId localTail knownTail turns) w)
    ?_ fun woken => ?_
  · exact .handle (.bind parked_spec fun a => .ret fun _ _ h => h) fun e => .ret fun _ _ h => h
  · exact .bind reacquire_spec fun _ => .ofExcept (fun _ _ _ h _ => h) fun _ _ _ h _ => h

/-- What a method leaves to the end of its call. -/
def Settled (t : Nat) (c : Call) (w : World E) : Prop :=
  Working t c w ∧ (c.mutates = true → w.updated t = false)

theorem Notified.settled (h : Notified t c w) : Settled t c w := ⟨h.1, fun _ => h.2⟩

end Discipline

section Methods

variable {E : StorageEngine} (L : Lawful E) {t : Nat} {c : Call}

/-- Each turn tests the rows under the condition and parks when nothing is due. -/
theorem waitLoop_spec (segmentId : String) (localTail : Int) (knownTail turns : Nat) :
    ∀ n, (discipline L.toTerms).Triple t (.waitForTail segmentId localTail knownTail turns)
      (fun w => Working t (.waitForTail segmentId localTail knownTail turns) w ∧
        Holds t segmentId w)
      (waitLoop segmentId localTail knownTail n)
      (fun w r => (Working t (.waitForTail segmentId localTail knownTail turns) w ∧
        Due localTail r.localTail r.sealed) ∧ Holds t segmentId w)
      fun w _ => Working t (.waitForTail segmentId localTail knownTail turns) w ∧
        Holds t segmentId w := by
  intro n
  induction n with
  | zero =>
      refine .bind (Q := fun _ never => never.elim) ?_ fun never => never.elim
      refine Triple.wait (working_lasting.and holds_lasting).stable
        fun w x w' r _ _ _ hr => ?_
      cases x <;> cases hr
  | succ n ih =>
      refine .bind (L.report segmentId knownTail) fun state => ?_
      split
      · next hdue => exact .ret fun _ _ h => ⟨⟨h.1.1, hdue⟩, h.1.2⟩
      · next hdue =>
          refine .bind (conditionWait_spec.pre fun w _ h => ⟨h.1.1, h.1.2, fun hq hd => ?_⟩)
            fun _ => ih
          obtain ⟨htail, hsealed⟩ := h.2 hq
          rw [← htail, ← hsealed] at hd
          exact hdue hd

theorem waitForTail_spec (segmentId : String) (localTail : Int) (knownTail turns : Nat) :
    (discipline L.toTerms).Triple t (.waitForTail segmentId localTail knownTail turns)
      (Working t (.waitForTail segmentId localTail knownTail turns))
      (waitForTail segmentId localTail knownTail turns)
      (fun w r => Working t (.waitForTail segmentId localTail knownTail turns) w ∧
        Due localTail r.localTail r.sealed)
      fun w _ => Working t (.waitForTail segmentId localTail knownTail turns) w := by
  refine .bind (.require (Q := fun w _ => Working t _ w) (fun _ _ h _ => h) fun _ _ h _ => h)
    fun _ => ?_
  exact withCondition_spec (fun _ _ _ h => h) (fun _ _ _ h => h) (fun _ _ h _ => h)
    (waitLoop_spec L segmentId localTail knownTail turns turns)

/-- What a call leaves: it is settled, and what a waiter returns is due to it. -/
theorem program_spec (c : Call) :
    (discipline L.toTerms).Triple t c (Working t c) (program c)
      (fun w r => Settled t c w ∧ Answers (c, r)) fun w _ => Settled t c w := by
  have mutating : ∀ body : Co E LogServerState, c.mutates = true →
      (discipline L.toTerms).Triple t c (Working t c) body (fun w _ => Working t c w)
        (fun w _ => Working t c w) →
      (discipline L.toTerms).Triple t c (Working t c) (tryFinally body (notify c.segmentId))
        (fun w r => Settled t c w ∧ Answers (c, r)) fun w _ => Settled t c w := by
    intro body hm hbody
    refine (mutating_spec hm hbody).mono (fun _ _ h => h) (fun w r _ h => ⟨h.settled, ?_⟩)
      fun _ _ _ h => h.settled
    intro segmentId localTail knownTail turns hc
    have hc : c = .waitForTail segmentId localTail knownTail turns := hc
    rw [hc] at hm
    cases hm
  cases c with
  | put entry knownTail =>
      exact mutating _ rfl (.bind (L.put entry knownTail rfl rfl) fun _ => L.state _ _)
  | repair entry knownTail =>
      exact mutating _ rfl (.bind (L.repair entry knownTail rfl rfl) fun _ => L.state _ _)
  | prefixTrim segmentId trimPosition =>
      exact mutating _ rfl (.bind (L.prefixTrim trimPosition rfl) fun _ => L.state _ _)
  | sealSegment segmentId knownTail =>
      exact mutating _ rfl (.bind (L.sealSegment knownTail rfl) fun _ => L.state _ _)
  | waitForTail segmentId localTail knownTail turns =>
      refine (waitForTail_spec L segmentId localTail knownTail turns).mono (fun _ _ h => h)
        (fun w r _ h => ⟨⟨h.1, nofun⟩, ?_⟩) fun _ _ _ h => ⟨h, nofun⟩
      rintro _ _ _ _ hc
      cases hc
      exact h.2

/-- A call that has settled leaves no segment quieter than it was. -/
theorem ended_kept {w w' : World E} (hi : Inv L.toTerms w) (h : Settled t c w)
    (hw : w' = { w.ended t with returned := w'.returned })
    (hreturned : ∀ r ∈ w'.returned, Answers r) : (discipline L.toTerms).Kept t w w' := by
  have hcalls : ∀ u, u ≠ t → w'.calls u = w.calls u := by
    intro u hu
    rw [hw]
    exact Function.update_of_ne hu _ _
  have hquiet : ∀ id, w'.Quiet id → w.Quiet id := by
    intro id hq u d hd hm hid
    by_cases hut : u = t
    · subst hut
      rw [h.1.1] at hd
      cases hd
      exact h.2 hm
    · have hu := hq u d ((hcalls u hut).trans hd) hm hid
      rwa [hw] at hu
  have hparked : ∀ id u, u ∈ w'.parked id → u ∈ w.parked id ∧ u ≠ t := by
    intro id u hu
    rw [hw] at hu
    refine ⟨hu, fun hut => h.1.2 id ?_⟩
    rw [hut] at hu
    exact hu
  have hrows : ∀ id, E.rows w'.store id = E.rows w.store id := by
    intro id
    rw [hw]
    rfl
  refine ⟨⟨?_, fun id u hu => ?_, hreturned⟩, fun u hu => ⟨?_, hcalls u hu, ?_, ?_, ?_⟩⟩
  · rw [hw]
    exact hi.store
  · obtain ⟨hu, hut⟩ := hparked id u hu
    obtain ⟨localTail, knownTail, turns, hc, hdue⟩ := hi.parked id u hu
    refine ⟨localTail, knownTail, turns, (hcalls u hut).trans hc, fun hq => ?_⟩
    rw [hrows]
    exact hdue (hquiet id hq)
  · rw [hw]
    exact L.rely_refl u _
  · rw [hw]
    rfl
  · exact fun id hp => (hparked id u hp).1
  · intro id hl
    refine ⟨?_, fun hq => ⟨hquiet id hq, hrows id⟩⟩
    rw [hw]
    exact hl

/-- **Every call keeps the discipline.** -/
theorem sound : (discipline L.toTerms).Sound where
  start := by
    intro w t c w' p hi _ hs
    refine ⟨trivial, ?_⟩
    have hs : start w t c = some (w', p) := hs
    unfold start at hs
    split at hs
    · cases hs
    next hnone =>
    cases hs
    have hquiet : ∀ id, World.Quiet { w with
        calls := Function.update w.calls t (some c)
        updated := Function.update w.updated t false } id → w.Quiet id := by
      intro id hq u d hd hm hid
      have hut : u ≠ t := by
        rintro rfl
        rw [hnone] at hd
        cases hd
      have hu : Function.update w.updated t false u = false :=
        hq u d ((Function.update_of_ne hut _ _).trans hd) hm hid
      rwa [Function.update_of_ne hut] at hu
    have hidle : ∀ id, t ∉ w.parked id := by
      intro id hp
      obtain ⟨localTail, knownTail, turns, hc, -⟩ := hi.parked id t hp
      rw [hnone] at hc
      cases hc
    refine (program_spec L c).safe_finish ⟨?_, fun u hu => ?_⟩
      ⟨Function.update_self _ _ _, hidle⟩ (fun w r hi h => ?_) fun w e hi h => ?_
    · refine Inv.of_parked hi hi.store (fun id u hu => ⟨hu, ?_, fun hq => ⟨hquiet id hq, rfl⟩⟩) rfl
      have hut : u ≠ t := fun hut => hidle id (hut ▸ hu)
      exact Function.update_of_ne hut _ _
    · exact ⟨L.rely_refl u _, Function.update_of_ne hu _ _, Function.update_of_ne hu _ _,
        fun _ hp => hp, fun id hl => ⟨hl, fun hq => ⟨hquiet id hq, rfl⟩⟩⟩
    · refine ended_kept L hi h.1 rfl fun r' hr' => ?_
      rcases List.mem_append.mp hr' with hr' | hr'
      · exact hi.returned r' hr'
      · rw [List.mem_singleton.mp hr']
        exact h.2
    · exact ended_kept L hi h rfl hi.returned
  disturb := fun {_ d} => nomatch d

theorem inv_opened {store : E.World} (h : L.Inv store) : Inv L.toTerms (.opened store) :=
  ⟨h, nofun, nofun⟩

end Methods

end DelosLab.NativeLoglet.NativeLogServer
