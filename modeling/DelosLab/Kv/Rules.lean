import DelosLab.Kv.Discipline

/-!
# Rules for the tasks of a replica

What a task may do without the lock of the materializer, and what its holder may do to
the connection.
-/

namespace DelosLab.Kv

open Async Async.Coroutine Async.Discipline

variable {𝒮 : Deployment} {w w' : World} {t : TaskId} {c : Call}

/-! ## Changes of one replica -/

namespace World

theorem replicas_setReplica_ne {node n : String} (h : n ≠ node) (w : World) (r : Replica) :
    (w.setReplica node r).replicas n = w.replicas n :=
  Function.update_of_ne h _ _

@[simp] theorem replicas_setLock (w : World) (node : String) (lock : Lock)
    (holder : Option TaskId) : (w.setLock node lock holder).replicas node =
      { w.replicas node with locks := Function.update (w.replicas node).locks lock holder } :=
  Function.update_self _ _ _

@[simp] theorem replicas_setCached (w : World) (node : String) :
    (w.setCached node).replicas node = { w.replicas node with cached := true } :=
  Function.update_self _ _ _

@[simp] theorem replicas_setConnection (w : World) (node : String) (c : Connection) :
    (w.setConnection node c).replicas node = { w.replicas node with connection := c } :=
  Function.update_self _ _ _

end World

/-- A change of the replica of `t` that leaves its committed progress keeps the invariant,
when the store of the replica does. -/
theorem Inv.of_replica (h : Inv 𝒮 w) (hg : Grow w w') (hsubmitted : w'.submitted = w.submitted)
    (hreplayed : w'.replayed = w.replayed) (node : String)
    (hothers : ∀ n, n ≠ node → w'.replicas n = w.replicas n ∧ w'.faulted n = w.faulted n)
    (hstore : StoreInv 𝒮 w' (w'.faulted node) (w'.replicas node))
    (happlied : (w.connection node).committed.appliedPosition ≤
      (w'.connection node).committed.appliedPosition) : Inv 𝒮 w' := by
  refine h.of_grow hg hsubmitted hreplayed (fun n => ?_) fun n => ?_
  · by_cases hn : n = node
    · subst hn
      exact hstore
    · obtain ⟨hr, hf⟩ := hothers n hn
      rw [hr, hf]
      exact (h.store n).mono hg
  · by_cases hn : n = node
    · subst hn
      exact happlied
    · rw [World.connection, World.connection, (hothers n hn).1]

/-- The others rely on nothing that changes on another replica. -/
theorem Rely.of_others {u : TaskId} (hr : w'.replicas u.node = w.replicas u.node)
    (hg : w'.gap u = w.gap u) (hf : w.faulted u.node = true → w'.faulted u.node = true) :
    Rely u w w' := by
  refine ⟨fun h => ?_, hg, hf⟩
  rw [World.connection, World.connection, hr]
  exact ⟨h, rfl⟩

/-! ## Waits -/

/-- A lock that changes hands; the materializer's is given back between transactions. -/
theorem Inv.setLock (h : Inv 𝒮 w) {lock : Lock} {holder : Option TaskId}
    (hl : lock = .materializer → holder = none →
      Idle (w.faulted t.node) (w.connection t.node)) :
    Inv 𝒮 (w.setLock t.node lock holder) := by
  have hg : Grow w (w.setLock t.node lock holder) := .of_eq rfl rfl
  have hs := h.store t.node
  refine h.of_replica hg rfl rfl t.node (fun n hn => ⟨Function.update_of_ne hn _ _, rfl⟩) ?_ ?_
  · rw [World.replicas_setLock]
    refine ⟨hs.committed.mono hg, hs.readable.mono hg, fun hfree => ?_⟩
    by_cases hm : lock = .materializer
    · subst hm
      have hholder : holder = none := by simpa using hfree
      exact hl rfl hholder
    · have hfree' : (w.replicas t.node).locks .materializer = none := by
        simpa [Function.update_of_ne (Ne.symm hm)] using hfree
      exact hs.idle hfree'
  · rw [World.connection, World.connection, World.replicas_setLock]

/-- Taking or giving back a lock that another task does not hold. -/
theorem Rely.setLock {u : TaskId} {lock : Lock} {holder : Option TaskId}
    (h : lock = .materializer → (w.replicas t.node).locks .materializer ≠ some u) :
    Rely u w (w.setLock t.node lock holder) := by
  by_cases hn : u.node = t.node
  · refine ⟨fun hl => ?_, rfl, id⟩
    rw [hn] at hl
    have hne : Lock.materializer ≠ lock := fun hm => h hm.symm hl
    rw [hn, World.connection, World.connection, World.replicas_setLock]
    exact ⟨(Function.update_of_ne hne _ _).trans hl, rfl⟩
  · exact .of_others (Function.update_of_ne hn _ _) rfl id

theorem Inv.setCached_kept (h : Inv 𝒮 w) : (discipline 𝒮).Kept t w (w.setCached t.node) := by
  have hg : Grow w (w.setCached t.node) := .of_eq rfl rfl
  have hs := h.store t.node
  refine ⟨h.of_replica hg rfl rfl t.node (fun n hn => ⟨Function.update_of_ne hn _ _, rfl⟩) ?_ ?_,
    fun u hu => ?_⟩
  · rw [World.replicas_setCached]
    exact ⟨hs.committed.mono hg, hs.readable.mono hg, hs.idle⟩
  · rw [World.connection, World.connection, World.replicas_setCached]
  · by_cases hn : u.node = t.node
    · refine ⟨fun hl => ?_, rfl, id⟩
      rw [hn] at hl
      rw [hn, World.connection, World.connection, World.replicas_setCached]
      exact ⟨hl, rfl⟩
    · exact .of_others (Function.update_of_ne hn _ _) rfl id

/-- An exception of a wait is noted. -/
theorem Inv.fault_kept (h : Inv 𝒮 w) : (discipline 𝒮).Kept t w
    { w with faulted := Function.update w.faulted t.node true } := by
  have hg : Grow w { w with faulted := Function.update w.faulted t.node true } := .of_eq rfl rfl
  have hs := h.store t.node
  refine ⟨h.of_replica hg rfl rfl t.node (fun n hn => ⟨rfl, Function.update_of_ne hn _ _⟩) ?_
    (Int.le_refl _), fun u hu => .of_others rfl rfl fun hf => ?_⟩
  · refine ⟨hs.committed.mono hg, hs.readable.mono hg, fun hfree => ?_⟩
    exact ⟨(hs.idle hfree).clean, fun _ => Function.update_self _ _ _⟩
  · show Function.update w.faulted t.node true u.node = true
    by_cases hn : u.node = t.node
    · rw [hn, Function.update_self]
    · rw [Function.update_of_ne hn]
      exact hf

/-- What a read has passed over is noted. -/
theorem Inv.gap_kept (h : Inv 𝒮 w) (gap : Bool) :
    (discipline 𝒮).Kept t w { w with gap := Function.update w.gap t gap } := by
  have hg : Grow w { w with gap := Function.update w.gap t gap } := .of_eq rfl rfl
  refine ⟨h.of_grow hg rfl rfl (fun n => (h.store n).mono hg) fun _ => Int.le_refl _, fun u hu => ?_⟩
  exact .of_others rfl (Function.update_of_ne hu _ _) id

/-- However a wait is answered, the discipline is kept. -/
theorem Resumed.kept {e : Wait} {x : Choice} {r : Except Error (WaitResult e)}
    (hr : Resumed 𝒮 w t e x w' r) (h : Inv 𝒮 w) : (discipline 𝒮).Kept t w w' := by
  cases hr with
  | failed e x => exact h.fault_kept
  | executed => exact .refl h
  | acquired lock hfree =>
      refine ⟨h.setLock nofun, fun u hu => .setLock fun hm hl => ?_⟩
      subst hm
      rw [hfree] at hl
      cases hl
  | refreshed => exact h.setCached_kept
  | initialSegment => exact .refl h
  | bootstrapped => exact h.setCached_kept
  | appended commandId payload p hlog hp => exact .refl h
  | tail tail ht => exact .refl h
  | read start stop view r hright hread => exact h.gap_kept _

/-! ## Statements -/

/-- The statements that only read. -/
def Statement.Selects : Statement → Prop
  | .selectProgress => True
  | .selectItem _ => True
  | .selectItems => True
  | .selectRequest _ _ => True
  | .selectEntry _ => True
  | .selectRequests => True
  | .selectEntries => True
  | .selectAny _ => True
  | _ => False

theorem Connection.execute_selects {s : Statement} (h : s.Selects) (k : Connection) :
    (k.execute s).1 = k := by
  cases s <;> first | rfl | cases h

theorem Connection.execute_selects_ok {s : Statement} (h : s.Selects) (k : Connection) :
    ∃ a, (k.execute s).2 = .ok a := by
  cases s <;> first | exact ⟨_, rfl⟩ | cases h

@[simp] theorem World.setConnection_self (w : World) (node : String) :
    w.setConnection node (w.connection node) = w := by
  show { w with replicas := Function.update w.replicas node (w.replicas node) } = w
  rw [Function.update_eq_self]

/-- Such a statement is noted and does nothing else. -/
theorem exec_selects {s : Statement} (h : s.Selects) :
    Deployment.exec w t (.sql s) = ({ w with reads := Deployment.readsAfter w t.node s },
      ((w.connection t.node).execute s).2) := by
  have hcontents : Deployment.contentsAfter w t.node s = w.contents := by
    cases s <;> first | rfl | cases h
  show ({ w.setConnection t.node ((w.connection t.node).execute s).1 with
    contents := Deployment.contentsAfter w t.node s
    reads := Deployment.readsAfter w t.node s }, _) = _
  rw [Connection.execute_selects h, hcontents, World.setConnection_self]

theorem Inv.noted (h : Inv 𝒮 w) (reads : List StoreRead) : Inv 𝒮 { w with reads := reads } := by
  have hg : Grow w { w with reads := reads } := .of_eq rfl rfl
  exact h.of_grow hg rfl rfl (fun n => (h.store n).mono hg) fun _ => Int.le_refl _

/-- What a transaction of the holder may make of a connection. -/
structure Allowed (𝒮 : Deployment) (w : World) (k k' : Connection) : Prop where
  committed : Replays 𝒮 w k'.committed
  readable : Readable 𝒮 w k'
  ahead : k.committed.appliedPosition ≤ k'.committed.appliedPosition

/-- `t` holds the lock of the materializer, `k` is its connection, and no read of it has
met a gap. -/
structure Held (t : TaskId) (k : Connection) (w : World) : Prop where
  lock : (w.replicas t.node).locks .materializer = some t
  connection : w.connection t.node = k
  gap : w.gap t = false

theorem Held.lasting (k : Connection) : (discipline 𝒮).Lasting t (Held t k) := by
  intro w w' _ hr h
  obtain ⟨hl, hc⟩ := hr.held h.lock
  exact ⟨hl, hc.trans h.connection, hr.gap.trans h.gap⟩

/-- A fact about what the log has decided and about exceptions that were met. -/
def Steady (t : TaskId) (F : World → Prop) : Prop :=
  ∀ w w', Grow w w' → (w.faulted t.node = true → w'.faulted t.node = true) → F w → F w'

namespace Steady

variable {F G : World → Prop}

theorem lasting (h : Steady t F) : (discipline 𝒮).Lasting t F :=
  fun w w' hg hr hF => h w w' hg hr.faulted hF

theorem and (hF : Steady t F) (hG : Steady t G) : Steady t fun w => F w ∧ G w :=
  fun w w' hg hf h => ⟨hF w w' hg hf h.1, hG w w' hg hf h.2⟩

theorem idle (k : Connection) : Steady t fun w => Idle (w.faulted t.node) k :=
  fun _ _ _ hf h => ⟨h.clean, fun hk => hf (h.closed hk)⟩

theorem exec (h : Steady t F) (a : Act) (hw : F w) : F (Deployment.exec w t a).1 := by
  refine h w _ (.of_eq (exec_log w t a).1 (exec_log w t a).2) (fun hf => ?_) hw
  cases a with
  | sql s => exact hf
  | release lock => exact hf
  | cached => exact hf

theorem fault (h : Steady t F) (hw : F w) :
    F { w with faulted := Function.update w.faulted t.node true } :=
  h w _ (.of_eq rfl rfl) (fun _ => Function.update_self _ _ _) hw

theorem setLock (h : Steady t F) {lock : Lock} {holder : Option TaskId} (hw : F w) :
    F (w.setLock t.node lock holder) :=
  h w _ (.of_eq rfl rfl) id hw

end Steady

/-- A lock that is not the materializer's changes hands. -/
theorem Held.setLock {k : Connection} (h : Held t k w) {lock : Lock} {holder : Option TaskId}
    (hne : lock ≠ .materializer) : Held t k (w.setLock t.node lock holder) := by
  refine ⟨?_, ?_, h.gap⟩
  · rw [World.replicas_setLock]
    exact (Function.update_of_ne (Ne.symm hne) _ _).trans h.lock
  · rw [World.connection, World.replicas_setLock]
    exact h.connection

/-- An exception is noted. -/
theorem Held.fault {k : Connection} (h : Held t k w) :
    Held t k { w with faulted := Function.update w.faulted t.node true } :=
  ⟨h.lock, h.connection, h.gap⟩

theorem gap_lasting : (discipline 𝒮).Lasting t fun w => w.gap t = false :=
  fun _ _ _ hr h => hr.gap.trans h

/-- The holder writes to its connection. -/
theorem sql_kept (h : Inv 𝒮 w) {k : Connection} (hk : Held t k w) {s : Statement}
    (ha : Allowed 𝒮 w k (k.execute s).1) :
    (discipline 𝒮).Kept t w (Deployment.exec w t (.sql s)).1 ∧
      Held t (k.execute s).1 (Deployment.exec w t (.sql s)).1 := by
  have hconnection := hk.connection
  show (discipline 𝒮).Kept t w (Deployment.sql w t.node s).1 ∧ Held t _ (Deployment.sql w t.node s).1
  unfold Deployment.sql
  rw [hconnection]
  have hg : Grow w { w.setConnection t.node (k.execute s).1 with
    contents := Deployment.contentsAfter w t.node s
    reads := Deployment.readsAfter w t.node s } := .of_eq rfl rfl
  refine ⟨⟨h.of_replica hg rfl rfl t.node (fun n hn => ⟨Function.update_of_ne hn _ _, rfl⟩) ?_ ?_,
    fun u hu => ?_⟩, ?_, ?_, hk.gap⟩
  · show StoreInv 𝒮 _ (w.faulted t.node) ((w.setConnection t.node _).replicas t.node)
    rw [World.replicas_setConnection]
    refine ⟨ha.committed.mono hg, ha.readable.mono hg, fun hfree => ?_⟩
    have hlock := hk.lock
    rw [show (w.replicas t.node).locks .materializer = none from hfree] at hlock
    cases hlock
  · show _ ≤ ((w.setConnection t.node _).replicas t.node).connection.committed.appliedPosition
    rw [World.replicas_setConnection, hconnection]
    exact ha.ahead
  · by_cases hn : u.node = t.node
    · refine ⟨fun hl => ?_, rfl, id⟩
      rw [hn, hk.lock] at hl
      exact absurd (Option.some.inj hl).symm hu
    · exact .of_others (Function.update_of_ne hn _ _) rfl id
  · show ((w.setConnection t.node _).replicas t.node).locks .materializer = some t
    rw [World.replicas_setConnection]
    exact hk.lock
  · show ((w.setConnection t.node _).replicas t.node).connection = (k.execute s).1
    rw [World.replicas_setConnection]

/-! ## Triples -/

section Triples

variable {α : Type} {P : World → Prop}

/-- A wait, by what an answer of it may change. -/
theorem wait_spec {e : Wait} {Q : World → WaitResult e → Prop} {X : World → Error → Prop}
    (hP : (discipline 𝒮).Stable t P)
    (hQ : ∀ w x w' a, Inv 𝒮 w → P w → (faithful 𝒮).resume w t c e x →
      Resumed 𝒮 w t e x w' (.ok a) → Q w' a)
    (hX : ∀ w x, Inv 𝒮 w → P w →
      X { w with faulted := Function.update w.faulted t.node true } x) :
    (discipline 𝒮).Triple t c P (wait e) Q X := by
  refine .wait hP fun w x w' r hi hp hc hr => ?_
  have hres := resume_cases hr
  refine ⟨hres.kept hi, fun a ha => ?_, fun x' hx => ?_⟩
  · subst ha
    exact hQ w x w' a hi hp hc hres
  · subst hx
    cases hres with
    | failed e x => exact hX w _ hi hp

/-- A statement that only reads. -/
theorem select_spec {s : Statement} (hs : s.Selects) {Q : World → s.Result → Prop}
    {X : World → Error → Prop}
    (hQ : ∀ w a, Inv 𝒮 w → P w → ((w.connection t.node).execute s).2 = .ok a → Q w a)
    (hstable : ∀ a, (discipline 𝒮).Stable t fun w => Q w a)
    (hX : ∀ w a e, Inv 𝒮 w → Q w a →
      X { w with faulted := Function.update w.faulted t.node true } e) :
    (discipline 𝒮).Triple t c P (execute s) Q X := by
  refine .bind (Triple.act (Q := fun w answer => ∃ a, Q w a ∧ answer = Except.ok a) ?_) fun answer => ?_
  · intro w hi hp
    obtain ⟨a, ha⟩ := Connection.execute_selects_ok hs (w.connection t.node)
    have hexec : 𝒮.runtime.exec w t (.sql s) = ({ w with reads := Deployment.readsAfter w t.node s },
        ((w.connection t.node).execute s).2) := exec_selects hs
    have hi' := hi.noted (Deployment.readsAfter w t.node s)
    rw [hexec]
    refine ⟨⟨hi', fun u _ => .of_others rfl rfl id⟩, a, ?_, ha⟩
    exact hstable a w _ (.of_eq rfl rfl) (.of_others rfl rfl id) hi' (hQ w a hi hp ha)
  · refine .of_forall fun a => .given fun ha => ?_
    subst ha
    refine .bind (wait_spec (Q := fun w _ => Q w a) (hstable a) ?_ ?_) fun _ => .ret fun _ _ h => h
    · intro w x w' _ hi hq _ hr
      cases hr with
      | executed => exact hq
    · exact fun w e hi hq => hX w a e hi hq

/-- A statement of the holder. -/
theorem execute_held {s : Statement} {k : Connection} {F : World → Prop} (hF : Steady t F)
    (ha : ∀ w, Inv 𝒮 w → F w → w.connection t.node = k → Allowed 𝒮 w k (k.execute s).1) :
    (discipline 𝒮).Triple t c (fun w => Held t k w ∧ F w) (execute s)
      (fun w a => (Held t (k.execute s).1 w ∧ F w) ∧ (k.execute s).2 = .ok a)
      (fun w e => (Held t (k.execute s).1 w ∧ F w) ∧
        (w.faulted t.node = true ∨ (k.execute s).2 = .error e)) := by
  refine .bind (Triple.act (Q := fun w answer =>
    (Held t (k.execute s).1 w ∧ F w) ∧ answer = (k.execute s).2) ?_) fun answer => ?_
  · intro w hi hp
    obtain ⟨hkept, hheld⟩ := sql_kept hi hp.1 (ha w hi hp.2 hp.1.connection)
    refine ⟨hkept, ⟨hheld, hF.exec _ hp.2⟩, ?_⟩
    show ((w.connection t.node).execute s).2 = _
    rw [hp.1.connection]
  · refine .given fun hanswer => ?_
    subst hanswer
    refine .bind (wait_spec (Q := fun w _ => Held t (k.execute s).1 w ∧ F w)
      ((Held.lasting _).and hF.lasting).stable ?_ ?_) fun _ => ?_
    · intro w x w' _ hi hp _ hr
      cases hr with
      | executed => exact hp
    · intro w e hi hp
      exact ⟨⟨hp.1.fault, hF.fault hp.2⟩, .inl (Function.update_self _ _ _)⟩
    · exact .ofExcept (fun w a _ hp ha => ⟨hp, ha⟩) fun w e _ hp he => ⟨hp, .inr he⟩

/-- `async with lock: body`. -/
theorem withLock_spec {lock : Lock} {body : Co α} {P₁ : World → Prop} {Q Q₁ : World → α → Prop}
    {X X₁ : World → Error → Prop} (hP : (discipline 𝒮).Stable t P)
    (hacquire : ∀ w, Inv 𝒮 w → P w → (w.replicas t.node).locks lock = none →
      P₁ (w.setLock t.node lock (some t)))
    (hfault : ∀ w e, Inv 𝒮 w → P w →
      X { w with faulted := Function.update w.faulted t.node true } e)
    (hbody : (discipline 𝒮).Triple t c P₁ body Q₁ X₁)
    (hrelease : ∀ w, ((∃ a, Q₁ w a) ∨ ∃ e, X₁ w e) → lock = .materializer →
      (w.replicas t.node).locks .materializer = some t ∧
        Idle (w.faulted t.node) (w.connection t.node))
    (hQ : ∀ w a, Inv 𝒮 w → Q₁ w a → Q (w.setLock t.node lock none) a)
    (hX : ∀ w e, Inv 𝒮 w → X₁ w e → X (w.setLock t.node lock none) e) :
    (discipline 𝒮).Triple t c P (withLock lock body) Q X := by
  refine .bind (wait_spec (Q := fun w _ => P₁ w) hP ?_ hfault) fun _ => ?_
  · intro w x w' _ hi hp _ hr
    cases hr with
    | acquired lock hfree => exact hacquire w hi hp hfree
  · refine .bind (Q := fun w result => (∀ a, result = .ok a → Q₁ w a) ∧
      ∀ e, result = .error e → X₁ w e) ?_ fun result => ?_
    · refine .handle (.bind hbody fun a => .ret fun w _ h => ⟨fun a' ha => ?_, nofun⟩)
        fun e => .ret fun w _ h => ⟨nofun, fun e' he => ?_⟩
      · cases ha
        exact h
      · cases he
        exact h
    · refine .bind (Triple.act (Q := fun w _ => (∀ a, result = .ok a → Q w a) ∧
        ∀ e, result = .error e → X w e) ?_) fun _ =>
          .ofExcept (fun w a _ h ha => h.1 a ha) fun w e _ h he => h.2 e he
      intro w hi h
      have hends : (∃ a, Q₁ w a) ∨ ∃ e, X₁ w e := by
        cases result with
        | ok a => exact .inl ⟨a, h.1 a rfl⟩
        | error e => exact .inr ⟨e, h.2 e rfl⟩
      refine ⟨⟨hi.setLock fun hm _ => (hrelease w hends hm).2, fun u hu => .setLock fun hm => ?_⟩,
        fun a ha => hQ w a hi (h.1 a ha), fun e he => hX w e hi (h.2 e he)⟩
      rw [(hrelease w hends hm).1]
      exact fun heq => hu (Option.some.inj heq).symm

end Triples

end DelosLab.Kv
