import DelosLab.VirtualLog.Calls
import DelosLab.VirtualLog.Safety

/-!
# The cached chain of an instance

Every answer of the register is cached as soon as it is received. The cached version
never decreases as long as each answer is received while nothing newer is cached; an
answer that was overtaken by a later one takes the cache back.
-/

namespace DelosLab.VirtualLog

open Async Async.Coroutine

variable {P : Type}

/-! ## Answers in order -/

/-- The version of the cached chain; a cache without a chain counts as version zero. -/
def Instance.version (i : Instance P) : Nat :=
  match i.cached with
  | none => 0
  | some snapshot => snapshot.version

/-- The snapshot that an answer of the register carries. -/
def RegisterReply.current : RegisterReply P → VersionedLogChain P
  | .read snapshot => snapshot
  | .compareAndSet result => result.current

/-- A snapshot that would take the cache back: it has a chain, and an older one. -/
def Overtaken (i : Instance P) (s : VersionedLogChain P) : Prop :=
  s.chain ≠ none ∧ s.version < i.version

/-- The answer to call `call`, if there is one, has not been overtaken. -/
def InOrder (w : World P) (t : TaskId) (call : Nat) : Prop :=
  ∀ reply, w.replies.lookup call = some reply →
    ¬ Overtaken (w.instances t.node) reply.current

/-- Every answer of the register reaches its task while nothing newer is cached. -/
def inOrder : Condition (signature P) (World P) TaskId (Call P) (Choice P) where
  launch := fun _ _ _ => True
  resume := fun w t _ e x =>
    match e, x with
    | .readResponse call, .done => InOrder w t call
    | .casResponse call, .done => InOrder w t call
    | _, _ => True

theorem World.onInstance_cached {w : World P} {node : String} {f : Instance P → Instance P}
    (hf : (f (w.instances node)).cached = (w.instances node).cached) (node' : String) :
    ((w.onInstance node f).instances node').cached = (w.instances node').cached := by
  by_cases hn : node' = node
  · subst hn
    rw [World.onInstance_self]
    exact hf
  · rw [World.onInstance_of_ne w hn]

/-- The end of a wait caches nothing. -/
theorem Resumed.cached {𝒮 : Deployment} {t : TaskId} {w w' : World P} {e : Wait P} {r : Except Error (WaitResult P e)}
    (h : Resumed 𝒮 t w e w' r) (node : String) :
    (w'.instances node).cached = (w.instances node).cached := by
  cases h with
  | acquired => exact World.onInstance_cached rfl node
  | appended h =>
      obtain rfl := World.answer_eq h
      rfl
  | sealed h =>
      obtain rfl := World.answer_eq h
      rfl
  | tail h =>
      obtain rfl := World.answer_eq h
      rfl
  | trimmed h =>
      obtain rfl := World.answer_eq h
      rfl
  | _ => rfl

/-! ## What the tasks of an instance keep -/

section Keeping

variable [DecidableEq P] {𝒮 : Deployment} {t : TaskId} {c : Call P}

/-- The others may only bring the cache of a task's instance forward. -/
def cacheDiscipline (𝒮 : Deployment) : Discipline (𝒮.runtime (P := P)) inOrder where
  Inv := fun _ => True
  Grow := fun _ _ => True
  Rely := fun t w w' => (w.instances t.node).version ≤ (w'.instances t.node).version
  grow_refl := fun _ => trivial
  grow_trans := fun _ _ => trivial
  rely_refl := fun _ _ => Nat.le_refl _
  rely_trans := Nat.le_trans
  exec_grow := fun _ _ _ => trivial
  resume_grow := fun _ => trivial
  finish_grow := fun _ _ _ _ => trivial

/-- A change that leaves every cache alone. -/
theorem kept_of_cached {w w' : World P}
    (h : ∀ node, (w'.instances node).cached = (w.instances node).cached) :
    (cacheDiscipline 𝒮).Kept t w w' := by
  refine ⟨trivial, fun u _ => Nat.le_of_eq ?_⟩
  unfold Instance.version
  rw [h u.node]

theorem cache_wait (e : Wait P) : Upholds (cacheDiscipline 𝒮) t c (fun _ => True) (wait e) := by
  refine .wait (fun _ _ _ _ _ h => h) fun w x w' r _ _ _ hs => ?_
  exact ⟨kept_of_cached (resumed_of_resume hs).cached, fun _ _ => trivial, fun _ _ => trivial⟩

/-- Acts other than caching a snapshot. -/
theorem cache_act (a : Act P) (ha : ∀ s, a ≠ .setCached s) :
    Upholds (cacheDiscipline 𝒮) t c (fun _ => True) (act a) := by
  refine .act fun w _ _ => ⟨kept_of_cached fun node => ?_, trivial⟩
  cases a with
  | setCached s => exact absurd rfl (ha s)
  | release =>
      have hf : ({ w.instances t.node with lock := none } : Instance P).cached =
        (w.instances t.node).cached := rfl
      exact World.onInstance_cached (f := fun i => { i with lock := none }) hf node
  | _ => rfl

/-- An answer of the register has not been overtaken when it is received. -/
theorem cache_response (e : Wait P) (current : WaitResult P e → VersionedLogChain P)
    (he : ∀ w x w' r, 𝒮.resume w t e x = some (w', .ok r) → inOrder.resume w t c e x →
      ¬ Overtaken (w.instances t.node) (current r)) :
    (cacheDiscipline 𝒮).Triple t c (fun _ => True) (wait e)
      (fun w r => ¬ Overtaken (w.instances t.node) (current r)) fun _ _ => True := by
  refine .wait (fun _ _ _ _ _ h => h) fun w x w' r _ _ hx hs => ?_
  have hcached := (resumed_of_resume hs).cached
  refine ⟨kept_of_cached hcached, fun a ha => ?_, fun _ _ => trivial⟩
  subst ha
  have hver : (w'.instances t.node).version = (w.instances t.node).version := by
    unfold Instance.version
    rw [hcached t.node]
  have := he w x w' a hs hx
  unfold Overtaken at this ⊢
  rwa [hver]

theorem cache_read :
    (cacheDiscipline 𝒮).Triple t c (fun _ => True) readRegister
      (fun w (s : VersionedLogChain P) => ¬ Overtaken (w.instances t.node) s) fun _ _ => True := by
  refine .bind (cache_act _ (by simp)) fun call => ?_
  refine cache_response (.readResponse call) id fun w x w' s hs hx => ?_
  cases x with
  | done =>
      simp only [Deployment.resume] at hs
      split at hs
      · next hl =>
          cases hs
          exact hx _ hl
      · cases hs
  | fail err => cases hs
  | _ => cases hs

theorem cache_compareAndSet (expected : Nat) (chain : LogChain P) :
    (cacheDiscipline 𝒮).Triple t c (fun _ => True) (compareAndSet expected chain)
      (fun w r => ¬ Overtaken (w.instances t.node) r.current) fun _ _ => True := by
  refine .bind (cache_act _ (by simp)) fun call => ?_
  refine cache_response (.casResponse call) CompareAndSetResult.current fun w x w' r hs hx => ?_
  cases x with
  | done =>
      simp only [Deployment.resume] at hs
      split at hs
      · next hl =>
          cases hs
          exact hx _ hl
      · cases hs
  | fail err => cases hs
  | _ => cases hs

/-- Caching a snapshot with a chain that nothing newer has overtaken. -/
theorem cache_setCached (s : VersionedLogChain P) (hs : s.chain ≠ none) :
    (cacheDiscipline 𝒮).Triple t c (fun w => ¬ Overtaken (w.instances t.node) s)
      (act (.setCached s)) (fun _ _ => True) fun _ _ => True := by
  refine .act fun w _ hw => ⟨⟨trivial, fun u _ => ?_⟩, trivial⟩
  show (w.instances u.node).version ≤
    ((w.onInstance t.node fun i => { i with cached := some s }).instances u.node).version
  by_cases hn : u.node = t.node
  · rw [hn, World.onInstance_self]
    have : ¬ s.version < (w.instances t.node).version := fun hlt => hw ⟨hs, hlt⟩
    exact Nat.le_of_not_lt this
  · rw [World.onInstance_of_ne w hn]

theorem cache_parts : Parts (cacheDiscipline 𝒮) t c fun _ => True where
  cached := by
    refine .bind (cache_act _ (by simp)) fun s => ?_
    cases s with
    | none => exact .raise fun _ _ _ => trivial
    | some s =>
        cases hc : s.chain with
        | none =>
            simp only [hc]
            exact .raise fun _ _ _ => trivial
        | some chain =>
            simp only [hc]
            exact .ret fun _ _ _ => trivial
  uuid4 := cache_act _ (by simp)
  wait := fun e _ => cache_wait e
  refresh := by
    refine .bind cache_read fun s => ?_
    cases hc : s.chain with
    | none => exact .raise fun _ _ _ => trivial
    | some chain =>
        refine .bind (cache_setCached s (by simp [hc])) fun _ => ?_
        exact .ret fun _ _ _ => trivial
  install := by
    intro expected candidate
    refine .bind (cache_compareAndSet _ _) fun r => ?_
    cases hc : r.current.chain with
    | none =>
        simp only [hc]
        exact .raise fun _ _ _ => trivial
    | some chain =>
        simp only [hc]
        refine .bind (cache_setCached r.current (by simp [hc])) fun _ => ?_
        exact .ret fun _ _ _ => trivial
  bootstrap := by
    intro initialSegment
    refine .bind (Parts.require _) fun _ => ?_
    refine .bind (Parts.orRaise _ _) fun candidate => ?_
    refine .bind (cache_compareAndSet _ _) fun r => ?_
    cases hc : r.current.chain with
    | none =>
        simp only [hc]
        exact .raise fun _ _ _ => trivial
    | some chain =>
        simp only [hc]
        refine .bind (cache_setCached r.current (by simp [hc])) fun _ => ?_
        exact .ret fun _ _ _ => trivial

theorem cache_rollForward (self : VirtualLog) (segment : LogSegment P) :
    Upholds (cacheDiscipline 𝒮) t c (fun _ => True) (self.rollForward segment) := by
  refine withReconfigureLock_triple (cache_wait _) ?_ (cache_act _ (by simp))
  refine .bind (cache_parts.refreshIfActive segment) fun found => ?_
  cases found with
  | none => exact .ret fun _ _ _ => trivial
  | some _ =>
      refine .bind (cache_wait _) fun _ => ?_
      refine .bind (cache_parts.refreshIfActive segment) fun found => ?_
      cases found with
      | none => exact .ret fun _ _ _ => trivial
      | some active =>
          refine .bind cache_parts.uuid4 fun id => ?_
          exact .bind (cache_parts.reconfigExtend self _) fun _ => .ret fun _ _ _ => trivial

theorem cache_replaceUnavailable (self : VirtualLog) (failed : LogSegment P) :
    Upholds (cacheDiscipline 𝒮) t c (fun _ => True) (self.replaceUnavailable failed) := by
  refine withReconfigureLock_triple (cache_wait _) ?_ (cache_act _ (by simp))
  refine .bind (cache_parts.refreshIfActive failed) fun found => ?_
  cases found with
  | none => exact .ret fun _ _ _ => trivial
  | some active =>
      refine .bind (Parts.require _) fun _ => ?_
      refine .bind (cache_wait _) fun next => ?_
      exact .bind (cache_parts.reconfigExtend self next) fun _ => .ret fun _ _ _ => trivial

theorem cache_dataPlane :
    DataPlane (cacheDiscipline 𝒮) t c (fun _ => True) fun _ _ => True where
  toParts := cache_parts
  failing := fun _ _ h => h
  append := fun _ _ _ => cache_wait _
  checkTail := fun _ => cache_wait _
  rollForward := cache_rollForward
  replaceUnavailable := cache_replaceUnavailable

theorem cache_sound (𝒮 : Deployment) : (cacheDiscipline (P := P) 𝒮).Sound where
  start := by
    intro w t c w' p _ _ hst
    cases hst
    refine ⟨trivial, ?_⟩
    have hfinish : ∀ (w : World P) (o : Except Error (Outcome P)),
        (cacheDiscipline 𝒮).Kept t w (Deployment.finish w t c o) := by
      intro w o
      refine kept_of_cached fun node => ?_
      unfold Deployment.finish
      split
      · rfl
      · rfl
    refine (cache_dataPlane.program (𝒮.instances t.node) c).safe_finish (.refl trivial) trivial
      ?_ ?_
    · exact fun w o _ _ => hfinish w (.ok o)
    · exact fun w e _ _ => hfinish w (.error e)
  disturb := by
    intro w d w' _ hd
    refine ⟨trivial, trivial, fun u hu => ?_⟩
    cases d with
    | linearize call =>
        have hinst : w'.instances = w.instances := by
          simp only [Deployment.runtime, World.linearize] at hd
          split at hd
          · cases hd
          · cases hd
            rfl
          · cases hd
            rfl
        show (w.instances u.node).version ≤ (w'.instances u.node).version
        rw [hinst]
    | crash node =>
        cases hd
        have hne : u.node ≠ node := by simpa [Deployment.runtime] using hu
        show (w.instances u.node).version ≤
          ((w.onInstance node fun _ => ⟨none, none⟩).instances u.node).version
        rw [World.onInstance_of_ne w hne]

end Keeping

/-! ## The cached version along a run -/

/-- What lies at or behind the end of a closed segment of `old` is not read from that
segment through `new`. -/
def LeavesClosed (old new : LogChain P) : Prop :=
  ∀ z ∈ old.segments, ∀ stop, z.virtualStop = some stop → ∀ p, stop ≤ p →
    ∀ z', new.segmentAt p = some z' → z'.segmentId ≠ z.segmentId

/-- A chain of a history closes what its predecessors have closed. -/
theorem ValidHistory.leavesClosed {events : List LogletEvent} {history : List (LogChain P)}
    (h : ValidHistory events history) {n m : Nat} (hnm : n ≤ m) {old new : LogChain P}
    (hold : history[n]? = some old) (hnew : history[m]? = some new) : LeavesClosed old new := by
  intro z hz stop hstop p hp z' hz' hid
  have hmem : z' ∈ new.segments := List.mem_of_find?_eq_some hz'
  have hcov : z'.Covers p := by simpa using List.find?_some hz'
  have hclosed : z.virtualStop ≠ none := by simp [hstop]
  have hfrozen := (h.range_frozen hnm hold hnew hz hmem hid hclosed).2
  have := hcov.2 stop (hfrozen.trans hstop)
  omega

section Runs

variable [DecidableEq P] {𝒮 : Deployment}

/-- An action that does not crash an instance spares one of its tasks. -/
theorem exists_spared {node : String}
    {a : Action TaskId (Call P) (Choice P) Disturbance} (ha : a ≠ .disturb (.crash node)) :
    ∃ u : TaskId, u.node = node ∧ Discipline.Spares 𝒮.runtime u a := by
  cases a with
  | launch t c =>
      refine ⟨⟨node, t.number + 1⟩, rfl, fun heq => ?_⟩
      have := congrArg TaskId.number heq
      simp at this
  | resume t x =>
      refine ⟨⟨node, t.number + 1⟩, rfl, fun heq => ?_⟩
      have := congrArg TaskId.number heq
      simp at this
  | disturb d =>
      refine ⟨⟨node, 0⟩, rfl, ?_⟩
      cases d with
      | linearize call => rfl
      | crash node' =>
          have hne : node ≠ node' := by
            rintro rfl
            exact ha rfl
          simpa [Discipline.Spares, Deployment.runtime] using hne

theorem cached_version_step {node : String} {s s' : SystemState P}
    {a : Action TaskId (Call P) (Choice P) Disturbance}
    (hs : (cacheDiscipline 𝒮).StateInv s) (ha : a ≠ .disturb (.crash node))
    (hC : Runtime.Meets inOrder s a) (hstep : 𝒮.runtime.step s a = some s') :
    (s.world.instances node).version ≤ (s'.world.instances node).version := by
  obtain ⟨u, rfl, hu⟩ := exists_spared (𝒮 := 𝒮) ha
  exact (cache_sound 𝒮).step_rely hs hC hstep hu

theorem cached_version_through {node : String} {s s' : SystemState P}
    (hs : (cacheDiscipline 𝒮).StateInv s)
    (hl : 𝒮.runtime.Through inOrder (· ≠ .disturb (.crash node)) s s') :
    (s.world.instances node).version ≤ (s'.world.instances node).version := by
  induction hl with
  | refl => exact Nat.le_refl _
  | step h ha hC hstep ih =>
      have hs' := ((cache_sound 𝒮).grow_later hs h.later).1
      exact Nat.le_trans ih (cached_version_step hs' ha hC hstep)

/-- **A client's chain never goes backwards** in a run in which every answer of the
register reaches its task while nothing newer is cached, and what was routed to a newer
segment is not read from a closed one again. -/
theorem cached_chain_advances (𝒮 : Deployment) (node : String) (s s' : SystemState P)
    (h : (𝒮.runtime (P := P)).ReachableUnder inOrder (· = World.initial P) s)
    (hl : 𝒮.runtime.Through inOrder (· ≠ .disturb (.crash node)) s s') :
    (s.world.instances node).version ≤ (s'.world.instances node).version ∧
    ∀ v old v' new, (s.world.instances node).cached = some v → v.chain = some old →
      (s'.world.instances node).cached = some v' → v'.chain = some new →
      LeavesClosed old new := by
  have hle := cached_version_through
    ((cache_sound 𝒮).reachable (fun _ _ => trivial) h) hl
  refine ⟨hle, fun v old v' new hv hold hv' hnew => ?_⟩
  have hany : ∀ (s : SystemState P) a s', Runtime.Meets inOrder s a →
      𝒮.runtime.step s a = some s' → Runtime.Meets Condition.any s a :=
    fun s a _ _ _ => Runtime.meets_any s a
  have hi := (sound 𝒮).reachable (fun _ hw => hw ▸ inv_initial 𝒮) (h.mono hany)
  obtain ⟨hi', hg⟩ := (sound 𝒮).grow_later hi (hl.later.mono hany)
  obtain ⟨n, hn, hn'⟩ := hi.1.cached node v hv old hold
  obtain ⟨m, hm, hm'⟩ := hi'.1.cached node v' hv' new hnew
  simp only [Instance.version, hv, hv'] at hle
  have hgrown := getElem?_of_prefix hg.history hn'
  exact hi'.1.history.leavesClosed (by omega) hgrown hm'

end Runs

/-! ## An answer that was overtaken -/

def answeredInOrder (s : SystemState Unit) :
    Action TaskId (Call Unit) (Choice Unit) Disturbance → Bool
  | .resume t .done =>
      match s.tasks t with
      | some (_, .wait (.readResponse call) _) => inOrderNow s.world t call
      | some (_, .wait (.casResponse call) _) => inOrderNow s.world t call
      | _ => true
  | .disturb (.crash _) => false
  | _ => true
where
  inOrderNow (w : World Unit) (t : TaskId) (call : Nat) : Bool :=
    match w.replies.lookup call with
    | none => true
    | some reply =>
        reply.current.chain.isNone || decide ((w.instances t.node).version ≤ reply.current.version)

theorem answeredInOrder_inOrder {w : World Unit} {t : TaskId} {call : Nat}
    (h : answeredInOrder.inOrderNow w t call = true) : InOrder w t call := by
  intro reply hreply hover
  simp only [answeredInOrder.inOrderNow, hreply, Bool.or_eq_true, Option.isNone_iff_eq_none,
    decide_eq_true_eq] at h
  rcases h with hnone | hle
  · exact hover.1 hnone
  · exact Nat.not_lt.mpr hle hover.2

theorem meets_inOrder {s : SystemState Unit}
    {a : Action TaskId (Call Unit) (Choice Unit) Disturbance}
    (h : answeredInOrder s a = true) (node : String) :
    a ≠ .disturb (.crash node) ∧ Runtime.Meets inOrder s a := by
  cases a with
  | launch t c => exact ⟨nofun, trivial⟩
  | resume t x =>
      refine ⟨nofun, fun c e k ht => ?_⟩
      cases x with
      | done =>
          cases e with
          | readResponse call =>
              simp only [answeredInOrder, ht] at h
              exact answeredInOrder_inOrder h
          | casResponse call =>
              simp only [answeredInOrder, ht] at h
              exact answeredInOrder_inOrder h
          | _ => trivial
      | _ => cases e <;> trivial
  | disturb d =>
      cases d with
      | linearize call => exact ⟨nofun, trivial⟩
      | crash node' => cases h

/-- Instance `a` bootstraps; one of its tasks asks for the register. -/
def askedRun : List (Action TaskId (Call Unit) (Choice Unit) Disturbance) :=
  let a : TaskId := ⟨"a", 0⟩
  [.launch a (.bootstrap (.first "initial" ⟨"memory", 1, ()⟩ initial_named)),
    .disturb (.linearize 0), .resume a .done,
    .launch a .refresh, .disturb (.linearize 1)]

/-- Another task of it installs a successor. -/
def extendedRun : List (Action TaskId (Call Unit) (Choice Unit) Disturbance) :=
  let b : TaskId := ⟨"a", 1⟩
  [.launch b (.reconfigExtend ⟨"memory", 1, ()⟩), .resume b .done, .resume b (.tail ⟨0, true⟩),
    .disturb (.linearize 2), .resume b .done]

theorem askedRun_extends :
    ((sealingDeployment.runtime.runWhile answeredInOrder
        (Runtime.fresh _ _ _ _ (World.initial Unit)) askedRun).bind fun s =>
      (sealingDeployment.runtime.runWhile answeredInOrder s extendedRun).map fun s' =>
        ((s.world.instances "a").version, (s'.world.instances "a").version)) = some (1, 2) := by
  decide +kernel

theorem cached_chain_advances_extended :
    ∃ s s' : SystemState Unit, (s.world.instances "a").version = 1 ∧
      (s'.world.instances "a").version = 2 ∧
      (s.world.instances "a").version ≤ (s'.world.instances "a").version ∧
      ∀ v old v' new, (s.world.instances "a").cached = some v → v.chain = some old →
        (s'.world.instances "a").cached = some v' → v'.chain = some new →
        LeavesClosed old new := by
  obtain ⟨s, hs, hrest⟩ := Option.bind_eq_some_iff.mp askedRun_extends
  obtain ⟨s', hs', hpost⟩ := Option.map_eq_some_iff.mp hrest
  obtain ⟨hbefore, hafter⟩ := Prod.mk.inj hpost
  exact ⟨s, s', hbefore, hafter, cached_chain_advances sealingDeployment "a" s s'
    (Runtime.ReachableUnder.runWhile (fun _ _ h => (meets_inOrder h "a").2) (.init rfl) hs)
    (Runtime.Through.runWhile (fun _ _ h => meets_inOrder h "a") .refl hs')⟩

/-- The answer of the first task is received last. -/
theorem extendedRun_overtakes :
    ((sealingDeployment.runtime.run (Runtime.fresh _ _ _ _ (World.initial Unit))
        (askedRun ++ extendedRun)).bind fun s =>
      (sealingDeployment.runtime.step s (.resume ⟨"a", 0⟩ .done)).map fun s' =>
        ((s.world.instances "a").version, (s'.world.instances "a").version)) = some (2, 1) := by
  decide +kernel

theorem cached_chain_goes_back :
    ¬ ∀ (𝒮 : Deployment) (node : String) (s s' : SystemState Unit),
      𝒮.runtime.Reachable (· = World.initial Unit) s →
      𝒮.runtime.Through Condition.any (· ≠ .disturb (.crash node)) s s' →
      (s.world.instances node).version ≤ (s'.world.instances node).version := by
  intro hclaim
  obtain ⟨s, hs, hrest⟩ := Option.bind_eq_some_iff.mp extendedRun_overtakes
  obtain ⟨s', hs', hpost⟩ := Option.map_eq_some_iff.mp hrest
  obtain ⟨hbefore, hafter⟩ := Prod.mk.inj hpost
  have hthrough : sealingDeployment.runtime.Through Condition.any
      (· ≠ .disturb (.crash "a")) s s' :=
    .step (a := .resume ⟨"a", 0⟩ .done) .refl (by simp) (Runtime.meets_any _ _) hs'
  have hle := hclaim sealingDeployment "a" s s' (Runtime.Reachable.run (.init rfl) hs) hthrough
  omega

end DelosLab.VirtualLog
