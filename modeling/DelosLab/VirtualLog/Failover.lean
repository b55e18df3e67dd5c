import DelosLab.Async.Observer
import DelosLab.VirtualLog.Calls
import DelosLab.VirtualLog.Safety

/-!
# Fail-over

`rollForward` and `replaceUnavailable` are entered for one segment that failed and hold
the reconfiguration lock. The first installs a successor in the segment of code that
refreshed the cache; the second asks a policy in between, and what it extends afterwards
is whatever the cache holds by then.
-/

namespace DelosLab.VirtualLog

open Async Async.Coroutine

variable {P : Type}

/-! ## What is noted about a fail-over -/

/-- A fail-over under way: the segment that failed, and what the policy was last consulted
about and answered. -/
structure Failover (P : Type) where
  failed : LogSegment P
  policy : Option (LogSegment P × LogletConfiguration P)

/-- For each task the last segment it tried and the fail-over it is in; then the seals that
fail-overs asked for, each with the segment that failed, and the chains they proposed. -/
structure FailoverNotes (P : Type) where
  tried : TaskId → Option (LogSegment P)
  duty : TaskId → Option (Failover P)
  seals : List (LogSegment P × LogSegment P)
  proposals : List (Failover P × Nat × LogChain P)

def FailoverNotes.initial (P : Type) : FailoverNotes P where
  tried := fun _ => none
  duty := fun _ => none
  seals := []
  proposals := []

/-- A task is in a fail-over between the acquisition of the reconfiguration lock and its
release; it is there for the segment whose Loglet it had asked last. -/
def failoverObserver :
    Observer (signature P) (World P) TaskId (Call P) (Outcome P) (FailoverNotes P) where
  start := fun _ t _ g =>
    { g with
      tried := Function.update g.tried t none
      duty := Function.update g.duty t none }
  exec := fun _ t a g =>
    match a with
    | .release => { g with duty := Function.update g.duty t none }
    | .invoke (.compareAndSet expected chain) =>
        match g.duty t with
        | none => g
        | some f => { g with proposals := (f, expected, chain) :: g.proposals }
    | _ => g
  resume := fun _ t e r g =>
    match e, r with
    | .append segment _ _, _ => { g with tried := Function.update g.tried t (some segment) }
    | .checkTail segment, _ =>
        match g.duty t with
        | none => { g with tried := Function.update g.tried t (some segment) }
        | some _ => g
    | .seal segment, _ =>
        match g.duty t with
        | none => g
        | some f => { g with seals := (f.failed, segment) :: g.seals }
    | .acquire, .ok _ =>
        { g with duty := Function.update g.duty t ((g.tried t).map fun s => ⟨s, none⟩) }
    | .successor segment, .ok next =>
        match g.duty t with
        | none => g
        | some f =>
            let f' : Failover P := { f with policy := some (segment, next.loglet) }
            { g with duty := Function.update g.duty t (some f') }
    | _, _ => g
  finish := fun _ _ _ _ g => g

/-- The configuration was derived from this active segment: copied from it, or answered by
the policy when it was consulted about it. -/
def Failover.Derived (f : Failover P) (active : LogSegment P) (loglet : LogletConfiguration P) :
    Prop :=
  match f.policy with
  | none => loglet = active.loglet
  | some (consulted, answer) => consulted = active ∧ loglet = answer

/-- The chain closes the segment that failed, which is the active one of the version that
the chain is to replace, and derives the new configuration from it. -/
def Failover.Proposes (f : Failover P) (history : List (LogChain P)) (expected : Nat)
    (chain : LogChain P) : Prop :=
  ∃ n old length next, expected = n + 1 ∧ history[n]? = some old ∧
    chain.segments = old.segments.dropLast ++ [old.active.close length, next] ∧
    old.active.segmentId = f.failed.segmentId ∧ f.Derived old.active next.loglet

/-- Fail-overs have sealed and closed only what failed. -/
structure Confined (history : List (LogChain P)) (g : FailoverNotes P) : Prop where
  seals : ∀ failed segment, (failed, segment) ∈ g.seals → segment.segmentId = failed.segmentId
  proposals : ∀ f expected chain, (f, expected, chain) ∈ g.proposals →
    f.Proposes history expected chain

/-- The policy's answer finds the segment it was asked about still the active one of the
instance's cached chain. -/
def StillActive (w : World P) (t : TaskId) (segment : LogSegment P) : Prop :=
  ∃ snapshot chain, (w.instances t.node).cached = some snapshot ∧ snapshot.chain = some chain ∧
    chain.active.segmentId = segment.segmentId

def stillActive : Condition (signature P) (World P) TaskId (Call P) (Choice P) where
  launch := fun _ _ _ => True
  resume := fun w t _ e x =>
    match e, x with
    | .successor segment, .configuration _ => StillActive w t segment
    | _, _ => True

theorem Failover.Proposes.mono {f : Failover P} {history history' : List (LogChain P)}
    {expected : Nat} {chain : LogChain P} (h : f.Proposes history expected chain)
    (hp : history <+: history') : f.Proposes history' expected chain := by
  obtain ⟨n, old, length, next, hn, hold, hrest⟩ := h
  exact ⟨n, old, length, next, hn, getElem?_of_prefix hp hold, hrest⟩

theorem Confined.mono {history history' : List (LogChain P)} {g : FailoverNotes P}
    (h : Confined history g) (hp : history <+: history') : Confined history' g :=
  ⟨h.seals, fun f expected chain hm => (h.proposals f expected chain hm).mono hp⟩

/-- A seal of the segment that failed. -/
theorem Confined.cons_seal {history : List (LogChain P)} {g : FailoverNotes P}
    (h : Confined history g) {failed segment : LogSegment P}
    (hs : segment.segmentId = failed.segmentId) :
    Confined history { g with seals := (failed, segment) :: g.seals } := by
  refine ⟨fun failed' segment' hm => ?_, h.proposals⟩
  rcases List.mem_cons.mp hm with heq | hm
  · obtain ⟨rfl, rfl⟩ := Prod.mk.inj heq
    exact hs
  · exact h.seals failed' segment' hm

/-- A proposal that closes the segment that failed. -/
theorem Confined.cons_proposal {history : List (LogChain P)} {g : FailoverNotes P}
    (h : Confined history g) {f : Failover P} {expected : Nat} {chain : LogChain P}
    (hp : f.Proposes history expected chain) :
    Confined history { g with proposals := (f, expected, chain) :: g.proposals } := by
  refine ⟨h.seals, fun f' expected' chain' hm => ?_⟩
  rcases List.mem_cons.mp hm with heq | hm
  · simp only [Prod.mk.injEq] at heq
    obtain ⟨rfl, rfl, rfl⟩ := heq
    exact hp
  · exact h.proposals f' expected' chain' hm

section Failover

variable [DecidableEq P] {𝒮 : Deployment} {t : TaskId} {c : Call P}

/-- What is known of the world whenever a task is resumed, and that the policy's answers
find their segment still active. -/
def failoverCondition (𝒮 : Deployment) :
    Condition (signature P) (World P × FailoverNotes P) TaskId (Call P) (Choice P) :=
  (stillActive.observing (FailoverNotes P)).within fun w => Inv 𝒮 w.1

/-- The fail-overs of a run stay confined; what is noted about a task is its own. -/
def failoverDiscipline (𝒮 : Deployment) :
    Discipline (𝒮.runtime.observed (failoverObserver (P := P))) (failoverCondition 𝒮) where
  Inv := fun w => Confined w.1.history w.2
  Grow := fun w w' => Grow w.1 w'.1
  Rely := fun t w w' => w'.2.tried t = w.2.tried t ∧ w'.2.duty t = w.2.duty t
  grow_refl := fun w => Grow.refl w.1
  grow_trans := Grow.trans
  rely_refl := fun _ _ => ⟨rfl, rfl⟩
  rely_trans := fun h h' => ⟨h'.1.trans h.1, h'.2.trans h.2⟩
  exec_grow := fun w t a => exec_grow 𝒮 w.1 t a
  resume_grow := by
    intro w t e x w' r hs
    obtain ⟨⟨w₁, r'⟩, hr, heq⟩ := Option.map_eq_some_iff.mp hs
    obtain ⟨rfl, -⟩ := Prod.mk.inj heq
    exact (resumed_of_resume hr).grow
  finish_grow := fun w t c o => finish_grow w.1 t c o

/-! ## Acts and waits -/

/-- An act keeps the fail-overs confined, if it is no proposal of a fail-over that is not. -/
theorem failover_exec {w : World P × FailoverNotes P} {a : Act P}
    (hi : Confined w.1.history w.2)
    (hp : ∀ f expected chain, w.2.duty t = some f → a = .invoke (.compareAndSet expected chain) →
      f.Proposes w.1.history expected chain) :
    (failoverDiscipline 𝒮).Kept t w
      ((𝒮.runtime.observed failoverObserver).exec w t a).1 := by
  have hg := (exec_grow 𝒮 w.1 t a).history
  have hi' := hi.mono hg
  constructor
  · show Confined (𝒮.exec w.1 t a).1.history (failoverObserver.exec w.1 t a w.2)
    unfold failoverObserver
    simp only
    split
    · exact ⟨hi'.seals, hi'.proposals⟩
    · next expected chain =>
        split
        · exact hi'
        · next f hf => exact hi'.cons_proposal ((hp f expected chain hf rfl).mono hg)
    · exact hi'
  · intro u hu
    show (failoverObserver.exec w.1 t a w.2).tried u = w.2.tried u ∧
      (failoverObserver.exec w.1 t a w.2).duty u = w.2.duty u
    unfold failoverObserver
    simp only
    split
    · exact ⟨rfl, Function.update_of_ne hu _ _⟩
    · split
      · exact ⟨rfl, rfl⟩
      · exact ⟨rfl, rfl⟩
    · exact ⟨rfl, rfl⟩

/-- The end of a wait keeps the fail-overs confined, if it is no seal of another segment. -/
theorem failover_resume {w w' : World P × FailoverNotes P} {e : Wait P} {x : Choice P}
    {r : Except Error (WaitResult P e)} (hi : Confined w.1.history w.2)
    (hs : (𝒮.runtime.observed failoverObserver).resume w t e x = some (w', r))
    (hseal : ∀ f segment, w.2.duty t = some f → e = .seal segment →
      segment.segmentId = f.failed.segmentId) :
    (failoverDiscipline 𝒮).Kept t w w' ∧ w'.2 = failoverObserver.resume w'.1 t e r w.2 ∧
      𝒮.resume w.1 t e x = some (w'.1, r) := by
  obtain ⟨⟨w₁, r'⟩, hr, heq⟩ := Option.map_eq_some_iff.mp hs
  obtain ⟨rfl, rfl⟩ := Prod.mk.inj heq
  refine ⟨⟨?_, fun u hu => ?_⟩, rfl, hr⟩
  · have hi' := hi.mono (resumed_of_resume hr).grow.history
    show Confined w₁.history (failoverObserver.resume w₁ t e r' w.2)
    unfold failoverObserver
    simp only
    split
    · exact ⟨hi'.seals, hi'.proposals⟩
    · split
      · exact ⟨hi'.seals, hi'.proposals⟩
      · exact hi'
    · next segment _ =>
        split
        · exact hi'
        · next f hf => exact hi'.cons_seal (hseal f segment hf rfl)
    · exact ⟨hi'.seals, hi'.proposals⟩
    · split
      · exact hi'
      · exact ⟨hi'.seals, hi'.proposals⟩
    · exact hi'
  · show (failoverObserver.resume w₁ t e r' w.2).tried u = w.2.tried u ∧
      (failoverObserver.resume w₁ t e r' w.2).duty u = w.2.duty u
    unfold failoverObserver
    simp only
    split
    · exact ⟨Function.update_of_ne hu _ _, rfl⟩
    · split
      · exact ⟨Function.update_of_ne hu _ _, rfl⟩
      · exact ⟨rfl, rfl⟩
    · split
      · exact ⟨rfl, rfl⟩
      · exact ⟨rfl, rfl⟩
    · exact ⟨rfl, Function.update_of_ne hu _ _⟩
    · split
      · exact ⟨rfl, rfl⟩
      · exact ⟨rfl, Function.update_of_ne hu _ _⟩
    · exact ⟨rfl, rfl⟩

/-! ## Outside a fail-over -/

def Idle (t : TaskId) (w : World P × FailoverNotes P) : Prop := w.2.duty t = none

/-- The task is about to fail over from this segment. -/
def Failing (t : TaskId) (segment : LogSegment P) (w : World P × FailoverNotes P) : Prop :=
  w.2.tried t = some segment ∧ Idle t w

/-- The task is in this fail-over. -/
def OnDuty (t : TaskId) (f : Failover P) (w : World P × FailoverNotes P) : Prop :=
  w.2.duty t = some f

theorem idle_stable : (failoverDiscipline 𝒮).Stable t (Idle (P := P) t) :=
  fun _ _ _ hr _ h => hr.2.trans h

theorem failing_stable (segment : LogSegment P) :
    (failoverDiscipline 𝒮).Stable t (Failing t segment) :=
  fun _ _ _ hr _ h => ⟨hr.1.trans h.1, hr.2.trans h.2⟩

theorem onDuty_stable (f : Failover P) : (failoverDiscipline 𝒮).Stable t (OnDuty t f) :=
  fun _ _ _ hr _ h => hr.2.trans h

theorem idle_act (a : Act P) : Upholds (failoverDiscipline 𝒮) t c (Idle t) (act a) := by
  refine .act fun w hi hw => ⟨failover_exec hi fun f _ _ hf _ => ?_, ?_⟩
  · rw [hw] at hf
    cases hf
  · show (failoverObserver.exec w.1 t a w.2).duty t = none
    unfold failoverObserver
    simp only
    split
    · exact Function.update_self _ _ _
    · rw [hw]
      exact hw
    · exact hw

/-- An idle task that does not acquire the lock stays idle; a Loglet that it asked is the
one it has tried. -/
theorem idle_resume {w w' : World P × FailoverNotes P} {e : Wait P} {x : Choice P}
    {r : Except Error (WaitResult P e)} (hi : Confined w.1.history w.2) (hw : Idle t w)
    (he : e ≠ .acquire)
    (hs : (𝒮.runtime.observed failoverObserver).resume w t e x = some (w', r)) :
    (failoverDiscipline 𝒮).Kept t w w' ∧ Idle t w' ∧
      ∀ segment, (e = .checkTail segment ∨ ∃ commandId payload,
        e = .append segment commandId payload) → Failing t segment w' := by
  obtain ⟨hk, hnotes, -⟩ := failover_resume hi hs fun f segment hf _ => by
    rw [hw] at hf
    cases hf
  refine ⟨hk, ?_, ?_⟩
  · unfold Idle
    rw [hnotes]
    unfold failoverObserver
    simp only
    split
    · exact hw
    · rw [hw]
      exact hw
    · rw [hw]
      exact hw
    · exact absurd rfl he
    · rw [hw]
      exact hw
    · exact hw
  · rintro segment (rfl | ⟨commandId, payload, rfl⟩)
    · unfold Failing Idle
      rw [hnotes]
      simp only [failoverObserver]
      rw [hw]
      exact ⟨Function.update_self _ _ _, hw⟩
    · unfold Failing Idle
      rw [hnotes]
      exact ⟨Function.update_self _ _ _, hw⟩

theorem idle_wait (e : Wait P) (he : e ≠ .acquire) :
    Upholds (failoverDiscipline 𝒮) t c (Idle t) (wait e) := by
  refine .wait idle_stable fun w x w' r hi hw _ hs => ?_
  obtain ⟨hk, hidle, -⟩ := idle_resume hi hw he hs
  exact ⟨hk, fun _ _ => hidle, fun _ _ => trivial⟩

/-- Outside a fail-over nothing is noted, so every part of a call may do what it does. -/
theorem failover_parts : Parts (failoverDiscipline 𝒮) t c (Idle (P := P) t) where
  cached := by
    refine .bind (idle_act _) fun s => ?_
    cases s with
    | none => exact .raise fun _ _ _ => trivial
    | some s =>
        cases hc : s.chain with
        | none =>
            simp only [hc]
            exact .raise fun _ _ _ => trivial
        | some chain =>
            simp only [hc]
            exact .ret fun _ _ h => h
  uuid4 := idle_act _
  wait := idle_wait
  refresh := by
    refine .bind (.bind (idle_act _) fun call => idle_wait _ (by simp)) fun s => ?_
    cases hc : s.chain with
    | none => exact .raise fun _ _ _ => trivial
    | some chain => exact .bind (idle_act _) fun _ => .ret fun _ _ h => h
  install := by
    intro expected candidate
    refine .bind (.bind (idle_act _) fun call => idle_wait _ (by simp)) fun r => ?_
    cases hc : r.current.chain with
    | none =>
        simp only [hc]
        exact .raise fun _ _ _ => trivial
    | some chain =>
        simp only [hc]
        exact .bind (idle_act _) fun _ => .ret fun _ _ h => h
  bootstrap := by
    intro initialSegment
    refine .bind (Parts.require _) fun _ => ?_
    refine .bind (Parts.orRaise _ _) fun candidate => ?_
    refine .bind (.bind (idle_act _) fun call => idle_wait _ (by simp)) fun r => ?_
    cases hc : r.current.chain with
    | none =>
        simp only [hc]
        exact .raise fun _ _ _ => trivial
    | some chain =>
        simp only [hc]
        exact .bind (idle_act _) fun _ => .ret fun _ _ h => h

/-! ## On duty -/

/-- An act that proposes nothing. -/
theorem plain_act {a : Act P} {F : World P × FailoverNotes P → Prop}
    {Q : World P × FailoverNotes P → ActResult P a → Prop}
    (ha : ∀ expected chain, a ≠ .invoke (.compareAndSet expected chain))
    (hQ : ∀ w, F w → Q ((𝒮.exec w.1 t a).1, failoverObserver.exec w.1 t a w.2)
      (𝒮.exec w.1 t a).2) :
    (failoverDiscipline 𝒮).Triple t c F (act a) Q fun _ _ => True :=
  .act fun w hi hw =>
    ⟨failover_exec hi fun _ expected chain _ heq => absurd heq (ha expected chain), hQ w hw⟩

/-- A wait that asks for no seal. -/
theorem plain_wait {e : Wait P} {F : World P × FailoverNotes P → Prop}
    {Q : World P × FailoverNotes P → WaitResult P e → Prop}
    (hF : (failoverDiscipline 𝒮).Stable t F) (he : ∀ segment, e ≠ .seal segment)
    (hQ : ∀ w w₁ x a, Inv 𝒮 w.1 → stillActive.resume w.1 t c e x → F w →
      𝒮.resume w.1 t e x = some (w₁, .ok a) →
        Q (w₁, failoverObserver.resume w₁ t e (.ok a) w.2) a) :
    (failoverDiscipline 𝒮).Triple t c F (wait e) Q fun _ _ => True := by
  refine .wait hF fun w x w' r hi hw hx hs => ?_
  obtain ⟨hk, hnotes, hr⟩ := failover_resume hi hs fun _ segment _ heq => absurd heq (he segment)
  refine ⟨hk, fun a ha => ?_, fun _ _ => trivial⟩
  subst ha
  have hq := hQ w w'.1 x a hx.1 hx.2 hw hr
  rwa [← hnotes] at hq

/-- The instance of a task caches this snapshot. -/
def Caches (t : TaskId) (s : Snapshot P) (w : World P × FailoverNotes P) : Prop :=
  ∃ v, (w.1.instances t.node).cached = some v ∧ v.version = s.version ∧ v.chain = some s.chain

theorem failover_installed (s : Snapshot P) :
    (failoverDiscipline 𝒮).Persistent fun w : World P × FailoverNotes P =>
      Installed w.1.history s :=
  fun _ _ hg h => h.mono hg.history

theorem duty_refresh (f : Failover P) :
    (failoverDiscipline 𝒮).Triple t c (OnDuty t f) refresh
      (fun w s => OnDuty t f w ∧ Caches t s w ∧ Installed w.1.history s) fun _ _ => True := by
  refine .bind (Q := fun w s => OnDuty t f w ∧ Known w.1.history s) ?_ fun s => ?_
  · refine .bind (plain_act (Q := fun w _ => OnDuty t f w) (by simp) fun _ h => h) fun call => ?_
    refine plain_wait (onDuty_stable f) (by simp) fun w w₁ x s hi _ hw hr => ⟨hw, ?_⟩
    cases resumed_of_resume hr with
    | read h => exact hi.read call s h
  · cases hc : s.chain with
    | none => exact .raise fun _ _ _ => trivial
    | some chain =>
        refine .bind (plain_act (Q := fun w _ => OnDuty t f w ∧ Caches t ⟨s.version, chain⟩ w ∧
          Installed w.1.history ⟨s.version, chain⟩) (by simp) fun w h => ?_) fun _ => ?_
        · refine ⟨h.1, ⟨s, ?_, rfl, hc⟩, h.2.installed hc⟩
          show ((w.1.onInstance t.node fun i => { i with cached := some s }).instances
            t.node).cached = some s
          rw [World.onInstance_self]
        · exact .ret fun _ _ h => h

theorem duty_cached (f : Failover P) (s : Snapshot P) :
    (failoverDiscipline 𝒮).Triple t c
      (fun w => OnDuty t f w ∧ Caches t s w ∧ Installed w.1.history s) cached
      (fun w r => (OnDuty t f w ∧ Installed w.1.history s) ∧ r = s) fun _ _ => True := by
  refine .bind (plain_act (a := .cached) (Q := fun w r =>
    (OnDuty t f w ∧ Installed w.1.history s) ∧ ∃ v, r = some v ∧ v.version = s.version ∧ v.chain = some s.chain)
    (by simp)
    fun w h => ⟨⟨h.1, h.2.2⟩, h.2.1⟩) fun r => .given ?_
  rintro ⟨v, rfl, hv, hc⟩
  simp only [hc]
  refine .ret fun w _ h => ⟨h, ?_⟩
  rw [hv]

/-- What a fail-over extends is the chain that it has refreshed, closed at the segment that
failed. -/
theorem duty_reconfigExtend (self : VirtualLog) (f : Failover P) (s : Snapshot P)
    (next : NewLogletConfiguration P) (hid : s.chain.active.segmentId = f.failed.segmentId)
    (hd : f.Derived s.chain.active next.loglet) :
    (failoverDiscipline 𝒮).Triple t c
      (fun w => OnDuty t f w ∧ Caches t s w ∧ Installed w.1.history s)
      (self.reconfigExtend next) (fun _ _ => True) fun _ _ => True := by
  have hstable : (failoverDiscipline 𝒮).Stable t
      fun w : World P × FailoverNotes P => OnDuty t f w ∧ Installed w.1.history s :=
    fun w w' hg hr hi h =>
      ⟨onDuty_stable f w w' hg hr hi h.1, failover_installed s w w' hg h.2⟩
  refine .bind (duty_cached f s) fun r => .given ?_
  rintro rfl
  refine .bind (Parts.require _) fun _ => ?_
  refine .bind (Q := fun w _ => OnDuty t f w ∧ Installed w.1.history r) ?_ fun _ => ?_
  · refine .wait hstable fun w x w' a hi hw hx hs => ?_
    have hseal : ∀ f' segment, w.2.duty t = some f' → Wait.seal r.chain.active = .seal segment →
        segment.segmentId = f'.failed.segmentId := by
      intro f' segment hf heq
      obtain rfl := Option.some.inj (hw.1.symm.trans hf)
      cases heq
      exact hid
    obtain ⟨hk, hnotes, hr⟩ := failover_resume hi hs hseal
    have hduty : OnDuty t f w' := by
      unfold OnDuty
      rw [hnotes]
      simp only [failoverObserver]
      rw [show w.2.duty t = some f from hw.1]
      exact hw.1
    have hinst : Installed w'.1.history r := hw.2.mono (resumed_of_resume hr).grow.history
    exact ⟨hk, fun _ _ => ⟨hduty, hinst⟩, fun _ _ => trivial⟩
  refine .bind (plain_wait (Q := fun w _ => OnDuty t f w ∧ Installed w.1.history r) hstable
    (by simp) fun w w₁ x a _ _ hw hr => ?_) fun tail => ?_
  · have hinst : Installed w₁.history r := hw.2.mono (resumed_of_resume hr).grow.history
    have hnotes : failoverObserver.resume w₁ t (.checkTail r.chain.active) (.ok a) w.2 = w.2 := by
      simp only [failoverObserver]
      rw [show w.2.duty t = some f from hw.1]
    rw [hnotes]
    exact ⟨hw.1, hinst⟩
  refine .bind (Parts.require _) fun _ => ?_
  refine .bind (.orRaise (Q := fun w candidate => (OnDuty t f w ∧ Installed w.1.history r) ∧
    candidate.segments = r.chain.segments.dropLast ++ [r.chain.active.close tail.tail,
      next.activate (r.chain.active.virtualStart + tail.tail)])
    (fun _ _ _ h hc => ⟨h, LogChain.ofSegments_eq_some hc⟩) fun _ _ _ _ => trivial)
    fun candidate => .given fun hseg => ?_
  -- The proposal names the version that the closed segment was read from.
  refine .bind (Q := fun _ _ => True) (.bind (Q := fun _ _ => True) ?_ fun call => ?_) fun r' => ?_
  · refine .act fun w hi hw => ⟨failover_exec hi fun f' expected chain hf heq => ?_, trivial⟩
    obtain rfl := Option.some.inj (hw.1.symm.trans hf)
    cases heq
    obtain ⟨n, hn, hold⟩ := hw.2
    exact ⟨n, r.chain, tail.tail, _, hn, hold, hseg, hid, hd⟩
  · exact plain_wait (fun _ _ _ _ _ h => h) (by simp) fun _ _ _ _ _ _ _ _ => trivial
  · cases hc : r'.current.chain with
    | none =>
        simp only [hc]
        exact .raise fun _ _ _ => trivial
    | some chain =>
        simp only [hc]
        refine .bind (plain_act (Q := fun _ _ => True) (by simp) fun _ _ => trivial) fun _ => ?_
        exact .ret fun _ _ _ => trivial

/-- Refreshing finds the failed segment replaced, or caches a chain of which it is the
active one. -/
theorem duty_refreshIfActive (f : Failover P) :
    (failoverDiscipline 𝒮).Triple t c (OnDuty t f) (refreshIfActive f.failed)
      (fun w found => OnDuty t f w ∧ ∀ active, found = some active →
        ∃ s : Snapshot P, s.chain.active = active ∧ active.segmentId = f.failed.segmentId ∧
          Caches t s w ∧ Installed w.1.history s) fun _ _ => True := by
  refine .bind (Q := fun w _ => OnDuty t f w) ?_ fun s => ?_
  · refine .bind (plain_act (Q := fun w _ => OnDuty t f w) (by simp) fun _ h => h) fun s => ?_
    cases s with
    | none => exact .raise fun _ _ _ => trivial
    | some s =>
        cases hc : s.chain with
        | none =>
            simp only [hc]
            exact .raise fun _ _ _ => trivial
        | some chain =>
            simp only [hc]
            exact .ret fun _ _ h => h
  split
  · exact .ret fun _ _ h => ⟨h, nofun⟩
  refine .bind (duty_refresh f) fun s => ?_
  split
  · exact .ret fun _ _ h => ⟨h.1, nofun⟩
  · next hid =>
      refine .ret fun w _ h => ⟨h.1, fun active heq => ?_⟩
      obtain rfl := Option.some.inj heq
      exact ⟨s, rfl, not_not.mp hid, h.2⟩

/-- Acquiring the lock takes up the fail-over of the segment that was tried. -/
theorem duty_acquire (segment : LogSegment P) :
    (failoverDiscipline 𝒮).Triple t c (Failing t segment) (wait .acquire)
      (fun w _ => OnDuty t ⟨segment, none⟩ w) fun _ _ => True := by
  refine plain_wait (failing_stable segment) (by simp) fun w w₁ x a _ _ hw _ => ?_
  unfold OnDuty
  simp only [failoverObserver, Function.update_self]
  rw [show w.2.tried t = some segment from hw.1]
  rfl

theorem duty_release :
    (failoverDiscipline 𝒮).Triple t c (fun _ => True) (act .release) (fun w _ => Idle t w)
      fun _ _ => True :=
  plain_act (by simp) fun _ _ => Function.update_self _ _ _

theorem duty_rollForward (self : VirtualLog) (segment : LogSegment P) :
    (failoverDiscipline 𝒮).Triple t c (Failing t segment) (self.rollForward segment)
      (fun w _ => Idle t w) fun _ _ => True := by
  refine withReconfigureLock_triple (duty_acquire segment) ?_ duty_release
  refine .bind (duty_refreshIfActive ⟨segment, none⟩) fun found => ?_
  cases found with
  | none => exact .ret fun _ _ _ => trivial
  | some _ =>
      refine .bind ((plain_wait (Q := fun w _ => OnDuty t ⟨segment, none⟩ w)
        (onDuty_stable ⟨segment, none⟩) (by simp) fun _ _ _ _ _ _ h _ => h).pre
        fun _ _ h => h.1) fun _ => ?_
      refine .bind (duty_refreshIfActive ⟨segment, none⟩) fun found => ?_
      cases found with
      | none => exact .ret fun _ _ _ => trivial
      | some active =>
          -- Between the refreshed chain and its extension no other task runs.
          refine .bind (plain_act (Q := fun w _ => OnDuty t ⟨segment, none⟩ w ∧
            ∃ s : Snapshot P, (Caches t s w ∧ Installed w.1.history s) ∧
              s.chain.active = active ∧ active.segmentId = segment.segmentId) (by simp)
            fun w h => ?_) fun id => ?_
          · obtain ⟨s, hs, hid, hc, hi⟩ := h.2 active rfl
            exact ⟨h.1, s, ⟨hc, hi⟩, hs, hid⟩
          refine .bind (Q := fun _ _ => True) ?_ fun _ => .ret fun _ _ _ => trivial
          intro w₀ w hk h
          obtain ⟨hduty, s, ⟨hc, hi⟩, rfl, hid⟩ := h
          exact duty_reconfigExtend self ⟨segment, none⟩ s ⟨id.1, s.chain.active.loglet, id.2⟩
            hid rfl w₀ w hk ⟨hduty, hc, hi⟩

theorem duty_replaceUnavailable (self : VirtualLog) (segment : LogSegment P) :
    (failoverDiscipline 𝒮).Triple t c (Failing t segment) (self.replaceUnavailable segment)
      (fun w _ => Idle t w) fun _ _ => True := by
  refine withReconfigureLock_triple (duty_acquire segment) ?_ duty_release
  refine .bind (duty_refreshIfActive ⟨segment, none⟩) fun found => ?_
  cases found with
  | none => exact .ret fun _ _ _ => trivial
  | some active =>
      refine .bind (Parts.require _) fun _ => ?_
      -- The answer of the policy finds a chain whose active segment is the refreshed one.
      refine .bind (Q := fun w next => OnDuty t ⟨segment, some (active, next.loglet)⟩ w ∧
        ∃ s : Snapshot P, (Caches t s w ∧ Installed w.1.history s) ∧
          s.chain.active = active ∧ active.segmentId = segment.segmentId) ?_ fun next => ?_
      · refine (plain_wait (F := fun w => OnDuty t ⟨segment, none⟩ w ∧
          ∃ s : Snapshot P, s.chain.active = active ∧ active.segmentId = segment.segmentId ∧
            Installed w.1.history s) ?_ (by simp) ?_).pre fun w _ h => ?_
        · rintro w w' hg hr hi ⟨hduty, s, hs, hid, hinst⟩
          exact ⟨onDuty_stable _ w w' hg hr hi hduty, s, hs, hid, hinst.mono hg.history⟩
        · rintro w w₁ x next hi hx ⟨hduty, s₀, rfl, hid, n, hn, hold⟩ hr
          cases x with
          | configuration loglet =>
              obtain ⟨v, chain, hv, hc, hactive⟩ := hx
              obtain ⟨m, hm, hm'⟩ := hi.cached t.node v hv chain hc
              have heq : chain.active = s₀.chain.active := by
                rcases Nat.le_total n m with hnm | hmn
                · exact hi.history.active_eq hnm hold hm' hactive
                · exact (hi.history.active_eq hmn hm' hold hactive.symm).symm
              cases hr
              refine ⟨?_, ⟨v.version, chain⟩, ⟨⟨v, hv, rfl, hc⟩, m, hm, hm'⟩, heq, hid⟩
              unfold OnDuty
              simp only [failoverObserver]
              rw [show w.2.duty t = some ⟨segment, none⟩ from hduty]
              exact Function.update_self _ _ _
          | fail e => cases hr
          | _ => cases hr
        · obtain ⟨s, hs, hid, -, hi⟩ := h.2 active rfl
          exact ⟨h.1, s, hs, hid, hi⟩
      · refine .bind (Q := fun _ _ => True) ?_ fun _ => .ret fun _ _ _ => trivial
        intro w₀ w hk h
        obtain ⟨hduty, s, ⟨hc, hi⟩, rfl, hid⟩ := h
        exact duty_reconfigExtend self ⟨segment, some (s.chain.active, next.loglet)⟩ s next
          hid ⟨rfl, rfl⟩ w₀ w hk ⟨hduty, hc, hi⟩

/-! ## Every call -/

theorem failover_dataPlane :
    DataPlane (failoverDiscipline 𝒮) t c (Idle (P := P) t) (Failing t) where
  toParts := failover_parts
  failing := fun _ _ h => h.2
  append := by
    intro segment commandId payload
    refine .wait idle_stable fun w x w' r hi hw _ hs => ?_
    obtain ⟨hk, hidle, htried⟩ := idle_resume hi hw (by simp) hs
    exact ⟨hk, fun _ _ => hidle, fun _ _ => htried segment (.inr ⟨commandId, payload, rfl⟩)⟩
  checkTail := by
    intro segment
    refine .wait idle_stable fun w x w' r hi hw _ hs => ?_
    obtain ⟨hk, -, htried⟩ := idle_resume hi hw (by simp) hs
    exact ⟨hk, fun _ _ => htried segment (.inl rfl), fun _ _ => htried segment (.inl rfl)⟩
  rollForward := duty_rollForward
  replaceUnavailable := duty_replaceUnavailable

theorem failover_sound (𝒮 : Deployment) : (failoverDiscipline (P := P) 𝒮).Sound where
  start := by
    intro w t c w' p hi _ hst
    have heq : ((w.1, failoverObserver.start w.1 t c w.2),
        Deployment.program (𝒮.instances t.node) c) = (w', p) := Option.some.inj hst
    obtain ⟨rfl, rfl⟩ := Prod.mk.inj heq
    refine ⟨Grow.refl w.1, ?_⟩
    have hkept : (failoverDiscipline 𝒮).Kept t w
        (w.1, failoverObserver.start w.1 t c w.2) :=
      ⟨⟨hi.seals, hi.proposals⟩,
        fun u hu => ⟨Function.update_of_ne hu _ _, Function.update_of_ne hu _ _⟩⟩
    have hfinish : ∀ (w : World P × FailoverNotes P) (o : Except Error (Outcome P)),
        Confined w.1.history w.2 → (failoverDiscipline 𝒮).Kept t w
          ((𝒮.runtime.observed failoverObserver).finish w t c o) := by
      intro w o hi
      exact ⟨hi.mono (finish_grow w.1 t c o).history, fun u _ => ⟨rfl, rfl⟩⟩
    refine (failover_dataPlane.program (𝒮.instances t.node) c).safe_finish hkept
      (Function.update_self _ _ _) ?_ ?_
    · exact fun w o hi _ => hfinish w (.ok o) hi
    · exact fun w e hi _ => hfinish w (.error e) hi
  disturb := by
    intro w d w' hi hd
    obtain ⟨w₁, hd', rfl⟩ := Option.map_eq_some_iff.mp hd
    have hg : Grow w.1 w₁ := by
      cases d with
      | linearize call =>
          simp only [Deployment.runtime, World.linearize] at hd'
          split at hd'
          · cases hd'
          · cases hd'
            exact ⟨List.prefix_refl _, List.Subset.refl _⟩
          · cases hd'
            refine ⟨?_, List.Subset.refl _⟩
            simp only
            split
            · exact List.prefix_append _ _
            · exact List.prefix_refl _
      | crash node =>
          cases hd'
          exact ⟨List.prefix_refl _, List.Subset.refl _⟩
    exact ⟨hi.mono hg.history, hg, fun u _ => ⟨rfl, rfl⟩⟩

/-! ## Fail-over along a run -/

/-- What the fail-overs of a run have done and are doing: they ask to seal only the segment
that failed, and propose only chains that close it and derive the new configuration from
the active segment of the version that they replace. -/
structure FailoverConfined
    (s : State (signature P) (World P × FailoverNotes P) TaskId (Call P) (Outcome P)) :
    Prop where
  sealing : ∀ t c segment k f, s.tasks t = some (c, .wait (.seal segment) k) →
    s.world.2.duty t = some f → segment.segmentId = f.failed.segmentId
  seals : ∀ failed segment, (failed, segment) ∈ s.world.2.seals →
    segment.segmentId = failed.segmentId
  proposals : ∀ f expected chain, (f, expected, chain) ∈ s.world.2.proposals →
    f.Proposes s.world.1.history expected chain

/-- A seal that was noted stays noted. -/
theorem keeps_seal (𝒮 : Deployment) (failed segment : LogSegment P) :
    (𝒮.runtime.observed failoverObserver).Keeps Condition.any
      fun w : World P × FailoverNotes P => (failed, segment) ∈ w.2.seals where
  start := by
    intro w t c w' p hw _ hst
    have heq : ((w.1, failoverObserver.start w.1 t c w.2),
        Deployment.program (𝒮.instances t.node) c) = (w', p) := Option.some.inj hst
    obtain ⟨rfl, -⟩ := Prod.mk.inj heq
    exact hw
  exec := by
    intro w t a hw
    show (failed, segment) ∈ (failoverObserver.exec w.1 t a w.2).seals
    unfold failoverObserver
    simp only
    split
    · exact hw
    · split
      · exact hw
      · exact hw
    · exact hw
  resume := by
    intro w t c e x w' r hw _ hs
    obtain ⟨⟨w₁, r'⟩, hr, heq⟩ := Option.map_eq_some_iff.mp hs
    obtain ⟨rfl, rfl⟩ := Prod.mk.inj heq
    show (failed, segment) ∈ (failoverObserver.resume w₁ t e r' w.2).seals
    unfold failoverObserver
    simp only
    split
    · exact hw
    · split
      · exact hw
      · exact hw
    · split
      · exact hw
      · exact List.mem_cons_of_mem _ hw
    · exact hw
    · split
      · exact hw
      · exact hw
    · exact hw
  finish := fun _ _ _ _ hw => hw
  disturb := by
    intro w d w' hw hd
    obtain ⟨w₁, -, rfl⟩ := Option.map_eq_some_iff.mp hd
    exact hw

/-- **Fail-over only touches the failed segment**, in every run in which each answer of
the policy finds the segment that it was consulted about still active in the cache. -/
theorem failover_confined (𝒮 : Deployment)
    (s : State (signature P) (World P × FailoverNotes P) TaskId (Call P) (Outcome P))
    (h : (𝒮.runtime.observed failoverObserver).ReachableUnder
      (stillActive.observing (FailoverNotes P))
      (· = (World.initial P, FailoverNotes.initial P)) s) : FailoverConfined s := by
  have hinit : ∀ w : World P × FailoverNotes P,
      w = (World.initial P, FailoverNotes.initial P) → w.1 = World.initial P := by
    rintro w rfl
    rfl
  have hconfined : ∀ s : State (signature P) (World P × FailoverNotes P) TaskId (Call P)
      (Outcome P), (𝒮.runtime.observed failoverObserver).ReachableUnder
        (stillActive.observing (FailoverNotes P))
        (· = (World.initial P, FailoverNotes.initial P)) s →
      Confined s.world.1.history s.world.2 := by
    intro s hs
    have hwithin := hs.within (J := fun w => Inv 𝒮 w.1)
      fun s hs => inv_of_reachable (hs.forget hinit)
    refine ((failover_sound 𝒮).reachable ?_ hwithin).1
    rintro w rfl
    constructor
    · intro failed segment hm
      cases hm
    · intro f expected chain hm
      cases hm
  refine ⟨fun t c segment k f ht hf => ?_, (hconfined s h).seals, (hconfined s h).proposals⟩
  -- A seal that is open may fail next, and would then be noted.
  let w : World P × FailoverNotes P :=
    (s.world.1, { s.world.2 with seals := (f.failed, segment) :: s.world.2.seals })
  have hresume : (𝒮.runtime.observed failoverObserver).resume s.world t (.seal segment)
      (.fail .cancelled) = some (w, .error .cancelled) := by
    simp only [Runtime.observed, Deployment.runtime, Deployment.resume, Option.map_some,
      failoverObserver, hf, w]
  have hstep : (𝒮.runtime.observed failoverObserver).step s (.resume t (.fail .cancelled)) =
      some ((𝒮.runtime.observed failoverObserver).advance s t c w (k (.error .cancelled))) := by
    simp only [Runtime.step, ht, hresume, Option.map_some]
  have hnoted := (keeps_seal 𝒮 f.failed segment).advance s t c (k (.error .cancelled))
    (w := w) List.mem_cons_self
  refine (hconfined _ (.step h ?_ hstep)).seals f.failed segment hnoted
  intro c' e' k' ht'
  rw [ht] at ht'
  cases ht'
  trivial

end Failover

/-! ## A chain that changed while the policy was consulted -/

abbrev FailoverState : Type :=
  State (signature Unit) (World Unit × FailoverNotes Unit) TaskId (Call Unit) (Outcome Unit)

def findsActive (s : FailoverState) : Action TaskId (Call Unit) (Choice Unit) Disturbance → Bool
  | .resume t (.configuration _) =>
      match s.tasks t with
      | some (_, .wait (.successor segment) _) =>
          ((s.world.1.instances t.node).cached.bind fun snapshot => snapshot.chain).any
            fun chain => chain.active.segmentId = segment.segmentId
      | _ => true
  | _ => true

theorem meets_stillActive {s : FailoverState}
    {a : Action TaskId (Call Unit) (Choice Unit) Disturbance} (h : findsActive s a = true) :
    Runtime.Meets (stillActive.observing (FailoverNotes Unit)) s a := by
  cases a with
  | launch t c => trivial
  | resume t x =>
      intro c e k ht
      cases x with
      | configuration loglet =>
          cases e with
          | successor segment =>
              simp only [findsActive, ht, Option.any_eq_true, decide_eq_true_eq] at h
              obtain ⟨chain, hchain, hactive⟩ := h
              obtain ⟨snapshot, hs, hc⟩ := Option.bind_eq_some_iff.mp hchain
              exact ⟨snapshot, chain, hs, hc, hactive⟩
          | _ => trivial
      | _ => cases e <;> trivial
  | disturb d => trivial

/-- Instance `a` bootstraps; its append finds the Loglet unavailable, refreshes and
consults the policy. -/
def consultingRun : List (Action TaskId (Call Unit) (Choice Unit) Disturbance) :=
  let a : TaskId := ⟨"a", 0⟩
  [.launch a (.bootstrap (.first "initial" ⟨"memory", 1, ()⟩ initial_named)),
    .disturb (.linearize 0), .resume a .done,
    .launch a (.append "first" []), .resume a (.fail (.logletUnavailable "unavailable")),
    .resume a .done, .disturb (.linearize 1), .resume a .done]

/-- The policy answers; the segment is sealed, its tail read and a successor proposed. -/
def answeredRun : List (Action TaskId (Call Unit) (Choice Unit) Disturbance) :=
  let a : TaskId := ⟨"a", 0⟩
  [.resume a (.configuration ⟨"memory", 1, ()⟩), .resume a .done, .resume a (.tail ⟨0, true⟩)]

/-- Instance `b` installs a successor, and another task of `a` refreshes. -/
def replacedRun : List (Action TaskId (Call Unit) (Choice Unit) Disturbance) :=
  let b : TaskId := ⟨"b", 0⟩
  let a : TaskId := ⟨"a", 1⟩
  [.launch b .refresh, .disturb (.linearize 2), .resume b .done,
    .launch b (.reconfigExtend ⟨"memory", 1, ()⟩), .resume b .done, .resume b (.tail ⟨0, true⟩),
    .disturb (.linearize 3), .resume b .done,
    .launch a .refresh, .disturb (.linearize 4), .resume a .done]

theorem consultingRun_proposes :
    (((sealingDeployment.runtime.observed failoverObserver).runWhile findsActive
        (Runtime.fresh _ _ _ _ (World.initial Unit, FailoverNotes.initial Unit))
        (consultingRun ++ answeredRun)).map
      fun s => (s.world.2.seals.length, s.world.2.proposals.length)) = some (1, 1) := by
  decide +kernel

theorem failover_confined_proposed :
    ∃ s : FailoverState, s.world.2.seals.length = 1 ∧ s.world.2.proposals.length = 1 ∧
      FailoverConfined s := by
  obtain ⟨s, hs, hpost⟩ := Option.map_eq_some_iff.mp consultingRun_proposes
  obtain ⟨hseals, hproposals⟩ := Prod.mk.inj hpost
  exact ⟨s, hseals, hproposals, failover_confined sealingDeployment s
    (Runtime.ReachableUnder.runWhile (fun _ _ => meets_stillActive) (.init rfl) hs)⟩

/-- The answer comes after the chain was replaced, and the successor is sealed. -/
theorem replacedRun_seals :
    (((sealingDeployment.runtime.observed failoverObserver).run
        (Runtime.fresh _ _ _ _ (World.initial Unit, FailoverNotes.initial Unit))
        (consultingRun ++ replacedRun ++ answeredRun)).map
      fun s => s.world.2.seals.map fun p => decide (p.2.segmentId = p.1.segmentId)) =
    some [false] := by
  decide +kernel

theorem failover_seals_successor :
    ¬ ∀ (𝒮 : Deployment) (s : FailoverState),
      (𝒮.runtime.observed failoverObserver).Reachable
        (· = (World.initial Unit, FailoverNotes.initial Unit)) s → FailoverConfined s := by
  intro hclaim
  obtain ⟨s, hs, hpost⟩ := Option.map_eq_some_iff.mp replacedRun_seals
  have hconfined := hclaim sealingDeployment s (Runtime.Reachable.run (.init rfl) hs)
  obtain ⟨⟨failed, segment⟩, hmem, hne⟩ := List.mem_map.mp
    (show false ∈ s.world.2.seals.map fun p => decide (p.2.segmentId = p.1.segmentId) by
      rw [hpost]
      exact List.mem_cons_self)
  exact of_decide_eq_false hne (hconfined.seals failed segment hmem)

end DelosLab.VirtualLog
