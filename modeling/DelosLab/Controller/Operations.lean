import DelosLab.Controller.Discipline

/-!
# What the operations of a supervisor leave

One triple for each operation. A task that has taken a process from its node keeps it in hand
until the process has ended, and one that has launched a process gives it to the node.
-/

namespace DelosLab.Controller.Supervisor

open Async Async.Coroutine
open SubprocessNodeSupervisor

variable {t : Nat} {c : Call} {nodeId : String} {α : Type}

/-! ## What a task knows -/

/-- A task that has nothing in hand, and holds the deployment lock to add a node if `d`. -/
def Free (d : Bool) (t : Nat) (c : Call) (w : World) : Prop :=
  w.calls t = some c ∧ w.holds t = none ∧
    (d = true → w.deploymentLock = some t ∧ ∀ tasks, w.resetting ≠ some (t, tasks))

/-- What the pop of a node is noted as. -/
def Noted (t : Nat) (c : Call) (nodeId : String) (w : World) : Prop :=
  match c with
  | .killNode _ => (t, nodeId) ∈ w.killings
  | .child task => w.popped task = true
  | _ => True

/-- A task that has popped a node, and has its process in hand. -/
def Taken (t : Nat) (c : Call) (nodeId : String) (process : Option Nat) (w : World) : Prop :=
  w.calls t = some c ∧ w.holds t = process ∧
    (∀ i, process = some i → ∃ p : Process, w.launched[i]? = some p) ∧ Noted t c nodeId w

/-- What is in hand has ended. -/
def Over (t : Nat) (c : Call) (w : World) : Prop :=
  w.calls t = some c ∧ ∀ i, w.holds t = some i → w.Ended i

/-- A task that holds the deployment lock. -/
def Deployed (t : Nat) (c : Call) (w : World) : Prop :=
  w.calls t = some c ∧ w.holds t = none ∧ w.deploymentLock = some t

/-- A task that stops all nodes. -/
def Sweeping (t : Nat) (c : Call) (tasks : List Nat) (w : World) : Prop :=
  Deployed t c w ∧ w.resetting = some (t, tasks)

theorem ended_persistent (process : Nat) : discipline.Persistent fun w => w.Ended process := by
  rintro w w' hg ⟨p, hp, hended⟩
  obtain ⟨p', hp', -, halive⟩ := hg.process hp
  refine ⟨p', hp', ?_⟩
  cases h : p'.alive with
  | false => rfl
  | true => exact absurd (halive h) (by rw [hended]; nofun)

theorem free_lasting {d : Bool} : discipline.Lasting t (Free d t c) := by
  rintro w w' - hr ⟨hcalls, hholds, hd⟩
  refine ⟨hr.calls.trans hcalls, hr.holds.trans hholds, fun h => ?_⟩
  obtain ⟨hlock, hresetting⟩ := hd h
  exact ⟨hr.deployment hlock, fun tasks htasks => hresetting tasks ((hr.resetting tasks).mp htasks)⟩

theorem locked_lasting {P : World → Prop} (hP : discipline.Lasting t P) :
    discipline.Lasting t fun w => P w ∧ w.lock = some t :=
  fun w w' hg hr h => ⟨hP w w' hg hr h.1, (hr.lock h.2).1⟩

theorem noted_lasting : discipline.Lasting t (Noted t c nodeId) := by
  intro w w' hg hr h
  cases c with
  | killNode _ => exact (hr.killings nodeId).mpr h
  | child task => exact hg.popped h
  | _ => trivial

theorem taken_lasting {process : Option Nat} :
    discipline.Lasting t (Taken t c nodeId process) := by
  rintro w w' hg hr ⟨hcalls, hholds, hlaunched, hnoted⟩
  refine ⟨hr.calls.trans hcalls, hr.holds.trans hholds, fun i hi => ?_,
    noted_lasting w w' hg hr hnoted⟩
  obtain ⟨p, hp⟩ := hlaunched i hi
  obtain ⟨p', hp', -⟩ := hg.process hp
  exact ⟨p', hp'⟩

theorem deployed_lasting : discipline.Lasting t (Deployed t c) := by
  rintro w w' - hr ⟨hcalls, hholds, hlock⟩
  exact ⟨hr.calls.trans hcalls, hr.holds.trans hholds, hr.deployment hlock⟩

theorem sweeping_lasting {tasks : List Nat} : discipline.Lasting t (Sweeping t c tasks) :=
  fun w w' hg hr h => ⟨deployed_lasting w w' hg hr h.1, (hr.resetting tasks).mpr h.2⟩

theorem Free.over {d : Bool} {w : World} (h : Free d t c w) : Over t c w := by
  refine ⟨h.1, fun i hi => ?_⟩
  rw [h.2.1] at hi
  cases hi

/-! ## Acts and waits -/

section Rules

variable {P : World → Prop} {X : World → Error → Prop}

/-- An act that only reads. -/
theorem read_spec {a : Act} (ha : ∀ w, (exec w t a).1 = w) :
    discipline.Triple t c P (act a) (fun w r => P w ∧ r = (exec w t a).2) X := by
  refine .act fun w hi hp => ?_
  show discipline.Kept t w (exec w t a).1 ∧ P (exec w t a).1 ∧ _ = (exec (exec w t a).1 t a).2
  rw [ha w]
  exact ⟨.refl hi, hp, rfl⟩

theorem discardPaused_spec (hP : ∀ w paused, P w → P { w with paused := paused }) :
    discipline.Triple t c P (act (.discardPaused nodeId)) (fun w _ => P w) X :=
  .act fun _ hi hp => ⟨paused_kept hi _, hP _ _ hp⟩

theorem addPaused_spec (hP : ∀ w paused, P w → P { w with paused := paused }) :
    discipline.Triple t c P (act (.addPaused nodeId)) (fun w _ => P w) X :=
  .act fun _ hi hp => ⟨paused_kept hi _, hP _ _ hp⟩

theorem signal_spec {process : Nat} {s : Signal} (hP : discipline.Lasting t P) :
    discipline.Triple t c P (act (.signal process s)) (fun w _ => P w) X := by
  refine .act fun w hi hp => ⟨modify_kept hi (fun p => (signalled_command p s).1)
    (fun p h => (signalled_command p s).2.symm.trans h), ?_⟩
  exact hP w _ (exec_grow w t (.signal process s)) { Rely.refl t w with } hp

theorem release_spec (hP : ∀ w, P w → P { w with lock := none }) :
    discipline.Triple t c (fun w => P w ∧ w.lock = some t) (act .release)
      (fun w _ => P w) X :=
  .act fun w hi hp => ⟨release_kept hi hp.2, hP w hp.1⟩

theorem lock_spec (hP : discipline.Stable t P) (hlock : ∀ w, P w → P { w with lock := some t }) :
    discipline.Triple t c P (wait .lock) (fun w _ => P w ∧ w.lock = some t) X := by
  refine .wait hP fun w x w' r hi hp _ hs => ?_
  cases x with
  | failed e => cases hs
  | done =>
      simp only [runtime, resume] at hs
      split at hs
      · next hnone =>
          cases hs
          exact ⟨lock_kept hi hnone, fun _ _ => ⟨hlock w hp, rfl⟩, nofun⟩
      · cases hs

theorem startLock_spec (hP : discipline.Stable t P)
    (hlock : ∀ w, P w → P { w with lock := some t }) :
    discipline.Triple t c P (wait (.startLock nodeId)) (fun w _ => P w ∧ w.lock = some t) X := by
  refine .wait hP fun w x w' r hi hp _ hs => ?_
  cases x with
  | failed e => cases hs
  | done =>
      simp only [runtime, resume] at hs
      split at hs
      · next hnone =>
          cases hs
          exact ⟨lock_kept hi hnone, fun _ _ => ⟨hlock w hp, rfl⟩, nofun⟩
      · cases hs

/-- A wait that changes nothing. -/
theorem watch_spec {e : Wait} (hP : discipline.Stable t P)
    (he : ∀ {w x w' r}, resume w t e x = some (w', r) → w' = w) :
    discipline.Triple t c P (wait e) (fun w _ => P w) fun w _ => P w := by
  refine .wait hP fun w x w' r hi hp _ hs => ?_
  obtain rfl := he hs
  exact ⟨.refl hi, fun _ _ => hp, fun _ _ => hp⟩

theorem healthy_spec {nodeIds : List String} (hP : discipline.Stable t P) :
    discipline.Triple t c P (wait (.healthy nodeIds)) (fun w _ => P w) fun w _ => P w :=
  watch_spec hP fun {w x w' r} hs => by
    cases x with
    | _ =>
        cases hs
        rfl

theorem join_spec {endpoint : String} (hP : discipline.Stable t P) :
    discipline.Triple t c P (wait (.join endpoint)) (fun w _ => P w) fun w _ => P w :=
  watch_spec hP fun {w x w' r} hs => by
    cases x with
    | _ =>
        cases hs
        rfl

theorem gather_spec {tasks : List Nat} (hP : discipline.Stable t P) :
    discipline.Triple t c P (wait (.gather tasks))
      (fun w _ => P w ∧ w.allReturned tasks = true) fun w _ => P w := by
  refine .wait hP fun w x w' r hi hp _ hs => ?_
  cases x with
  | done =>
      obtain ⟨hreturned, heq⟩ := Option.ite_none_right_eq_some.mp hs
      cases heq
      exact ⟨.refl hi, fun _ _ => ⟨hp, hreturned⟩, nofun⟩
  | failed e =>
      obtain ⟨-, heq⟩ := Option.ite_none_right_eq_some.mp hs
      cases heq
      exact ⟨.refl hi, nofun, fun _ _ => hp⟩

theorem ended_of_not_alive {w : World} {process : Nat} (h : ¬w.alive process = true)
    (hlaunched : ∃ p, w.launched[process]? = some p) : w.Ended process := by
  obtain ⟨p, hp⟩ := hlaunched
  refine ⟨p, hp, ?_⟩
  rw [World.alive, hp] at h
  exact Bool.eq_false_iff.mpr h

/-- A process has ended when a wait for it returns. -/
theorem exited_spec {process : Nat} (hP : discipline.Stable t P)
    (hlaunched : ∀ w, P w → ∃ p, w.launched[process]? = some p) :
    discipline.Triple t c P (wait (.exited process)) (fun w _ => P w ∧ w.Ended process) X := by
  refine .wait hP fun w x w' r hi hp _ hs => ?_
  cases x with
  | failed e => cases hs
  | done =>
      obtain ⟨hdead, heq⟩ := Option.ite_none_left_eq_some.mp hs
      cases heq
      exact ⟨.refl hi, fun _ _ => ⟨hp, ended_of_not_alive hdead (hlaunched w hp)⟩, nofun⟩

theorem exitedInTime_spec {process : Nat} (hP : discipline.Stable t P)
    (hlaunched : ∀ w, P w → ∃ p, w.launched[process]? = some p) :
    discipline.Triple t c P (wait (.exitedInTime process))
      (fun w _ => P w ∧ w.Ended process) fun w e => P w ∧ e = .timeoutError := by
  refine .wait hP fun w x w' r hi hp _ hs => ?_
  cases x with
  | failed e =>
      cases e with
      | timeoutError =>
          cases hs
          exact ⟨.refl hi, nofun, fun _ herr => ⟨hp, (Except.error.inj herr).symm⟩⟩
      | _ => cases hs
  | done =>
      obtain ⟨hdead, heq⟩ := Option.ite_none_left_eq_some.mp hs
      cases heq
      exact ⟨.refl hi, fun _ _ => ⟨hp, ended_of_not_alive hdead (hlaunched w hp)⟩, nofun⟩

theorem never_spec (hP : discipline.Stable t P) :
    discipline.Triple t c P (wait .never) (fun _ _ => False) X :=
  .wait hP fun w x w' r hi hp _ hs => by
    cases x with
    | _ => cases hs

theorem node_spec : discipline.Triple t c P (node nodeId) (fun w _ => P w) fun w _ => P w :=
  .bind (read_spec fun _ => rfl) fun _ =>
    .orRaise (fun _ _ _ h _ => h.1) fun _ _ h _ => h.1

theorem activeNode_spec :
    discipline.Triple t c P (activeNode nodeId) (fun w _ => P w) fun w _ => P w :=
  .bind node_spec fun _ => .bind (.require (Q := fun w _ => P w) (fun _ _ h _ => h)
    fun _ _ h _ => h) fun _ => .ret fun _ _ h => h

end Rules

/-! ## Starting a process -/

theorem commandFor_ok {manifest : LabManifest} {generation : Nat} {command : Command}
    (h : commandFor manifest generation nodeId = .ok command) : command.nodeId = nodeId := by
  unfold commandFor at h
  split at h
  · cases h
  · split at h
    · cases h
    · cases h
      rfl

/-- A task under the lock whose node runs nothing. -/
def Clear (d : Bool) (t : Nat) (c : Call) (nodeId : String) (w : World) : Prop :=
  (Free d t c w ∧ w.lock = some t) ∧ w.Vacant nodeId

/-- A task under the lock that has launched a process in time. -/
def Launched (d : Bool) (t : Nat) (c : Call) (nodeId : String) (process : Nat) (w : World) :
    Prop :=
  w.calls t = some c ∧
    (d = true → w.deploymentLock = some t ∧ ∀ tasks, w.resetting ≠ some (t, tasks)) ∧
    w.lock = some t ∧ w.Vacant nodeId ∧ w.holds t = some process ∧
    ∃ p, w.launched[process]? = some p ∧ p.command.nodeId = nodeId ∧ w.Launchable p.command

theorem vacant_of_not_running {w : World} (hi : Inv w) (h : w.isRunning nodeId = false) :
    w.Vacant nodeId := by
  intro process hprocess
  rw [World.isRunning, hprocess] at h
  refine ended_of_not_alive (Bool.eq_false_iff.mp h) ⟨_, List.getElem?_eq_getElem ?_⟩
  exact hi.listed nodeId process hprocess

theorem clear_lasting {d : Bool} : discipline.Lasting t (Clear d t c nodeId) := by
  rintro w w' hg hr ⟨hfree, hvacant⟩
  refine ⟨locked_lasting free_lasting w w' hg hr hfree, fun process hprocess => ?_⟩
  have hlisted := (hr.lock hfree.2).2 nodeId process hprocess
  exact ended_persistent process w w' hg (hvacant process hlisted)

/-- The condition is used here: the node of a process that has been launched is not closing. -/
theorem launch_spec {d : Bool} {command : Command} (hcommand : command.nodeId = nodeId) :
    discipline.Triple t c (Clear d t c nodeId) (wait (.launch command))
      (fun w process => Launched d t c nodeId process w)
      fun w _ => Free d t c w ∧ w.lock = some t := by
  refine .wait clear_lasting.stable fun w x w' r hi hp hC hs => ?_
  cases x with
  | failed e =>
      cases hs
      exact ⟨.refl hi, nofun, fun _ _ => hp.1⟩
  | done =>
      cases hs
      have hlaunchable : w.Launchable command := hC
      obtain ⟨⟨⟨hcalls, hholds, hd⟩, hlock⟩, hvacant⟩ := hp
      refine ⟨launch_kept hi hcalls hholds command, fun process hok => ?_, nofun⟩
      cases hok
      refine ⟨hcalls, hd, hlock, fun i hlisted => ?_, Function.update_self .., _,
        List.getElem?_concat_length, hcommand, { hlaunchable with }⟩
      exact ended_persistent i w _ (launch_grow w t command) (hvacant i hlisted)

theorem assign_spec {d : Bool} {process : Nat} {X : World → Error → Prop} :
    discipline.Triple t c (Launched d t c nodeId process) (act (.assign nodeId process))
      (fun w _ => Free d t c w ∧ w.lock = some t) X := by
  refine .act fun w hi hp => ?_
  obtain ⟨hcalls, hd, hlock, hvacant, hholds, p, hlaunched, hcommand, hlaunchable⟩ := hp
  exact ⟨assign_kept hi hlock hholds hlaunched hcommand hlaunchable hvacant,
    ⟨hcalls, Function.update_self .., hd⟩, hlock⟩

theorem launchNode_spec {d : Bool} :
    discipline.Triple t c (fun w => Free d t c w ∧ w.lock = some t) (launchNode nodeId)
      (fun w _ => Free d t c w ∧ w.lock = some t) fun w _ => Free d t c w ∧ w.lock = some t := by
  refine .bind (Q := fun w r => (Free d t c w ∧ w.lock = some t) ∧ r = w.isRunning nodeId)
    ((read_spec fun _ => rfl)) fun running => ?_
  cases running with
  | true => exact .ret fun _ _ h => h.1
  | false =>
      refine .pre (?_ : discipline.Triple t c (Clear d t c nodeId) _ _ _)
        fun w hi h => ⟨h.1, vacant_of_not_running hi h.2.symm⟩
      refine .bind (read_spec fun _ => rfl) fun r => ?_
      refine .bind (Q := fun w command => Clear d t c nodeId w ∧ command.nodeId = nodeId)
        (.ofExcept ?_ fun _ _ _ h _ => h.1.1) fun command => ?_
      · rintro w command - ⟨hclear, hr⟩ rfl
        exact ⟨hclear, commandFor_ok hr.symm⟩
      · refine .given fun hcommand => .bind (launch_spec hcommand) fun process => ?_
        exact .bind assign_spec fun _ => discardPaused_spec fun _ _ h => h

theorem startNode_spec {d : Bool} :
    discipline.Triple t c (Free d t c) (startNode nodeId) (fun w _ => Free d t c w)
      fun w _ => Free d t c w := by
  refine .bind activeNode_spec fun _ => .bind (startLock_spec free_lasting.stable fun _ h => h)
    fun _ => .tryFinally launchNode_spec (fun _ => ?_) fun _ => ?_
  · exact release_spec fun _ h => h
  · exact release_spec fun _ h => h

/-! ## Pausing and resuming -/

/-- What is done under the lock, and what is known of the task before and after. -/
theorem locked_spec {d : Bool} {body : Co α}
    (hbody : discipline.Triple t c (fun w => Free d t c w ∧ w.lock = some t) body
      (fun w _ => Free d t c w ∧ w.lock = some t) fun w _ => Free d t c w ∧ w.lock = some t) :
    discipline.Triple t c (Free d t c) (do wait .lock; tryFinally body (act .release))
      (fun w _ => Free d t c w) fun w _ => Free d t c w := by
  refine .bind (lock_spec free_lasting.stable fun _ h => h) fun _ =>
    .tryFinally hbody (fun _ => ?_) fun _ => ?_
  · exact release_spec fun _ h => h
  · exact release_spec fun _ h => h

theorem continueNode_spec {d : Bool} :
    discipline.Triple t c (fun w => Free d t c w ∧ w.lock = some t) (continueNode nodeId)
      (fun w _ => Free d t c w ∧ w.lock = some t) fun w _ => Free d t c w ∧ w.lock = some t := by
  refine .bind (read_spec fun _ => rfl) fun r => .pre ?_ fun w _ h => h.1
  cases r with
  | none => exact .ret fun _ _ h => h
  | some process =>
      refine .bind (read_spec fun _ => rfl) fun alive => .pre ?_ fun w _ h => h.1
      cases alive with
      | false => exact .ret fun _ _ h => h
      | true =>
          refine .bind (read_spec fun _ => rfl) fun paused => .pre ?_ fun w _ h => h.1
          cases paused with
          | false => exact .ret fun _ _ h => h
          | true =>
              exact .bind (signal_spec (locked_lasting free_lasting)) fun _ =>
                .bind (discardPaused_spec fun _ _ h => h) fun _ => .ret fun _ _ h => h

theorem resumeNode_spec {d : Bool} :
    discipline.Triple t c (Free d t c) (resumeNode nodeId) (fun w _ => Free d t c w)
      fun w _ => Free d t c w := by
  refine .bind activeNode_spec fun _ => .bind (lock_spec free_lasting.stable fun _ h => h)
    fun _ => .bind (.tryFinally continueNode_spec (fun _ => release_spec fun _ h => h)
      fun _ => release_spec fun _ h => h) fun running => ?_
  cases running with
  | true => exact .ret fun _ _ h => h
  | false => exact startNode_spec

theorem haltNode_spec {d : Bool} :
    discipline.Triple t c (fun w => Free d t c w ∧ w.lock = some t) (haltNode nodeId)
      (fun w _ => Free d t c w ∧ w.lock = some t) fun w _ => Free d t c w ∧ w.lock = some t := by
  refine .bind (read_spec fun _ => rfl) fun r => .pre ?_ fun w _ h => h.1
  cases r with
  | none => exact .ret fun _ _ h => h
  | some process =>
      refine .bind (read_spec fun _ => rfl) fun alive => .pre ?_ fun w _ h => h.1
      refine .bind (read_spec fun _ => rfl) fun paused => .pre ?_ fun w _ h => h.1
      dsimp only
      split
      · exact .bind (signal_spec (locked_lasting free_lasting)) fun _ =>
          addPaused_spec fun _ _ h => h
      · exact .ret fun _ _ h => h

theorem pauseNode_spec {d : Bool} :
    discipline.Triple t c (Free d t c) (pauseNode nodeId) (fun w _ => Free d t c w)
      fun w _ => Free d t c w :=
  .bind activeNode_spec fun _ => locked_spec haltNode_spec

/-! ## Taking a process from its node -/

/-- The child of `stop_cluster` that pops a node is the one that was made for it. -/
def Stops (c : Call) (nodeId : String) (w : World) : Prop :=
  ∀ task, c = .child task → w.spawned[task]? = some (.stopNode nodeId)

theorem stops_persistent : discipline.Persistent (Stops c nodeId) :=
  fun _ _ hg h task hc => hg.spawned (h task hc)

theorem pop_spec {X : World → Error → Prop} :
    discipline.Triple t c (fun w => (Free false t c w ∧ Stops c nodeId w) ∧ w.lock = some t)
      (act (.pop nodeId)) (fun w process => Taken t c nodeId process w ∧ w.lock = some t) X := by
  refine .act fun w hi hp => ?_
  obtain ⟨⟨⟨hcalls, hholds, -⟩, hstops⟩, hlock⟩ := hp
  refine ⟨pop_kept hi (by rw [hcalls]; nofun) hlock hholds fun task hc => hstops task ?_,
    ⟨hcalls, Function.update_self .., fun i hlisted => ?_, ?_⟩, hlock⟩
  · exact Option.some.inj (hcalls.symm.trans hc)
  · exact ⟨_, List.getElem?_eq_getElem (hi.listed nodeId i hlisted)⟩
  · cases c with
    | killNode _ =>
        show (t, nodeId) ∈ w.noteKilling t nodeId
        rw [World.noteKilling, hcalls]
        exact .head _
    | child task => exact notePopped_iff.mpr (.inr hcalls)
    | _ => trivial

/-- A task that has popped a node whose process has ended. -/
def Spent (t : Nat) (c : Call) (nodeId : String) (w : World) : Prop :=
  Over t c w ∧ Noted t c nodeId w

theorem Taken.spent {process : Option Nat} {w : World} (h : Taken t c nodeId process w)
    (hended : ∀ i, process = some i → w.Ended i) : Spent t c nodeId w :=
  ⟨⟨h.1, fun i hi => hended i (h.2.1.symm.trans hi)⟩, h.2.2.2⟩

theorem Taken.spent_some {process : Nat} {w : World} (h : Taken t c nodeId (some process) w)
    (hended : w.Ended process) : Spent t c nodeId w :=
  h.spent fun _ hi => Option.some.inj hi ▸ hended

theorem Taken.spent_none {w : World} (h : Taken t c nodeId none w) : Spent t c nodeId w :=
  h.spent nofun

theorem alive_spec {process : Nat} {X : World → Error → Prop} :
    discipline.Triple t c (Taken t c nodeId (some process)) (act (.alive process))
      (fun w alive => Taken t c nodeId (some process) w ∧ (alive = false → w.Ended process)) X :=
  .post (read_spec fun _ => rfl) fun _ _ _ h => ⟨h.1, fun hdead =>
    ended_of_not_alive (Bool.eq_false_iff.mp (h.2.symm.trans hdead))
      (h.1.2.2.1 process rfl)⟩

theorem exited_taken_spec {process : Nat} {X : World → Error → Prop} :
    discipline.Triple t c (Taken t c nodeId (some process)) (wait (.exited process))
      (fun w _ => Spent t c nodeId w) X :=
  .post (exited_spec taken_lasting.stable fun _ h => h.2.2.1 process rfl)
    fun _ _ _ h => h.1.spent_some h.2

theorem retire_spec {X : World → Error → Prop} {killed : String} :
    discipline.Triple t (.killNode killed) (Spent t (.killNode killed) nodeId)
      (act (.retireDatabaseNode nodeId)) (fun w _ => Over t (.killNode killed) w) X := by
  refine .act fun w hi hp => ⟨retire_kept hi hp.2, ?_⟩
  obtain ⟨⟨hcalls, hover⟩, -⟩ := hp
  have hsame : (exec w t (.retireDatabaseNode nodeId)).1.calls = w.calls ∧
      (exec w t (.retireDatabaseNode nodeId)).1.holds = w.holds := by
    simp only [exec, World.edit]
    split
    · exact ⟨rfl, rfl⟩
    · exact ⟨rfl, rfl⟩
  refine ⟨(congrFun hsame.1 t).trans hcalls, fun i hi => ?_⟩
  exact ended_persistent i w _ (exec_grow w t (.retireDatabaseNode nodeId))
    (hover i ((congrFun hsame.2 t).symm.trans hi))

theorem killProcess_spec {process : Option Nat} {X : World → Error → Prop} :
    discipline.Triple t c (Taken t c nodeId process) (killProcess process)
      (fun w _ => Spent t c nodeId w) X := by
  cases process with
  | none => exact .ret fun _ _ h => h.spent_none
  | some process =>
      refine .bind alive_spec fun alive => ?_
      cases alive with
      | false => exact .ret fun _ _ h => h.1.spent_some (h.2 rfl)
      | true =>
          exact .bind ((signal_spec taken_lasting).pre fun _ _ h => h.1)
            fun _ => exited_taken_spec

/-- Between the pop and the retirement nothing raises. -/
theorem killNode_spec {killed : String} :
    discipline.Triple t (.killNode killed) (Free false t (.killNode killed)) (killNode nodeId)
      (fun w _ => Over t (.killNode killed) w) fun w _ => Over t (.killNode killed) w := by
  refine .bind (activeNode_spec.mono (fun _ _ h => h) (fun _ _ _ h => h)
    fun _ _ _ h => h.over) fun node => ?_
  refine .bind (.require (Q := fun w _ => Free false t (.killNode killed) w) (fun _ _ h _ => h)
    fun _ _ h _ => h.over) fun _ => ?_
  refine .bind ((lock_spec free_lasting.stable fun _ h => h).post
    (Q := fun w _ => (Free false t (.killNode killed) w ∧ Stops (.killNode killed) nodeId w) ∧
      w.lock = some t) fun _ _ _ h => ⟨⟨h.1, nofun⟩, h.2⟩) fun _ => ?_
  refine .bind (.tryFinally (X := fun _ _ => False) (.bind pop_spec fun _ =>
    .bind (discardPaused_spec fun _ _ h => h) fun _ => .ret fun _ _ h => h)
    (fun _ => release_spec fun _ h => h) fun _ _ _ _ h => h.elim) fun process => ?_
  refine .bind killProcess_spec fun _ => .bind retire_spec fun r => ?_
  exact .bind (.ofExcept (Q := fun w _ => Over t (.killNode killed) w) (fun _ _ _ h _ => h)
    fun _ _ _ h _ => h) fun _ => .ret fun _ _ h => h

theorem endProcess_spec {process : Nat} {X : World → Error → Prop} :
    discipline.Triple t c (Taken t c nodeId (some process)) (endProcess nodeId process)
      (fun w _ => Spent t c nodeId w) X := by
  have hrest : discipline.Triple t c (Taken t c nodeId (some process)) (do
      act (.signal process .sigterm)
      handle (wait (.exitedInTime process)) fun e =>
        if e = .timeoutError then do
          act (.signal process .sigkill)
          wait (.exited process)
        else raise e) (fun w _ => Spent t c nodeId w) X := by
    refine .bind (signal_spec taken_lasting) fun _ => .handle ((exitedInTime_spec
      taken_lasting.stable fun _ h => h.2.2.1 process rfl).post
        fun _ _ _ h => h.1.spent_some h.2) fun e => .given ?_
    rintro rfl
    exact .bind (signal_spec taken_lasting) fun _ => exited_taken_spec
  refine .bind (read_spec fun _ => rfl) fun paused => .pre ?_ fun _ _ h => h.1
  cases paused with
  | false => exact hrest
  | true =>
      exact .bind (signal_spec taken_lasting) fun _ =>
        .bind (discardPaused_spec fun _ _ h => h) fun _ => hrest

theorem stopNode_spec :
    discipline.Triple t c (fun w => Free false t c w ∧ Stops c nodeId w) (stopNode nodeId)
      (fun w _ => Spent t c nodeId w) fun w _ => Over t c w := by
  have hlasting : discipline.Lasting t fun w => Free false t c w ∧ Stops c nodeId w :=
    free_lasting.and stops_persistent.lasting
  refine .bind (node_spec.mono (fun _ _ h => h) (fun _ _ _ h => h)
    fun _ _ _ h => h.1.over) fun _ => ?_
  refine .bind (lock_spec hlasting.stable fun _ h => h) fun _ => ?_
  refine .bind (.tryFinally (X := fun _ _ => False) pop_spec
    (fun _ => release_spec fun _ h => h) fun _ _ _ _ h => h.elim) fun process => ?_
  cases process with
  | none => exact .ret fun _ _ h => h.spent_none
  | some process =>
      refine .bind alive_spec fun alive => ?_
      cases alive with
      | false => exact .ret fun _ _ h => h.1.spent_some (h.2 rfl)
      | true => exact endProcess_spec.pre fun _ _ h => h.1

/-! ## Under the deployment lock -/

theorem deploymentLock_spec {X : World → Error → Prop} :
    discipline.Triple t c (Free false t c) (wait .deploymentLock)
      (fun w _ => Free true t c w) X := by
  refine .wait free_lasting.stable fun w x w' r hi hp _ hs => ?_
  cases x with
  | failed e => cases hs
  | done =>
      obtain ⟨hnone, heq⟩ := Option.ite_none_right_eq_some.mp hs
      cases heq
      refine ⟨deploymentLock_kept hi hnone, fun _ _ => ⟨hp.1, hp.2.1, fun _ => ⟨rfl, ?_⟩⟩, nofun⟩
      intro tasks hresetting
      rw [(hi.covered t tasks hresetting).1] at hnone
      cases hnone

/-- The lock is not one that a task can take twice. -/
theorem deploymentLock_held_spec {X : World → Error → Prop} :
    discipline.Triple t c (Free true t c) (wait .deploymentLock) (fun _ _ => False) X := by
  refine .wait free_lasting.stable fun w x w' r _ hp _ hs => ?_
  cases x with
  | failed e => cases hs
  | done =>
      obtain ⟨hnone, -⟩ := Option.ite_none_right_eq_some.mp hs
      rw [(hp.2.2 rfl).1] at hnone
      cases hnone

theorem releaseDeployment_spec {X : World → Error → Prop} :
    discipline.Triple t c (Deployed t c) (act .releaseDeployment)
      (fun w _ => Free false t c w) X :=
  .act fun _ hi hp => ⟨releaseDeployment_kept hi hp.2.2, hp.1, hp.2.1, nofun⟩

theorem Free.deployed {w : World} (h : Free true t c w) : Deployed t c w :=
  ⟨h.1, h.2.1, (h.2.2 rfl).1⟩

theorem edit_frame (w : World) (r : Except Error (LabManifest × NodeManifest)) :
    (w.edit r).1.calls = w.calls ∧ (w.edit r).1.holds = w.holds ∧
      (w.edit r).1.deploymentLock = w.deploymentLock ∧ (w.edit r).1.resetting = w.resetting := by
  unfold World.edit
  split
  · exact ⟨rfl, rfl, rfl, rfl⟩
  · exact ⟨rfl, rfl, rfl, rfl⟩

theorem Free.edit {d : Bool} {w : World} (h : Free d t c w)
    (r : Except Error (LabManifest × NodeManifest)) : Free d t c (w.edit r).1 := by
  obtain ⟨hcalls, hholds, hdeployment, hresetting⟩ := edit_frame w r
  rw [Free, hcalls, hholds, hdeployment, hresetting]
  exact h

theorem joiningNode_spec {endpoint : String} {draws : List String} :
    discipline.Triple t c (Free true t c) (joiningNode endpoint draws)
      (fun w _ => Free true t c w) fun w _ => Free true t c w := by
  refine .bind (read_spec fun _ => rfl) fun manifest => .pre ?_ fun _ _ h => h.1
  dsimp only
  split
  · exact .ret fun _ _ h => h
  · split
    · exact .bind (never_spec free_lasting.stable) fun never => nomatch never
    · refine .bind (Q := fun w _ => Free true t c w) (.act fun w hi hp =>
        ⟨addDatabaseNode_kept hi (hp.2.2 rfl).1 (hp.2.2 rfl).2, hp.edit _⟩) fun added => ?_
      exact .ofExcept (fun _ _ _ h _ => h) fun _ _ _ h _ => h

theorem addNode_spec {endpoint : String} {draws : List String} :
    discipline.Triple t c (Free true t c) (addNode endpoint draws)
      (fun w _ => Free true t c w) fun w _ => Free true t c w := by
  refine .bind joiningNode_spec fun node => .bind startNode_spec fun _ =>
    .bind (healthy_spec free_lasting.stable) fun _ =>
    .bind (join_spec free_lasting.stable) fun _ => ?_
  refine .bind (Q := fun w _ => Free true t c w)
    (.act fun w hi hp => ⟨markJoined_kept hi, hp.edit _⟩) fun joined => ?_
  exact .bind (.ofExcept (Q := fun w _ => Free true t c w) (fun _ _ _ h _ => h)
    fun _ _ _ h _ => h) fun _ => .ret fun _ _ h => h

theorem addDatabaseNode_spec {endpoint : String} {draws : List String} :
    discipline.Triple t c (Free false t c) (addDatabaseNode endpoint draws)
      (fun w _ => Free false t c w) fun w _ => Free false t c w :=
  .bind deploymentLock_spec fun _ => .tryFinally addNode_spec
    (fun _ => releaseDeployment_spec.pre fun _ _ h => h.deployed)
    fun _ => releaseDeployment_spec.pre fun _ _ h => h.deployed

theorem startNodes_spec {nodeIds : List String} :
    discipline.Triple t c (Free true t c) (startNodes nodeIds) (fun w _ => Free true t c w)
      fun w _ => Free true t c w := by
  refine .bind (Q := fun w _ => Free true t c w)
    (.act fun w hi hp => ⟨spawn_kept hi _, hp⟩) fun tasks => ?_
  exact .bind (gather_spec free_lasting.stable) fun _ =>
    .pre (healthy_spec free_lasting.stable) fun _ _ h => h.1

theorem startCluster_spec {endpoint : String} {draws : List String} :
    discipline.Triple t c (Free true t c) (startCluster endpoint draws)
      (fun w _ => Free true t c w) fun w _ => Free true t c w := by
  refine .bind (read_spec fun _ => rfl) fun manifest => .pre ?_ fun _ _ h => h.1
  refine .bind startNodes_spec fun _ => .bind startNodes_spec fun _ => ?_
  split
  · exact .ret fun _ _ h => h
  · exact .bind deploymentLock_held_spec fun _ _ _ _ h => h.elim

/-- A reset has swept every node when its children have returned. -/
def Swept (t : Nat) (c : Call) (w : World) : Prop :=
  Deployed t c w ∧ (∃ tasks, w.resetting = some (t, tasks)) ∧
    ∀ nodeId ∈ w.manifest.nodeIds, w.closing nodeId = true

theorem swept_of_returned {w : World} {tasks : List Nat} (hi : Inv w)
    (h : Sweeping t c tasks w) (hreturned : w.allReturned tasks = true) : Swept t c w := by
  refine ⟨h.1, ⟨tasks, h.2⟩, fun nodeId hnodeId => closing_iff.mpr (.inr ?_)⟩
  obtain ⟨-, hcovered⟩ := hi.covered t tasks h.2
  obtain ⟨task, htask, hspawned⟩ := hcovered nodeId hnodeId
  have hresult := of_decide_eq_true (List.all_eq_true.mp hreturned task htask)
  exact swept_iff.mpr ⟨t, tasks, h.2, task, htask, hi.swept task nodeId hspawned hresult, hspawned⟩

theorem stopCluster_spec :
    discipline.Triple t c (Free true t c) stopCluster (fun w _ => Swept t c w)
      fun w _ => Deployed t c w := by
  refine .bind (read_spec fun _ => rfl) fun manifest => ?_
  refine .bind (Q := fun w tasks => Sweeping t c tasks w) (.act fun w hi hp => ?_) fun tasks => ?_
  · obtain ⟨hfree, rfl⟩ := hp
    exact ⟨createStops_kept hi hfree.deployed.2.2, hfree.deployed, rfl⟩
  · exact (gather_spec sweeping_lasting.stable).mono (fun _ _ h => h)
      (fun _ _ hi h => swept_of_returned hi h.1 h.2) fun _ _ _ h => h.1

/-- From the stop of the nodes to their replacement nothing is awaited. -/
theorem bootstrap_spec {b : Bootstrap} :
    discipline.Triple t c (Free true t c) (bootstrap b) (fun w _ => Deployed t c w)
      fun w _ => Deployed t c w := by
  refine .bind (read_spec fun _ => rfl) fun manifest => .pre ?_ fun _ _ h => h.1
  dsimp only
  split
  · exact .bind (never_spec free_lasting.stable) fun never => nomatch never
  · next databaseIds _ =>
      refine .bind (Q := fun w replacement => Free true t c w ∧
        replacement.validated = .ok replacement) (.ofExcept (fun _ _ _ h hr =>
          ⟨h, LabManifest.createSubprocess_ok hr⟩) fun _ _ _ h _ => h.deployed)
          fun replacement => .given fun hvalid => ?_
      refine .bind stopCluster_spec fun _ => ?_
      refine .bind (.require (Q := fun w _ => Swept t c w) (fun _ _ h _ => h)
        fun _ _ h _ => h.1) fun _ => ?_
      refine .bind (Q := fun w _ => Swept t c w)
        (.act fun w hi hp => ⟨clearProcesses_kept hi hp.2.2, hp⟩) fun _ => ?_
      refine .bind (Q := fun w _ => Swept t c w)
        (.act fun w hi hp => ⟨paused_kept hi _, hp⟩) fun _ => ?_
      refine .bind (Q := fun w _ => Free true t c w) (.act fun w hi hp => ?_) fun _ => ?_
      · obtain ⟨hdeployed, ⟨tasks, hresetting⟩, hclosing⟩ := hp
        exact ⟨setNodes_kept hi hclosing hvalid hresetting, hdeployed.1, hdeployed.2.1,
          fun _ => ⟨hdeployed.2.2, nofun⟩⟩
      · exact startCluster_spec.mono (fun _ _ h => h) (fun _ _ _ h => h.deployed)
          fun _ _ _ h => h.deployed

theorem resetCluster_spec {b : Bootstrap} :
    discipline.Triple t c (Free false t c) (resetCluster b) (fun w _ => Free false t c w)
      fun w _ => Free false t c w :=
  .bind deploymentLock_spec fun _ => .tryFinally bootstrap_spec
    (fun _ => releaseDeployment_spec) fun _ => releaseDeployment_spec

/-! ## The calls -/

/-- A call that is no child, whatever it ends with. -/
theorem plain_safe {p : Co Unit} {w₀ w : World}
    (h : discipline.Triple t c (Free false t c) p (fun w _ => Over t c w) fun w _ => Over t c w)
    (hc : ∀ task, c ≠ .child task) (hk : discipline.Kept t w₀ w) (hfree : Free false t c w) :
    discipline.Safe t c (fun w₀ w _ => discipline.Kept t w₀ (finish w t c (.ok ())))
      (fun w₀ w e => discipline.Kept t w₀ (finish w t c (.error e))) w₀ w p :=
  h.safe_finish hk hfree
    (fun _ _ hi hover => finish_kept hi hover.2 fun task heq => absurd heq (hc task))
    fun _ _ hi hover => finish_kept hi hover.2 fun task heq => absurd heq (hc task)

/-- A call that ends with nothing in hand. -/
theorem free_safe {p : Co Unit} {w₀ w : World}
    (h : discipline.Triple t c (Free false t c) p (fun w _ => Free false t c w)
      fun w _ => Free false t c w)
    (hc : ∀ task, c ≠ .child task) (hk : discipline.Kept t w₀ w) (hfree : Free false t c w) :
    discipline.Safe t c (fun w₀ w _ => discipline.Kept t w₀ (finish w t c (.ok ())))
      (fun w₀ w e => discipline.Kept t w₀ (finish w t c (.error e))) w₀ w p :=
  plain_safe (h.mono (fun _ _ h => h) (fun _ _ _ h => h.over) fun _ _ _ h => h.over) hc hk hfree

theorem program_safe {w₀ w : World} (hc : ∀ task, c ≠ .child task)
    (hk : discipline.Kept t w₀ w) (hfree : Free false t c w) :
    discipline.Safe t c (fun w₀ w _ => discipline.Kept t w₀ (finish w t c (.ok ())))
      (fun w₀ w e => discipline.Kept t w₀ (finish w t c (.error e))) w₀ w (program c) := by
  cases c with
  | startNode nodeId => exact free_safe startNode_spec hc hk hfree
  | resumeNode nodeId => exact free_safe resumeNode_spec hc hk hfree
  | pauseNode nodeId => exact free_safe pauseNode_spec hc hk hfree
  | killNode nodeId => exact plain_safe killNode_spec hc hk hfree
  | stopNode nodeId =>
      refine plain_safe (stopNode_spec.mono (fun _ _ h => ⟨h, ?_⟩) (fun _ _ _ h => h.1)
        fun _ _ _ h => h) hc hk hfree
      exact nofun
  | addDatabaseNode endpoint draws => exact free_safe addDatabaseNode_spec hc hk hfree
  | resetCluster b => exact free_safe resetCluster_spec hc hk hfree
  | child task => exact absurd rfl (hc task)

theorem child_safe {task : Nat} {child : Child} {w₀ w : World}
    (hchild : w.spawned[task]? = some child) (hk : discipline.Kept t w₀ w)
    (hfree : Free false t (.child task) w) :
    discipline.Safe t (.child task)
      (fun w₀ w _ => discipline.Kept t w₀ (finish w t (.child task) (.ok ())))
      (fun w₀ w e => discipline.Kept t w₀ (finish w t (.child task) (.error e))) w₀ w
      (Child.program child) := by
  have hspawned : discipline.Persistent fun w => w.spawned[task]? = some child :=
    fun _ _ hg h => hg.spawned h
  cases child with
  | stopNode nodeId =>
      refine (stopNode_spec.frame hspawned).safe_finish hk ⟨⟨hfree, ?_⟩, hchild⟩
        (fun _ _ hi h => finish_kept (c := .child task) hi h.1.1.2 ?_)
        fun _ _ hi h => finish_kept (c := .child task) hi h.1.2 ?_
      · rintro _ ⟨⟩
        exact hchild
      · rintro _ ⟨⟩
        exact ⟨_, h.2, fun _ _ _ => h.1.2⟩
      · rintro _ ⟨⟩
        exact ⟨_, h.2, fun _ _ => nofun⟩
  | startNode nodeId =>
      refine (startNode_spec.frame hspawned).safe_finish hk ⟨hfree, hchild⟩
        (fun _ _ hi h => finish_kept (c := .child task) hi h.1.over.2 ?_)
        fun _ _ hi h => finish_kept (c := .child task) hi h.1.over.2 ?_
      · rintro _ ⟨⟩
        exact ⟨_, h.2, nofun⟩
      · rintro _ ⟨⟩
        exact ⟨_, h.2, nofun⟩

/-- What a call or a child begins with. -/
theorem start_program {w w' : World} {p : Co Unit} (hs : start w t c = some (w', p)) :
    ((∀ task, c ≠ .child task) ∧ p = program c) ∨
      ∃ task child, c = .child task ∧ w'.spawned[task]? = some child ∧ p = Child.program child := by
  unfold start at hs
  split at hs
  · cases hs
  · split at hs
    · split at hs
      · cases hs
      next task _ child hchild =>
        split at hs
        · cases hs
        · cases hs
          exact .inr ⟨task, child, rfl, hchild, rfl⟩
    · next hc =>
        cases hs
        exact .inl ⟨fun task heq => hc task heq, rfl⟩

theorem sound : discipline.Sound := by
  refine ⟨fun {w t c w' p} hi _ hs => ?_, fun hi hs => ?_⟩
  · obtain ⟨hkept, hgrow, hcalls, hholds⟩ := start_kept hi hs
    have hfree : Free false t c w' := ⟨hcalls, hholds, nofun⟩
    refine ⟨hgrow, ?_⟩
    rcases start_program hs with ⟨hc, rfl⟩ | ⟨task, child, rfl, hchild, rfl⟩
    · exact program_safe hc hkept hfree
    · exact child_safe hchild hkept hfree
  · obtain ⟨hi', hgrow, hrely⟩ := disturb_kept hi hs
    exact ⟨hi', hgrow, fun u _ => hrely u⟩

end DelosLab.Controller.Supervisor
