import DelosLab.Async.RelyGuarantee
import DelosLab.Controller.Supervisor

/-!
# What the operations of a supervisor keep

A process that is alive is tracked under a node of the manifest, or an operation has it in
hand. While a node is closing, which is from the pop of its process to its retirement or to the
replacement of all nodes, no process is tracked under it and none is being launched.
-/

namespace DelosLab.Controller.Supervisor

open Async

namespace World

/-- A child of the reset in progress has taken the process of a node. -/
def swept (w : World) (nodeId : String) : Bool :=
  match w.resetting with
  | none => false
  | some (_, tasks) => tasks.any fun task =>
      w.popped task && decide (w.spawned[task]? = some (.stopNode nodeId))

/-- A node between the pop of its process and its retirement, or the replacement of all. -/
def closing (w : World) (nodeId : String) : Bool :=
  (w.killings.any fun k => k.2 = nodeId) || w.swept nodeId

/-- A process that has ended. -/
def Ended (w : World) (process : Nat) : Prop :=
  ∃ p, w.launched[process]? = some p ∧ p.alive = false

/-- A process that runs under its node, by a command of the current nodes. -/
def Tracked (w : World) (process : Nat) (p : Process) : Prop :=
  w.manifest.Active p.command.nodeId ∧ w.processes p.command.nodeId = some process ∧
    p.command.generation = w.generation

/-- No process runs under a node. -/
def Vacant (w : World) (nodeId : String) : Prop :=
  ∀ process, w.processes nodeId = some process → w.Ended process

/-- The node of a command is still one of the nodes that the command was made from, and it is not
closing. -/
structure Launchable (w : World) (command : Command) : Prop where
  active : w.manifest.Active command.nodeId
  current : command.generation = w.generation
  apart : w.closing command.nodeId = false

end World

/-- No launch ends for a node that is closing or gone. -/
def launchesInTime : Condition signature World Nat Call Choice where
  launch := fun _ _ _ => True
  resume := fun w _ _ e x =>
    match e, x with
    | .launch command, .done => w.Launchable command
    | _, _ => True

structure Inv (w : World) : Prop where
  valid : w.manifest.validated = .ok w.manifest
  live : ∀ process p, w.launched[process]? = some p → p.alive = true →
    w.Tracked process p ∨ ∃ t, w.holds t = some process
  closed : ∀ nodeId, w.closing nodeId = true → w.processes nodeId = none
  swept : ∀ task nodeId, w.spawned[task]? = some (.stopNode nodeId) →
    w.results task = some (.ok ()) → w.popped task = true
  covered : ∀ t tasks, w.resetting = some (t, tasks) → w.deploymentLock = some t ∧
    ∀ nodeId ∈ w.manifest.nodeIds, ∃ task ∈ tasks, w.spawned[task]? = some (.stopNode nodeId)
  listed : ∀ nodeId process, w.processes nodeId = some process → process < w.launched.length
  made : ∀ task, w.popped task = true ∨ w.results task ≠ none → task < w.spawned.length
  idle : ∀ t, w.calls t = none → w.holds t = none

/-- Processes end once, and what has happened has happened. -/
structure Grow (w w' : World) : Prop where
  process : ∀ {process : Nat} {p : Process}, w.launched[process]? = some p →
    ∃ p' : Process, w'.launched[process]? = some p' ∧ p'.command = p.command ∧
      (p'.alive = true → p.alive = true)
  spawned : ∀ {task : Nat} {child : Child}, w.spawned[task]? = some child →
    w'.spawned[task]? = some child
  popped : ∀ {task : Nat}, w.popped task = true → w'.popped task = true

/-- What task `t` relies on: nobody else does its work, and its locks lock. -/
structure Rely (t : Nat) (w w' : World) : Prop where
  calls : w'.calls t = w.calls t
  holds : w'.holds t = w.holds t
  killings : ∀ nodeId, (t, nodeId) ∈ w'.killings ↔ (t, nodeId) ∈ w.killings
  resetting : ∀ tasks, w'.resetting = some (t, tasks) ↔ w.resetting = some (t, tasks)
  lock : w.lock = some t → w'.lock = some t ∧
    ∀ nodeId process, w'.processes nodeId = some process → w.processes nodeId = some process
  deployment : w.deploymentLock = some t → w'.deploymentLock = some t

theorem Grow.refl (w : World) : Grow w w where
  process := fun h => ⟨_, h, rfl, id⟩
  spawned := id
  popped := id

theorem Grow.trans {w₁ w₂ w₃ : World} (h : Grow w₁ w₂) (h' : Grow w₂ w₃) : Grow w₁ w₃ where
  process := by
    intro process p hp
    obtain ⟨p', hp', hcommand, halive⟩ := h.process hp
    obtain ⟨p'', hp'', hcommand', halive'⟩ := h'.process hp'
    exact ⟨p'', hp'', hcommand'.trans hcommand, fun h => halive (halive' h)⟩
  spawned := fun hs => h'.spawned (h.spawned hs)
  popped := fun hp => h'.popped (h.popped hp)

theorem Rely.refl (t : Nat) (w : World) : Rely t w w :=
  ⟨rfl, rfl, fun _ => Iff.rfl, fun _ => Iff.rfl, fun h => ⟨h, fun _ _ h => h⟩, id⟩

theorem Rely.trans {t : Nat} {w₁ w₂ w₃ : World} (h : Rely t w₁ w₂) (h' : Rely t w₂ w₃) :
    Rely t w₁ w₃ where
  calls := h'.calls.trans h.calls
  holds := h'.holds.trans h.holds
  killings := fun nodeId => (h'.killings nodeId).trans (h.killings nodeId)
  resetting := fun tasks => (h'.resetting tasks).trans (h.resetting tasks)
  lock := fun hl => by
    obtain ⟨hl', hp⟩ := h.lock hl
    obtain ⟨hl'', hp'⟩ := h'.lock hl'
    exact ⟨hl'', fun nodeId process hq => hp nodeId process (hp' nodeId process hq)⟩
  deployment := fun hl => h'.deployment (h.deployment hl)

/-! ## The growth of the world -/

/-- A step that launches, makes and pops nothing. -/
theorem Grow.of_eq {w w' : World} (hlaunched : w'.launched = w.launched)
    (hspawned : w'.spawned = w.spawned) (hpopped : w'.popped = w.popped) : Grow w w' where
  process := fun h => ⟨_, by rw [hlaunched]; exact h, rfl, id⟩
  spawned := fun h => by rw [hspawned]; exact h
  popped := fun h => by rw [hpopped]; exact h

theorem getElem?_modify_process {launched : List Process} {f : Process → Process} {i process : Nat}
    {p : Process} (h : launched[process]? = some p) :
    (launched.modify i f)[process]? = some (if i = process then f p else p) := by
  rw [List.getElem?_modify, h]
  split
  · rfl
  · rfl

theorem Grow.modify {w w' : World} {process : Nat} {f : Process → Process}
    (hcommand : ∀ p, (f p).command = p.command) (halive : ∀ p, (f p).alive = true → p.alive = true)
    (hlaunched : w'.launched = w.launched.modify process f) (hspawned : w'.spawned = w.spawned)
    (hpopped : w'.popped = w.popped) : Grow w w' where
  process := by
    intro i p h
    rw [hlaunched]
    refine ⟨_, getElem?_modify_process h, ?_⟩
    split
    · exact ⟨hcommand p, halive p⟩
    · exact ⟨rfl, id⟩
  spawned := fun h => by rw [hspawned]; exact h
  popped := fun h => by rw [hpopped]; exact h

theorem signalled_command (p : Process) (s : Signal) :
    (p.signalled s).command = p.command ∧ (p.signalled s).alive = p.alive := by
  cases s with
  | _ => exact ⟨rfl, rfl⟩

theorem exited_command (p : Process) : p.exited.command = p.command := rfl

theorem not_alive_exited (p : Process) (h : p.exited.alive = true) : p.alive = true :=
  absurd h Bool.false_ne_true

theorem notePopped_iff {w : World} {t task : Nat} : w.notePopped t task = true ↔
    w.popped task = true ∨ w.calls t = some (.child task) := by
  rw [World.notePopped, Bool.or_eq_true, decide_eq_true_eq]

theorem spawn_grow (w : World) (children : List Child) : Grow w (w.spawn children).1 where
  process := fun h => ⟨_, h, rfl, id⟩
  spawned := by
    intro task child h
    show (w.spawned ++ children)[task]? = some child
    rw [List.getElem?_append_left (List.getElem?_eq_some_iff.mp h).1]
    exact h
  popped := id

theorem edit_grow (w : World) (r : Except Error (LabManifest × NodeManifest)) :
    Grow w (w.edit r).1 := by
  unfold World.edit
  split
  · exact .of_eq rfl rfl rfl
  · exact .refl w

theorem exec_grow (w : World) (t : Nat) (a : Act) : Grow w (exec w t a).1 := by
  cases a with
  | pop nodeId => exact ⟨fun h => ⟨_, h, rfl, id⟩, id, fun h => notePopped_iff.mpr (.inl h)⟩
  | signal process s =>
      exact .modify (fun p => (signalled_command p s).1)
        (fun p h => (signalled_command p s).2.symm.trans h) rfl rfl rfl
  | addDatabaseNode nodeId endpoint => exact edit_grow w _
  | markDatabaseNodeJoined nodeId => exact edit_grow w _
  | retireDatabaseNode nodeId => exact (edit_grow w _).trans (.of_eq rfl rfl rfl)
  | createStops nodeIds => exact (spawn_grow w _).trans (.of_eq rfl rfl rfl)
  | createStarts nodeIds => exact spawn_grow w _
  | _ => exact .of_eq rfl rfl rfl

theorem launch_grow (w : World) (t : Nat) (command : Command) :
    Grow w { w.holding t (some w.launched.length) with
      launched := w.launched ++ [⟨command, true, false, false⟩] } where
  process := by
    intro process p h
    refine ⟨p, ?_, rfl, id⟩
    rw [List.getElem?_append_left (List.getElem?_eq_some_iff.mp h).1]
    exact h
  spawned := id
  popped := id

theorem resume_frame {w w' : World} {t : Nat} {e : Wait} {x : Choice}
    {r : Except Error (WaitResult e)} (h : resume w t e x = some (w', r)) :
    Grow w w' ∧ w'.calls = w.calls := by
  unfold resume at h
  split at h
  · split at h
    · cases h
      exact ⟨.of_eq rfl rfl rfl, rfl⟩
    · cases h
  · split at h
    · cases h
      exact ⟨.of_eq rfl rfl rfl, rfl⟩
    · cases h
  · split at h
    · cases h
      exact ⟨.of_eq rfl rfl rfl, rfl⟩
    · cases h
  · cases h
    exact ⟨launch_grow w t _, rfl⟩
  · cases h
    exact ⟨.of_eq rfl rfl rfl, rfl⟩
  · split at h
    · cases h
    · cases h
      exact ⟨.refl w, rfl⟩
  · split at h
    · cases h
    · cases h
      exact ⟨.refl w, rfl⟩
  · cases h
    exact ⟨.refl w, rfl⟩
  · cases h
    exact ⟨.refl w, rfl⟩
  · cases h
    exact ⟨.refl w, rfl⟩
  · cases h
    exact ⟨.refl w, rfl⟩
  · cases h
    exact ⟨.refl w, rfl⟩
  · split at h
    · cases h
      exact ⟨.refl w, rfl⟩
    · cases h
  · split at h
    · cases h
      exact ⟨.refl w, rfl⟩
    · cases h
  · cases h

theorem finish_grow (w : World) (t : Nat) (c : Call) (r : Except Error Unit) :
    Grow w (finish w t c r) := by
  cases c with
  | _ => exact .of_eq rfl rfl rfl

/-- What the tasks of a supervisor keep, in runs whose launches end in time. -/
def discipline : Discipline runtime launchesInTime where
  Inv := Inv
  Grow := Grow
  Rely := Rely
  grow_refl := Grow.refl
  grow_trans := Grow.trans
  rely_refl := Rely.refl
  rely_trans := Rely.trans
  exec_grow := exec_grow
  resume_grow := fun h => (resume_frame h).1
  finish_grow := finish_grow

/-! ## What an act keeps -/

section Kept

variable {w w' : World} {t : Nat} {c : Call} {nodeId : String}

theorem swept_iff : w.swept nodeId = true ↔ ∃ t tasks, w.resetting = some (t, tasks) ∧
    ∃ task ∈ tasks, w.popped task = true ∧ w.spawned[task]? = some (.stopNode nodeId) := by
  unfold World.swept
  split
  · next h =>
      constructor
      · nofun
      · rintro ⟨_, _, h', -⟩
        rw [h] at h'
        cases h'
  · next t tasks h =>
      simp only [List.any_eq_true, Bool.and_eq_true, decide_eq_true_eq]
      constructor
      · intro htask
        exact ⟨t, tasks, h, htask⟩
      · rintro ⟨_, _, h', htask⟩
        obtain ⟨rfl, rfl⟩ := Prod.mk.inj (Option.some.inj (h.symm.trans h'))
        exact htask

theorem closing_iff : w.closing nodeId = true ↔
    (∃ t, (t, nodeId) ∈ w.killings) ∨ w.swept nodeId = true := by
  unfold World.closing
  rw [Bool.or_eq_true, List.any_eq_true]
  refine or_congr_left ⟨?_, ?_⟩
  · rintro ⟨⟨t, other⟩, hk, heq⟩
    obtain rfl := of_decide_eq_true heq
    exact ⟨t, hk⟩
  · rintro ⟨t, hk⟩
    exact ⟨_, hk, decide_eq_true rfl⟩

theorem Rely.of_eq {u : Nat} (hcalls : w'.calls u = w.calls u) (hholds : w'.holds u = w.holds u)
    (hkillings : ∀ nodeId, (u, nodeId) ∈ w'.killings ↔ (u, nodeId) ∈ w.killings)
    (hresetting : ∀ tasks, w'.resetting = some (u, tasks) ↔ w.resetting = some (u, tasks))
    (hlock : w.lock ≠ some u) (hdeployment : w.deploymentLock = some u →
      w'.deploymentLock = some u) : Rely u w w' :=
  ⟨hcalls, hholds, hkillings, hresetting, fun h => absurd h hlock, hdeployment⟩

theorem paused_kept (h : Inv w) (paused : String → Bool) :
    discipline.Kept t w { w with paused := paused } :=
  ⟨{ h with }, fun u _ => { Rely.refl u w with }⟩

theorem lock_kept (h : Inv w) (hlock : w.lock = none) :
    discipline.Kept t w { w with lock := some t } := by
  refine ⟨{ h with }, fun u _ => { Rely.refl u w with lock := fun hu => ?_ }⟩
  rw [hlock] at hu
  cases hu

theorem release_kept (h : Inv w) (hlock : w.lock = some t) :
    discipline.Kept t w { w with lock := none } := by
  refine ⟨{ h with }, fun u hut => { Rely.refl u w with lock := fun hu => ?_ }⟩
  rw [hlock] at hu
  exact absurd (Option.some.inj hu).symm hut

/-- What is done to one process changes neither its command nor that it has ended. -/
theorem modify_kept (h : Inv w) {process : Nat} {f : Process → Process}
    (hcommand : ∀ p, (f p).command = p.command)
    (halive : ∀ p, (f p).alive = true → p.alive = true) :
    discipline.Kept t w { w with launched := w.launched.modify process f } := by
  refine ⟨{ h with live := ?_, listed := ?_ }, fun u _ => { Rely.refl u w with }⟩
  · intro i p' hp' hp'alive
    rw [List.getElem?_modify] at hp'
    cases hp : w.launched[i]? with
    | none =>
        rw [hp] at hp'
        cases hp'
    | some p =>
        rw [hp] at hp'
        have hsame : p'.command = p.command ∧ p.alive = true := by
          split at hp'
          · cases hp'
            exact ⟨hcommand p, halive p hp'alive⟩
          · cases hp'
            exact ⟨rfl, hp'alive⟩
        rcases h.live i p hp hsame.2 with htracked | hheld
        · refine .inl ?_
          rw [World.Tracked, hsame.1]
          exact htracked
        · exact .inr hheld
  · intro nodeId i hi
    rw [List.length_modify]
    exact h.listed nodeId i hi

theorem launch_kept (h : Inv w) (hcalls : w.calls t = some c) (hholds : w.holds t = none)
    (command : Command) : discipline.Kept t w { w.holding t (some w.launched.length) with
      launched := w.launched ++ [⟨command, true, false, false⟩] } := by
  refine ⟨{ h with live := ?_, listed := ?_, idle := ?_ }, fun u hut =>
    { Rely.refl u w with holds := Function.update_of_ne hut _ _ }⟩
  · intro i p hp halive
    rcases Nat.lt_trichotomy i w.launched.length with hlt | rfl | hgt
    · rw [List.getElem?_append_left hlt] at hp
      rcases h.live i p hp halive with htracked | ⟨u, hu⟩
      · exact .inl htracked
      · refine .inr ⟨u, ?_⟩
        have hut : u ≠ t := by
          rintro rfl
          rw [hholds] at hu
          cases hu
        exact (Function.update_of_ne hut _ _).trans hu
    · exact .inr ⟨t, Function.update_self ..⟩
    · rw [List.getElem?_eq_none (by simp; omega)] at hp
      cases hp
  · intro nodeId i hi
    have hlt := h.listed nodeId i hi
    show i < (w.launched ++ _).length
    rw [List.length_append]
    omega
  · intro u hu
    have hut : u ≠ t := by
      rintro rfl
      change w.calls u = none at hu
      rw [hcalls] at hu
      cases hu
    exact (Function.update_of_ne hut _ _).trans (h.idle u hu)

/-- The process that a task has launched goes to its node, where nothing runs. -/
theorem assign_kept {i : Nat} {p : Process} (h : Inv w) (hlock : w.lock = some t)
    (hholds : w.holds t = some i) (hp : w.launched[i]? = some p)
    (hcommand : p.command.nodeId = nodeId) (hlaunchable : w.Launchable p.command)
    (hvacant : w.Vacant nodeId) : discipline.Kept t w { w.holding t none with
      processes := Function.update w.processes nodeId (some i) } := by
  subst hcommand
  refine ⟨{ h with live := ?_, closed := ?_, listed := ?_, idle := ?_ }, fun u hut => ?_⟩
  · intro j q hq halive
    rcases h.live j q hq halive with ⟨hactive, hlisted, hcurrent⟩ | ⟨u, hu⟩
    · refine .inl ⟨hactive, ?_, hcurrent⟩
      have hne : q.command.nodeId ≠ p.command.nodeId := by
        intro heq
        rw [heq] at hlisted
        obtain ⟨q', hq', hended⟩ := hvacant j hlisted
        rw [Option.some.inj (hq'.symm.trans hq), halive] at hended
        cases hended
      exact (Function.update_of_ne hne _ _).trans hlisted
    · by_cases hut : u = t
      · subst hut
        obtain rfl := Option.some.inj (hholds.symm.trans hu)
        obtain rfl := Option.some.inj (hp.symm.trans hq)
        exact .inl ⟨hlaunchable.active, Function.update_self .., hlaunchable.current⟩
      · exact .inr ⟨u, (Function.update_of_ne hut _ _).trans hu⟩
  · intro other hclosing
    have hne : other ≠ p.command.nodeId := by
      rintro rfl
      exact absurd (hlaunchable.apart.symm.trans hclosing) nofun
    exact (Function.update_of_ne hne _ _).trans (h.closed other hclosing)
  · intro other j hj
    change Function.update w.processes _ _ _ = _ at hj
    rw [Function.update_apply] at hj
    split at hj
    · cases hj
      exact (List.getElem?_eq_some_iff.mp hp).1
    · exact h.listed other j hj
  · intro u hu
    show Function.update w.holds t none u = none
    rw [Function.update_apply]
    split
    · rfl
    · exact h.idle u hu
  · refine .of_eq rfl (Function.update_of_ne hut _ _) (fun _ => Iff.rfl) (fun _ => Iff.rfl) ?_ id
    rw [hlock]
    exact fun heq => hut (Option.some.inj heq).symm

theorem mem_noteKilling {other : String} {u : Nat}
    (h : (u, other) ∈ w.noteKilling t nodeId) :
    (u, other) ∈ w.killings ∨ u = t ∧ other = nodeId := by
  unfold World.noteKilling at h
  split at h
  · rcases List.mem_cons.mp h with heq | h
    · exact .inr (Prod.mk.inj heq)
    · exact .inl h
  · exact .inl h

theorem noteKilling_of_mem {other : String} {u : Nat} (h : (u, other) ∈ w.killings) :
    (u, other) ∈ w.noteKilling t nodeId := by
  unfold World.noteKilling
  split
  · exact .tail _ h
  · exact h

/-- Only the popped node may be closing from now on. -/
theorem closing_pop (hchild : ∀ task, w.calls t = some (.child task) →
      w.spawned[task]? = some (.stopNode nodeId)) {other : String}
    (h : (w.pop t nodeId).closing other = true) : other = nodeId ∨ w.closing other = true := by
  rw [closing_iff] at h ⊢
  rcases h with ⟨u, hu⟩ | hswept
  · rcases mem_noteKilling hu with hu | ⟨-, heq⟩
    · exact .inr (.inl ⟨u, hu⟩)
    · exact .inl heq
  · obtain ⟨u, tasks, hresetting, task, htask, hpopped, hspawned⟩ := swept_iff.mp hswept
    rcases notePopped_iff.mp hpopped with hpopped | hc
    · exact .inr (.inr (swept_iff.mpr ⟨u, tasks, hresetting, task, htask, hpopped, hspawned⟩))
    · have hstop := (hchild task hc).symm.trans hspawned
      exact .inl (Child.stopNode.inj (Option.some.inj hstop)).symm

/-- A pop takes the process of its node in hand. -/
theorem pop_kept (h : Inv w) (hcalls : w.calls t ≠ none) (hlock : w.lock = some t)
    (hholds : w.holds t = none)
    (hchild : ∀ task, w.calls t = some (.child task) →
      w.spawned[task]? = some (.stopNode nodeId)) :
    discipline.Kept t w (w.pop t nodeId) := by
  refine ⟨{ h with live := ?_, closed := ?_, swept := ?_, listed := ?_, made := ?_, idle := ?_ },
    fun u hut => .of_eq rfl (Function.update_of_ne hut _ _) (fun other => ?_) (fun _ => Iff.rfl)
      ?_ id⟩
  · intro i p hp halive
    rcases h.live i p hp halive with ⟨hactive, hlisted, hcurrent⟩ | ⟨u, hu⟩
    · by_cases heq : p.command.nodeId = nodeId
      · subst heq
        exact .inr ⟨t, (Function.update_self ..).trans hlisted⟩
      · exact .inl ⟨hactive, (Function.update_of_ne heq _ _).trans hlisted, hcurrent⟩
    · have hut : u ≠ t := by
        rintro rfl
        rw [hholds] at hu
        cases hu
      exact .inr ⟨u, (Function.update_of_ne hut _ _).trans hu⟩
  · intro other hclosing
    show Function.update w.processes nodeId none other = none
    rw [Function.update_apply]
    split
    · rfl
    · next hne => exact h.closed other ((closing_pop hchild hclosing).resolve_left hne)
  · exact fun task other hspawned hresult =>
      notePopped_iff.mpr (.inl (h.swept task other hspawned hresult))
  · intro other i hi
    change Function.update w.processes nodeId none other = some i at hi
    rw [Function.update_apply] at hi
    split at hi
    · cases hi
    · exact h.listed other i hi
  · rintro task (hpopped | hresult)
    · rcases notePopped_iff.mp hpopped with hpopped | hc
      · exact h.made task (.inl hpopped)
      · exact (List.getElem?_eq_some_iff.mp (hchild task hc)).1
    · exact h.made task (.inr hresult)
  · intro u hu
    have hut : u ≠ t := by
      rintro rfl
      exact hcalls hu
    exact (Function.update_of_ne hut _ _).trans (h.idle u hu)
  · exact ⟨fun hu => (mem_noteKilling hu).resolve_right fun heq => hut heq.1, noteKilling_of_mem⟩
  · rw [hlock]
    exact fun heq => hut (Option.some.inj heq).symm

/-- The nodes of a new manifest are those of the old one and those that nothing sweeps, and what
runs may go on. -/
theorem manifest_inv (h : Inv w) {manifest : LabManifest}
    (hvalid : manifest.validated = .ok manifest)
    (hnodeIds : w.resetting ≠ none → manifest.nodeIds = w.manifest.nodeIds)
    (hactive : ∀ process p, w.launched[process]? = some p → w.Tracked process p →
      manifest.Active p.command.nodeId) : Inv { w with manifest := manifest } := by
  refine { h with valid := hvalid, live := ?_, covered := ?_ }
  · intro i p hp halive
    rcases h.live i p hp halive with htracked | hheld
    · exact .inl ⟨hactive i p hp htracked, htracked.2⟩
    · exact .inr hheld
  · intro u tasks hresetting
    obtain ⟨hlock, hcovered⟩ := h.covered u tasks hresetting
    refine ⟨hlock, fun nodeId hnodeId => hcovered nodeId ?_⟩
    rw [← hnodeIds (fun hnone => by rw [hresetting] at hnone; cases hnone)]
    exact hnodeId

theorem edit_kept (h : Inv w) {r : Except Error (LabManifest × NodeManifest)}
    (hr : ∀ manifest node, r = .ok (manifest, node) → Inv { w with manifest := manifest }) :
    discipline.Kept t w (w.edit r).1 := by
  unfold World.edit
  split
  · next manifest node =>
      exact ⟨hr manifest node rfl, fun u _ => { Rely.refl u w with }⟩
  · exact .refl h

/-- The node that a kill retires has no process any more. -/
theorem retire_kept (h : Inv w) (hkilling : (t, nodeId) ∈ w.killings) :
    discipline.Kept t w (exec w t (.retireDatabaseNode nodeId)).1 := by
  have hedit : discipline.Kept t w (w.edit (w.manifest.retireDatabaseNode nodeId)).1 := by
    refine edit_kept h fun manifest node hr => ?_
    obtain ⟨hvalid, hnodeIds, hactive⟩ := LabManifest.retireDatabaseNode_ok hr
    refine manifest_inv h hvalid (fun _ => hnodeIds) fun i p _ htracked => ?_
    refine hactive _ ?_ htracked.1
    rintro rfl
    have hnone := h.closed p.command.nodeId (closing_iff.mpr (.inl ⟨t, hkilling⟩))
    rw [htracked.2.1] at hnone
    cases hnone
  refine hedit.trans ⟨?_, fun u hut => ?_⟩
  · refine { hedit.inv with closed := fun other hclosing => hedit.inv.closed other ?_ }
    rw [closing_iff] at hclosing ⊢
    exact hclosing.imp_left fun ⟨u, hu⟩ => ⟨u, List.mem_of_mem_filter hu⟩
  · refine { Rely.refl u _ with killings := fun other => ?_ }
    show (u, other) ∈ List.filter _ _ ↔ _
    rw [List.mem_filter]
    exact and_iff_left (decide_eq_true hut)

theorem markJoined_kept (h : Inv w) :
    discipline.Kept t w (exec w t (.markDatabaseNodeJoined nodeId)).1 := by
  refine edit_kept h fun manifest node hr => ?_
  obtain ⟨hvalid, hnodeIds, hactive⟩ := LabManifest.markDatabaseNodeJoined_ok hr
  exact manifest_inv h hvalid (fun _ => hnodeIds) fun i p _ htracked => hactive _ htracked.1

/-- While a node is added, nothing is being reset. -/
theorem resetting_none (h : Inv w) (hdeployment : w.deploymentLock = some t)
    (hresetting : ∀ tasks, w.resetting ≠ some (t, tasks)) : w.resetting = none := by
  cases hr : w.resetting with
  | none => rfl
  | some r =>
      obtain ⟨hlock, -⟩ := h.covered r.1 r.2 hr
      obtain rfl := Option.some.inj (hdeployment.symm.trans hlock)
      exact absurd hr (hresetting r.2)

theorem addDatabaseNode_kept {endpoint : String} (h : Inv w)
    (hdeployment : w.deploymentLock = some t)
    (hresetting : ∀ tasks, w.resetting ≠ some (t, tasks)) :
    discipline.Kept t w (exec w t (.addDatabaseNode nodeId endpoint)).1 := by
  refine edit_kept h fun manifest node hr => ?_
  obtain ⟨hmanifest, hvalid⟩ := LabManifest.addDatabaseNode_ok hr
  refine manifest_inv h hvalid (fun hr => absurd (resetting_none h hdeployment hresetting) hr)
    fun i p _ htracked => ?_
  rw [show manifest = _ from hmanifest]
  exact htracked.1.append _

/-- New children have not come to their nodes. -/
theorem spawned_append (h : Inv w) {children : List Child} {task : Nat} {child : Child}
    (hmade : w.popped task = true ∨ w.results task ≠ none)
    (hspawned : (w.spawned ++ children)[task]? = some child) : w.spawned[task]? = some child := by
  rw [List.getElem?_append_left (h.made task hmade)] at hspawned
  exact hspawned

theorem spawn_kept (h : Inv w) (children : List Child) :
    discipline.Kept t w (w.spawn children).1 := by
  have hgrow := spawn_grow w children
  refine ⟨{ h with closed := ?_, swept := ?_, covered := ?_, made := ?_ },
    fun u _ => { Rely.refl u w with }⟩
  · intro nodeId hclosing
    refine h.closed nodeId ?_
    rw [closing_iff] at hclosing ⊢
    refine hclosing.imp_right fun hswept => ?_
    obtain ⟨u, tasks, hresetting, task, htask, hpopped, hspawned⟩ := swept_iff.mp hswept
    exact swept_iff.mpr
      ⟨u, tasks, hresetting, task, htask, hpopped, spawned_append h (.inl hpopped) hspawned⟩
  · intro task nodeId hspawned hresult
    refine h.swept task nodeId (spawned_append h (.inr ?_) hspawned) hresult
    rw [show w.results task = _ from hresult]
    nofun
  · intro u tasks hresetting
    obtain ⟨hlock, hcovered⟩ := h.covered u tasks hresetting
    refine ⟨hlock, fun nodeId hnodeId => ?_⟩
    obtain ⟨task, htask, hspawned⟩ := hcovered nodeId hnodeId
    exact ⟨task, htask, hgrow.spawned hspawned⟩
  · intro task hmade
    have hlt := h.made task hmade
    show task < (w.spawned ++ children).length
    rw [List.length_append]
    omega

/-- A reset begins with a child for each node. -/
theorem createStops_kept (h : Inv w) (hdeployment : w.deploymentLock = some t) :
    discipline.Kept t w (exec w t (.createStops w.manifest.nodeIds)).1 := by
  have hspawn : discipline.Kept t w (w.spawn (w.manifest.nodeIds.map .stopNode)).1 :=
    spawn_kept h _
  refine hspawn.trans ⟨{ hspawn.inv with closed := ?_, covered := ?_ }, fun u hut =>
    { Rely.refl u _ with resetting := fun tasks => ⟨fun hu => ?_, fun hu => ?_⟩ }⟩
  · intro nodeId hclosing
    refine hspawn.inv.closed nodeId ?_
    rw [closing_iff] at hclosing ⊢
    refine hclosing.imp_right fun hswept => ?_
    obtain ⟨u, tasks, hresetting, task, htask, hpopped, -⟩ := swept_iff.mp hswept
    obtain ⟨-, rfl⟩ := Prod.mk.inj (Option.some.inj hresetting)
    obtain ⟨i, -, rfl⟩ := List.mem_map.mp htask
    have hlt := h.made _ (.inl hpopped)
    omega
  · rintro u tasks hresetting
    obtain ⟨rfl, rfl⟩ := Prod.mk.inj (Option.some.inj hresetting)
    refine ⟨hdeployment, fun nodeId (hnodeId : nodeId ∈ w.manifest.nodeIds) => ?_⟩
    obtain ⟨i, hi⟩ := List.mem_iff_getElem?.mp hnodeId
    have hlt : i < w.manifest.nodeIds.length := (List.getElem?_eq_some_iff.mp hi).1
    refine ⟨w.spawned.length + i, List.mem_map.mpr ⟨i, ?_, rfl⟩, ?_⟩
    · rw [List.length_map]
      exact List.mem_range.mpr hlt
    · show (w.spawned ++ w.manifest.nodeIds.map Child.stopNode)[w.spawned.length + i]? = _
      rw [List.getElem?_append_right (by omega), Nat.add_sub_cancel_left, List.getElem?_map, hi]
      rfl
  · exact absurd (Prod.mk.inj (Option.some.inj hu)).1.symm hut
  · obtain ⟨hlock, -⟩ := h.covered u tasks hu
    exact absurd (Option.some.inj (hlock.symm.trans hdeployment)) hut

/-- When every node of the manifest is closing, nothing is tracked. -/
theorem not_tracked (h : Inv w)
    (hclosing : ∀ nodeId ∈ w.manifest.nodeIds, w.closing nodeId = true) {process : Nat}
    {p : Process} : ¬w.Tracked process p := by
  rintro ⟨hactive, hlisted, -⟩
  rw [h.closed _ (hclosing _ hactive.mem)] at hlisted
  cases hlisted

theorem clearProcesses_kept (h : Inv w)
    (hclosing : ∀ nodeId ∈ w.manifest.nodeIds, w.closing nodeId = true) :
    discipline.Kept t w { w with processes := fun _ => none } := by
  refine ⟨{ h with live := ?_, closed := fun _ _ => rfl, listed := nofun }, fun u _ =>
    { Rely.refl u w with lock := fun hu => ⟨hu, nofun⟩ }⟩
  intro i p hp halive
  exact .inr ((h.live i p hp halive).resolve_left (not_tracked h hclosing))

theorem setNodes_kept (h : Inv w) {replacement : LabManifest}
    (hclosing : ∀ nodeId ∈ w.manifest.nodeIds, w.closing nodeId = true)
    (hvalid : replacement.validated = .ok replacement) {tasks : List Nat}
    (hresetting : w.resetting = some (t, tasks)) :
    discipline.Kept t w (exec w t (.setNodes replacement)).1 := by
  refine ⟨{ h with valid := hvalid, live := ?_, closed := ?_, covered := nofun }, fun u hut =>
    { Rely.refl u w with resetting := fun others => ⟨nofun, fun hu => ?_⟩ }⟩
  · intro i p hp halive
    exact .inr ((h.live i p hp halive).resolve_left (not_tracked h hclosing))
  · intro nodeId hnodeId
    refine h.closed nodeId ?_
    rw [closing_iff] at hnodeId ⊢
    refine hnodeId.imp_right fun hswept => ?_
    obtain ⟨_, _, hnone, -⟩ := swept_iff.mp hswept
    cases hnone
  · rw [hresetting] at hu
    exact absurd (Prod.mk.inj (Option.some.inj hu)).1.symm hut

theorem deploymentLock_kept (h : Inv w) (hlock : w.deploymentLock = none) :
    discipline.Kept t w { w with deploymentLock := some t } := by
  refine ⟨{ h with covered := ?_ }, fun u _ => { Rely.refl u w with deployment := fun hu => ?_ }⟩
  · intro u tasks hresetting
    obtain ⟨hu, -⟩ := h.covered u tasks hresetting
    rw [hlock] at hu
    cases hu
  · rw [hlock] at hu
    cases hu

theorem releaseDeployment_kept (h : Inv w) (hlock : w.deploymentLock = some t) :
    discipline.Kept t w (exec w t .releaseDeployment).1 := by
  refine ⟨{ h with closed := ?_, covered := nofun }, fun u hut => { Rely.refl u w with
    resetting := fun tasks => ⟨nofun, fun hu => ?_⟩, deployment := fun hu => ?_ }⟩
  · intro nodeId hnodeId
    refine h.closed nodeId ?_
    rw [closing_iff] at hnodeId ⊢
    refine hnodeId.imp_right fun hswept => ?_
    obtain ⟨_, _, hnone, -⟩ := swept_iff.mp hswept
    cases hnone
  · obtain ⟨hu, -⟩ := h.covered u tasks hu
    exact absurd (Option.some.inj (hu.symm.trans hlock)) hut
  · exact absurd (Option.some.inj (hu.symm.trans hlock)) hut

/-! ## What the scheduler keeps -/

theorem start_kept {p : Co Unit} (h : Inv w) (hs : start w t c = some (w', p)) :
    discipline.Kept t w w' ∧ Grow w w' ∧ w'.calls t = some c ∧ w'.holds t = none := by
  have hbegin : ∀ started, w.calls t = none →
      discipline.Kept t w { w.begin t c with started := started } ∧
      Grow w { w.begin t c with started := started } ∧
      (w.begin t c).calls t = some c ∧ (w.begin t c).holds t = none := by
    intro started hnone
    refine ⟨⟨{ h with idle := fun u hu => h.idle u ?_ }, fun u hut => { Rely.refl u w with
      calls := Function.update_of_ne hut _ _ }⟩, .of_eq rfl rfl rfl, Function.update_self ..,
      h.idle t hnone⟩
    by_cases hut : u = t
    · rw [hut]
      exact hnone
    · change Function.update w.calls t (some c) u = none at hu
      rwa [Function.update_of_ne hut] at hu
  unfold start at hs
  split at hs
  · cases hs
  next hnone =>
    split at hs
    · split at hs
      · cases hs
      · split at hs
        · cases hs
        · cases hs
          exact hbegin _ hnone
    · cases hs
      exact hbegin w.started hnone

/-- A task that ends has no process in hand that runs. -/
theorem finish_kept {r : Except Error Unit} (h : Inv w)
    (hover : ∀ process, w.holds t = some process → w.Ended process)
    (hchild : ∀ task, c = .child task → ∃ child, w.spawned[task]? = some child ∧
      ∀ nodeId, child = .stopNode nodeId → r = .ok () → w.popped task = true) :
    discipline.Kept t w (finish w t c r) := by
  have hended : discipline.Kept t w (w.ended t) := by
    refine ⟨{ h with live := ?_, idle := ?_ }, fun u hut => { Rely.refl u w with
      calls := Function.update_of_ne hut _ _, holds := Function.update_of_ne hut _ _ }⟩
    · intro i p hp halive
      refine (h.live i p hp halive).imp_right fun ⟨u, hu⟩ => ⟨u, ?_⟩
      have hut : u ≠ t := by
        rintro rfl
        obtain ⟨q, hq, hended⟩ := hover i hu
        rw [Option.some.inj (hq.symm.trans hp), halive] at hended
        cases hended
      exact (Function.update_of_ne hut _ _).trans hu
    · intro u hu
      by_cases hut : u = t
      · rw [hut]
        exact Function.update_self ..
      · refine (Function.update_of_ne hut _ _).trans (h.idle u ?_)
        exact (Function.update_of_ne hut _ _).symm.trans hu
  cases c with
  | child task =>
      obtain ⟨child, hspawned, hpopped⟩ := hchild task rfl
      refine hended.trans ⟨{ hended.inv with swept := ?_, made := ?_ },
        fun u _ => { Rely.refl u _ with }⟩
      · intro i nodeId hstop hresult
        by_cases heq : i = task
        · subst heq
          change Function.update w.results i (some r) i = some (.ok ()) at hresult
          rw [Function.update_self] at hresult
          exact hpopped nodeId (Option.some.inj (hspawned.symm.trans hstop))
            (Option.some.inj hresult)
        · exact h.swept i nodeId hstop ((Function.update_of_ne heq _ _).symm.trans hresult)
      · rintro i (hi | hi)
        · exact h.made i (.inl hi)
        · by_cases heq : i = task
          · rw [heq]
            exact (List.getElem?_eq_some_iff.mp hspawned).1
          · refine h.made i (.inr fun hnone => hi ?_)
            exact (Function.update_of_ne heq _ _).trans hnone
  | _ => exact hended

theorem disturb_kept {d : Disturbance} (h : Inv w) (hs : disturb w d = some w') :
    Inv w' ∧ Grow w w' ∧ ∀ u, Rely u w w' := by
  obtain ⟨process⟩ := d
  simp only [disturb] at hs
  split at hs
  · obtain ⟨-, heq⟩ := Option.ite_none_right_eq_some.mp hs
    obtain rfl := Option.some.inj heq
    have hkept : discipline.Kept 0 w { w with launched := w.launched.modify process .exited } :=
      modify_kept h exited_command not_alive_exited
    exact ⟨hkept.inv, .modify exited_command not_alive_exited rfl rfl rfl,
      fun u => { Rely.refl u w with }⟩
  · cases hs

end Kept

end DelosLab.Controller.Supervisor
