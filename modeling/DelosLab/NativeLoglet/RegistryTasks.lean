import DelosLab.Async.Shape
import DelosLab.NativeLoglet.Registry

/-!
# The append tasks of a registry

A segment has one task of `_run_append` that has not ended, and it is the pending one. So
nobody else assigns entries of the segment while it runs, and what it ends with is about its own
command.
-/

namespace DelosLab.NativeLoglet.Registry

open Async Async.Runtime Async.Coroutine
open VirtualLog (Bytes)

/-! ## What holds between the steps -/

namespace World

/-- What the sequencer of a segment has assigned. -/
def entries (w : World) (segmentId : String) : List LogEntry :=
  (w.sequencer segmentId).entriesByCommand

def Assigned (w : World) (segmentId commandId : String) (payload : Bytes) (position : Nat) :
    Prop :=
  ∃ e ∈ w.entries segmentId, e.commandId = commandId ∧ e.payload = payload ∧ e.position = position

/-- Somebody has asked for `commandId` with another payload. -/
def InUse (w : World) (segmentId commandId : String) (payload : Bytes) : Prop :=
  ∃ spawn ∈ w.spawned, spawn.segment.segmentId = segmentId ∧ spawn.commandId = commandId ∧
    spawn.payload ≠ payload

/-- The command is not assigned with another payload. -/
def Clean (w : World) (segmentId commandId : String) (payload : Bytes) : Prop :=
  ∀ e ∈ w.entries segmentId, e.commandId = commandId → e.payload = payload

/-- The task has not ended with a conflict, and will not. -/
def Fine (w : World) (task : Nat) : Prop :=
  ∃ spawn, w.spawned[task]? = some spawn ∧
    (∀ message, w.results task ≠ some (.error (.entryConflict message))) ∧
    (w.results task = none → w.Clean spawn.segment.segmentId spawn.commandId spawn.payload)

end World

/-- The command of `spawn` is assigned with another payload. -/
def Spawn.Conflicts (spawn : Spawn) (w : World) : Prop :=
  ∃ payload position, payload ≠ spawn.payload ∧
    w.Assigned spawn.segment.segmentId spawn.commandId payload position

/-- What the end of a task tells. -/
structure Spawn.Ended (spawn : Spawn) (w : World) (result : Except Error AppendResult) : Prop where
  ok : ∀ r, result = .ok r →
    w.Assigned spawn.segment.segmentId spawn.commandId spawn.payload r.position
  conflict : ∀ message, result = .error (.entryConflict message) →
    message = spawn.commandId ∧ spawn.Conflicts w

/-- What the end of a call tells. -/
structure Return.Own (r : Return) (w : World) : Prop where
  ok : ∀ result, r.result = .ok result →
    w.Assigned r.segment.segmentId r.commandId r.payload result.position
  conflict : ∀ message, r.result = .error (.entryConflict message) →
    message = r.commandId ∧ w.InUse r.segment.segmentId r.commandId r.payload

structure Inv (w : World) : Prop where
  commands : ∀ segmentId, ((w.entries segmentId).map LogEntry.commandId).Nodup
  users : ∀ segmentId, ∀ e ∈ w.entries segmentId, ∃ spawn ∈ w.spawned,
    spawn.segment.segmentId = segmentId ∧ spawn.commandId = e.commandId ∧
      spawn.payload = e.payload
  made : ∀ spawn ∈ w.spawned, (w.sequencers spawn.segment.segmentId).isSome
  ended : ∀ task spawn result, w.spawned[task]? = some spawn → w.results task = some result →
    spawn.Ended w result
  pending : ∀ segmentId (p : PendingAppend), w.pending segmentId = some p →
    (∃ spawn, w.spawned[p.task]? = some spawn ∧ spawn.segment.segmentId = segmentId ∧
      spawn.commandId = p.commandId ∧ spawn.payload = p.payload) ∧
    ∀ result, w.results p.task = some result → result = .error .cancelled
  alone : ∀ (task : Nat) spawn, w.spawned[task]? = some spawn → w.results task = none →
    ∃ p, w.pending spawn.segment.segmentId = some p ∧ p.task = task
  unborn : ∀ task, w.spawned.length ≤ task →
    w.results task = none ∧ w.started task = none ∧ w.cancelled task = false
  returned : ∀ r ∈ w.returned, r.Own w

/-- Entries and tasks stay. -/
structure Grow (w w' : World) : Prop where
  spawned : w.spawned <+: w'.spawned
  entries : ∀ segmentId, w.entries segmentId <+: w'.entries segmentId
  made : ∀ segmentId, (w.sequencers segmentId).isSome → (w'.sequencers segmentId).isSome

/-- What task `t` relies on: its own task of `_run_append`, a sequencer whose lock it holds,
and the tasks that are fine. -/
structure Rely (t : TaskId) (w w' : World) : Prop where
  own : ∀ task, w.started task = some t →
    w'.started task = some t ∧ w'.results task = w.results task
  locked : ∀ segmentId, (w.sequencer segmentId).holder = some t →
    w'.sequencer segmentId = w.sequencer segmentId
  fine : ∀ task, w.Fine task → w'.Fine task

theorem Grow.refl (w : World) : Grow w w :=
  ⟨List.prefix_refl _, fun _ => List.prefix_refl _, fun _ h => h⟩

theorem Grow.trans {w₁ w₂ w₃ : World} (h : Grow w₁ w₂) (h' : Grow w₂ w₃) : Grow w₁ w₃ :=
  ⟨h.spawned.trans h'.spawned, fun s => (h.entries s).trans (h'.entries s),
    fun s hs => h'.made s (h.made s hs)⟩

theorem Rely.refl (t : TaskId) (w : World) : Rely t w w :=
  ⟨fun _ h => ⟨h, rfl⟩, fun _ _ => rfl, fun _ h => h⟩

theorem Rely.trans {t : TaskId} {w₁ w₂ w₃ : World} (h : Rely t w₁ w₂) (h' : Rely t w₂ w₃) :
    Rely t w₁ w₃ := by
  refine ⟨fun task ht => ?_, fun s hs => ?_, fun task hf => h'.fine task (h.fine task hf)⟩
  · obtain ⟨hstarted, hsame⟩ := h.own task ht
    obtain ⟨hstarted', hsame'⟩ := h'.own task hstarted
    exact ⟨hstarted', hsame'.trans hsame⟩
  · have hsame := h.locked s hs
    rw [← hsame] at hs
    exact (h'.locked s hs).trans hsame

theorem World.Assigned.grow {w w' : World} (hg : Grow w w') {segmentId commandId : String}
    {payload : Bytes} {position : Nat} (h : w.Assigned segmentId commandId payload position) :
    w'.Assigned segmentId commandId payload position := by
  obtain ⟨e, he, hentry⟩ := h
  exact ⟨e, (hg.entries segmentId).subset he, hentry⟩

theorem World.InUse.grow {w w' : World} (hg : Grow w w') {segmentId commandId : String}
    {payload : Bytes} (h : w.InUse segmentId commandId payload) :
    w'.InUse segmentId commandId payload := by
  obtain ⟨spawn, hmem, hspawn⟩ := h
  exact ⟨spawn, hg.spawned.subset hmem, hspawn⟩

theorem Spawn.Conflicts.grow {w w' : World} (hg : Grow w w') {spawn : Spawn}
    (h : spawn.Conflicts w) : spawn.Conflicts w' := by
  obtain ⟨payload, position, hne, hassigned⟩ := h
  exact ⟨payload, position, hne, hassigned.grow hg⟩

theorem Spawn.Ended.grow {w w' : World} (hg : Grow w w') {spawn : Spawn}
    {result : Except Error AppendResult} (h : spawn.Ended w result) : spawn.Ended w' result :=
  ⟨fun r hr => (h.ok r hr).grow hg,
    fun message hm => ⟨(h.conflict message hm).1, (h.conflict message hm).2.grow hg⟩⟩

theorem Return.Own.grow {w w' : World} (hg : Grow w w') {r : Return} (h : r.Own w) : r.Own w' :=
  ⟨fun result hr => (h.ok result hr).grow hg,
    fun message hm => ⟨(h.conflict message hm).1, (h.conflict message hm).2.grow hg⟩⟩

theorem Grow.spawn {w w' : World} (hg : Grow w w') {task : Nat} {spawn : Spawn}
    (h : w.spawned[task]? = some spawn) : w'.spawned[task]? = some spawn := by
  obtain ⟨tail, htail⟩ := hg.spawned
  rw [← htail, List.getElem?_append_left (List.getElem?_eq_some_iff.mp h).1]
  exact h

/-! ## Sequencers -/

theorem World.sequencer_update (w : World) (segmentId : String) (made : Segment × NativeSequencer)
    (segmentId' : String) :
    World.sequencer { w with sequencers := Function.update w.sequencers segmentId (some made) }
      segmentId' = if segmentId' = segmentId then made.2 else w.sequencer segmentId' := by
  unfold World.sequencer
  by_cases heq : segmentId' = segmentId
  · subst heq
    simp only [Function.update_self, if_true]
  · simp only [Function.update_of_ne heq, if_neg heq]

theorem World.sequencer_setSequencer {w : World} {segmentId : String}
    (h : (w.sequencers segmentId).isSome) (s : NativeSequencer) (segmentId' : String) :
    (w.setSequencer segmentId s).sequencer segmentId' =
      if segmentId' = segmentId then s else w.sequencer segmentId' := by
  obtain ⟨⟨segment, s₀⟩, hs⟩ := Option.isSome_iff_exists.mp h
  rw [World.setSequencer, hs]
  exact w.sequencer_update segmentId (segment, s) segmentId'

theorem World.setSequencer_of_none {w : World} {segmentId : String}
    (h : w.sequencers segmentId = none) (s : NativeSequencer) :
    w.setSequencer segmentId s = w := by
  rw [World.setSequencer, h]

/-- A change of a sequencer is a change of the sequencers. -/
theorem World.setSequencer_eq (w : World) (segmentId : String) (s : NativeSequencer) :
    ∃ sequencers, w.setSequencer segmentId s = { w with sequencers := sequencers } := by
  cases h : w.sequencers segmentId with
  | none => exact ⟨w.sequencers, by rw [World.setSequencer, h]⟩
  | some found => exact ⟨_, by rw [World.setSequencer, h]⟩

theorem World.made_setSequencer (w : World) (segmentId : String) (s : NativeSequencer)
    (segmentId' : String) (h : (w.sequencers segmentId').isSome) :
    ((w.setSequencer segmentId s).sequencers segmentId').isSome := by
  cases hseq : w.sequencers segmentId with
  | none =>
      rw [World.setSequencer_of_none hseq]
      exact h
  | some found =>
      rw [World.setSequencer, hseq]
      show (Function.update w.sequencers segmentId _ segmentId').isSome
      by_cases heq : segmentId' = segmentId
      · rw [heq, Function.update_self]
        rfl
      · rw [Function.update_of_ne heq]
        exact h

/-- Nothing changes but sequencers, and those keep their entries. -/
structure Same (w w' : World) : Prop where
  spawned : w'.spawned = w.spawned
  started : w'.started = w.started
  results : w'.results = w.results
  pending : w'.pending = w.pending
  cancelled : w'.cancelled = w.cancelled
  returned : w'.returned = w.returned
  entries : ∀ segmentId, w'.entries segmentId = w.entries segmentId
  made : ∀ segmentId, (w.sequencers segmentId).isSome → (w'.sequencers segmentId).isSome

theorem Same.grow {w w' : World} (h : Same w w') : Grow w w' :=
  ⟨h.spawned ▸ List.prefix_refl _, fun s => h.entries s ▸ List.prefix_refl _, h.made⟩

theorem Same.fine {w w' : World} (h : Same w w') {task : Nat} (hf : w.Fine task) :
    w'.Fine task := by
  obtain ⟨spawn, hspawn, hresult, hclean⟩ := hf
  refine ⟨spawn, h.spawned ▸ hspawn, h.results ▸ hresult, fun hnone e he => ?_⟩
  rw [h.entries] at he
  rw [h.results] at hnone
  exact hclean hnone e he

theorem Same.inv {w w' : World} (h : Same w w') (hi : Inv w) : Inv w' := by
  refine ⟨fun s => ?_, fun s e he => ?_, fun spawn hm => ?_, fun task spawn r hs hr => ?_,
    fun s p hp => ?_, fun task spawn hs hr => ?_, fun task hle => ?_, fun r hr => ?_⟩
  · rw [h.entries]
    exact hi.commands s
  · rw [h.entries] at he
    rw [h.spawned]
    exact hi.users s e he
  · rw [h.spawned] at hm
    exact h.made _ (hi.made spawn hm)
  · rw [h.spawned] at hs
    rw [h.results] at hr
    exact (hi.ended task spawn r hs hr).grow h.grow
  · rw [h.pending] at hp
    rw [h.spawned, h.results]
    exact hi.pending s p hp
  · rw [h.spawned] at hs
    rw [h.results] at hr
    rw [h.pending]
    exact hi.alone task spawn hs hr
  · rw [h.spawned] at hle
    rw [h.results, h.started, h.cancelled]
    exact hi.unborn task hle
  · rw [h.returned] at hr
    exact (hi.returned r hr).grow h.grow

/-- A sequencer that keeps its entries. -/
theorem World.same_setSequencer (w : World) {segmentId : String} {s : NativeSequencer}
    (h : s.entriesByCommand = w.entries segmentId) : Same w (w.setSequencer segmentId s) := by
  have hentries : ∀ segmentId',
      (w.setSequencer segmentId s).entries segmentId' = w.entries segmentId' := by
    intro segmentId'
    cases hseq : w.sequencers segmentId with
    | none => rw [World.setSequencer_of_none hseq]
    | some found =>
        have hmade : (w.sequencers segmentId).isSome := Option.isSome_iff_exists.mpr ⟨_, hseq⟩
        rw [World.entries, World.sequencer_setSequencer hmade]
        split
        · next heq => rw [heq, h]
        · rfl
  have hmade := w.made_setSequencer segmentId s
  obtain ⟨sequencers, heq⟩ := w.setSequencer_eq segmentId s
  rw [heq] at hentries hmade ⊢
  exact ⟨rfl, rfl, rfl, rfl, rfl, rfl, hentries, hmade⟩

/-- What an act does to the entries of its sequencer. -/
theorem entries_execSequencer (segmentId : String) (s : NativeSequencer) (a : NativeLoglet.Act) :
    s.entriesByCommand <+: (execSequencer segmentId s a).1.entriesByCommand := by
  cases a with
  | assign commandId payload => exact List.prefix_append _ _
  | _ => exact List.prefix_refl _

theorem World.grow_setSequencer (w : World) {segmentId : String} {s : NativeSequencer}
    (h : w.entries segmentId <+: s.entriesByCommand) : Grow w (w.setSequencer segmentId s) := by
  have hspawned : (w.setSequencer segmentId s).spawned = w.spawned := by
    obtain ⟨sequencers, heq⟩ := w.setSequencer_eq segmentId s
    rw [heq]
  refine ⟨hspawned ▸ List.prefix_refl _, fun segmentId' => ?_,
    w.made_setSequencer segmentId s⟩
  cases hseq : w.sequencers segmentId with
  | none =>
      have hsame : (w.setSequencer segmentId s).entries segmentId' = w.entries segmentId' := by
        rw [World.setSequencer_of_none hseq]
      exact hsame ▸ List.prefix_refl _
  | some found =>
      have hmade : (w.sequencers segmentId).isSome := Option.isSome_iff_exists.mpr ⟨_, hseq⟩
      rw [World.entries, World.entries, World.sequencer_setSequencer hmade]
      split
      · next heq =>
          rw [heq]
          exact h
      · exact List.prefix_refl _

/-- A sequencer that was just made is what was there for none. -/
theorem World.sequencer_create (w : World) (segment : Segment) (segmentId : String) :
    (w.create segment).sequencer segmentId = w.sequencer segmentId := by
  rw [World.create]
  split
  · rfl
  · next hnone =>
      rw [World.sequencer_update]
      by_cases heq : segmentId = segment.segmentId
      · rw [if_pos heq, heq, World.sequencer, hnone]
      · rw [if_neg heq]

theorem World.create_eq (w : World) (segment : Segment) :
    ∃ sequencers, w.create segment = { w with sequencers := sequencers } := by
  rw [World.create]
  split
  · exact ⟨w.sequencers, rfl⟩
  · exact ⟨_, rfl⟩

theorem World.same_create (w : World) (segment : Segment) : Same w (w.create segment) := by
  have hentries := fun segmentId =>
    congrArg NativeSequencer.entriesByCommand (w.sequencer_create segment segmentId)
  have hmade : ∀ segmentId, (w.sequencers segmentId).isSome →
      ((w.create segment).sequencers segmentId).isSome := by
    intro segmentId h
    rw [World.create]
    split
    · exact h
    · show (Function.update w.sequencers segment.segmentId _ segmentId).isSome
      by_cases heq : segmentId = segment.segmentId
      · rw [heq, Function.update_self]
        rfl
      · rw [Function.update_of_ne heq]
        exact h
  obtain ⟨sequencers, heq⟩ := w.create_eq segment
  rw [heq] at hentries hmade ⊢
  exact ⟨rfl, rfl, rfl, rfl, rfl, rfl, hentries, hmade⟩

theorem World.made_create (w : World) (segment : Segment) :
    ((w.create segment).sequencers segment.segmentId).isSome := by
  rw [World.create]
  split
  · next heq => exact Option.isSome_iff_exists.mpr ⟨_, heq⟩
  · show (Function.update w.sequencers segment.segmentId _ segment.segmentId).isSome
    rw [Function.update_self]
    rfl

/-! ## What the tasks owe each other -/

theorem exec_grow (w : World) (t : TaskId) (a : Act) : Grow w (exec w t a).1 := by
  cases a with
  | create segment => exact (w.same_create segment).grow
  | createTask segment commandId payload turns =>
      exact ⟨List.prefix_append _ _, fun _ => List.prefix_refl _, fun _ h => h⟩
  | sequencer segmentId a =>
      exact w.grow_setSequencer (entries_execSequencer segmentId (w.sequencer segmentId) a)
  | closed => exact .refl w
  | segment segmentId => exact .refl w
  | knownTail segmentId => exact .refl w
  | pending segmentId => exact .refl w
  | leave segmentId task result =>
      exact ⟨List.prefix_refl _, fun _ => List.prefix_refl _, fun _ h => h⟩
  | close => exact ⟨List.prefix_refl _, fun _ => List.prefix_refl _, fun _ h => h⟩

/-- What the end of a wait does. -/
theorem resume_cases {w w' : World} {t : TaskId} {e : Wait} {x : Choice}
    {r : Except Error (WaitResult e)} (h : resume w t e x = some (w', r)) :
    (w' = w ∧ ∀ err, r = .error err → err = .cancelled ∨ ∃ task, e = .join task ∧
      w.results task = some (.error err)) ∨
    ∃ segmentId, e = .sequencer segmentId .acquire ∧ (w.sequencer segmentId).holder = none ∧
      w' = w.setSequencer segmentId { w.sequencer segmentId with holder := some t } ∧
      ∀ err, r ≠ .error err := by
  unfold resume at h
  split at h
  · split at h
    · cases h
      refine .inl ⟨rfl, fun err herr => ?_⟩
      cases herr
      exact .inl rfl
    · cases h
  · next task =>
      obtain ⟨result, hresult, heq⟩ := Option.map_eq_some_iff.mp h
      cases heq
      refine .inl ⟨rfl, fun err herr => .inr ⟨task, rfl, ?_⟩⟩
      rw [hresult, herr]
  · split at h
    · cases h
      exact .inl ⟨rfl, nofun⟩
    · cases h
  · next segmentId =>
      simp only at h
      split at h
      · next hfree =>
          cases h
          exact .inr ⟨segmentId, rfl, hfree, rfl, nofun⟩
      · cases h
  · cases h
    exact .inl ⟨rfl, nofun⟩
  · cases h
    exact .inl ⟨rfl, nofun⟩
  · cases h

theorem resume_same {w w' : World} {t : TaskId} {e : Wait} {x : Choice}
    {r : Except Error (WaitResult e)} (h : resume w t e x = some (w', r)) : Same w w' := by
  rcases resume_cases h with ⟨rfl, -⟩ | ⟨segmentId, -, -, rfl, -⟩
  · exact ⟨rfl, rfl, rfl, rfl, rfl, rfl, fun _ => rfl, fun _ h => h⟩
  · exact w.same_setSequencer rfl

theorem finish_grow (w : World) (c : Call) (o : Except Error Outcome) : Grow w (finish w c o) := by
  unfold finish
  split <;> exact ⟨List.prefix_refl _, fun _ => List.prefix_refl _, fun _ h => h⟩

variable {self : LogServerSequencerRegistry}
  {C : Condition signature World TaskId Call Choice} {t : TaskId} {c : Call} {α : Type}

def discipline (self : LogServerSequencerRegistry)
    (C : Condition signature World TaskId Call Choice) : Discipline (runtime self) C where
  Inv := Inv
  Grow := Grow
  Rely := Rely
  grow_refl := Grow.refl
  grow_trans := Grow.trans
  rely_refl := Rely.refl
  rely_trans := Rely.trans
  exec_grow := exec_grow
  resume_grow := fun h => (resume_same h).grow
  finish_grow := fun w _ c o => finish_grow w c o

/-- A change that keeps entries, tasks and every lock of another task. -/
theorem Same.kept {w w' : World} (h : Same w w') (hi : Inv w)
    (hlocked : ∀ u, u ≠ t → ∀ segmentId, (w.sequencer segmentId).holder = some u →
      w'.sequencer segmentId = w.sequencer segmentId) :
    (discipline self C).Kept t w w' := by
  refine ⟨h.inv hi, fun u hu => ⟨fun task ht => ?_, hlocked u hu, fun task => h.fine⟩⟩
  rw [h.started, h.results]
  exact ⟨ht, rfl⟩

/-- `t` changes a sequencer that is free or that it has locked. -/
theorem kept_setSequencer {w : World} (hi : Inv w) {segmentId : String} {s : NativeSequencer}
    (hmade : (w.sequencers segmentId).isSome)
    (hholder : ∀ u, (w.sequencer segmentId).holder = some u → u = t)
    (hs : s.entriesByCommand = w.entries segmentId) :
    (discipline self C).Kept t w (w.setSequencer segmentId s) := by
  refine (w.same_setSequencer hs).kept hi fun u hu segmentId' hlocked => ?_
  rw [World.sequencer_setSequencer hmade]
  split
  · next heq =>
      rw [heq] at hlocked
      exact absurd (hholder u hlocked) hu
  · rfl

/-! ## Inside a sequencer -/

/-- `t` is the task of `_run_append` with this number. -/
structure Runs (t : TaskId) (task : Nat) (spawn : Spawn) (w : World) : Prop where
  spawned : w.spawned[task]? = some spawn
  started : w.started task = some t
  running : w.results task = none

/-- It holds the lock of its sequencer, whose entries satisfy `K`. -/
structure Inside (t : TaskId) (task : Nat) (spawn : Spawn) (K : List LogEntry → Prop)
    (w : World) : Prop where
  runs : Runs t task spawn w
  held : (w.sequencer spawn.segment.segmentId).holder = some t
  entries : K (w.entries spawn.segment.segmentId)

variable {task : Nat} {spawn : Spawn} {K : List LogEntry → Prop}

theorem lasting_runs : (discipline self C).Lasting t (Runs t task spawn) := by
  intro w w' hg hr h
  have hg : Grow w w' := hg
  have hr : Rely t w w' := hr
  obtain ⟨hstarted, hsame⟩ := hr.own task h.started
  exact ⟨hg.spawn h.spawned, hstarted, hsame.trans h.running⟩

theorem lasting_inside : (discipline self C).Lasting t (Inside t task spawn K) := by
  intro w w' hg hr h
  have hsame : w'.sequencer spawn.segment.segmentId = w.sequencer spawn.segment.segmentId :=
    Rely.locked hr _ h.held
  refine ⟨lasting_runs w w' hg hr h.runs, ?_, ?_⟩
  · rw [hsame]
    exact h.held
  · rw [World.entries, hsame]
    exact h.entries

theorem Runs.made {w : World} (h : Runs t task spawn w) (hi : Inv w) :
    (w.sequencers spawn.segment.segmentId).isSome :=
  hi.made spawn (List.mem_of_getElem? h.spawned)

/-- A change of the sequencer that `t` has locked. -/
theorem Inside.setSequencer {w : World} (h : Inside t task spawn K w) (hi : Inv w)
    {s : NativeSequencer} (hs : s.entriesByCommand = w.entries spawn.segment.segmentId) :
    (discipline self C).Kept t w (w.setSequencer spawn.segment.segmentId s) := by
  refine kept_setSequencer hi (h.runs.made hi) (fun u hu => ?_) hs
  rw [h.held] at hu
  exact (Option.some.inj hu).symm

theorem Runs.setSequencer {w : World} (h : Runs t task spawn w) (segmentId : String)
    (s : NativeSequencer) : Runs t task spawn (w.setSequencer segmentId s) := by
  obtain ⟨sequencers, heq⟩ := w.setSequencer_eq segmentId s
  rw [heq]
  exact ⟨h.spawned, h.started, h.running⟩

/-- The acts of a sequencer that leave its entries and its lock alone. -/
def Plain : NativeLoglet.Act → Prop
  | .assign _ _ => False
  | .release => False
  | _ => True

theorem execSequencer_plain (segmentId : String) (s : NativeSequencer) {a : NativeLoglet.Act}
    (ha : Plain a) : (execSequencer segmentId s a).1.entriesByCommand = s.entriesByCommand ∧
      (execSequencer segmentId s a).1.holder = s.holder := by
  cases a with
  | assign commandId payload => exact False.elim ha
  | release => exact False.elim ha
  | _ => exact ⟨rfl, rfl⟩

/-- A plain act keeps the discipline, and what `t` knows. -/
theorem Inside.plain {w : World} (h : Inside t task spawn K w) (hi : Inv w)
    {a : NativeLoglet.Act} (ha : Plain a) :
    let w' := (exec w t (.sequencer spawn.segment.segmentId a)).1
    (discipline self C).Kept t w w' ∧ Inside t task spawn K w' ∧
      w'.entries spawn.segment.segmentId = w.entries spawn.segment.segmentId := by
  obtain ⟨hentries, hholder⟩ := execSequencer_plain spawn.segment.segmentId
    (w.sequencer spawn.segment.segmentId) ha
  have hsame := World.sequencer_setSequencer (h.runs.made hi)
    (execSequencer spawn.segment.segmentId (w.sequencer spawn.segment.segmentId) a).1
    spawn.segment.segmentId
  rw [if_pos rfl] at hsame
  have hkept : (w.setSequencer spawn.segment.segmentId (execSequencer spawn.segment.segmentId
      (w.sequencer spawn.segment.segmentId) a).1).entries spawn.segment.segmentId =
        w.entries spawn.segment.segmentId := by
    rw [World.entries, hsame, hentries]
    rfl
  refine ⟨h.setSequencer hi hentries, ⟨h.runs.setSequencer _ _, ?_, ?_⟩, hkept⟩
  · show ((w.setSequencer _ _).sequencer _).holder = some t
    rw [hsame, hholder]
    exact h.held
  · show K ((w.setSequencer _ _).entries _)
    rw [hkept]
    exact h.entries

theorem plain_spec {a : NativeLoglet.Act} (ha : Plain a) {X : World → Error → Prop} :
    (discipline self C).Triple t c (Inside t task spawn K)
      (act (.sequencer spawn.segment.segmentId a)) (fun w _ => Inside t task spawn K w) X := by
  refine .act fun w hi h => ?_
  obtain ⟨hkept, hinside, -⟩ := h.plain hi ha
  exact ⟨hkept, hinside⟩

/-- What the sequencer tells of itself. -/
theorem sequencer_spec {X : World → Error → Prop} :
    (discipline self C).Triple t c (Inside t task spawn K)
      (act (.sequencer spawn.segment.segmentId .sequencer))
      (fun w s => Inside t task spawn K w ∧
        s.entriesByCommand = w.entries spawn.segment.segmentId) X := by
  refine .act fun w hi h => ?_
  obtain ⟨hkept, hinside, hentries⟩ := h.plain hi (a := .sequencer) trivial
  exact ⟨hkept, hinside, hentries.symm⟩

/-- The sequencer of a segment assigns `entry`. -/
structure Adds (w w' : World) (segmentId : String) (entry : LogEntry) : Prop where
  spawned : w'.spawned = w.spawned
  started : w'.started = w.started
  results : w'.results = w.results
  pending : w'.pending = w.pending
  cancelled : w'.cancelled = w.cancelled
  returned : w'.returned = w.returned
  entries : ∀ s, w'.entries s =
    if s = segmentId then w.entries segmentId ++ [entry] else w.entries s
  made : ∀ s, (w.sequencers s).isSome → (w'.sequencers s).isSome

theorem Adds.grow {w w' : World} {segmentId : String} {entry : LogEntry}
    (h : Adds w w' segmentId entry) : Grow w w' := by
  refine ⟨h.spawned ▸ List.prefix_refl _, fun s => ?_, h.made⟩
  rw [h.entries]
  split
  · next heq =>
      rw [heq]
      exact List.prefix_append _ _
  · exact List.prefix_refl _

/-- A new command, assigned for a task. -/
theorem Adds.inv {w w' : World} {segmentId : String} {entry : LogEntry}
    (h : Adds w w' segmentId entry) (hi : Inv w)
    (hfresh : ∀ e ∈ w.entries segmentId, e.commandId ≠ entry.commandId)
    (huser : ∃ spawn ∈ w.spawned, spawn.segment.segmentId = segmentId ∧
      spawn.commandId = entry.commandId ∧ spawn.payload = entry.payload) : Inv w' := by
  refine ⟨fun s => ?_, fun s e he => ?_, fun spawn hm => ?_, fun task spawn r hs hr => ?_, ?_, ?_,
    ?_, fun r hr => ?_⟩
  · rw [h.entries]
    split
    · rw [List.map_append, List.nodup_append]
      refine ⟨hi.commands segmentId, List.nodup_singleton _, ?_⟩
      rintro a ha b hb rfl
      obtain ⟨e, he, heq⟩ := List.mem_map.mp ha
      rw [List.map_singleton, List.mem_singleton] at hb
      exact hfresh e he (heq.trans hb)
    · exact hi.commands s
  · rw [h.entries] at he
    rw [h.spawned]
    split at he
    · next heq =>
        rw [heq]
        rcases List.mem_append.mp he with he | he
        · exact hi.users segmentId e he
        · obtain rfl := List.mem_singleton.mp he
          exact huser
    · exact hi.users s e he
  · rw [h.spawned] at hm
    exact h.made _ (hi.made spawn hm)
  · rw [h.spawned] at hs
    rw [h.results] at hr
    exact (hi.ended task spawn r hs hr).grow h.grow
  · rw [h.pending, h.spawned, h.results]
    exact hi.pending
  · rw [h.pending, h.spawned, h.results]
    exact hi.alone
  · rw [h.spawned, h.results, h.started, h.cancelled]
    exact hi.unborn
  · rw [h.returned] at hr
    exact (hi.returned r hr).grow h.grow

/-- Every other task of the segment has ended, so the entry is in nobody's way. -/
theorem Adds.fine {w w' : World} {entry : LogEntry} (h : Adds w w' spawn.segment.segmentId entry)
    (hi : Inv w) (hruns : Runs t task spawn w) (hpayload : entry.payload = spawn.payload)
    {task' : Nat} (hf : w.Fine task') : w'.Fine task' := by
  obtain ⟨spawn', hspawn', hresult, hclean⟩ := hf
  refine ⟨spawn', h.spawned ▸ hspawn', h.results ▸ hresult, fun hnone e he hcommand => ?_⟩
  rw [h.results] at hnone
  rw [h.entries] at he
  split at he
  · next hsid =>
      rcases List.mem_append.mp he with he | he
      · rw [← hsid] at he
        exact hclean hnone e he hcommand
      · obtain rfl := List.mem_singleton.mp he
        obtain ⟨p, hp, htask⟩ := hi.alone task spawn hruns.spawned hruns.running
        obtain ⟨p', hp', htask'⟩ := hi.alone task' spawn' hspawn' hnone
        rw [hsid] at hp'
        obtain rfl := Option.some.inj (hp.symm.trans hp')
        rw [← htask', htask, hruns.spawned] at hspawn'
        rw [← Option.some.inj hspawn']
        exact hpayload
  · exact hclean hnone e he hcommand

/-- Nobody else assigns for the command while its task runs. -/
theorem assign_spec {X : World → Error → Prop} :
    (discipline self C).Triple t c
      (Inside t task spawn fun entries => ∀ e ∈ entries, e.commandId ≠ spawn.commandId)
      (act (.sequencer spawn.segment.segmentId (.assign spawn.commandId spawn.payload)))
      (fun w e => Inside t task spawn (fun _ => True) w ∧
        w.Assigned spawn.segment.segmentId spawn.commandId spawn.payload e.position) X := by
  refine .act fun w hi h => ?_
  have hi : Inv w := hi
  let sid := spawn.segment.segmentId
  let s := w.sequencer sid
  let entry : LogEntry := ⟨sid, s.nextPosition, spawn.commandId, spawn.payload⟩
  have hmade := h.runs.made hi
  let s' := (execSequencer sid s (.assign spawn.commandId spawn.payload)).1
  have hsame := World.sequencer_setSequencer hmade s'
  have hadds : Adds w (w.setSequencer sid s') sid entry := by
    have hentries : ∀ sid', (w.setSequencer sid s').entries sid' =
        if sid' = sid then w.entries sid ++ [entry] else w.entries sid' := by
      intro sid'
      rw [World.entries, hsame]
      split <;> rfl
    have hstays := w.made_setSequencer sid s'
    obtain ⟨sequencers, heq⟩ := w.setSequencer_eq sid s'
    rw [heq] at hentries hstays ⊢
    exact ⟨rfl, rfl, rfl, rfl, rfl, rfl, hentries, hstays⟩
  have hinv : Inv (w.setSequencer sid s') :=
    hadds.inv hi h.entries ⟨spawn, List.mem_of_getElem? h.runs.spawned, rfl, rfl, rfl⟩
  refine ⟨⟨hinv, fun u hu => ⟨fun task' ht => ?_, fun sid' hl => ?_, fun task' hf => ?_⟩⟩,
    ⟨h.runs.setSequencer _ _, ?_, trivial⟩, entry, ?_, rfl, rfl, rfl⟩
  · exact ⟨(congrFun hadds.started task').trans ht, congrFun hadds.results task'⟩
  · show (w.setSequencer sid s').sequencer sid' = w.sequencer sid'
    rw [hsame]
    split
    · next heq =>
        rw [heq, h.held] at hl
        exact absurd (Option.some.inj hl).symm hu
    · rfl
  · exact hadds.fine hi h.runs rfl hf
  · show ((w.setSequencer sid s').sequencer sid).holder = some t
    rw [hsame, if_pos rfl]
    exact h.held
  · show entry ∈ (w.setSequencer sid s').entries sid
    rw [hadds.entries, if_pos rfl]
    exact List.mem_append_right _ (List.mem_singleton_self _)

/-! ## Under the lock -/

/-- The errors that tell nothing of a command. -/
def Neutral : Error → Prop
  | .entryConflict _ => False
  | _ => True

/-- What `t` waits for while it has the lock may fail only because `t` is cancelled. -/
theorem wait_spec {e : NativeLoglet.Wait} (he : e ≠ .acquire) {X : World → Error → Prop} :
    (discipline self C).Triple t c (Inside t task spawn K)
      ((sequencing spawn.segment.segmentId).wait e)
      (fun w r => Inside t task spawn K w ∧ ∀ err, r = .error err → Neutral err) X := by
  refine .suspend lasting_inside.stable fun w x w' r hi h _ hr => ?_
  rcases resume_cases hr with ⟨rfl, herror⟩ | ⟨segmentId, heq, -, -, -⟩
  · refine ⟨.refl hi, h, fun err herr => ?_⟩
    rcases herror err herr with rfl | ⟨joined, hjoin, -⟩
    · trivial
    · cases hjoin
  · cases heq
    exact absurd rfl he

/-- What a sequencer's code does when it stays off the entries and the lock. -/
abbrev Modest {β : Type} (p : NativeLoglet.Co β) : Prop := 
  p.Confined Plain (fun e : NativeLoglet.Wait => e ≠ .acquire) Neutral

theorem modest_observeAll {observe : Nat → NativeLoglet.Co Unit} (h : ∀ tail, Modest (observe tail))
    (states : List LogServerState) : Modest (observeAll observe states) := by
  induction states with
  | nil => trivial
  | cons state states ih => exact .bind (h _) fun _ => ih

theorem modest_commitRounds (segment : Segment) (entry : LogEntry) (turns : Nat) :
    Modest (segment.commitRounds entry turns) := by
  induction turns with
  | zero => exact .bind (confined_await nofun) nofun
  | succ turns ih =>
      refine .bind (confined_perform trivial) fun s => .bind (confined_perform trivial) fun batch =>
        .bind (confined_await nofun) fun replies => .bind ?_ fun _ => ?_
      · exact modest_observeAll (fun tail => confined_perform trivial) _
      · split
        · trivial
        · exact .bind (confined_require trivial) fun _ => .bind (confined_await nofun) fun _ => ih

theorem modest_commit (segment : Segment) (entry : LogEntry) (turns : Nat) :
    Modest (segment.commit entry turns) :=
  .bind (modest_commitRounds segment entry turns) fun _ => .bind (confined_perform trivial) fun _ =>
    .bind (confined_require trivial) fun _ => confined_perform trivial

theorem modest_commitPending (segment : Segment) (commandId : String) (turns : Nat) :
    Modest (segment.commitPending commandId turns) := by
  refine .bind (confined_perform trivial) fun s => ?_
  split
  · trivial
  · split
    · exact .bind (modest_commit segment _ turns) fun _ => confined_perform trivial
    · trivial

theorem modest_spec {β : Type} {p : NativeLoglet.Co β} (hp : Modest p) :
    (discipline self C).Triple t c (Inside t task spawn K)
      ((sequencing spawn.segment.segmentId).translate p) (fun w _ => Inside t task spawn K w)
      (fun w e => Inside t task spawn K w ∧ Neutral e) :=
  .translate_confined (fun _ ha => plain_spec ha) (fun _ he => wait_spec he)
    (fun _ _ _ h he => ⟨h, he⟩) hp

theorem commitEntry_spec (segment : Segment) (entry : LogEntry) (turns : Nat) :
    (discipline self C).Triple t c (Inside t task spawn K)
      ((sequencing spawn.segment.segmentId).translate (segment.commitEntry entry turns))
      (fun w r => Inside t task spawn K w ∧ r.position = entry.position)
      (fun w e => Inside t task spawn K w ∧ Neutral e) := by
  refine .translate_bind (modest_spec (confined_perform trivial)) fun _ => ?_
  refine .translate_bind (modest_spec (modest_commit segment entry turns)) fun _ => ?_
  refine .translate_bind (modest_spec (confined_perform trivial)) fun _ => ?_
  refine .translate_bind (modest_spec (confined_perform trivial)) fun s => ?_
  exact .ret fun w _ h => ⟨h, rfl⟩

/-- What a task may raise, and its end may tell. -/
def Spawn.MayRaise (spawn : Spawn) (w : World) (e : Error) : Prop :=
  ∀ message, e = .entryConflict message → message = spawn.commandId ∧ spawn.Conflicts w

theorem Spawn.mayRaise_neutral {w : World} {e : Error} (h : Neutral e) : spawn.MayRaise w e := by
  rintro message rfl
  exact False.elim h

/-- The sequencer has assigned `position` to the task's command. -/
def Gives (spawn : Spawn) (position : Nat) (entries : List LogEntry) : Prop :=
  ∃ e ∈ entries, e.commandId = spawn.commandId ∧ e.payload = spawn.payload ∧ e.position = position

theorem appendLocked_spec (turns : Nat) :
    (discipline self C).Triple t c (Inside t task spawn fun _ => True)
      ((sequencing spawn.segment.segmentId).translate
        (spawn.segment.appendLocked spawn.commandId spawn.payload turns))
      (fun w r => Inside t task spawn (Gives spawn r.position) w)
      (fun w e => Inside t task spawn (fun _ => True) w ∧ spawn.MayRaise w e) := by
  -- Whatever is known of the entries, a neutral error is one that the task may raise.
  have weaken : ∀ {K : List LogEntry → Prop} (w : World) (e : Error), Inv w →
      Inside t task spawn K w ∧ Neutral e →
      Inside t task spawn (fun _ => True) w ∧ spawn.MayRaise w e :=
    fun w e _ h => ⟨⟨h.1.runs, h.1.held, trivial⟩, Spawn.mayRaise_neutral h.2⟩
  have finishes : ∀ entry : LogEntry, (discipline self C).Triple t c
      (Inside t task spawn (Gives spawn entry.position))
      ((sequencing spawn.segment.segmentId).translate (spawn.segment.commitEntry entry turns))
      (fun w r => Inside t task spawn (Gives spawn r.position) w)
      (fun w e => Inside t task spawn (fun _ => True) w ∧ spawn.MayRaise w e) :=
    fun entry => (commitEntry_spec spawn.segment entry turns).mono (fun _ _ h => h)
      (fun w r _ h => by rw [h.2]; exact h.1) weaken
  refine .translate_bind (.translate_perform sequencer_spec) fun s => ?_
  cases hfound : s.entryFor spawn.commandId with
  | some entry =>
      obtain ⟨hmem, hcommand⟩ := NativeSequencer.entryFor_some hfound
      refine .translate_bind (Q := fun w _ => Inside t task spawn (Gives spawn entry.position) w)
        (.translate_require (fun w _ h hp => ?_) fun w _ h hp => ?_) fun _ => ?_
      · refine ⟨h.1.runs, h.1.held, entry, ?_, hcommand, hp, rfl⟩
        rw [← h.2]
        exact hmem
      · refine ⟨h.1, fun message hm => ?_⟩
        cases hm
        refine ⟨rfl, entry.payload, entry.position, hp, entry, ?_, hcommand, rfl, rfl⟩
        rw [← h.2]
        exact hmem
      · split
        · exact .ret fun w _ h => h
        · exact .translate_bind ((modest_spec
            (modest_commitPending spawn.segment spawn.commandId turns)).mono (fun _ _ h => h)
              (fun _ _ _ h => h) weaken) fun _ => finishes entry
  | none =>
      refine .translate_bind ((modest_spec (K := Unassigned spawn.commandId)
        (modest_commitPending spawn.segment spawn.commandId turns)).mono (fun w _ h => ?_)
          (fun _ _ _ h => h) weaken) fun _ => ?_
      · refine ⟨h.1.runs, h.1.held, ?_⟩
        rw [← h.2]
        exact NativeSequencer.entryFor_none hfound
      · refine .translate_bind (Q := fun w e => Inside t task spawn (Gives spawn e.position) w)
          (.translate_perform (assign_spec.post fun w e _ h => ?_)) fun entry => finishes entry
        exact ⟨h.1.runs, h.1.held, h.2⟩

theorem acquire_spec {X : World → Error → Prop} :
    (discipline self C).Triple t c (Runs t task spawn)
      ((sequencing spawn.segment.segmentId).wait .acquire)
      (fun w r => (∀ u, r = .ok u → Inside t task spawn (fun _ => True) w) ∧
        ∀ err, r = .error err → Runs t task spawn w ∧ Neutral err) X := by
  refine .suspend lasting_runs.stable fun w x w' r hi h _ hr => ?_
  have hi : Inv w := hi
  cases x with
  | cancel =>
      change (if w.mayCancel t then some (w, .error .cancelled) else none) = some (w', r) at hr
      split at hr
      · cases hr
        refine ⟨.refl hi, nofun, fun err herr => ⟨h, ?_⟩⟩
        cases herr
        trivial
      · cases hr
  | done =>
      change (if (w.sequencer spawn.segment.segmentId).holder = none then _ else none) = _ at hr
      split at hr
      · next hfree =>
          cases hr
          refine ⟨kept_setSequencer hi (h.made hi) (fun u hu => ?_) rfl, fun _ _ => ?_, nofun⟩
          · rw [hfree] at hu
            cases hu
          · refine ⟨h.setSequencer _ _, ?_, trivial⟩
            rw [World.sequencer_setSequencer (h.made hi), if_pos rfl]
      · cases hr
  | gathered replies => cases hr

theorem release_spec {F : World → Prop} (hF : (discipline self C).Persistent F)
    {X : World → Error → Prop} :
    (discipline self C).Triple t c (fun w => Inside t task spawn (fun _ => True) w ∧ F w)
      ((sequencing spawn.segment.segmentId).act .release)
      (fun w _ => Runs t task spawn w ∧ F w) X :=
  .act fun w hi h =>
    ⟨h.1.setSequencer hi rfl, h.1.runs.setSequencer _ _, hF _ _ (exec_grow w t _) h.2⟩

/-- What a sequencer runs inside a `try` is inside it in the registry. -/
theorem sequencing_handle (segmentId : String) {β : Type} (p : NativeLoglet.Co β)
    (f : Error → NativeLoglet.Co β) :
    (sequencing segmentId).translate (p.handle f) =
      ((sequencing segmentId).translate p).handle
        fun e => (sequencing segmentId).translate (f e) := by
  induction p with
  | ret b => rfl
  | raise e => rfl
  | act a k ih => exact congrArg (Coroutine.act (S := signature) (.sequencer segmentId a)) (funext ih)
  | wait e k ih =>
      exact congrArg (Coroutine.wait (S := signature) (.sequencer segmentId e)) (funext ih)

/-- `async with self._lock: body` of the sequencer. -/
theorem withLock_spec {β : Type} {body : NativeLoglet.Co β} {Q : World → β → Prop}
    {X : World → Error → Prop} (hQ : ∀ b, (discipline self C).Persistent fun w => Q w b)
    (hX : ∀ e, (discipline self C).Persistent fun w => X w e)
    (hneutral : ∀ w e, Neutral e → X w e)
    (hbody : (discipline self C).Triple t c (Inside t task spawn fun _ => True)
      ((sequencing spawn.segment.segmentId).translate body)
      (fun w b => Inside t task spawn (fun _ => True) w ∧ Q w b)
      (fun w e => Inside t task spawn (fun _ => True) w ∧ X w e)) :
    (discipline self C).Triple t c (Runs t task spawn)
      ((sequencing spawn.segment.segmentId).translate (withLock body))
      (fun w b => Runs t task spawn w ∧ Q w b) (fun w e => Runs t task spawn w ∧ X w e) := by
  refine .translate_bind (.translate_await acquire_spec fun w e _ h => ⟨h.1, hneutral w e h.2⟩)
    fun _ => ?_
  have hends : ∀ result : Except Error β, (discipline self C).Persistent fun w =>
      (∀ b, result = .ok b → Q w b) ∧ ∀ e, result = .error e → X w e :=
    fun result w w' hg h =>
      ⟨fun b hb => hQ b w w' hg (h.1 b hb), fun e he => hX e w w' hg (h.2 e he)⟩
  refine .translate_bind (Q := fun w result => Inside t task spawn (fun _ => True) w ∧
    (∀ b, result = .ok b → Q w b) ∧ ∀ e, result = .error e → X w e) ?_ fun result => ?_
  · rw [sequencing_handle]
    refine .handle (.translate_bind hbody fun b => .ret fun w _ h => ⟨h.1, ?_, nofun⟩)
      fun e => .ret fun w _ h => ⟨h.1, nofun, ?_⟩
    · intro b' hb
      cases hb
      exact h.2
    · intro e' he
      cases he
      exact h.2
  · refine .translate_bind (.translate_perform (release_spec (hends result))) fun _ => ?_
    cases result with
    | ok b => exact .ret fun w _ h => ⟨h.1, h.2.1 b rfl⟩
    | error e => exact .raise fun w _ h => ⟨h.1, h.2.2 e rfl⟩

/-! ## A task of `_run_append` -/

theorem Runs.exclusive {w : World} (h : Runs t task spawn w) {task' : Nat} {u : TaskId} (hu : u ≠ t)
    (hstarted : w.started task' = some u) : task' ≠ task := by
  rintro rfl
  rw [h.started] at hstarted
  exact hu (Option.some.inj hstarted).symm

/-- A task that is fine ends with no conflict. -/
theorem World.Fine.ends {w : World} (hf : w.Fine task) (hruns : Runs t task spawn w)
    {result : Except Error AppendResult} (hended : spawn.Ended w result) (message : String) :
    result ≠ .error (.entryConflict message) := by
  intro heq
  obtain ⟨spawn', hspawn', -, hclean⟩ := hf
  rw [hruns.spawned] at hspawn'
  obtain rfl := Option.some.inj hspawn'
  obtain ⟨-, payload, position, hne, e, he, hcommand, hpayload, -⟩ := hended.conflict message heq
  exact hne (hpayload ▸ hclean hruns.running e he hcommand)

/-- The end of a task makes room for the next append of its segment. -/
theorem kept_leave {w : World} (hi : Inv w) (h : Runs t task spawn w)
    {result : Except Error AppendResult} (hended : spawn.Ended w result) :
    (discipline self C).Kept t w (exec w t (.leave spawn.segment.segmentId task result)).1 := by
  let w' := (exec w t (.leave spawn.segment.segmentId task result)).1
  have hg : Grow w w' := exec_grow w t _
  have hresults : ∀ task', task' ≠ task → w'.results task' = w.results task' :=
    fun task' hne => Function.update_of_ne hne _ _
  have hself : w'.results task = some result := Function.update_self ..
  have hslot : ∀ segmentId p, w.pending segmentId = some p → p.task = task →
      segmentId = spawn.segment.segmentId := by
    intro segmentId p hp htask
    obtain ⟨⟨spawn', hspawn', hsid, -, -⟩, -⟩ := hi.pending segmentId p hp
    rw [htask, h.spawned] at hspawn'
    cases hspawn'
    exact hsid.symm
  -- The slot is emptied if the task is the pending one, and every other slot stays.
  have hpending : ∀ segmentId p,
      w'.pending segmentId = some p ↔ w.pending segmentId = some p ∧ p.task ≠ task := by
    intro segmentId p
    show (if ((w.pending spawn.segment.segmentId).any fun p => p.task = task) then
      Function.update w.pending spawn.segment.segmentId none else w.pending) segmentId = some p ↔ _
    split
    · next hany =>
        by_cases heq : segmentId = spawn.segment.segmentId
        · rw [heq, Function.update_self]
          refine ⟨nofun, fun ⟨hp, hne⟩ => ?_⟩
          rw [hp] at hany
          exact absurd (of_decide_eq_true hany) hne
        · rw [Function.update_of_ne heq]
          exact ⟨fun hp => ⟨hp, fun htask => heq (hslot segmentId p hp htask)⟩, And.left⟩
    · next hany =>
        refine ⟨fun hp => ⟨hp, fun htask => hany ?_⟩, And.left⟩
        rw [← hslot segmentId p hp htask, hp]
        exact decide_eq_true htask
  refine ⟨⟨hi.commands, hi.users, hi.made, fun task' spawn' r hs hr => ?_, fun segmentId p hp => ?_,
    fun task' spawn' hs hr => ?_, fun task' hle => ?_, fun r hr => (hi.returned r hr).grow hg⟩,
    fun u hu => ⟨fun task' ht => ⟨ht, hresults task' (h.exclusive hu ht)⟩, fun _ _ => rfl,
      fun task' hf => ?_⟩⟩
  · by_cases heq : task' = task
    · rw [heq] at hs hr
      obtain rfl := Option.some.inj (h.spawned.symm.trans hs)
      obtain rfl := Option.some.inj (hself.symm.trans hr)
      exact hended.grow hg
    · exact (hi.ended task' spawn' r hs ((hresults task' heq).symm.trans hr)).grow hg
  · obtain ⟨hold, hne⟩ := (hpending segmentId p).mp hp
    obtain ⟨hspawn, hcancelled⟩ := hi.pending segmentId p hold
    exact ⟨hspawn, fun r hr => hcancelled r ((hresults p.task hne).symm.trans hr)⟩
  · have hne : task' ≠ task := by
      rintro rfl
      cases hself.symm.trans hr
    obtain ⟨p, hp, htask⟩ := hi.alone task' spawn' hs ((hresults task' hne).symm.trans hr)
    exact ⟨p, (hpending _ p).mpr ⟨hp, htask ▸ hne⟩, htask⟩
  · obtain ⟨hresult, hrest⟩ := hi.unborn task' hle
    refine ⟨(hresults task' ?_).trans hresult, hrest⟩
    rintro rfl
    exact absurd (List.getElem?_eq_some_iff.mp h.spawned).1 (Nat.not_lt.mpr hle)
  · obtain ⟨spawn', hspawn', hresult, hclean⟩ := hf
    by_cases heq : task' = task
    · subst heq
      refine ⟨spawn', hspawn', fun message hm => ?_, fun hnone => ?_⟩
      · exact World.Fine.ends ⟨spawn', hspawn', hresult, hclean⟩ h hended message
          (Option.some.inj (hself.symm.trans hm))
      · cases hself.symm.trans hnone
    · refine ⟨spawn', hspawn', fun message hm => ?_, fun hnone => ?_⟩
      · exact hresult message ((hresults task' heq).symm.trans hm)
      · exact hclean ((hresults task' heq).symm.trans hnone)

theorem runAppend_spec (turns : Nat) {X : World → Error → Prop} (hX : ∀ w e, X w e) :
    (discipline self C).Triple t c (Runs t task spawn)
      (runAppend spawn.segment task spawn.commandId spawn.payload turns) (fun _ _ => True) X := by
  refine .bind (Q := fun w result => Runs t task spawn w ∧ spawn.Ended w result) ?_ fun result => ?_
  · refine .handle (.bind (withLock_spec (Q := fun w r =>
      w.Assigned spawn.segment.segmentId spawn.commandId spawn.payload r.position)
      (X := fun w e => spawn.MayRaise w e) ?_ ?_ ?_ ?_) fun r => ?_) fun e => ?_
    · exact fun r w w' hg h => h.grow hg
    · exact fun e w w' hg h message hm => ⟨(h message hm).1, (h message hm).2.grow hg⟩
    · exact fun w e he => Spawn.mayRaise_neutral he
    · exact (appendLocked_spec turns).post fun w r _ h => ⟨⟨h.runs, h.held, trivial⟩, h.entries⟩
    · refine .ret fun w _ h => ⟨h.1, fun r' hr => ?_, nofun⟩
      cases hr
      exact h.2
    · refine .ret fun w _ h => ⟨h.1, nofun, fun message hm => h.2 message ?_⟩
      cases hm
      rfl
  · refine .bind (Q := fun _ _ => True) (.act fun w hi h => ⟨kept_leave hi h.1 h.2, trivial⟩)
      fun _ => ?_
    exact .ofExcept (fun _ _ _ _ _ => trivial) fun w e _ _ _ => hX w e

end DelosLab.NativeLoglet.Registry
