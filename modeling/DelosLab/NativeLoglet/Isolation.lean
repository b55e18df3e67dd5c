import DelosLab.NativeLoglet.RegistryTasks

/-!
# Isolation of the appends of a registry

A call of `append` waits for the pending append of its segment, and raises what that raises
even when it is another command's. This is harmless as long as that command is not assigned
with another payload.
-/

namespace DelosLab.NativeLoglet.Registry

open Async Async.Runtime Async.Coroutine
open VirtualLog (Bytes)

/-! ## Looking at the pending append -/

namespace World

/-- The pending append is not of another command that is assigned with another payload. -/
def Calm (w : World) (segmentId commandId : String) : Prop :=
  ∀ p ∈ w.pending segmentId, p.commandId ≠ commandId → w.Clean segmentId p.commandId p.payload

/-- The task was created for this command. -/
def Serves (w : World) (task : Nat) (segmentId commandId : String) (payload : Bytes) : Prop :=
  ∃ spawn, w.spawned[task]? = some spawn ∧ spawn.segment.segmentId = segmentId ∧
    spawn.commandId = commandId ∧ spawn.payload = payload

/-- `_sequencer_for` returns and the registry is open, so `append` looks at the pending append. -/
structure Admits (w : World) (self : LogServerSequencerRegistry) (segment : Segment) : Prop where
  opened : w.closed = false
  node : segment.configuration.sequencerNode = self.nodeId
  incarnation : segment.configuration.sequencerIncarnation = self.incarnationId
  configuration : ∀ existing ∈ (w.sequencers segment.segmentId).map Prod.fst,
    existing.configuration = segment.configuration

/-- The append of another command has come back, so `append` looks again. -/
def LooksAgain (w : World) (commandId : String) : Wait → Choice → Prop
  | .join task, .done => w.closed = false ∧ (∃ spawn, w.spawned[task]? = some spawn ∧
      spawn.commandId ≠ commandId) ∧ ∃ r, w.results task = some (.ok r)
  | _, _ => False

instance (w : World) (segmentId commandId : String) (payload : Bytes) :
    Decidable (w.Clean segmentId commandId payload) :=
  inferInstanceAs (Decidable (∀ e ∈ w.entries segmentId, _))

instance (w : World) (segmentId commandId : String) : Decidable (w.Calm segmentId commandId) :=
  inferInstanceAs (Decidable (∀ p ∈ w.pending segmentId, _))

end World

/-- The steps of a run after which no call of `append` finds the pending append of another
command that is assigned with another payload. -/
def undisturbed (self : LogServerSequencerRegistry) :
    Condition signature World TaskId Call Choice where
  launch := fun w _ c => ∀ segment commandId payload turns looks,
    c = .append segment commandId payload turns looks → w.Admits self segment →
      w.Calm segment.segmentId commandId
  resume := fun w _ c e x => ∀ segment commandId payload turns looks,
    c = .append segment commandId payload turns looks → w.LooksAgain commandId e x →
      w.Calm segment.segmentId commandId

/-- What a call may raise about a command. -/
def MayTell (segmentId commandId : String) (payload : Bytes) (w : World) (e : Error) : Prop :=
  ∀ message, e = .entryConflict message →
    message = commandId ∧ w.InUse segmentId commandId payload

theorem mayTell_neutral {segmentId commandId : String} {payload : Bytes} {w : World} {e : Error}
    (h : Neutral e) : MayTell segmentId commandId payload w e := by
  rintro message rfl
  exact False.elim h

theorem World.Serves.grow {w w' : World} (hg : Grow w w') {task : Nat}
    {segmentId commandId : String} {payload : Bytes}
    (h : w.Serves task segmentId commandId payload) :
    w'.Serves task segmentId commandId payload := by
  obtain ⟨spawn, hspawn, hserves⟩ := h
  exact ⟨spawn, hg.spawn hspawn, hserves⟩

/-- The pending append of a segment serves the command that it names. -/
theorem Inv.serves {w : World} (hi : Inv w) {segmentId : String} {p : PendingAppend}
    (hp : w.pending segmentId = some p) :
    w.Serves p.task segmentId p.commandId p.payload :=
  (hi.pending segmentId p hp).1

/-- The pending append of a clean command will not end with a conflict. -/
theorem Inv.fine {w : World} (hi : Inv w) {segmentId : String} {p : PendingAppend}
    (hp : w.pending segmentId = some p) (hclean : w.Clean segmentId p.commandId p.payload) :
    w.Fine p.task := by
  obtain ⟨⟨spawn, hspawn, hsid, hcommand, hpayload⟩, hcancelled⟩ := hi.pending segmentId p hp
  refine ⟨spawn, hspawn, fun message hm => ?_, fun _ => ?_⟩
  · cases hcancelled _ hm
  · rw [hsid, hcommand, hpayload]
    exact hclean

theorem World.Serves.inUse {w : World} {task : Nat} {segmentId commandId : String}
    {payload payload' : Bytes} (h : w.Serves task segmentId commandId payload)
    (hne : payload ≠ payload') : w.InUse segmentId commandId payload' := by
  obtain ⟨spawn, hspawn, hsid, hcommand, rfl⟩ := h
  exact ⟨spawn, List.mem_of_getElem? hspawn, hsid, hcommand, hne⟩

/-- What a task ends with is right for a call of the same command and payload. -/
theorem World.Serves.ended {w : World} (hi : Inv w) {task : Nat} {segmentId commandId : String}
    {payload : Bytes} (h : w.Serves task segmentId commandId payload)
    {result : Except Error AppendResult} (hr : w.results task = some result) :
    (∀ r, result = .ok r → w.Assigned segmentId commandId payload r.position) ∧
      ∀ e, result = .error e → MayTell segmentId commandId payload w e := by
  obtain ⟨spawn, hspawn, rfl, rfl, rfl⟩ := h
  have hended := hi.ended task spawn result hspawn hr
  refine ⟨hended.ok, ?_⟩
  rintro e rfl message rfl
  obtain ⟨hmessage, payload, position, hne, e, he, hcommand, hpayload, -⟩ :=
    hended.conflict message rfl
  obtain ⟨user, huser, hsid, hcommand', hpayload'⟩ := hi.users _ e he
  refine ⟨hmessage, user, huser, hsid, hcommand'.trans hcommand, ?_⟩
  rw [hpayload', hpayload]
  exact hne

/-! ## The calls -/

variable {self : LogServerSequencerRegistry}
  {C : Condition signature World TaskId Call Choice} {t : TaskId} {c : Call}
  {segment : Segment} {commandId : String} {payload : Bytes} {turns looks : Nat}

/-- What the end of a join gives. -/
theorem join_cases {w w' : World} {task : Nat} {x : Choice} {r : Except Error AppendResult}
    (h : resume w t (.join task) x = some (w', r)) :
    w' = w ∧ (r = .error .cancelled ∨ x = .done ∧ w.results task = some r) := by
  cases x with
  | done =>
      obtain ⟨result, hresult, heq⟩ := Option.map_eq_some_iff.mp h
      cases heq
      exact ⟨rfl, .inr ⟨rfl, hresult⟩⟩
  | gathered replies => cases h
  | cancel =>
      change (if w.mayCancel t then some (w, Except.error Error.cancelled) else none) = _ at h
      split at h
      · cases h
        exact ⟨rfl, .inl rfl⟩
      · cases h

/-- To wait for an append of the same command and payload is to wait for one's own. -/
theorem join_own_spec {segmentId : String} {task : Nat} :
    (discipline self C).Triple t c (fun w => w.Serves task segmentId commandId payload)
      (wait (.join task)) (fun w r => w.Assigned segmentId commandId payload r.position)
      (MayTell segmentId commandId payload) := by
  refine .wait (fun w w' hg _ _ h => h.grow hg) fun w x w' r hi h _ hr => ?_
  obtain ⟨rfl, rfl | ⟨-, hresult⟩⟩ := join_cases hr
  · refine ⟨.refl hi, nofun, fun e he => ?_⟩
    cases he
    exact mayTell_neutral trivial
  · exact ⟨.refl hi, h.ended hi hresult⟩

/-- The append of another command that is fine raises nothing about it, and after it the
call looks again. -/
theorem join_other_spec {commandId' : String} {payload' : Bytes} (hne : commandId' ≠ commandId)
    {task : Nat} :
    (discipline self (undisturbed self)).Triple t (.append segment commandId payload turns looks)
      (fun w => w.Serves task segment.segmentId commandId' payload' ∧ w.Fine task)
      (wait (.join task)) (fun w _ => w.closed = false → w.Calm segment.segmentId commandId)
      (MayTell segment.segmentId commandId payload) := by
  refine .wait (fun w w' hg hr _ h => ⟨h.1.grow hg, hr.fine task h.2⟩)
    fun w x w' r hi h hc hr => ?_
  obtain ⟨rfl, rfl | ⟨rfl, hresult⟩⟩ := join_cases hr
  · refine ⟨.refl hi, nofun, fun e he => ?_⟩
    cases he
    exact mayTell_neutral trivial
  · obtain ⟨⟨spawn, hspawn, -, hcommand, -⟩, spawn', -, hends, -⟩ := h
    refine ⟨.refl hi, ?_, ?_⟩
    · rintro result rfl hopen
      refine hc segment commandId payload turns looks rfl
        ⟨hopen, ⟨spawn, hspawn, ?_⟩, result, hresult⟩
      rw [hcommand]
      exact hne
    · rintro e rfl message rfl
      exact absurd hresult (hends message)

/-- The new task is the pending one of its segment. -/
theorem kept_createTask {w : World} (hi : Inv w)
    (hmade : (w.sequencers segment.segmentId).isSome)
    (hnone : w.pending segment.segmentId = none) :
    (discipline self C).Kept t w
      (exec w t (.createTask segment commandId payload turns)).1 := by
  let new : Spawn := ⟨segment, commandId, payload, turns⟩
  let w' := (exec w t (.createTask segment commandId payload turns)).1
  have hg : Grow w w' := exec_grow w t _
  have hlast : w'.spawned[w.spawned.length]? = some new := List.getElem?_concat_length
  have hself : w'.pending segment.segmentId = some ⟨commandId, payload, w.spawned.length⟩ :=
    Function.update_self ..
  have hothers : ∀ segmentId, segmentId ≠ segment.segmentId →
      w'.pending segmentId = w.pending segmentId := fun _ hne => Function.update_of_ne hne _ _
  -- A task of the new world is an old one or the new one, which has not ended.
  have hcases : ∀ (task : Nat) spawn, w'.spawned[task]? = some spawn →
      w.spawned[task]? = some spawn ∨ task = w.spawned.length ∧ spawn = new := by
    intro task spawn hs
    rcases Nat.lt_trichotomy task w.spawned.length with hlt | heq | hgt
    · exact .inl (List.getElem?_append_left hlt ▸ hs)
    · subst heq
      exact .inr ⟨rfl, Option.some.inj (hs.symm.trans hlast)⟩
    · have hbound := (List.getElem?_eq_some_iff.mp hs).1
      change task < (w.spawned ++ [new]).length at hbound
      rw [List.length_append, List.length_singleton] at hbound
      omega
  have hresult : w'.results w.spawned.length = none := (hi.unborn _ (Nat.le_refl _)).1
  refine ⟨⟨hi.commands, fun s e he => ?_, fun spawn hm => ?_, fun task spawn r hs hr => ?_,
    fun segmentId p hp => ?_, fun task spawn hs hr => ?_, fun task hle => ?_,
    fun r hr => (hi.returned r hr).grow hg⟩, fun u _ => ⟨fun _ h => ⟨h, rfl⟩, fun _ _ => rfl,
      fun task hf => ?_⟩⟩
  · obtain ⟨spawn, hm, huser⟩ := hi.users s e he
    exact ⟨spawn, hg.spawned.subset hm, huser⟩
  · rcases List.mem_append.mp hm with hm | hm
    · exact hi.made spawn hm
    · obtain rfl := List.mem_singleton.mp hm
      exact hmade
  · rcases hcases task spawn hs with hs | ⟨rfl, -⟩
    · exact (hi.ended task spawn r hs hr).grow hg
    · cases hresult.symm.trans hr
  · by_cases heq : segmentId = segment.segmentId
    · subst heq
      obtain rfl := Option.some.inj (hself.symm.trans hp)
      exact ⟨⟨new, hlast, rfl, rfl, rfl⟩, fun r hr => nomatch hresult.symm.trans hr⟩
    · obtain ⟨hserves, hcancelled⟩ := hi.pending segmentId p ((hothers segmentId heq).symm.trans hp)
      exact ⟨World.Serves.grow hg hserves, hcancelled⟩
  · rcases hcases task spawn hs with hs | ⟨rfl, rfl⟩
    · obtain ⟨p, hp, htask⟩ := hi.alone task spawn hs hr
      refine ⟨p, (hothers _ fun heq => ?_).trans hp, htask⟩
      rw [heq, hnone] at hp
      cases hp
    · exact ⟨_, hself, rfl⟩
  · refine hi.unborn task (Nat.le_trans ?_ hle)
    show w.spawned.length ≤ (w.spawned ++ [new]).length
    rw [List.length_append]
    exact Nat.le_add_right _ _
  · obtain ⟨spawn, hspawn, hends⟩ := hf
    exact ⟨spawn, hg.spawn hspawn, hends⟩

/-- What a call knows when it looks at the pending append. -/
structure Looking (segment : Segment) (commandId : String) (w : World) : Prop where
  made : (w.sequencers segment.segmentId).isSome
  calm : w.closed = false → w.Calm segment.segmentId commandId

theorem appendLoop_spec (looks' : Nat) :
    (discipline self (undisturbed self)).Triple t (.append segment commandId payload turns looks)
      (Looking segment commandId)
      (LogServerSequencerRegistry.appendLoop segment commandId payload turns looks')
      (fun w r => w.Assigned segment.segmentId commandId payload r.position)
      (MayTell segment.segmentId commandId payload) := by
  induction looks' with
  | zero =>
      refine .bind (Q := fun _ _ => True) ((Discipline.Triple.wait (P := fun _ => True)
        (fun _ _ _ _ _ h => h) fun w x w' r hi _ _ hr => ?_).pre fun _ _ _ => trivial) nofun
      rcases resume_cases hr with ⟨rfl, herror⟩ | ⟨segmentId, heq, -⟩
      · refine ⟨.refl hi, fun _ _ => trivial, fun e he => ?_⟩
        rcases herror e he with rfl | ⟨task, heq, -⟩
        · exact mayTell_neutral trivial
        · cases heq
      · cases heq
  | succ looks' ih =>
      refine .bind (Q := fun w closed => Looking segment commandId w ∧ closed = w.closed)
        (.act fun w hi h => ⟨.refl hi, h, rfl⟩) fun closed => ?_
      refine .bind (Q := fun w _ => (w.sequencers segment.segmentId).isSome ∧
        w.Calm segment.segmentId commandId) (.require (fun w hi h hopen => ?_)
          fun _ _ _ _ => mayTell_neutral trivial) fun _ => ?_
      · rw [h.2] at hopen
        exact ⟨h.1.made, h.1.calm hopen⟩
      refine .bind (Q := fun w p => ((w.sequencers segment.segmentId).isSome ∧
        w.Calm segment.segmentId commandId) ∧ p = w.pending segment.segmentId)
        (.act fun w hi h => ⟨.refl hi, h, rfl⟩) fun p => ?_
      cases p with
      | none =>
          refine .bind (.act fun w hi h => ⟨kept_createTask hi h.1.1 h.2.symm, ?_⟩)
            fun task => join_own_spec
          exact ⟨_, List.getElem?_concat_length, rfl, rfl, rfl⟩
      | some p =>
          simp only
          split
          · next hsame =>
              subst hsame
              refine .bind (Q := fun w _ => w.Serves p.task segment.segmentId p.commandId payload)
                (.require ?_ ?_) fun _ => join_own_spec
              · rintro w hi h rfl
                exact Inv.serves hi h.2.symm
              · rintro w hi h hne message hm
                cases hm
                exact ⟨rfl, (Inv.serves hi h.2.symm).inUse hne⟩
          · next hother =>
              have hjoin : (discipline self (undisturbed self)).Triple t
                  (.append segment commandId payload turns looks)
                  (fun w => (w.Serves p.task segment.segmentId p.commandId p.payload ∧
                    w.Fine p.task) ∧ (w.sequencers segment.segmentId).isSome)
                  (wait (.join p.task))
                  (fun w _ => (w.closed = false → w.Calm segment.segmentId commandId) ∧
                    (w.sequencers segment.segmentId).isSome)
                  (fun w e => MayTell segment.segmentId commandId payload w e ∧
                    (w.sequencers segment.segmentId).isSome) :=
                (join_other_spec hother).frame fun w w' hg h => Grow.made hg _ h
              refine .bind (hjoin.mono (fun w hi h => ?_) (fun w _ _ h => ⟨h.2, h.1⟩)
                fun w e _ h => h.1) fun _ => ih
              have hi : Inv w := hi
              exact ⟨⟨hi.serves h.2.symm, hi.fine h.2.symm (h.1.2 p h.2.symm hother)⟩, h.1.1⟩

/-- `_sequencer_for` leaves everything as it is, but for a new sequencer. -/
theorem sequencerFor_spec :
    (discipline self (undisturbed self)).Triple t c
      (fun w => w.Admits self segment → w.Calm segment.segmentId commandId)
      (self.sequencerFor segment) (fun w _ => Looking segment commandId w)
      (MayTell segment.segmentId commandId payload) := by
  refine .bind (.check fun w _ _ _ => mayTell_neutral trivial) fun _ => ?_
  refine .bind (.check fun w _ _ _ => mayTell_neutral trivial) fun _ => ?_
  refine .bind (Q := fun w existing => ((((w.Admits self segment →
    w.Calm segment.segmentId commandId) ∧ segment.configuration.sequencerNode = self.nodeId) ∧
      segment.configuration.sequencerIncarnation = self.incarnationId) ∧
        existing = (w.sequencers segment.segmentId).map Prod.fst))
    (.act fun w hi h => ⟨.refl hi, h, rfl⟩) fun existing => ?_
  cases existing with
  | some existing =>
      refine .require (fun w hi h hsame => ?_) fun _ _ _ _ => mayTell_neutral trivial
      obtain ⟨⟨⟨hcalm, hnode⟩, hincarnation⟩, hfound⟩ := h
      have hmade : ((w.sequencers segment.segmentId).map Prod.fst).isSome := by rw [← hfound]; rfl
      refine ⟨by simpa using hmade, fun hopen => hcalm ⟨hopen, hnode, hincarnation, ?_⟩⟩
      rintro existing' hexisting
      rw [← hfound] at hexisting
      cases hexisting
      exact hsame
  | none =>
      refine .act fun w hi h => ?_
      obtain ⟨⟨⟨hcalm, hnode⟩, hincarnation⟩, hfound⟩ := h
      have hsame := w.same_create segment
      refine ⟨hsame.kept hi fun u _ segmentId _ => w.sequencer_create segment segmentId,
        w.made_create segment, fun hopen p hp hne e he => ?_⟩
      change e ∈ (w.create segment).entries segment.segmentId at he
      change p ∈ (w.create segment).pending segment.segmentId at hp
      rw [hsame.entries] at he
      rw [hsame.pending] at hp
      refine hcalm ⟨?_, hnode, hincarnation, ?_⟩ p hp hne e he
      · obtain ⟨sequencers, heq⟩ := w.create_eq segment
        change (w.create segment).closed = false at hopen
        rw [heq] at hopen
        exact hopen
      · rintro existing hexisting
        rw [← hfound] at hexisting
        cases hexisting

theorem append_spec :
    (discipline self (undisturbed self)).Triple t (.append segment commandId payload turns looks)
      (fun w => w.Admits self segment → w.Calm segment.segmentId commandId)
      (self.append segment commandId payload turns looks)
      (fun w r => w.Assigned segment.segmentId commandId payload r.position)
      (MayTell segment.segmentId commandId payload) :=
  .bind sequencerFor_spec fun _ => appendLoop_spec looks

/-- `close` cancels tasks that exist. -/
theorem kept_close {w : World} (hi : Inv w) :
    (discipline self C).Kept t w (exec w t .close).1 := by
  have hg : Grow w (exec w t .close).1 := exec_grow w t _
  refine ⟨⟨hi.commands, hi.users, hi.made, fun task spawn r hs hr => ?_, hi.pending, hi.alone,
    fun task hle => ?_, fun r hr => (hi.returned r hr).grow hg⟩,
      fun u _ => ⟨fun _ h => ⟨h, rfl⟩, fun _ _ => rfl, fun _ h => h⟩⟩
  · exact (hi.ended task spawn r hs hr).grow hg
  · obtain ⟨hresult, hstarted, hcancelled⟩ := hi.unborn task hle
    refine ⟨hresult, hstarted, ?_⟩
    show (w.cancelled task || w.pendingTasks.contains task) = false
    rw [hcancelled, Bool.false_or, ← Bool.not_eq_true, List.contains_iff_mem]
    intro hmem
    have hbound := List.mem_range.mp (List.mem_filter.mp hmem).1
    exact absurd hbound (Nat.not_lt.mpr hle)

/-! ## Every run -/

/-- The end of a call is recorded. -/
theorem kept_finish {w : World} (hi : Inv w) {r : Return} (hr : r.Own w) :
    (discipline self C).Kept t w { w with returned := r :: w.returned } := by
  have hg : Grow w { w with returned := r :: w.returned } :=
    ⟨List.prefix_refl _, fun _ => List.prefix_refl _, fun _ h => h⟩
  refine ⟨⟨hi.commands, hi.users, hi.made, fun task spawn r' hs hr' => ?_, hi.pending, hi.alone,
    hi.unborn, fun r' hr' => ?_⟩, fun u _ => ⟨fun _ h => ⟨h, rfl⟩, fun _ _ => rfl, fun _ h => h⟩⟩
  · exact (hi.ended task spawn r' hs hr').grow hg
  · rcases List.mem_cons.mp hr' with rfl | hr'
    · exact hr.grow hg
    · exact (hi.returned r' hr').grow hg

/-- A task of `_run_append` begins. -/
theorem kept_started {w : World} (hi : Inv w) {task : Nat} {spawn : Spawn}
    (hspawn : w.spawned[task]? = some spawn) (hstarted : w.started task = none) :
    Grow w { w with started := Function.update w.started task (some t) } ∧
      (discipline self C).Kept t w
        { w with started := Function.update w.started task (some t) } := by
  have hg : Grow w { w with started := Function.update w.started task (some t) } :=
    ⟨List.prefix_refl _, fun _ => List.prefix_refl _, fun _ h => h⟩
  refine ⟨hg, ⟨hi.commands, hi.users, hi.made, fun task' spawn' r hs hr => ?_, hi.pending,
    hi.alone, fun task' hle => ?_, fun r hr => (hi.returned r hr).grow hg⟩,
      fun u hu => ⟨fun task' ht => ⟨?_, rfl⟩, fun _ _ => rfl, fun _ h => h⟩⟩
  · exact (hi.ended task' spawn' r hs hr).grow hg
  · obtain ⟨hresult, hnone, hcancelled⟩ := hi.unborn task' hle
    refine ⟨hresult, ?_, hcancelled⟩
    show Function.update w.started task (some t) task' = none
    rw [Function.update_of_ne]
    · exact hnone
    · rintro rfl
      exact absurd (List.getElem?_eq_some_iff.mp hspawn).1 (Nat.not_lt.mpr hle)
  · show Function.update w.started task (some t) task' = some u
    rw [Function.update_of_ne]
    · exact ht
    · rintro rfl
      rw [hstarted] at ht
      cases ht

/-- A cancelled task that never began raises nothing about its command. -/
theorem drop_sound {w w' : World} {d : Disturbance} (hi : Inv w) (h : disturb w d = some w') :
    Inv w' ∧ Grow w w' ∧ ∀ u, Rely u w w' := by
  obtain ⟨task⟩ := d
  rw [disturb] at h
  split at h
  · next hdrop =>
      obtain ⟨hcancelled, hstarted, hnone⟩ := hdrop
      obtain rfl := Option.some.inj h
      let w' := { w with results := Function.update w.results task (some (.error .cancelled)) }
      have hg : Grow w w' := ⟨List.prefix_refl _, fun _ => List.prefix_refl _, fun _ h => h⟩
      have hself : w'.results task = some (.error .cancelled) := Function.update_self ..
      have hothers : ∀ task', task' ≠ task → w'.results task' = w.results task' :=
        fun task' hne => Function.update_of_ne hne _ _
      -- A result is an old one or that of the task that was dropped.
      have hresults : ∀ task' r, w'.results task' = some r →
          w.results task' = some r ∨ r = .error .cancelled := by
        intro task' r hr
        by_cases heq : task' = task
        · rw [heq] at hr
          exact .inr (Option.some.inj (hself.symm.trans hr)).symm
        · exact .inl ((hothers task' heq).symm.trans hr)
      have hrunning : ∀ task', w'.results task' = none → w.results task' = none := by
        intro task' hr
        by_cases heq : task' = task
        · rw [heq]
          exact Option.isNone_iff_eq_none.mp hnone
        · exact (hothers task' heq).symm.trans hr
      refine ⟨⟨hi.commands, hi.users, hi.made, fun task' spawn r hs hr => ?_,
        fun segmentId p hp => ?_, fun task' spawn hs hr => hi.alone task' spawn hs (hrunning task' hr),
          fun task' hle => ?_, fun r hr => (hi.returned r hr).grow hg⟩, hg,
            fun u => ⟨fun task' ht => ⟨ht, hothers task' ?_⟩, fun _ _ => rfl, fun task' hf => ?_⟩⟩
      · rcases hresults task' r hr with hr | rfl
        · exact (hi.ended task' spawn r hs hr).grow hg
        · exact ⟨nofun, nofun⟩
      · obtain ⟨hserves, hends⟩ := hi.pending segmentId p hp
        refine ⟨hserves, fun r hr => ?_⟩
        rcases hresults p.task r hr with hr | hr
        · exact hends r hr
        · exact hr
      · obtain ⟨hresult, hrest⟩ := hi.unborn task' hle
        refine ⟨(hothers task' ?_).trans hresult, hrest⟩
        rintro rfl
        rw [hrest.2] at hcancelled
        cases hcancelled
      · rintro rfl
        rw [hstarted] at ht
        cases ht
      · obtain ⟨spawn, hspawn, hends, hclean⟩ := hf
        refine ⟨spawn, hspawn, fun message hm => ?_, fun hr => hclean (hrunning task' hr)⟩
        rcases hresults task' _ hm with hm | hm
        · exact hends message hm
        · cases hm
  · cases h

theorem observe_spec :
    (discipline self C).Triple t c (fun _ => True) (self.observe segment) (fun _ _ => True)
      fun _ _ => True := by
  unfold LogServerSequencerRegistry.observe
  split
  · exact .ret fun _ _ _ => trivial
  · exact .bind (Q := fun _ _ => True) (.act fun w hi _ => ⟨.refl hi, trivial⟩) fun _ =>
      .ret fun _ _ _ => trivial

theorem close_spec :
    (discipline self C).Triple t c (fun _ => True) LogServerSequencerRegistry.close
      (fun _ _ => True) fun _ _ => True := by
  refine .bind (Q := fun _ _ => True) (.act fun w hi _ => ⟨kept_close hi, trivial⟩) fun tasks => ?_
  refine .wait (fun _ _ _ _ _ h => h) fun w x w' r hi _ _ hr => ?_
  rcases resume_cases hr with ⟨rfl, -⟩ | ⟨segmentId, heq, -⟩
  · exact ⟨.refl hi, fun _ _ => trivial, fun _ _ => trivial⟩
  · cases heq

theorem sound : (discipline self (undisturbed self)).Sound where
  start := by
    intro w t c w' p hi hc hs
    cases c with
    | append segment commandId payload turns looks =>
        cases hs
        refine ⟨.refl w, Discipline.Triple.safe_finish (Q := fun w o => ∃ r,
          o = Outcome.appended r ∧ World.Assigned w segment.segmentId commandId payload r.position)
            (.bind append_spec fun r => .ret fun w _ h => ⟨r, rfl, h⟩) (.refl hi)
              (hc segment commandId payload turns looks rfl) ?_ ?_⟩
        · rintro w o hi ⟨r, rfl, hassigned⟩
          refine kept_finish hi ⟨fun r' hr => ?_, nofun⟩
          cases hr
          exact hassigned
        · intro w e hi he
          refine kept_finish hi ⟨nofun, fun message hm => he message ?_⟩
          cases hm
          rfl
    | runAppend task =>
        simp only [runtime, start] at hs
        split at hs
        · cases hs
        · next spawn hspawn =>
            split at hs
            · next hfree =>
                cases hs
                obtain ⟨hg, hkept⟩ : Grow w _ ∧ (discipline self (undisturbed self)).Kept t w _ :=
                  kept_started hi hspawn hfree.1
                refine ⟨hg, Discipline.Triple.safe_finish (.bind (runAppend_spec spawn.turns
                  (X := fun _ _ => True) fun _ _ => trivial) fun _ => .ret (Q := fun _ _ => True)
                    fun _ _ _ => trivial) hkept ⟨hspawn, Function.update_self .., ?_⟩
                      (fun _ _ hi _ => .refl hi) fun _ _ hi _ => .refl hi⟩
                exact Option.isNone_iff_eq_none.mp hfree.2
            · cases hs
    | observe segment =>
        cases hs
        exact ⟨.refl w, Discipline.Triple.safe_finish (.bind observe_spec fun _ =>
          .ret (Q := fun _ _ => True) fun _ _ _ => trivial) (.refl hi) trivial
            (fun _ _ hi _ => .refl hi) fun _ _ hi _ => .refl hi⟩
    | close =>
        cases hs
        exact ⟨.refl w, Discipline.Triple.safe_finish (.bind close_spec fun _ =>
          .ret (Q := fun _ _ => True) fun _ _ _ => trivial) (.refl hi) trivial
            (fun _ _ hi _ => .refl hi) fun _ _ hi _ => .refl hi⟩
  disturb := fun hi hd => by
    obtain ⟨hi', hg, hr⟩ := drop_sound hi hd
    exact ⟨hi', hg, fun u _ => hr u⟩

theorem inv_initial : Inv World.initial where
  commands := fun _ => List.nodup_nil
  users := nofun
  made := nofun
  ended := nofun
  pending := nofun
  alone := nofun
  unborn := fun _ _ => ⟨rfl, rfl, rfl⟩
  returned := nofun

/-- Only `close` cancels tasks. -/
theorem keeps_open : (runtime self).Keeps C
    fun w => w.closed = false → ∀ task, w.cancelled task = false where
  start := by
    intro w t c w' p hw _ hs
    cases c with
    | runAppend task =>
        simp only [runtime, start] at hs
        split at hs
        · cases hs
        · split at hs <;> cases hs
          exact hw
    | _ =>
        cases hs
        exact hw
  exec := by
    intro w t a hw
    cases a with
    | create segment =>
        obtain ⟨sequencers, heq⟩ := w.create_eq segment
        show (w.create segment).closed = false → ∀ task, (w.create segment).cancelled task = false
        rw [heq]
        exact hw
    | sequencer segmentId a =>
        obtain ⟨sequencers, heq⟩ := w.setSequencer_eq segmentId
          (execSequencer segmentId (w.sequencer segmentId) a).1
        show (w.setSequencer _ _).closed = false → ∀ task, (w.setSequencer _ _).cancelled task = false
        rw [heq]
        exact hw
    | close => exact nofun
    | _ => exact hw
  resume := by
    intro w t c e x w' r hw _ hr
    rcases resume_cases hr with ⟨rfl, -⟩ | ⟨segmentId, -, -, rfl, -⟩
    · exact hw
    · obtain ⟨sequencers, heq⟩ := w.setSequencer_eq segmentId
        { w.sequencer segmentId with holder := some t }
      rw [heq]
      exact hw
  finish := by
    intro w t c o hw
    simp only [runtime, finish]
    split <;> exact hw
  disturb := by
    intro w d w' hw hd
    obtain ⟨task⟩ := d
    simp only [runtime, disturb] at hd
    split at hd <;> cases hd
    exact hw

/-! ## Cancelled callers -/

theorem abandons_sequencerFor : (self.sequencerFor segment).Abandons := by
  refine .bind abandons_require fun _ => .bind abandons_require fun _ =>
    .bind (abandons_perform _) fun existing => ?_
  cases existing with
  | none => exact abandons_perform _
  | some existing => exact abandons_require

theorem abandons_appendLoop (looks : Nat) :
    (LogServerSequencerRegistry.appendLoop segment commandId payload turns looks).Abandons := by
  induction looks with
  | zero => exact .bind (abandons_await _) nofun
  | succ looks ih =>
      refine .bind (abandons_perform _) fun closed => .bind abandons_require fun _ =>
        .bind (abandons_perform _) fun p => ?_
      cases p with
      | none => exact .bind (abandons_perform _) fun task => abandons_await _
      | some p =>
          simp only
          split
          · exact .bind abandons_require fun _ => abandons_await _
          · exact .bind (abandons_await _) fun _ => ih

/-- The calls of `append` leave when they are cancelled. -/
def Leaves : Call → Co Outcome → Prop
  | .append .., p => p.Abandons
  | _, _ => True

theorem hereditary_leaves (c : Call) : Hereditary (Leaves c) := by
  cases c with
  | append => exact hereditary_abandons
  | _ => exact ⟨fun _ _ => trivial, fun _ _ => trivial⟩

theorem leaves_start {w w' : World} {p : Co Outcome} (h : start self w t c = some (w', p)) :
    Leaves c p := by
  cases c with
  | append segment commandId payload turns looks =>
      cases h
      exact .bind (.bind abandons_sequencerFor fun _ => abandons_appendLoop looks) fun _ => trivial
  | _ => trivial

theorem resume_cancel (w : World) (t : TaskId) (e : Wait) :
    resume w t e .cancel = if w.mayCancel t then some (w, .error .cancelled) else none := by
  cases e <;> rfl

/-- The appends of a registry do not get in each other's way. -/
structure Isolated (R : LogServerSequencerRegistry) (s : SystemState) : Prop where
  own : ∀ r ∈ s.world.returned, ∀ result, r.result = .ok result →
    s.world.Assigned r.segment.segmentId r.commandId r.payload result.position
  same : ∀ r ∈ s.world.returned, ∀ r' ∈ s.world.returned,
    r'.segment.segmentId = r.segment.segmentId → r'.commandId = r.commandId →
      r'.payload = r.payload → ∀ result result', r.result = .ok result →
        r'.result = .ok result' → result'.position = result.position
  conflict : ∀ r ∈ s.world.returned, ∀ message, r.result = .error (.entryConflict message) →
    message = r.commandId ∧ s.world.InUse r.segment.segmentId r.commandId r.payload
  /-- A cancelled caller changes nothing for anybody else. -/
  cancel : ∀ t segment commandId payload turns looks p s',
    s.tasks t = some (.append segment commandId payload turns looks, p) →
      (runtime R).step s (.resume t .cancel) = some s' →
        s'.world = { s.world with
          returned := ⟨segment, commandId, payload, .error .cancelled⟩ :: s.world.returned } ∧
        ∀ u, u ≠ t → s'.tasks u = s.tasks u
  /-- Nobody cancels the task of an append while the registry is open. -/
  goesOn : s.world.closed = false → ∀ task t, s.world.started task = some t →
    s.world.results task = none → (runtime R).step s (.resume t .cancel) = none

/-- A command has one position. -/
theorem World.Assigned.position_eq {w : World} (hi : Inv w) {segmentId : String}
    {position position' : Nat} (h : w.Assigned segmentId commandId payload position)
    (h' : w.Assigned segmentId commandId payload position') : position' = position := by
  obtain ⟨e, he, hcommand, -, rfl⟩ := h
  obtain ⟨e', he', hcommand', -, rfl⟩ := h'
  rw [List.inj_on_of_nodup_map (hi.commands segmentId) he' he (hcommand'.trans hcommand.symm)]

theorem cancel_append {s s' : SystemState} {p : Co Outcome}
    (h : s.tasks t = some (.append segment commandId payload turns looks, p)) (hp : p.Abandons)
    (hs : (runtime self).step s (.resume t .cancel) = some s') :
    s'.world = { s.world with
      returned := ⟨segment, commandId, payload, .error .cancelled⟩ :: s.world.returned } ∧
      ∀ u, u ≠ t → s'.tasks u = s.tasks u := by
  simp only [Runtime.step, h] at hs
  split at hs
  · next c e k heq =>
      cases heq
      obtain ⟨⟨w, r⟩, hr, rfl⟩ := Option.map_eq_some_iff.mp hs
      change resume s.world t e .cancel = some (w, r) at hr
      rw [resume_cancel] at hr
      split at hr
      · cases hr
        -- The exception ends the call at once.
        simp only [hp.1 Error.cancelled]
        exact ⟨rfl, fun u hu => Function.update_of_ne hu _ _⟩
      · cases hr
  · cases hs

theorem isolated {s : SystemState}
    (h : (runtime self).ReachableUnder (undisturbed self) (· = World.initial) s) :
    Isolated self s := by
  have hi : Inv s.world := (sound.reachable (fun w hw => hw ▸ inv_initial) h).1
  have hopen := keeps_open.reachable (fun w hw _ _ => by rw [hw]; rfl) h
  refine ⟨fun r hr => (hi.returned r hr).ok, fun r hr r' hr' hsid hcommand hpayload result result'
    hok hok' => ?_, fun r hr => (hi.returned r hr).conflict, ?_, fun hclosed task t hstarted hnone => ?_⟩
  · have hassigned := (hi.returned r' hr').ok result' hok'
    rw [hsid, hcommand, hpayload] at hassigned
    exact ((hi.returned r hr).ok result hok).position_eq hi hassigned
  · intro t segment commandId payload turns looks p s' ht hs
    exact cancel_append ht (ReachableUnder.tasks hereditary_leaves leaves_start h ht) hs
  · have hlt : task < s.world.spawned.length := by
      by_contra hle
      rw [(hi.unborn task (Nat.not_lt.mp hle)).2.1] at hstarted
      cases hstarted
    have hmay : s.world.mayCancel t = false := by
      rw [World.mayCancel, List.all_eq_false]
      refine ⟨task, List.mem_range.mpr hlt, ?_⟩
      simp [hstarted, hnone, hopen hclosed task]
    simp only [Runtime.step]
    split
    · next c e k ht =>
        change (resume s.world t e .cancel).map _ = none
        rw [resume_cancel, hmay]
        rfl
    · rfl

/-! ## Two runs of a registry -/

def registry : LogServerSequencerRegistry := ⟨"a", "1"⟩

def onA : Segment where
  segmentId := "initial"
  configuration :=
    { storageMembers := .abc
      sequencerNode := "a"
      sequencerIncarnation := "1"
      named := a_named
      incarnated := by decide
      member := FixedMembers.a_mem_abc }

/-- The segment's task of this number gets the lock. -/
def runs (task : Nat) : List (Action TaskId Call Choice Disturbance) :=
  [.launch ⟨"a", 10 + task⟩ (.runAppend task), .resume ⟨"a", 10 + task⟩ .done]

/-- All members store what it sends them. -/
def stored (task localTail : Nat) : Action TaskId Call Choice Disturbance :=
  let reply : Option Response := some (.state ⟨"initial", localTail, 0, 0, false⟩)
  .resume ⟨"a", 10 + task⟩ (.gathered [reply, reply, reply])

/-- `y` waits for a second append of `x`, whose payload differs from the first one's. -/
def conflictRun : List (Action TaskId Call Choice Disturbance) :=
  [.launch ⟨"a", 0⟩ (.append onA "x" [1] 1 2)] ++ runs 0 ++
    [stored 0 1, .resume ⟨"a", 0⟩ .done, .launch ⟨"a", 1⟩ (.append onA "x" [2] 1 2),
      .launch ⟨"a", 2⟩ (.append onA "y" [3] 1 2)] ++ runs 1 ++
    [.resume ⟨"a", 2⟩ .done]

theorem conflictRun_runs :
    ((runtime registry).run (fresh _ _ _ _ World.initial) conflictRun).map (fun s =>
      s.world.returned.map fun r => (r.commandId, r.result)) =
    some [("y", .error (.entryConflict "x")), ("x", .ok ⟨0, 1⟩)] := by
  decide +kernel

theorem not_isolated :
    ∃ s : SystemState, (runtime registry).Reachable (· = World.initial) s ∧
      ¬Isolated registry s := by
  obtain ⟨s, hs, hpost⟩ := Option.map_eq_some_iff.mp conflictRun_runs
  refine ⟨s, Reachable.run (.init rfl) hs, fun h => ?_⟩
  have hmem : ("y", Except.error (Error.entryConflict "x")) ∈
      s.world.returned.map fun r => (r.commandId, r.result) := by
    rw [hpost]
    exact List.mem_cons_self
  obtain ⟨r, hr, heq⟩ := List.mem_map.mp hmem
  obtain ⟨hcommand, hresult⟩ := Prod.mk.inj heq
  have hmessage := (h.conflict r hr "x" hresult).1
  rw [hcommand] at hmessage
  exact absurd hmessage (by decide)

def meetsUndisturbed (s : SystemState) : Action TaskId Call Choice Disturbance → Bool
  | .launch _ (.append segment commandId _ _ _) => decide (s.world.Calm segment.segmentId commandId)
  | .resume t .done =>
      match s.tasks t with
      | some (.append segment commandId _ _ _, _) =>
          decide (s.world.Calm segment.segmentId commandId)
      | _ => true
  | _ => true

theorem meets_of_meetsUndisturbed (s : SystemState) (a : Action TaskId Call Choice Disturbance)
    (h : meetsUndisturbed s a = true) : Meets (undisturbed registry) s a := by
  cases a with
  | launch t c =>
      rintro segment commandId payload turns looks rfl -
      exact of_decide_eq_true h
  | resume t x =>
      rintro c e k ht segment commandId payload turns looks rfl hlooks
      cases x with
      | done =>
          simp only [meetsUndisturbed, ht] at h
          exact of_decide_eq_true h
      | gathered replies => cases e <;> exact False.elim hlooks
      | cancel => cases e <;> exact False.elim hlooks
  | disturb d => trivial

/-- Two calls append `x`; one of them is cancelled while it waits, and `y` waits for them. -/
def isolatedRun : List (Action TaskId Call Choice Disturbance) :=
  [.launch ⟨"a", 0⟩ (.append onA "x" [1] 1 2), .launch ⟨"a", 1⟩ (.append onA "x" [1] 1 2)] ++
    runs 0 ++
    [.launch ⟨"a", 2⟩ (.append onA "y" [3] 1 2), .resume ⟨"a", 0⟩ .cancel, stored 0 1,
      .resume ⟨"a", 1⟩ .done, .resume ⟨"a", 2⟩ .done] ++
    runs 1 ++ [stored 1 2, .resume ⟨"a", 2⟩ .done]

theorem isolatedRun_runs :
    ((runtime registry).runWhile meetsUndisturbed (fresh _ _ _ _ World.initial) isolatedRun).map
      (fun s => s.world.returned.map fun r => (r.commandId, r.result)) =
    some [("y", .ok ⟨1, 2⟩), ("x", .ok ⟨0, 1⟩), ("x", .error .cancelled)] := by
  decide +kernel

theorem isolated_waiting :
    ∃ s : SystemState, (s.world.returned.map fun r => (r.commandId, r.result)) =
      [("y", .ok ⟨1, 2⟩), ("x", .ok ⟨0, 1⟩), ("x", .error .cancelled)] ∧ Isolated registry s := by
  obtain ⟨s, hs, hpost⟩ := Option.map_eq_some_iff.mp isolatedRun_runs
  exact ⟨s, hpost, isolated (ReachableUnder.runWhile meets_of_meetsUndisturbed (.init rfl) hs)⟩

end DelosLab.NativeLoglet.Registry
