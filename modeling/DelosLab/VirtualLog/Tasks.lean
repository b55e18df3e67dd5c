import DelosLab.VirtualLog.Discipline

/-!
# The functions of a VirtualLog instance

One lemma says how each wait may end; from it every function of the instance gets
one triple, and a caller's proof uses the triples of what it calls.
-/

namespace DelosLab.VirtualLog

open Async Async.Coroutine

variable {P : Type}

/-! ## How a wait ends -/

/-- How a wait of task `t` may end in the world `w`, and the world afterwards. -/
inductive Resumed (𝒮 : Deployment) (t : TaskId) (w : World P) :
    (e : Wait P) → World P → Except Error (WaitResult P e) → Prop
  | failed {e : Wait P} (err : Error) : Resumed 𝒮 t w e w (.error err)
  | acquired : Resumed 𝒮 t w .acquire
      (w.onInstance t.node fun i => { i with lock := some t }) (.ok ())
  | slept : Resumed 𝒮 t w .sleep w (.ok ())
  | read {call : Nat} {s : VersionedLogChain P} (h : (call, RegisterReply.read s) ∈ w.replies) :
      Resumed 𝒮 t w (.readResponse call) w (.ok s)
  | swapped {call : Nat} {r : CompareAndSetResult P}
      (h : (call, RegisterReply.compareAndSet r) ∈ w.replies) :
      Resumed 𝒮 t w (.casResponse call) w (.ok r)
  | appended {segment : LogSegment P} {commandId : String} {payload : Bytes} {position : Nat}
      {w' : World P}
      (h : w.answer 𝒮.contract (.appended segment.segmentId commandId position) = some w') :
      Resumed 𝒮 t w (.append segment commandId payload)
        { w' with
          lastAppend := Function.update w'.lastAppend t (segment.segmentId, position) }
        (.ok position)
  | sealed {segment : LogSegment P} {w' : World P}
      (h : w.answer 𝒮.contract (.sealed segment.segmentId) = some w') :
      Resumed 𝒮 t w (.seal segment) w' (.ok ())
  | tail {segment : LogSegment P} {tail : LogletTail} {w' : World P}
      (h : w.answer 𝒮.contract (.tail segment.segmentId tail.tail tail.sealed) = some w') :
      Resumed 𝒮 t w (.checkTail segment) w' (.ok tail)
  | next {segment : LogSegment P} {localStart localStop : Nat} (entry : Option LogletEntry) :
      Resumed 𝒮 t w (.readNext segment localStart localStop) w (.ok entry)
  | trimmed {segment : LogSegment P} {trimPosition watermark : Nat} {w' : World P}
      (h : w.answer 𝒮.contract (.trimmed segment.segmentId watermark) = some w') :
      Resumed 𝒮 t w (.prefixTrim segment trimPosition) w' (.ok watermark)
  | successor {failed : LogSegment P} (loglet : LogletConfiguration P) :
      Resumed 𝒮 t w (.successor failed)
        { w with drawn := Function.update w.drawn t (w.drawn t + 1) }
        (.ok ⟨𝒮.uuids.id t (w.drawn t), loglet, 𝒮.uuids.named t (w.drawn t)⟩)

theorem resumed_of_resume {𝒮 : Deployment} {t : TaskId} {w w' : World P} {e : Wait P}
    {x : Choice P} {r : Except Error (WaitResult P e)}
    (h : 𝒮.resume w t e x = some (w', r)) : Resumed 𝒮 t w e w' r := by
  unfold Deployment.resume at h
  split at h
  · cases h
    exact .failed _
  · split at h
    · cases h
      exact .acquired
    · cases h
  · cases h
    exact .slept
  · split at h
    · next hl =>
        cases h
        exact .read (mem_of_lookup hl)
    · cases h
  · split at h
    · next hl =>
        cases h
        exact .swapped (mem_of_lookup hl)
    · cases h
  · obtain ⟨w₁, hw, heq⟩ := Option.map_eq_some_iff.mp h
    cases heq
    exact .appended hw
  · obtain ⟨w₁, hw, heq⟩ := Option.map_eq_some_iff.mp h
    cases heq
    exact .sealed hw
  · obtain ⟨w₁, hw, heq⟩ := Option.map_eq_some_iff.mp h
    cases heq
    exact .tail hw
  · cases h
    exact .next _
  · obtain ⟨w₁, hw, heq⟩ := Option.map_eq_some_iff.mp h
    cases heq
    exact .trimmed hw
  · cases h
    exact .successor _
  · cases h

/-- A Loglet's answer leaves everything but the answers alone. -/
theorem World.answer_eq {w w' : World P} {contract : LogletContract} {e : LogletEvent}
    (h : w.answer contract e = some w') : w' = { w with events := e :: w.events } := by
  unfold World.answer at h
  split at h
  · exact (Option.some.inj h).symm
  · cases h

namespace Resumed

variable {𝒮 : Deployment} {t : TaskId} {w w' : World P} {e : Wait P}
  {r : Except Error (WaitResult P e)}

theorem inv (h : Resumed 𝒮 t w e w' r) (hi : Inv 𝒮 w) : Inv 𝒮 w' := by
  cases h with
  | failed err => exact hi
  | acquired => exact hi.onInstance fun s hs => hi.cached t.node s hs
  | slept => exact hi
  | read h => exact hi
  | swapped h => exact hi
  | appended h =>
      have hi' := (hi.answer h).1
      exact { hi' with }
  | sealed h => exact (hi.answer h).1
  | tail h => exact (hi.answer h).1
  | next entry => exact hi
  | trimmed h => exact (hi.answer h).1
  | successor loglet => exact hi.draw t

theorem grow (h : Resumed 𝒮 t w e w' r) : Grow w w' := by
  cases h with
  | failed err => exact Grow.refl w
  | acquired => exact ⟨List.prefix_refl _, List.Subset.refl _⟩
  | slept => exact Grow.refl w
  | read h => exact Grow.refl w
  | swapped h => exact Grow.refl w
  | appended h =>
      obtain rfl := World.answer_eq h
      exact ⟨List.prefix_refl _, List.subset_cons_self _ _⟩
  | sealed h =>
      obtain rfl := World.answer_eq h
      exact ⟨List.prefix_refl _, List.subset_cons_self _ _⟩
  | tail h =>
      obtain rfl := World.answer_eq h
      exact ⟨List.prefix_refl _, List.subset_cons_self _ _⟩
  | next entry => exact Grow.refl w
  | trimmed h =>
      obtain rfl := World.answer_eq h
      exact ⟨List.prefix_refl _, List.subset_cons_self _ _⟩
  | successor loglet => exact ⟨List.prefix_refl _, List.Subset.refl _⟩

/-- Segments and proposals are the register's business alone. -/
theorem frame (h : Resumed 𝒮 t w e w' r) : w'.history = w.history ∧ w'.pending = w.pending := by
  cases h with
  | failed err => exact ⟨rfl, rfl⟩
  | acquired => exact ⟨rfl, rfl⟩
  | slept => exact ⟨rfl, rfl⟩
  | read h => exact ⟨rfl, rfl⟩
  | swapped h => exact ⟨rfl, rfl⟩
  | appended h =>
      obtain rfl := World.answer_eq h
      exact ⟨rfl, rfl⟩
  | sealed h =>
      obtain rfl := World.answer_eq h
      exact ⟨rfl, rfl⟩
  | tail h =>
      obtain rfl := World.answer_eq h
      exact ⟨rfl, rfl⟩
  | next entry => exact ⟨rfl, rfl⟩
  | trimmed h =>
      obtain rfl := World.answer_eq h
      exact ⟨rfl, rfl⟩
  | successor loglet => exact ⟨rfl, rfl⟩

end Resumed

/-- Waits whose end draws no identifier and records no append. -/
def Wait.Quiet : Wait P → Prop
  | .append _ _ _ => False
  | .successor _ => False
  | _ => True

/-- A task's own counters move only at an append and at a drawn identifier. -/
theorem Resumed.counters {𝒮 : Deployment} {t u : TaskId} {w w' : World P} {e : Wait P}
    {r : Except Error (WaitResult P e)} (h : Resumed 𝒮 t w e w' r) (hu : e.Quiet ∨ u ≠ t) :
    w'.drawn u = w.drawn u ∧ w'.lastAppend u = w.lastAppend u := by
  cases h with
  | failed err => exact ⟨rfl, rfl⟩
  | acquired => exact ⟨rfl, rfl⟩
  | slept => exact ⟨rfl, rfl⟩
  | read h => exact ⟨rfl, rfl⟩
  | swapped h => exact ⟨rfl, rfl⟩
  | appended h =>
      obtain rfl := World.answer_eq h
      rcases hu with hq | hu
      · exact hq.elim
      · exact ⟨rfl, Function.update_of_ne hu _ _⟩
  | sealed h =>
      obtain rfl := World.answer_eq h
      exact ⟨rfl, rfl⟩
  | tail h =>
      obtain rfl := World.answer_eq h
      exact ⟨rfl, rfl⟩
  | next entry => exact ⟨rfl, rfl⟩
  | trimmed h =>
      obtain rfl := World.answer_eq h
      exact ⟨rfl, rfl⟩
  | successor loglet =>
      rcases hu with hq | hu
      · exact hq.elim
      · exact ⟨Function.update_of_ne hu _ _, rfl⟩

theorem Resumed.rely {𝒮 : Deployment} {t u : TaskId} {w w' : World P} {e : Wait P}
    {r : Except Error (WaitResult P e)} (h : Resumed 𝒮 t w e w' r) (hu : e.Quiet ∨ u ≠ t) :
    Rely 𝒮 u w w' := by
  obtain ⟨hdrawn, hlast⟩ := h.counters hu
  obtain ⟨hhist, hpend⟩ := h.frame
  refine ⟨hdrawn, hlast, fun n hn => hn.mono hhist ?_⟩
  rintro call chain ⟨expected, hm⟩
  exact ⟨expected, hpend ▸ hm⟩

/-! ## Candidates -/

/-- A segment that a chain of the history has kept its identifier. -/
theorem drawn_of_ids {𝒮 : Deployment} {t : TaskId} {w : World P} {s : Snapshot P} {chain : LogChain P}
    (hs : Installed w.history s) (h : ∀ id ∈ chain.ids, id ∈ s.chain.ids) :
    Drawn 𝒮 t w chain := by
  obtain ⟨n, -, hn⟩ := hs
  exact fun id hid => .inl ⟨s.chain, List.mem_of_getElem? hn, h id hid⟩

/-- What a physical seal and a sealed tail make a legal successor. -/
theorem proposable_extends {𝒮 : Deployment} {t : TaskId} {w : World P} {s : Snapshot P} {next : NewLogletConfiguration P}
    {chain : LogChain P} {length : Nat} (hs : Installed w.history s)
    (hown : Owns 𝒮 t next.segmentId w)
    (hsealed : LogletEvent.sealed s.chain.active.segmentId ∈ w.events)
    (htail : LogletEvent.tail s.chain.active.segmentId length true ∈ w.events)
    (hc : chain.segments = s.chain.segments.dropLast ++
      [s.chain.active.close length, next.activate (s.chain.active.virtualStart + length)]) :
    Proposable w.events w.history s.version chain ∧ Drawn 𝒮 t w chain := by
  obtain ⟨n, hv, hn⟩ := hs
  have hactive : chain.active = next.activate (s.chain.active.virtualStart + length) :=
    LogChain.active_eq_of_concat hc
  refine ⟨.inr ⟨n, s.chain, hv, hn, .extends ⟨length, _, hc, rfl, rfl, htail⟩ ?_, .inr hsealed⟩,
    ?_⟩
  · intro c hcm
    rw [hactive]
    exact hown.1.1 c hcm
  · intro id hid
    obtain ⟨u, hu, rfl⟩ := List.mem_map.mp hid
    rw [hc, List.mem_append, List.mem_cons, List.mem_singleton] at hu
    rcases hu with hu | rfl | rfl
    · exact .inl ⟨s.chain, List.mem_of_getElem? hn, List.mem_map_of_mem (List.dropLast_subset _ hu)⟩
    · have hid : s.chain.active.segmentId ∈ s.chain.ids := List.mem_map_of_mem s.chain.active_mem
      exact .inl ⟨s.chain, List.mem_of_getElem? hn, hid⟩
    · exact .inr hown

/-- Replacing the configuration of the selected segment in place. -/
theorem modify_segments {chain : LogChain P} {id : String} {selected : LogSegment P}
    (h : chain.segments.find? (fun s => s.segmentId == id) = some selected) :
    ∃ xs ys, chain.segments = xs ++ selected :: ys ∧ ∀ u : LogSegment P,
      chain.segments.set (chain.segments.findIdx fun s => s.segmentId == id) u = xs ++ u :: ys := by
  generalize chain.segments = segments at h
  induction segments with
  | nil => cases h
  | cons s rest ih =>
      by_cases hs : (s.segmentId == id) = true
      · simp only [List.find?_cons, hs, Option.some.injEq] at h
        subst h
        refine ⟨[], rest, rfl, fun u => ?_⟩
        rw [List.findIdx_cons, hs]
        rfl
      · simp only [List.find?_cons, hs] at h
        obtain ⟨xs, ys, hxs, hset⟩ := ih h
        refine ⟨s :: xs, ys, by rw [hxs]; rfl, fun u => ?_⟩
        rw [List.findIdx_cons, Bool.of_not_eq_true hs]
        exact congrArg (s :: ·) (hset u)

/-! ## The discipline -/

theorem exec_grow (𝒮 : Deployment) (w : World P) (t : TaskId) (a : Act P) :
    Grow w (𝒮.exec w t a).1 := by
  cases a <;> exact ⟨List.prefix_refl _, List.Subset.refl _⟩

theorem finish_grow (w : World P) (t : TaskId) (c : Call P) (o : Except Error (Outcome P)) :
    Grow w (Deployment.finish w t c o) := by
  unfold Deployment.finish
  split
  · exact ⟨List.prefix_refl _, List.Subset.refl _⟩
  · exact Grow.refl w

/-- A drawn identifier is the drawer's own. -/
theorem owns_draw {𝒮 : Deployment} {t : TaskId} {w : World P} (hi : Inv 𝒮 w) :
    Owns 𝒮 t (𝒮.uuids.id t (w.drawn t))
      { w with drawn := Function.update w.drawn t (w.drawn t + 1) } := by
  refine ⟨hi.undrawn t (w.drawn t) (Nat.le_refl _), w.drawn t, rfl, ?_⟩
  simp only [Function.update_self]
  exact Nat.lt_succ_self _

section Discipline

variable [DecidableEq P]

/-- What the tasks of a deployment keep in every run. -/
def discipline (𝒮 : Deployment) : Discipline (𝒮.runtime (P := P)) Condition.any where
  Inv := Inv 𝒮
  Grow := Grow
  Rely := Rely 𝒮
  grow_refl := Grow.refl
  grow_trans := Grow.trans
  rely_refl := Rely.refl 𝒮
  rely_trans := Rely.trans
  exec_grow := exec_grow 𝒮
  resume_grow := fun h => (resumed_of_resume h).grow
  finish_grow := finish_grow

variable {𝒮 : Deployment} {t : TaskId} {c : Call P} {α : Type}

/-- The triple of a function that may raise anything. -/
abbrev Ensures (𝒮 : Deployment) (t : TaskId) (c : Call P) (F : World P → Prop) (p : Co P α)
    (Q : World P → α → Prop) : Prop :=
  (discipline 𝒮).Triple t c F p Q fun _ _ => True

theorem persistent_installed (s : Snapshot P) :
    (discipline 𝒮).Persistent fun w : World P => Installed w.history s :=
  fun _ _ hg h => h.mono hg.history

theorem persistent_event (e : LogletEvent) : (discipline 𝒮).Persistent fun w : World P => e ∈ w.events :=
  fun _ _ hg h => hg.events h

theorem lasting_owns (id : String) : (discipline 𝒮).Lasting t fun w : World P => Owns 𝒮 t id w :=
  fun _ _ _ hr h => h.stable hr

/-! ## Acts and waits -/

/-- A quiet wait keeps every lasting fact. -/
theorem wait_quiet {F : World P → Prop} {e : Wait P} {Q : World P → WaitResult P e → Prop}
    (hF : (discipline 𝒮).Lasting t F) (he : e.Quiet)
    (h : ∀ w w' a, Inv 𝒮 w → F w' → Resumed 𝒮 t w e w' (.ok a) → Q w' a) :
    Ensures 𝒮 t c F (wait e) Q := by
  refine Discipline.Triple.wait hF.stable fun w x w' r hi hf _ hs => ?_
  have hr := resumed_of_resume hs
  refine ⟨⟨hr.inv hi, fun u hu => hr.rely (.inr hu)⟩, fun a ha => ?_, fun _ _ => trivial⟩
  subst ha
  exact h w w' a hi (hF w w' hr.grow (hr.rely (.inl he)) hf) hr

/-- Any wait keeps every persistent fact. -/
theorem wait_persistent {F : World P → Prop} {e : Wait P} {Q : World P → WaitResult P e → Prop}
    (hF : (discipline 𝒮).Persistent F) (h : ∀ w w' a, Inv 𝒮 w → F w' → Resumed 𝒮 t w e w' (.ok a) → Q w' a) :
    Ensures 𝒮 t c F (wait e) Q := by
  refine Discipline.Triple.wait hF.lasting.stable fun w x w' r hi hf _ hs => ?_
  have hr := resumed_of_resume hs
  refine ⟨⟨hr.inv hi, fun u hu => hr.rely (.inr hu)⟩, fun a ha => ?_, fun _ _ => trivial⟩
  subst ha
  exact h w w' a hi (hF w w' hr.grow hf) hr

theorem cached_spec (F : World P → Prop) :
    Ensures 𝒮 t c F cached fun w s => Installed w.history s ∧ F w := by
  refine .bind (Q := fun w s => (∀ s', s = some s' → Known w.history s') ∧ F w) ?_ fun s => ?_
  · refine .act fun w hi hf => ⟨.refl hi, fun s hs => hi.cached t.node s hs, hf⟩
  · cases s with
    | none => exact .raise fun _ _ _ => trivial
    | some s =>
        cases hc : s.chain with
        | none =>
            simp only [hc]
            exact .raise fun _ _ _ => trivial
        | some chain =>
            simp only [hc]
            exact .ret fun w _ hq => ⟨(hq.1 s rfl).installed hc, hq.2⟩

/-- Caching a snapshot that was installed. -/
theorem setCached_spec {F : World P → Prop} (hF : (discipline 𝒮).Lasting t F) (s : VersionedLogChain P) :
    Ensures 𝒮 t c (fun w => Known w.history s ∧ F w) (act (.setCached s)) fun w _ => F w := by
  refine .act fun w hi hf => ?_
  have hr : ∀ u, Rely 𝒮 u w (𝒮.exec w t (.setCached s)).1 := fun u => ⟨rfl, rfl, fun _ h => h⟩
  have hi' : Inv 𝒮 (𝒮.exec w t (.setCached s)).1 := by
    show Inv 𝒮 (w.onInstance t.node fun i => { i with cached := some s })
    refine hi.onInstance fun s' hs => ?_
    obtain rfl := Option.some.inj hs
    exact hf.1
  exact ⟨⟨hi', fun u _ => hr u⟩, hF _ _ (exec_grow 𝒮 w t _) (hr t) hf.2⟩

theorem release_spec {F : World P → Prop} (hF : (discipline 𝒮).Lasting t F) :
    Ensures 𝒮 t c F (act .release) fun w _ => F w := by
  refine .act fun w hi hf => ?_
  have hr : ∀ u, Rely 𝒮 u w (𝒮.exec w t .release).1 := fun u => ⟨rfl, rfl, fun _ h => h⟩
  have hi' : Inv 𝒮 (𝒮.exec w t .release).1 := by
    show Inv 𝒮 (w.onInstance t.node fun i => { i with lock := none })
    exact hi.onInstance fun s' hs => hi.cached t.node s' hs
  exact ⟨⟨hi', fun u _ => hr u⟩, hF _ _ (exec_grow 𝒮 w t _) (hr t) hf⟩

theorem uuid4_spec {F : World P → Prop} (hF : (discipline 𝒮).Persistent F) :
    Ensures 𝒮 t c F (act .uuid4) fun w id => Owns 𝒮 t id.1 w ∧ F w := by
  refine .act fun w hi hf => ⟨⟨hi.draw t, fun u hu => ⟨?_, rfl, fun _ h => h⟩⟩, owns_draw hi, ?_⟩
  · exact Function.update_of_ne hu _ _
  · exact hF _ _ (exec_grow 𝒮 w t _) hf

theorem successor_spec (failed : LogSegment P) {F : World P → Prop} (hF : (discipline 𝒮).Persistent F) :
    Ensures 𝒮 t c F (wait (.successor failed)) fun w next => Owns 𝒮 t next.segmentId w := by
  refine wait_persistent hF fun w w' next hi _ hr => ?_
  cases hr with
  | successor loglet => exact owns_draw hi

/-! ## The register -/

theorem readRegister_spec {F : World P → Prop} (hF : (discipline 𝒮).Lasting t F) :
    Ensures 𝒮 t c F readRegister fun w s => Known w.history s ∧ F w := by
  refine .bind (Q := fun w _ => F w) ?_ fun call => ?_
  · refine .act fun w hi hf => ?_
    have hr : ∀ u, Rely 𝒮 u w (𝒮.exec w t (.invoke .read)).1 := by
      refine fun u => ⟨rfl, rfl, fun n hn => hn.mono rfl ?_⟩
      rintro call chain ⟨expected, hm⟩
      rcases List.mem_cons.mp hm with hm | hm
      · simp at hm
      · exact ⟨expected, hm⟩
    exact ⟨⟨hi.invokeRead, fun u _ => hr u⟩, hF _ _ (exec_grow 𝒮 w t _) (hr t) hf⟩
  · refine wait_quiet hF trivial fun w w' s hi hf hr => ?_
    cases hr with
    | read h => exact ⟨hi.read call s h, hf⟩

/-- A `compare_and_set` of a legal proposal. -/
theorem compareAndSet_spec {F : World P → Prop} (hF : (discipline 𝒮).Persistent F) (expected : Nat)
    (chain : LogChain P) :
    Ensures 𝒮 t c
      (fun w => Proposable w.events w.history expected chain ∧ Drawn 𝒮 t w chain ∧ F w)
      (compareAndSet expected chain) fun w r => Known w.history r.current ∧ F w := by
  refine .bind (Q := fun w _ => F w) ?_ fun call => ?_
  · refine .act fun w hi hf => ?_
    obtain ⟨hp, hd, hf⟩ := hf
    refine ⟨⟨hi.invokeCompareAndSet hp hd, fun u hu => ⟨rfl, rfl, fun n hn => ?_⟩⟩,
      hF _ _ (exec_grow 𝒮 w t _) hf⟩
    -- The others' unused identifiers do not occur in this proposal.
    refine ⟨hn.1, fun call chain' hc hid => ?_⟩
    obtain ⟨v, hm⟩ := hc
    rcases List.mem_cons.mp hm with hm | hm
    · simp only [Prod.mk.injEq, RegisterCall.compareAndSet.injEq] at hm
      obtain ⟨-, -, rfl⟩ := hm
      rcases hd _ hid with ⟨c', hc', hidc'⟩ | ⟨-, m, hm, -⟩
      · exact hn.1 c' hc' hidc'
      · exact hu (𝒮.uuids.injective _ _ _ _ hm).1
    · exact hn.2 call chain' ⟨v, hm⟩ hid
  · refine wait_quiet hF.lasting trivial fun w w' s hi hf hr => ?_
    cases hr with
    | swapped h => exact ⟨hi.swapped call s h, hf⟩

theorem refresh_spec {F : World P → Prop} (hF : (discipline 𝒮).Lasting t F) :
    Ensures 𝒮 t c F refresh fun w s => Installed w.history s ∧ F w := by
  refine .bind (readRegister_spec hF) fun s => ?_
  cases hc : s.chain with
  | none =>
      exact .raise fun _ _ _ => trivial
  | some chain =>
      refine .bind (Q := fun w _ => Installed w.history ⟨s.version, chain⟩ ∧ F w) ?_ fun _ => ?_
      · refine (setCached_spec ((persistent_installed _).lasting.and hF) s).pre fun w _ hq => ?_
        exact ⟨hq.1, hq.1.installed hc, hq.2⟩
      · exact .ret fun _ _ hq => hq

theorem install_spec (expected : Snapshot P) (candidate : LogChain P) :
    Ensures 𝒮 t c
      (fun w => Proposable w.events w.history expected.version candidate ∧ Drawn 𝒮 t w candidate)
      (install expected candidate) fun _ _ => True := by
  refine .bind ((compareAndSet_spec (Discipline.persistent_const True) expected.version candidate).pre
    fun w _ hq => ⟨hq.1, hq.2, trivial⟩) fun r => ?_
  cases hc : r.current.chain with
  | none =>
      simp only [hc]
      exact .raise fun _ _ _ => trivial
  | some chain =>
      simp only [hc]
      refine .bind (setCached_spec (Discipline.persistent_const True).lasting r.current) fun _ => ?_
      exact .ret fun _ _ _ => trivial

/-- Bootstrapping proposes one open segment at zero. -/
theorem bootstrap_spec (initialSegment : LogSegment P) :
    Ensures 𝒮 t c (fun w => Owns 𝒮 t initialSegment.segmentId w) (bootstrap initialSegment)
      fun _ _ => True := by
  refine .bind (.require (Q := fun w _ => Owns 𝒮 t initialSegment.segmentId w ∧
    initialSegment.virtualStart = 0 ∧ initialSegment.virtualStop = none) ?_ ?_) fun _ => ?_
  · exact fun w _ h hp => ⟨h, hp⟩
  · exact fun _ _ _ _ => trivial
  refine .bind (.orRaise (Q := fun w chain => Owns 𝒮 t initialSegment.segmentId w ∧
    chain.segments = [initialSegment] ∧ initialSegment.virtualStart = 0 ∧
    initialSegment.virtualStop = none) ?_ ?_) fun chain => ?_
  · exact fun w chain _ h hc => ⟨h.1, LogChain.ofSegments_eq_some hc, h.2⟩
  · exact fun _ _ _ _ => trivial
  refine .bind ((compareAndSet_spec (Discipline.persistent_const True) 0 chain).pre fun w _ h => ?_) fun r => ?_
  · obtain ⟨howns, hseg, hstart⟩ := h
    refine ⟨.inl ⟨rfl, initialSegment, hseg, hstart⟩, fun id hid => .inr ?_, trivial⟩
    simp only [LogChain.ids, hseg, List.map_cons, List.map_nil, List.mem_singleton] at hid
    rw [hid]
    exact howns
  · cases hc : r.current.chain with
    | none =>
        simp only [hc]
        exact .raise fun _ _ _ => trivial
    | some chain =>
        simp only [hc]
        refine .bind (setCached_spec (Discipline.persistent_const True).lasting r.current) fun _ => ?_
        exact .ret fun _ _ _ => trivial

/-! ## Reconfiguration -/

theorem reconfigExtend_spec (self : VirtualLog) (next : NewLogletConfiguration P) :
    Ensures 𝒮 t c (fun w => Owns 𝒮 t next.segmentId w) (self.reconfigExtend next)
      fun _ _ => True := by
  refine .bind (cached_spec _) fun s => ?_
  -- The snapshot stays installed and the identifier stays ours during both calls.
  have hF : (discipline 𝒮).Lasting t
      fun w : World P => Installed w.history s ∧ Owns 𝒮 t next.segmentId w :=
    (persistent_installed s).lasting.and (lasting_owns _)
  have hF' := hF.and (persistent_event (.sealed s.chain.active.segmentId)).lasting
  refine .bind (.require (Q := fun w _ => Installed w.history s ∧ Owns 𝒮 t next.segmentId w)
    (fun _ _ h _ => h) fun _ _ _ _ => trivial) fun _ => ?_
  refine .bind (Q := fun w _ => (Installed w.history s ∧ Owns 𝒮 t next.segmentId w) ∧
    LogletEvent.sealed s.chain.active.segmentId ∈ w.events)
    (wait_quiet hF trivial fun w w' _ hi h hr => ⟨h, ?_⟩) fun _ => ?_
  · cases hr with
    | sealed ha =>
        obtain rfl := World.answer_eq ha
        exact List.mem_cons_self
  refine .bind (Q := fun w (tail : LogletTail) => ((Installed w.history s ∧
    Owns 𝒮 t next.segmentId w) ∧ LogletEvent.sealed s.chain.active.segmentId ∈ w.events) ∧
    LogletEvent.tail s.chain.active.segmentId tail.tail tail.sealed ∈ w.events)
    (wait_quiet hF' trivial fun w w' tail hi h hr => ⟨h, ?_⟩) fun tail => ?_
  · cases hr with
    | tail ha =>
        obtain rfl := World.answer_eq ha
        exact List.mem_cons_self
  refine .bind (.require (Q := fun w _ => ((Installed w.history s ∧
    Owns 𝒮 t next.segmentId w) ∧ LogletEvent.sealed s.chain.active.segmentId ∈ w.events) ∧
    LogletEvent.tail s.chain.active.segmentId tail.tail true ∈ w.events)
    (fun w _ h hs => hs ▸ h) fun _ _ _ _ => trivial) fun _ => ?_
  refine .bind (.orRaise (Q := fun w chain =>
    Proposable w.events w.history s.version chain ∧ Drawn 𝒮 t w chain)
    (fun w chain _ h hc => ?_) fun _ _ _ _ => trivial) fun chain => ?_
  · exact proposable_extends h.1.1.1 h.1.1.2 h.1.2 h.2 (LogChain.ofSegments_eq_some hc)
  · exact install_spec s chain

theorem reconfigTruncate_spec (self : VirtualLog) :
    Ensures 𝒮 t c (fun _ : World P => True) self.reconfigTruncate fun _ _ => True := by
  refine .bind (cached_spec _) fun s => ?_
  refine .bind (.require (Q := fun w _ => Installed w.history s)
    (fun _ _ h _ => h.1) fun _ _ _ _ => trivial) fun _ => ?_
  split
  · exact .ret fun _ _ _ => trivial
  simp only
  split
  · exact .raise fun _ _ _ => trivial
  · next stop hstop =>
      refine .bind (wait_persistent (Q := fun w watermark => Installed w.history s ∧
        LogletEvent.trimmed s.chain.first.segmentId watermark ∈ w.events)
        (persistent_installed s) fun w w' watermark hi h hr => ⟨h, ?_⟩) fun watermark => ?_
      · cases hr with
        | trimmed ha =>
            obtain rfl := World.answer_eq ha
            exact List.mem_cons_self
      split
      · exact .ret fun _ _ _ => trivial
      · next hle =>
          refine .bind (.orRaise (Q := fun w chain =>
            Proposable w.events w.history s.version chain ∧ Drawn 𝒮 t w chain)
            (fun w chain _ h hc => ?_) fun _ _ _ _ => trivial) fun chain => install_spec s chain
          have hseg := LogChain.ofSegments_eq_some hc
          refine ⟨?_, drawn_of_ids h.1 fun id hid => ?_⟩
          · obtain ⟨n, hv, hn⟩ := h.1
            have hsegments : s.chain.segments = s.chain.first :: chain.segments := by
              rw [hseg]
              exact s.chain.segments_eq_cons
            have htruncates : Truncates w.events s.chain chain :=
              ⟨stop, watermark, hsegments, hstop, h.2, Nat.le_of_not_lt hle⟩
            exact .inr ⟨n, s.chain, hv, hn, .truncates htruncates,
              .inl (congrArg LogSegment.segmentId htruncates.active)⟩
          · obtain ⟨u, hu, rfl⟩ := List.mem_map.mp hid
            exact List.mem_map_of_mem (List.mem_of_mem_tail (hseg ▸ hu))

theorem reconfigModify_spec (update : LogletConfigurationUpdate P) :
    Ensures 𝒮 t c (fun _ : World P => True) (reconfigModify update) fun _ _ => True := by
  refine .bind (cached_spec _) fun s => ?_
  simp only
  split
  · exact .raise fun _ _ _ => trivial
  · next selected hfind =>
      split
      · exact .raise fun _ _ _ => trivial
      · next hclosed =>
          split
          · exact .ret fun _ _ _ => trivial
          · next hne =>
              refine .bind (.orRaise (Q := fun w chain =>
                Proposable w.events w.history s.version chain ∧ Drawn 𝒮 t w chain)
                (fun w chain _ h hc => ?_) fun _ _ _ _ => trivial) fun chain => install_spec s chain
              have hseg := LogChain.ofSegments_eq_some hc
              obtain ⟨xs, ys, hold, hset⟩ := modify_segments hfind
              rw [hset] at hseg
              refine ⟨?_, drawn_of_ids h.1 fun id hid => ?_⟩
              · obtain ⟨n, hv, hn⟩ := h.1
                have hmodifies : Modifies s.chain chain :=
                  ⟨xs, selected, ys, update.loglet, hold, hseg, hclosed, hne⟩
                exact .inr ⟨n, s.chain, hv, hn, .modifies hmodifies,
                  .inl (congrArg LogSegment.segmentId hmodifies.active)⟩
              · simpa [LogChain.ids, hseg, hold] using hid

theorem refreshIfActive_spec {F : World P → Prop} (hF : (discipline 𝒮).Lasting t F)
    (expected : LogSegment P) :
    Ensures 𝒮 t c F (refreshIfActive expected) fun w _ => F w := by
  refine .bind (cached_spec F) fun s => ?_
  split
  · exact .ret fun _ _ h => h.2
  · refine .bind ((refresh_spec hF).pre fun _ _ h => h.2) fun refreshed => ?_
    split
    · exact .ret fun _ _ h => h.2
    · exact .ret fun _ _ h => h.2

theorem withReconfigureLock_spec {body : Co P Unit}
    (h : Ensures 𝒮 t c (fun _ => True) body fun _ _ => True) :
    Ensures 𝒮 t c (fun _ => True) (withReconfigureLock body) fun _ _ => True := by
  refine .bind (wait_persistent (Q := fun _ _ => True) (Discipline.persistent_const True)
    fun _ _ _ _ h _ => h) fun _ => ?_
  refine .bind (Q := fun _ _ => True) (.handle (Y := fun _ _ => True) ?_ fun e => ?_) fun r => ?_
  · exact .bind h fun _ => .ret fun _ _ _ => trivial
  · exact .ret fun _ _ _ => trivial
  · refine .bind (release_spec (Discipline.persistent_const True).lasting) fun _ => ?_
    exact .ofExcept (fun _ _ _ _ _ => trivial) fun _ _ _ _ _ => trivial

theorem rollForward_spec (self : VirtualLog) (segment : LogSegment P) :
    Ensures 𝒮 t c (fun _ => True) (self.rollForward segment) fun _ _ => True := by
  have hT : (discipline 𝒮).Persistent fun _ : World P => True := Discipline.persistent_const True
  refine withReconfigureLock_spec (.bind (refreshIfActive_spec hT.lasting segment) fun found => ?_)
  cases found with
  | none => exact .ret fun _ _ _ => trivial
  | some _ =>
      refine .bind (wait_persistent (Q := fun _ _ => True) hT fun _ _ _ _ h _ => h) fun _ => ?_
      refine .bind (refreshIfActive_spec hT.lasting segment) fun found => ?_
      cases found with
      | none => exact .ret fun _ _ _ => trivial
      | some active =>
          refine .bind (uuid4_spec hT) fun id => ?_
          refine .bind ((reconfigExtend_spec self ⟨id.1, active.loglet, id.2⟩).pre
            fun _ _ h => h.1) fun _ => ?_
          exact .ret fun _ _ _ => trivial

theorem replaceUnavailable_spec (self : VirtualLog) (failed : LogSegment P) :
    Ensures 𝒮 t c (fun _ => True) (self.replaceUnavailable failed) fun _ _ => True := by
  have hT : (discipline 𝒮).Persistent fun _ : World P => True := Discipline.persistent_const True
  refine withReconfigureLock_spec (.bind (refreshIfActive_spec hT.lasting failed) fun found => ?_)
  cases found with
  | none => exact .ret fun _ _ _ => trivial
  | some active =>
      refine .bind (.require (Q := fun _ _ => True) (fun _ _ _ _ => trivial)
        fun _ _ _ _ => trivial) fun _ => ?_
      refine .bind (successor_spec active hT) fun successor => ?_
      refine .bind (reconfigExtend_spec self successor) fun _ => ?_
      exact .ret fun _ _ _ => trivial

/-! ## The data plane -/

/-- What an append that returns `position` has done. -/
def Appended (t : TaskId) (commandId : String) (w : World P) (position : Nat) : Prop :=
  ∃ (n : Nat) (chain : LogChain P) (l : Nat), w.history[n]? = some chain ∧
    w.lastAppend t = (chain.active.segmentId, l) ∧
    position = chain.active.virtualStart + l ∧
    LogletEvent.appended chain.active.segmentId commandId l ∈ w.events

theorem appendLoop_spec (self : VirtualLog) (commandId : String) (payload : Bytes)
    (remaining : Nat) :
    Ensures 𝒮 t c (fun _ => True) (self.appendLoop commandId payload remaining)
      (Appended t commandId) := by
  induction remaining with
  | zero => exact .raise fun _ _ _ => trivial
  | succ remaining ih =>
      refine .bind (cached_spec _) fun s => ?_
      refine .bind (.require (Q := fun w _ => Installed w.history s)
        (fun _ _ h _ => h.1) fun _ _ _ _ => trivial) fun _ => ?_
      refine .handle (Y := fun _ _ => True) ?_ fun e => ?_
      · refine .bind (wait_persistent (Q := fun w l =>
          Appended t commandId w (s.chain.active.virtualStart + l))
          (persistent_installed s) fun w w' l hi h hr => ?_) fun l => .ret fun _ _ h => h
        obtain ⟨n, -, hn⟩ := h
        cases hr with
        | appended ha =>
            obtain rfl := World.answer_eq ha
            exact ⟨n, s.chain, l, hn, Function.update_self _ _ _, rfl, List.mem_cons_self⟩
      · cases e with
        | logletSealed message =>
            simp only
            split
            · exact .raise fun _ _ _ => trivial
            · exact .bind (rollForward_spec self _) fun _ => ih
        | logletUnavailable message =>
            simp only
            split
            · exact .raise fun _ _ _ => trivial
            · exact .bind (replaceUnavailable_spec self _) fun _ => ih
        | _ => exact .raise fun _ _ _ => trivial

theorem sealActive_spec (self : VirtualLog) :
    Ensures 𝒮 t c (fun _ : World P => True) self.sealActive fun _ _ => True := by
  refine .bind (cached_spec _) fun s => ?_
  refine .bind (.require (Q := fun _ _ => True) (fun _ _ _ _ => trivial)
    fun _ _ _ _ => trivial) fun _ => ?_
  exact wait_persistent (Discipline.persistent_const True) fun _ _ _ _ h _ => h

theorem checkTailLoop_spec (self : VirtualLog) (remaining : Nat) :
    Ensures 𝒮 t c (fun _ : World P => True) (self.checkTailLoop remaining) fun _ _ => True := by
  have hT : (discipline 𝒮).Persistent fun _ : World P => True := Discipline.persistent_const True
  induction remaining with
  | zero => exact .raise fun _ _ _ => trivial
  | succ remaining ih =>
      refine .bind (cached_spec _) fun s => ?_
      refine .bind (.require (Q := fun _ _ => True) (fun _ _ _ _ => trivial)
        fun _ _ _ _ => trivial) fun _ => ?_
      refine .bind (Q := fun _ _ => True) (.handle (Y := fun _ _ => True) ?_ fun e => ?_)
        fun observed => ?_
      · refine .bind (wait_persistent (Q := fun _ _ => True) hT fun _ _ _ _ h _ => h) fun _ => ?_
        exact .ret fun _ _ _ => trivial
      · cases e with
        | logletUnavailable message =>
            simp only
            split
            · exact .raise fun _ _ _ => trivial
            · refine .bind (replaceUnavailable_spec self _) fun _ => ?_
              exact .ret fun _ _ _ => trivial
        | _ => exact .raise fun _ _ _ => trivial
      · cases observed with
        | none => exact ih
        | some tail =>
            simp only
            split
            · exact .ret fun _ _ _ => trivial
            split
            · exact .ret fun _ _ _ => trivial
            · exact .bind (rollForward_spec self _) fun _ => ih

theorem readNextLoop_spec (virtualStart virtualStop : Nat) (segments : List (LogSegment P)) :
    Ensures 𝒮 t c (fun _ : World P => True) (readNextLoop virtualStart virtualStop segments)
      fun _ _ => True := by
  induction segments with
  | nil => exact .ret fun _ _ _ => trivial
  | cons segment rest ih =>
      unfold readNextLoop
      simp only
      split
      · exact ih
      · refine .bind (wait_persistent (Q := fun _ _ => True) (Discipline.persistent_const True)
          fun _ _ _ _ h _ => h) fun entry => ?_
        cases entry with
        | none => exact ih
        | some entry =>
            refine .bind (.require (Q := fun _ _ => True) (fun _ _ _ _ => trivial)
              fun _ _ _ _ => trivial) fun _ => ?_
            exact .ret fun _ _ _ => trivial

theorem readNext_spec (self : VirtualLog) (virtualStart virtualStop : Int) :
    Ensures 𝒮 t c (fun _ : World P => True) (self.readNext virtualStart virtualStop)
      fun _ _ => True := by
  refine .bind (.require (Q := fun _ _ => True) (fun _ _ _ _ => trivial)
    fun _ _ _ _ => trivial) fun _ => ?_
  refine .bind ((cached_spec fun _ => True).post fun _ _ _ h => h.2) fun s => ?_
  refine .bind (.require (Q := fun _ _ => True) (fun _ _ _ _ => trivial)
    fun _ _ _ _ => trivial) fun _ => ?_
  exact readNextLoop_spec _ _ _

theorem read_spec (self : VirtualLog) (position : Int) :
    Ensures 𝒮 t c (fun _ : World P => True) (self.read position) fun _ _ => True := by
  refine .bind (.require (Q := fun _ _ => True) (fun _ _ _ _ => trivial)
    fun _ _ _ _ => trivial) fun _ => ?_
  refine .bind (readNext_spec self _ _) fun entry => ?_
  cases entry with
  | none => exact .raise fun _ _ _ => trivial
  | some entry => exact .ret fun _ _ _ => trivial

theorem trimSegments_spec (trimPosition : Nat) (segments : List (LogSegment P)) :
    Ensures 𝒮 t c (fun _ : World P => True) (trimSegments trimPosition segments)
      fun _ _ => True := by
  induction segments with
  | nil => exact .ret fun _ _ _ => trivial
  | cons segment rest ih =>
      unfold trimSegments
      split
      · exact .ret fun _ _ _ => trivial
      · refine .bind (wait_persistent (Q := fun _ _ => True) (Discipline.persistent_const True)
          fun _ _ _ _ h _ => h) fun localResult => ?_
        split
        · exact .ret fun _ _ _ => trivial
        · exact ih

theorem truncateLoop_spec (self : VirtualLog) (trimPosition remaining : Nat) :
    Ensures 𝒮 t c (fun _ : World P => True) (self.truncateLoop trimPosition remaining)
      fun _ _ => True := by
  induction remaining with
  | zero => exact .ret fun _ _ _ => trivial
  | succ remaining ih =>
      refine .bind ((cached_spec fun _ => True).post fun _ _ _ h => h.2) fun s => ?_
      split
      · exact .ret fun _ _ _ => trivial
      split
      · exact .ret fun _ _ _ => trivial
      split
      · exact .ret fun _ _ _ => trivial
      · exact .bind (reconfigTruncate_spec self) fun _ => ih

theorem prefixTrim_spec (self : VirtualLog) (trimPosition : Int) :
    Ensures 𝒮 t c (fun _ : World P => True) (self.prefixTrim trimPosition) fun _ _ => True := by
  refine .bind (.require (Q := fun _ _ => True) (fun _ _ _ _ => trivial)
    fun _ _ _ _ => trivial) fun _ => ?_
  refine .bind ((cached_spec fun _ => True).post fun _ _ _ h => h.2) fun s => ?_
  refine .bind (.require (Q := fun _ _ => True) (fun _ _ _ _ => trivial)
    fun _ _ _ _ => trivial) fun _ => ?_
  split
  · exact .ret fun _ _ _ => trivial
  refine .bind (checkTailLoop_spec self _) fun tail => ?_
  refine .bind (.require (Q := fun _ _ => True) (fun _ _ _ _ => trivial)
    fun _ _ _ _ => trivial) fun _ => ?_
  refine .bind ((cached_spec fun _ => True).post fun _ _ _ h => h.2) fun s => ?_
  refine .bind (trimSegments_spec _ _) fun reached => ?_
  cases reached with
  | some reached => exact .ret fun _ _ _ => trivial
  | none =>
      refine .bind (truncateLoop_spec self _ _) fun _ => ?_
      refine .bind ((cached_spec fun _ => True).post fun _ _ _ h => h.2) fun s => ?_
      exact .ret fun _ _ _ => trivial

/-! ## Every call -/

/-- A call's outcome: only an append promises something about it. -/
def CallPost (t : TaskId) : Call P → World P → Outcome P → Prop
  | .append commandId _, w, .position position => Appended t commandId w position
  | _, _, _ => True

theorem program_spec (self : VirtualLog) (c' : Call P) :
    Ensures 𝒮 t c (fun _ => True) (Deployment.program self c') (CallPost t c') := by
  have hT : (discipline 𝒮).Persistent fun _ : World P => True := Discipline.persistent_const True
  cases c' with
  | bootstrap initialSegment =>
      refine .bind (uuid4_spec hT) fun id => ?_
      refine .bind ((bootstrap_spec _).pre fun _ _ h => h.1) fun _ => ?_
      exact .ret fun _ _ _ => trivial
  | refresh => exact .bind (refresh_spec hT.lasting) fun _ => .ret fun _ _ _ => trivial
  | append commandId payload =>
      exact .bind (appendLoop_spec self commandId payload _) fun _ => .ret fun _ _ h => h
  | «seal» => exact .bind (sealActive_spec self) fun _ => .ret fun _ _ _ => trivial
  | checkTail => exact .bind (checkTailLoop_spec self _) fun _ => .ret fun _ _ _ => trivial
  | read position => exact .bind (read_spec self position) fun _ => .ret fun _ _ _ => trivial
  | readNext a b => exact .bind (readNext_spec self a b) fun _ => .ret fun _ _ _ => trivial
  | prefixTrim p => exact .bind (prefixTrim_spec self p) fun _ => .ret fun _ _ _ => trivial
  | reconfigExtend loglet =>
      refine .bind (uuid4_spec hT) fun id => ?_
      refine .bind ((reconfigExtend_spec self _).pre fun _ _ h => h.1) fun _ => ?_
      exact .ret fun _ _ _ => trivial
  | reconfigTruncate =>
      exact .bind (reconfigTruncate_spec self) fun _ => .ret fun _ _ _ => trivial
  | reconfigModify update =>
      exact .bind (reconfigModify_spec update) fun _ => .ret fun _ _ _ => trivial

/-- The end of a task keeps the discipline. -/
theorem finish_kept {w : World P} {o : Except Error (Outcome P)} (hi : Inv 𝒮 w)
    (ho : ∀ v, o = .ok v → CallPost t c w v) :
    (discipline 𝒮).Kept t w (Deployment.finish w t c o) := by
  unfold Deployment.finish
  split
  · next commandId payload position =>
      obtain ⟨n, chain, l, hn, hlast, hpos, he⟩ := ho _ rfl
      rw [hlast]
      refine ⟨hi.acknowledge ⟨n, chain, ?_, ?_, hn, rfl, hpos, he⟩,
        fun u _ => ⟨rfl, rfl, fun _ h => h⟩⟩
      · rw [hi.register.1]
        exact (List.getElem?_eq_some_iff.mp hn).1
      · exact Nat.le_of_eq hi.register.1
  · exact .refl hi

/-- **Every call of every instance keeps the discipline.** -/
theorem sound (𝒮 : Deployment) : (discipline 𝒮 (P := P)).Sound where
  start := by
    intro w t c w' p hi _ hst
    cases hst
    refine ⟨Grow.refl w, ?_⟩
    refine (program_spec (𝒮.instances t.node) c).safe_finish (.refl hi) trivial ?_ ?_
    · exact fun w o hi h => finish_kept hi fun v hv => (Except.ok.inj hv) ▸ h
    · exact fun w e hi _ => finish_kept hi fun v hv => by cases hv
  disturb := by
    intro w d w' hi hd
    cases d with
    | linearize call =>
        obtain ⟨hi', hg, hr⟩ := Inv.linearize hi hd
        exact ⟨hi', hg, fun u _ => hr u⟩
    | crash node =>
        cases hd
        exact ⟨hi.crash node, ⟨List.prefix_refl _, List.Subset.refl _⟩,
          fun u _ => ⟨rfl, rfl, fun _ h => h⟩⟩

end Discipline

end DelosLab.VirtualLog
