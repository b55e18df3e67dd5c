import DelosLab.Async.Observer
import DelosLab.VirtualLog.Safety

/-!
# The tail of the virtual log

`checkTail` may start from a chain that is several versions old. An unsealed answer of
the cached active segment still bounds every acknowledged append: whoever replaced that
segment had sealed it first, and a Loglet that was sealed before the question says so.
-/

namespace DelosLab.VirtualLog

open Async Async.Coroutine

variable {P : Type}

/-! ## What is noted about a call -/

/-- A tail that `checkTail` returned: what was acknowledged and installed when the call
was invoked, the segment it was measured on, and what was installed when it returned. -/
structure TailReport (P : Type) where
  acked : List Ack
  version : Nat
  segment : Option (LogSegment P)
  tail : LogletTail
  returned : Nat

/-- For each task what the Loglets had answered when its open wait began, what was
acknowledged and installed when it was started, and the last segment it measured. -/
structure TailNotes (P : Type) where
  since : TaskId → List LogletEvent
  invoked : TaskId → List Ack × Nat
  measured : TaskId → Option (LogSegment P)
  reports : List (TailReport P)

def TailNotes.initial (P : Type) : TailNotes P where
  since := fun _ => []
  invoked := fun _ => ([], 0)
  measured := fun _ => none
  reports := []

/-- No act changes the answers of the Loglets, so those at the end of one wait are those
at the begin of the next. -/
def tailObserver : Observer (signature P) (World P) TaskId (Call P) (Outcome P) (TailNotes P) where
  start := fun w t _ g =>
    { g with
      since := Function.update g.since t w.events
      invoked := Function.update g.invoked t (w.acks, w.history.length) }
  exec := fun _ _ _ g => g
  resume := fun w t e _ g =>
    { g with
      since := Function.update g.since t w.events
      measured := match e with
        | .checkTail segment => Function.update g.measured t (some segment)
        | _ => g.measured }
  finish := fun w t c o g =>
    match c, o with
    | .checkTail, .ok (.tail tail) =>
        { g with
          reports := ⟨(g.invoked t).1, (g.invoked t).2, g.measured t, tail,
            w.history.length⟩ :: g.reports }
    | _, _ => g

/-- A tail that the Loglet of a segment reports takes account of an answer it gave before
it was asked. -/
def LogletEvent.AccountedFor (segmentId : String) (tail : LogletTail) : LogletEvent → Prop
  | .appended id _ position => id = segmentId → position < tail.tail
  | .sealed id => id = segmentId → tail.sealed = true
  | _ => True

instance (segmentId : String) (tail : LogletTail) :
    (e : LogletEvent) → Decidable (e.AccountedFor segmentId tail)
  | .appended id _ position => inferInstanceAs (Decidable (id = segmentId → position < tail.tail))
  | .sealed id => inferInstanceAs (Decidable (id = segmentId → tail.sealed = true))
  | .tail _ _ _ => .isTrue trivial
  | .trimmed _ _ => .isTrue trivial

/-- How a task's open wait may be answered, when a Loglet's `check_tail` exceeds every
position acknowledged before it was called and reports a seal completed before that. -/
def tailPromise (w : World P × TailNotes P) (t : TaskId) : Wait P → Choice P → Prop
  | .checkTail segment, .tail tail => ∀ e ∈ w.2.since t, e.AccountedFor segment.segmentId tail
  | _, _ => True

def tailPromises : Condition (signature P) (World P × TailNotes P) TaskId (Call P) (Choice P) where
  launch := fun _ _ _ => True
  resume := fun w t _ e x => tailPromise w t e x

/-- An unsealed tail exceeds what was acknowledged before the call, and was measured on
the active segment of a chain that was the newest at a moment of the call. -/
def TailReport.Certified (history : List (LogChain P)) (r : TailReport P) : Prop :=
  r.tail.sealed = false →
    (∀ ack ∈ r.acked, ack.position < r.tail.tail) ∧
    ∃ k chain, r.version ≤ k + 1 ∧ k < r.returned ∧ history[k]? = some chain ∧
      r.segment = some chain.active

theorem TailReport.Certified.mono {history history' : List (LogChain P)} {r : TailReport P}
    (h : r.Certified history) (hp : history <+: history') : r.Certified history' := by
  intro hopen
  obtain ⟨hacks, k, chain, hk, hk', hchain, hseg⟩ := h hopen
  exact ⟨hacks, k, chain, hk, hk', getElem?_of_prefix hp hchain, hseg⟩

/-! ## Acknowledged appends below a segment's tail -/

/-- A closed segment of a chain ends at or before the start of the active one. -/
theorem LogChain.stop_le_active {chain : LogChain P} {s : LogSegment P}
    (hs : s ∈ chain.segments.dropLast) :
    ∃ stop, s.virtualStop = some stop ∧ stop ≤ chain.active.virtualStart := by
  obtain ⟨xs, ys, hdrop⟩ := List.append_of_mem hs
  have hseg : chain.segments = xs ++ (s :: (ys ++ [chain.active])) := by
    rw [chain.segments_eq, hdrop]
    simp
  have hcont := chain.valid.2
  rw [hseg] at hcont
  exact (hcont.of_append (List.cons_ne_nil _ _)).stop_le _ (by simp)

/-- The append was answered by the Loglet of this segment, or lies below the segment. -/
def Ack.Before (ack : Ack) (events : List LogletEvent) (segment : LogSegment P) : Prop :=
  (ack.segmentId = segment.segmentId ∧
    ack.position = segment.virtualStart + ack.localPosition ∧
    LogletEvent.appended ack.segmentId ack.commandId ack.localPosition ∈ events) ∨
  ack.position < segment.virtualStart

/-- Every acknowledged append is before the active segment of the newest chain. -/
theorem Inv.ack_before {𝒮 : Deployment} {w : World P} (hB : 𝒮.contract.Bounding) (hi : Inv 𝒮 w)
    {ack : Ack} (ha : w.Acknowledged ack) {k : Nat} {new : LogChain P}
    (hnew : w.history[k]? = some new) (hk : k + 1 = w.history.length) :
    ack.Before w.events new.active := by
  obtain ⟨n, old, hn, hlen, hold, hid, hpos, he⟩ := ha
  rcases hi.maps_or_above hB (by omega) hold hnew hid hpos he with ⟨u, hu, huid, hupos⟩ | hlt
  · have hmem : u ∈ new.segments := List.mem_of_find?_eq_some hu
    have hcov : u.Covers ack.position := by simpa using List.find?_some hu
    rcases new.mem_dropLast_or_active hmem with hdrop | rfl
    · obtain ⟨stop, hstop, hle⟩ := LogChain.stop_le_active hdrop
      exact .inr (Nat.lt_of_lt_of_le (hcov.2 stop hstop) hle)
    · exact .inl ⟨huid.symm, hupos, he⟩
  · exact .inr (Nat.lt_of_lt_of_le hlt (new.first_le new.active_mem))

/-! ## What a call knows while it asks a Loglet -/

/-- The task was started when `acked` was acknowledged and `version` installed. -/
structure Asked (t : TaskId) (acked : List Ack) (version : Nat) (w : World P × TailNotes P) :
    Prop where
  invoked : w.2.invoked t = (acked, version)
  version : version ≤ w.1.history.length
  acked : ∀ ack ∈ acked, w.1.Acknowledged ack

/-- The Loglets have answered nothing since the task's segment began. -/
def Current (t : TaskId) (w : World P × TailNotes P) : Prop := w.2.since t = w.1.events

/-- When the open wait of the task began, the segment was sealed, or it was the active
one of the newest chain and every append acknowledged to the caller was before it. -/
def Placed (t : TaskId) (acked : List Ack) (version : Nat) (segment : LogSegment P)
    (w : World P × TailNotes P) : Prop :=
  LogletEvent.sealed segment.segmentId ∈ w.2.since t ∨
    ∃ k chain, version ≤ k + 1 ∧ w.1.history[k]? = some chain ∧ chain.active = segment ∧
      ∀ ack ∈ acked, ack.Before (w.2.since t) segment

/-- The report of a call that returns `tail` now. -/
def reportOf (t : TaskId) (acked : List Ack) (version : Nat) (w : World P × TailNotes P)
    (tail : LogletTail) : TailReport P :=
  ⟨acked, version, w.2.measured t, tail, w.1.history.length⟩

theorem Asked.grow {w w' : World P × TailNotes P} {t : TaskId}
    {acked : List Ack} {version : Nat} (h : Asked t acked version w)
    (hg : Grow w.1 w'.1) (hinvoked : w'.2.invoked t = w.2.invoked t) :
    Asked t acked version w' :=
  ⟨hinvoked.trans h.invoked, Nat.le_trans h.version hg.history.length_le,
    fun ack hack => (h.acked ack hack).mono hg⟩

/-- The active segment of any cached chain is placed when its Loglet is asked. -/
theorem Asked.placed {𝒮 : Deployment} {w : World P × TailNotes P} {t : TaskId}
    {acked : List Ack} {version : Nat} {s : Snapshot P} (h : Asked t acked version w)
    (hB : 𝒮.contract.Bounding) (hi : Inv 𝒮 w.1) (hs : Installed w.1.history s)
    (hnow : Current t w) : Placed t acked version s.chain.active w := by
  obtain ⟨m, -, hm⟩ := hs
  have hm' : m < w.1.history.length := (List.getElem?_eq_some_iff.mp hm).1
  obtain ⟨k, hk⟩ : ∃ k, k + 1 = w.1.history.length := ⟨w.1.history.length - 1, by omega⟩
  have hnew : w.1.history[k]? = some (w.1.history.get ⟨k, by omega⟩) :=
    List.getElem?_eq_getElem (by omega)
  rcases hi.history.active_eq_or_sealed hi.sealedFirst (by omega) hm hnew with heq | hsealed
  · refine .inr ⟨k, _, ?_, hnew, heq, fun ack hack => ?_⟩
    · have := h.version
      omega
    · rw [hnow, ← heq]
      exact hi.ack_before hB (h.acked ack hack) hnew hk
  · exact .inl (hnow ▸ hsealed)

/-- What a Loglet answers about a placed segment makes a certified report. -/
theorem Placed.certified {w w' : World P × TailNotes P} {t : TaskId} {acked : List Ack}
    {version : Nat} {segment : LogSegment P} {tail : LogletTail}
    (h : Placed t acked version segment w)
    (hpromise : ∀ e ∈ w.2.since t, e.AccountedFor segment.segmentId tail)
    (hgrown : w.1.history <+: w'.1.history) (hm : w'.2.measured t = some segment) :
    (reportOf t acked version w' ⟨segment.virtualStart + tail.tail, tail.sealed⟩).Certified
      w'.1.history := by
  intro hopen
  rcases h with hsealed | ⟨k, chain, hk, hchain, rfl, hacks⟩
  · have hs : tail.sealed = true := hpromise _ hsealed rfl
    have hs' : tail.sealed = false := hopen
    rw [hs] at hs'
    cases hs'
  · have hchain' := getElem?_of_prefix hgrown hchain
    refine ⟨fun ack hack => ?_, k, chain, hk, ?_, hchain', hm⟩
    · show ack.position < chain.active.virtualStart + tail.tail
      rcases hacks ack hack with ⟨hid, hpos, he⟩ | hlt
      · have : ack.localPosition < tail.tail := hpromise _ he hid
        omega
      · omega
    · exact (List.getElem?_eq_some_iff.mp hchain').1

section Measuring

variable [DecidableEq P] {𝒮 : Deployment} {t : TaskId} {c : Call P}

/-- The notes of the tail observer about a task are that task's own. -/
def tailWatch (𝒮 : Deployment) :
    Watch (discipline (P := P) 𝒮) (tailObserver (P := P)) where
  Inv := fun w g => ∀ r ∈ g.reports, r.Certified w.history
  Rely := fun t g g' =>
    g'.since t = g.since t ∧ g'.invoked t = g.invoked t ∧ g'.measured t = g.measured t
  rely_refl := fun _ _ => ⟨rfl, rfl, rfl⟩
  rely_trans := fun h h' =>
    ⟨h'.1.trans h.1, h'.2.1.trans h.2.1, h'.2.2.trans h.2.2⟩
  grow := fun hg h r hr => (h r hr).mono hg.history
  start := fun _ _ _ h => h
  exec := fun _ _ h => h
  resume := fun _ _ _ h => h
  start_rely := fun _ _ _ hu =>
    ⟨Function.update_of_ne hu _ _, Function.update_of_ne hu _ _, rfl⟩
  exec_rely := fun _ _ _ _ => ⟨rfl, rfl, rfl⟩
  resume_rely := by
    intro u t w e r g hu
    refine ⟨Function.update_of_ne hu _ _, rfl, ?_⟩
    cases e with
    | checkTail segment => exact Function.update_of_ne hu _ _
    | _ => rfl

/-- The triple of a function of an observed instance. -/
abbrev Watched {α : Type} (𝒮 : Deployment) (t : TaskId) (c : Call P)
    (F : World P × TailNotes P → Prop) (p : Co P α) (Q : World P × TailNotes P → α → Prop) :
    Prop :=
  ((tailWatch 𝒮).discipline tailPromises).Triple t c F p Q fun _ _ => True

variable {α : Type} {acked : List Ack} {version : Nat}

theorem asked_stable (t : TaskId) (acked : List Ack) (version : Nat) :
    ((tailWatch 𝒮).discipline (tailPromises (P := P))).Stable t (Asked t acked version) :=
  fun _ _ hg hr _ h => h.grow hg hr.2.2.1

theorem asked_exec {w : World P × TailNotes P} (a : Act P) (h : Asked t acked version w) :
    Asked t acked version ((𝒮.runtime.observed tailObserver).exec w t a).1 :=
  h.grow (exec_grow 𝒮 w.1 t a) rfl

theorem asked_resume {w w' : World P × TailNotes P} {e : Wait P} {x : Choice P}
    {r : Except Error (WaitResult P e)}
    (hs : (𝒮.runtime.observed tailObserver).resume w t e x = some (w', r))
    (h : Asked t acked version w) : Asked t acked version w' := by
  obtain ⟨⟨w₁, r'⟩, hr, heq⟩ := Option.map_eq_some_iff.mp hs
  obtain ⟨rfl, -⟩ := Prod.mk.inj heq
  exact h.grow (resumed_of_resume hr).grow rfl

/-- Every function of an instance keeps what was noted when its task was started. -/
theorem watched {F : World P → Prop} {Q : World P → α → Prop} {p : Co P α}
    (h : Ensures 𝒮 t c F p Q) :
    Watched 𝒮 t c (fun w => F w.1 ∧ Asked t acked version w ∧ Current t w) p
      fun w a => Q w.1 a ∧ Asked t acked version w ∧ Current t w := by
  have hlift : Watched 𝒮 t c (fun w => F w.1) p fun w a => Q w.1 a :=
    (tailWatch 𝒮).triple (fun _ => trivial) h
  have hframe := (hlift.frame_own (asked_stable t acked version) (fun w a => asked_exec a)
    asked_resume).restored (F := Current t) ?_ ?_
  · exact hframe.mono (fun _ _ hf => ⟨⟨hf.1, hf.2.1⟩, hf.2.2⟩)
      (fun _ _ _ hq => ⟨hq.1.1, hq.1.2, hq.2⟩) fun _ _ _ _ => trivial
  · intro w a hw
    cases a <;> exact hw
  · intro w e x w' r hs
    obtain ⟨⟨w₁, r'⟩, -, heq⟩ := Option.map_eq_some_iff.mp hs
    obtain ⟨rfl, -⟩ := Prod.mk.inj heq
    exact Function.update_self _ _ _

theorem placed_stable (t : TaskId) (acked : List Ack) (version : Nat) (segment : LogSegment P) :
    ((tailWatch 𝒮).discipline (tailPromises (P := P))).Stable t
      (Placed t acked version segment) := by
  intro w w' hg hr _ h
  have hsince : w'.2.since t = w.2.since t := hr.2.1
  rcases h with hsealed | ⟨k, chain, hk, hchain, hactive, hacks⟩
  · exact .inl (hsince ▸ hsealed)
  · exact .inr ⟨k, chain, hk, getElem?_of_prefix hg.history hchain, hactive, hsince ▸ hacks⟩

/-- The end of a Loglet's `check_tail` certifies the report of its answer. -/
theorem watched_wait_checkTail (segment : LogSegment P) :
    ((tailWatch 𝒮).discipline tailPromises).Triple t c
      (fun w => Asked t acked version w ∧ Placed t acked version segment w)
      (wait (.checkTail segment))
      (fun w tail => (reportOf t acked version w
        ⟨segment.virtualStart + tail.tail, tail.sealed⟩).Certified w.1.history ∧
          Asked t acked version w ∧ Current t w)
      fun w _ => Asked t acked version w ∧ Current t w := by
  refine .wait ?_ fun w x w' r hi hf hx hs => ?_
  · intro w w' hg hr hi h
    exact ⟨asked_stable t acked version w w' hg hr hi h.1,
      placed_stable t acked version segment w w' hg hr hi h.2⟩
  · have hnoted := Watch.Noted.resume hi.2 hs
    obtain ⟨⟨w₁, r'⟩, hr, heq⟩ := Option.map_eq_some_iff.mp hs
    obtain ⟨rfl, rfl⟩ := Prod.mk.inj heq
    have hres := resumed_of_resume hr
    have hasked : Asked t acked version
        (w₁, tailObserver.resume w₁ t (.checkTail segment) r' w.2) :=
      hf.1.grow hres.grow rfl
    have hnow : Current t (w₁, tailObserver.resume w₁ t (.checkTail segment) r' w.2) :=
      Function.update_self _ _ _
    refine ⟨Watch.kept_iff.mpr ⟨⟨hres.inv hi.1, fun u hu => hres.rely (.inr hu)⟩, hnoted⟩,
      fun tail ha => ⟨?_, hasked, hnow⟩, fun _ _ => ⟨hasked, hnow⟩⟩
    subst ha
    -- Only a tail answers this wait, and it keeps the promise.
    cases x with
    | tail value =>
        obtain ⟨w₂, -, heq'⟩ := Option.map_eq_some_iff.mp hr
        obtain ⟨-, htail⟩ := Prod.mk.inj heq'
        obtain rfl : value = tail := Except.ok.inj htail
        exact hf.2.certified hx hres.grow.history (Function.update_self _ _ _)
    | fail e => cases hr
    | _ => cases hr

theorem watched_checkTailLoop (hB : 𝒮.contract.Bounding) (self : VirtualLog) (remaining : Nat) :
    Watched 𝒮 t c (fun w => Asked t acked version w ∧ Current t w)
      (self.checkTailLoop remaining)
      fun w tail => (reportOf t acked version w tail).Certified w.1.history := by
  have hT : ∀ w : World P × TailNotes P, Asked t acked version w ∧ Current t w →
    True ∧ Asked t acked version w ∧ Current t w := fun _ h => ⟨trivial, h⟩
  induction remaining with
  | zero => exact .raise fun _ _ _ => trivial
  | succ remaining ih =>
      refine .bind ((watched (cached_spec fun _ => True)).pre fun w _ h => hT w h) fun s => ?_
      refine .bind (Q := fun w _ => Installed w.1.history s ∧ Asked t acked version w ∧
        Current t w) (.require (fun _ _ h _ => ⟨h.1.1, h.2⟩) fun _ _ _ _ => trivial) fun _ => ?_
      refine .bind (Q := fun w observed => (∀ tail : LogletTail, observed = some tail →
        (reportOf t acked version w ⟨s.chain.active.virtualStart + tail.tail,
          tail.sealed⟩).Certified w.1.history) ∧ Asked t acked version w ∧ Current t w)
        (.handle (Y := fun w _ => Asked t acked version w ∧ Current t w) ?_ fun e => ?_)
        fun observed => ?_
      · refine .bind ((watched_wait_checkTail s.chain.active).pre fun w hi h => ?_) fun tail => ?_
        · exact ⟨h.2.1, h.2.1.placed hB hi.1 h.1 h.2.2⟩
        · refine .ret fun w _ h => ⟨fun tail' heq => ?_, h.2⟩
          obtain rfl := Option.some.inj heq
          exact h.1
      · cases e with
        | logletUnavailable message =>
            simp only
            split
            · exact .raise fun _ _ _ => trivial
            · refine .bind ((watched (replaceUnavailable_spec self _)).pre fun w _ h => hT w h)
                fun _ => ?_
              exact .ret fun w _ h => ⟨nofun, h.2⟩
        | _ => exact .raise fun _ _ _ => trivial
      · cases observed with
        | none => exact ih.pre fun w _ h => h.2
        | some tail =>
            simp only
            split
            · exact .ret fun w _ h => h.1 tail rfl
            split
            · exact .ret fun w _ h => h.1 tail rfl
            · refine .bind ((watched (rollForward_spec self _)).pre fun w _ h => hT w h.2)
                fun _ => ?_
              exact ih.pre fun w _ h => h.2

/-- Every call keeps the notes' invariant to its end. -/
theorem watched_finish {w : World P × TailNotes P} {o : Except Error (Outcome P)}
    (hi : ((tailWatch 𝒮).discipline (tailPromises (P := P))).Inv w)
    (hkept : (discipline 𝒮).Kept t w.1 (Deployment.finish w.1 t c o))
    (hreport : ∀ tail, c = .checkTail → o = .ok (.tail tail) →
      (reportOf t (w.2.invoked t).1 (w.2.invoked t).2 w tail).Certified w.1.history) :
    ((tailWatch 𝒮).discipline (tailPromises (P := P))).Kept t w
      ((𝒮.runtime.observed tailObserver).finish w t c o) := by
  have hgrown : w.1.history <+: (Deployment.finish w.1 t c o).history :=
    (finish_grow w.1 t c o).history
  refine Watch.kept_iff.mpr ⟨hkept, fun r hr => ?_, fun u hu => ?_⟩
  · simp only [Runtime.observed, tailObserver] at hr
    split at hr
    · next tail =>
        rcases List.mem_cons.mp hr with rfl | hr
        · exact (hreport tail rfl rfl).mono hgrown
        · exact (hi.2 r hr).mono hgrown
    · exact (hi.2 r hr).mono hgrown
  · simp only [Runtime.observed, tailObserver]
    split
    · exact ⟨rfl, rfl, rfl⟩
    · exact ⟨rfl, rfl, rfl⟩

/-- What the outcome of a call says, and what a tail that it reports is worth. -/
def WatchedPost (t : TaskId) (c : Call P) (acked : List Ack) (version : Nat)
    (w : World P × TailNotes P) (o : Outcome P) : Prop :=
  CallPost t c w.1 o ∧ Asked t acked version w ∧
    ∀ tail, c = .checkTail → o = .tail tail →
      (reportOf t acked version w tail).Certified w.1.history

theorem watched_program (hB : 𝒮.contract.Bounding) (self : VirtualLog) (c' : Call P) :
    Watched 𝒮 t c (fun w => Asked t acked version w ∧ Current t w)
      (Deployment.program self c') (WatchedPost t c' acked version) := by
  by_cases hc : c' = .checkTail
  · subst hc
    -- What was noted at the start survives the loop beside its own result.
    have hloop : Watched 𝒮 t c (fun w => Asked t acked version w ∧ Current t w) self.checkTail
        fun w tail => (reportOf t acked version w tail).Certified w.1.history :=
      watched_checkTailLoop hB self _
    have hframe := hloop.frame_own (asked_stable t acked version) (fun w a => asked_exec a)
      asked_resume
    refine .bind (hframe.mono (fun w _ h => ⟨h, h.1⟩) (fun _ _ _ h => h)
      fun _ _ _ _ => trivial) fun tail => ?_
    refine .ret fun w _ h => ⟨trivial, h.2, fun tail' _ heq => ?_⟩
    cases heq
    exact h.1
  · refine (watched (program_spec self c')).mono (fun w _ h => ⟨trivial, h⟩) ?_
      fun _ _ _ _ => trivial
    exact fun w o _ h => ⟨h.1, h.2.1, fun _ hcheck => absurd hcheck hc⟩

/-- **Every call of every observed instance keeps the notes true.** -/
theorem watched_sound (hB : 𝒮.contract.Bounding) :
    ((tailWatch 𝒮).discipline (tailPromises (P := P))).Sound where
  start := by
    intro w t c w' p hi _ hst
    have heq : ((w.1, tailObserver.start w.1 t c w.2),
        Deployment.program (𝒮.instances t.node) c) = (w', p) := Option.some.inj hst
    obtain ⟨rfl, rfl⟩ := Prod.mk.inj heq
    refine ⟨Grow.refl w.1, ?_⟩
    have hkept : ((tailWatch 𝒮).discipline tailPromises).Kept t w
        (w.1, tailObserver.start w.1 t c w.2) :=
      Watch.kept_iff.mpr ⟨.refl hi.1, (tailWatch 𝒮).start t c hi.1 hi.2,
        fun u hu => (tailWatch 𝒮).start_rely w.1 c w.2 hu⟩
    have hasked : Asked t w.1.acks w.1.history.length (w.1, tailObserver.start w.1 t c w.2) :=
      ⟨Function.update_self _ _ _, Nat.le_refl _, hi.1.acks⟩
    have hnow : Current t (w.1, tailObserver.start w.1 t c w.2) := Function.update_self _ _ _
    refine (watched_program hB (𝒮.instances t.node) c).safe_finish hkept ⟨hasked, hnow⟩ ?_ ?_
    · intro w' o hi' h
      refine watched_finish hi' (finish_kept hi'.1 fun v hv => ?_) fun tail hc ho => ?_
      · exact Except.ok.inj hv ▸ h.1
      · rw [h.2.1.invoked]
        exact h.2.2 tail hc (Except.ok.inj ho)
    · intro w' e hi' _
      refine watched_finish hi' (finish_kept hi'.1 fun v hv => ?_) fun tail _ ho => ?_
      · cases hv
      · cases ho
  disturb := by
    intro w d w' hi hd
    obtain ⟨w₁, hd', rfl⟩ := Option.map_eq_some_iff.mp hd
    obtain ⟨hi', hg, hr⟩ := (sound 𝒮).disturb hi.1 hd'
    exact ⟨⟨hi', (tailWatch 𝒮).grow hg hi.2⟩, hg,
      fun u hu => ⟨hr u hu, (tailWatch 𝒮).rely_refl u w.2⟩⟩

/-- **`checkTail` is never behind an acknowledged append.** In every run of any number of
instances whose Loglets keep their promises, an unsealed tail that a call returns exceeds
every position whose append returned before the call was invoked, and was measured on the
active segment of a chain that was the installed one at a moment of the call. -/
theorem checkTail_exceeds_acknowledged (𝒮 : Deployment) (hB : 𝒮.contract.Bounding)
    (s : State (signature P) (World P × TailNotes P) TaskId (Call P) (Outcome P))
    (h : (𝒮.runtime.observed tailObserver).ReachableUnder tailPromises
      (· = (World.initial P, TailNotes.initial P)) s) :
    ∀ r ∈ s.world.2.reports, r.tail.sealed = false →
      (∀ ack ∈ r.acked, ack.position < r.tail.tail) ∧
      ∃ k chain, r.version ≤ k + 1 ∧ k < r.returned ∧ s.world.1.history[k]? = some chain ∧
        r.segment = some chain.active := by
  refine ((watched_sound hB).reachable ?_ h).1.2
  rintro w rfl
  refine ⟨inv_initial 𝒮, fun r hr => ?_⟩
  cases hr

end Measuring

/-! ## A stale caller -/

def tailPromiseKept (s : State (signature Unit) (World Unit × TailNotes Unit) TaskId (Call Unit)
    (Outcome Unit)) : Action TaskId (Call Unit) (Choice Unit) Disturbance → Bool
  | .resume t (.tail tail) =>
      match s.tasks t with
      | some (_, .wait (.checkTail segment) _) =>
          decide (∀ e ∈ s.world.2.since t, e.AccountedFor segment.segmentId tail)
      | _ => true
  | _ => true

theorem meets_tailPromises {s : State (signature Unit) (World Unit × TailNotes Unit) TaskId
      (Call Unit) (Outcome Unit)} {a : Action TaskId (Call Unit) (Choice Unit) Disturbance}
    (h : tailPromiseKept s a = true) : Runtime.Meets tailPromises s a := by
  cases a with
  | launch t c => trivial
  | resume t x =>
      intro c e k ht
      cases x with
      | tail tail =>
          cases e with
          | checkTail segment =>
              simp only [tailPromiseKept, ht, decide_eq_true_eq] at h
              exact h
          | _ => trivial
      | _ => cases e <;> trivial
  | disturb d => trivial

/-- Instance `b` caches the first chain; `a` appends, seals, installs a successor and
appends there; `b` asks for the tail with its stale chain. -/
def staleTailRun : List (Action TaskId (Call Unit) (Choice Unit) Disturbance) :=
  let a : TaskId := ⟨"a", 0⟩
  let b : TaskId := ⟨"b", 0⟩
  let loglet : LogletConfiguration Unit := ⟨"memory", 1, ()⟩
  [.launch a (.bootstrap (.first "initial" loglet initial_named)),
    .disturb (.linearize 0), .resume a .done,
    .launch b .refresh, .disturb (.linearize 1), .resume b .done,
    .launch a (.append "first" []), .resume a (.position 0),
    .launch a (.reconfigExtend loglet), .resume a .done, .resume a (.tail ⟨1, true⟩),
    .disturb (.linearize 2), .resume a .done,
    .launch a (.append "second" []), .resume a (.position 0),
    .launch b .checkTail, .resume b (.tail ⟨1, true⟩), .resume b .done,
    .disturb (.linearize 3), .resume b .done, .resume b (.tail ⟨1, false⟩)]

theorem staleTailRun_runs :
    (((sealingDeployment.runtime.observed tailObserver).runWhile tailPromiseKept
        (Runtime.fresh _ _ _ _ (World.initial Unit, TailNotes.initial Unit)) staleTailRun).map
      fun s => s.world.2.reports.map fun r => (r.acked.map Ack.position, r.tail)) =
    some [([1, 0], ⟨2, false⟩)] := by
  decide +kernel

theorem checkTail_exceeds_acknowledged_stale :
    ∃ s : State (signature Unit) (World Unit × TailNotes Unit) TaskId (Call Unit) (Outcome Unit),
      s.world.2.reports.map (fun r => (r.acked.map Ack.position, r.tail)) =
        [([1, 0], ⟨2, false⟩)] ∧
      ∀ r ∈ s.world.2.reports, r.tail.sealed = false →
        (∀ ack ∈ r.acked, ack.position < r.tail.tail) ∧
        ∃ k chain, r.version ≤ k + 1 ∧ k < r.returned ∧ s.world.1.history[k]? = some chain ∧
          r.segment = some chain.active := by
  obtain ⟨s, hs, hpost⟩ := Option.map_eq_some_iff.mp staleTailRun_runs
  exact ⟨s, hpost, checkTail_exceeds_acknowledged sealingDeployment
    LogletContract.sealing_sealing.bounding s
    (Runtime.ReachableUnder.runWhile (fun _ _ => meets_tailPromises) (.init rfl) hs)⟩

end DelosLab.VirtualLog
