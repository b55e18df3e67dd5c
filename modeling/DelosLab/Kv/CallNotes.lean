import DelosLab.Async.Observer
import DelosLab.Kv.Progress
import DelosLab.Kv.StoreReads

/-!
# What a call has seen of the log

An observer marks, at the invocation and at the return of each call, how far the log had
answered. A `get` that has read nothing uncommitted shows the state of the log at a moment
in between, and so does a `submit` of a new command. Here the mark is the settled prefix.
-/

namespace DelosLab.Kv

open Async Async.Coroutine Async.Discipline Async.Runtime

/-! ## What is observed -/

/-- The statement shows something that a transaction has not committed. -/
def Statement.Dirty (k : Connection) : Statement → Prop
  | .selectProgress => k.working.appliedPosition ≠ k.committed.appliedPosition
  | .selectItem key => k.working.items.lookup key ≠ k.committed.items.lookup key
  | _ => False

instance (k : Connection) : (s : Statement) → Decidable (s.Dirty k)
  | .selectProgress =>
      inferInstanceAs (Decidable (k.working.appliedPosition ≠ k.committed.appliedPosition))
  | .selectItem key =>
      inferInstanceAs (Decidable (k.working.items.lookup key ≠ k.committed.items.lookup key))
  | .begin | .commit | .rollback | .selectItems | .selectRequest _ _ | .selectEntry _
  | .selectRequests | .selectEntries | .selectAny _ | .deleteItems | .deleteRequests
  | .deleteEntries | .insertItems _ | .insertRequests _ | .insertEntries _
  | .updateProgress _ => .isFalse id

/-- A call that has returned: how far the log had answered when it was invoked and when it
returned, how many calls had returned and what was in the log when it was invoked, and
whether one of its statements was dirty. -/
structure Ended where
  call : Call
  outcome : Outcome
  since : Nat
  upTo : Nat
  before : Nat
  found : Nat → Option Content
  dirty : Bool

/-- `fence` is how far the log has answered: behind every acknowledged append, and the
largest tail. The other notes are about the open call of a task. -/
structure Notes where
  fence : Nat
  since : TaskId → Nat
  before : TaskId → Nat
  found : TaskId → Nat → Option Content
  dirty : TaskId → Bool
  ended : List Ended

def Notes.initial : Notes := ⟨0, fun _ => 0, fun _ => 0, fun _ _ => none, fun _ => false, []⟩

/-- The observer that marks calls by `mark`. -/
def callObserver (mark : World → Notes → Nat) :
    Observer signature World TaskId Call Outcome Notes where
  start := fun w t _ g =>
    { g with
      since := Function.update g.since t (mark w g)
      before := Function.update g.before t g.ended.length
      found := Function.update g.found t w.log
      dirty := Function.update g.dirty t false }
  exec := fun w t a g =>
    match a with
    | .sql s => { g with
        dirty := Function.update g.dirty t
          (g.dirty t || decide (s.Dirty (w.connection t.node))) }
    | _ => g
  resume := fun _ _ e r g =>
    match e, r with
    | .append _ _, .ok position => { g with fence := max g.fence (position + 1) }
    | .checkTail, .ok tail => { g with fence := max g.fence tail.tail }
    | _, _ => g
  finish := fun w t c o g =>
    match o with
    | .ok outcome => { g with
        ended := g.ended ++ [⟨c, outcome, g.since t, mark w g, g.before t, g.found t, g.dirty t⟩] }
    | .error _ => g

abbrev ObservedState : Type := State signature (World × Notes) TaskId Call Outcome

/-- The runs of the service in which no read skips an entry, a replay is asked for only up to a
mark, and a tail that a call is told is not behind the mark of its invocation. -/
def promised (𝒮 : Deployment) (mark : World → Notes → Nat) :
    Condition signature (World × Notes) TaskId Call Choice where
  launch := fun w _ c => c.Serves { w.1 with settled := mark w.1 w.2 }
  resume := fun w t c e x => (faithful 𝒮).resume w.1 t c e x ∧
    match e, x with
    | .checkTail, .tail tail => w.2.since t ≤ tail.tail
    | _, _ => True

/-! ## Where a call takes effect -/

/-- When the call was invoked, the log had no command of this identity below the mark. -/
def Ended.Fresh (𝒮 : Deployment) (e : Ended) (command : KvCommandEnvelope) : Prop :=
  ∀ p < e.since, ∀ content c, e.found p = some content →
    𝒮.codec.fromPayload content.payload = some c → c.identity ≠ command.identity

/-- A `get` shows the replay of the first `n` positions. -/
structure Ended.Reads (𝒮 : Deployment) (w : World) (e : Ended) (key : String)
    (value : Option KvValue) (n : Nat) : Prop where
  since : e.since ≤ n
  upTo : n ≤ e.upTo
  value : value = (𝒮.replay w n).state.lookup key

/-- A `submit` tells what the command does at position `n`, the first of its identity. -/
structure Ended.Executes (𝒮 : Deployment) (w : World) (e : Ended) (command : KvCommandEnvelope)
    (result : KvResult) (n : Nat) : Prop where
  since : e.Fresh 𝒮 command → e.since ≤ n
  upTo : n < e.upTo
  first : ∃ first, FirstResult 𝒮 w command.identity result n first

/-- What the outcome of a call tells about the position where it takes effect. -/
def Ended.TakesEffect (𝒮 : Deployment) (w : World) (e : Ended) (n : Nat) : Prop :=
  match e.call with
  | .get key => e.dirty = false → ∃ value, e.outcome = .value value ∧ e.Reads 𝒮 w key value n
  | .submit command => 𝒮.codec.Lossless command →
      ∃ result, e.outcome = .result result ∧ e.Executes 𝒮 w command result n
  | _ => True

/-- A `get` that has read nothing uncommitted, or a `submit` of a new command. -/
def Ended.Effective (𝒮 : Deployment) (e : Ended) : Prop :=
  match e.call with
  | .get _ => e.dirty = false
  | .submit command => 𝒮.codec.Lossless command ∧ e.Fresh 𝒮 command
  | _ => False

/-- How much of the log a call that takes effect at `n` needs: a `submit` executes the
command at `n`, a `get` reads what is before it. -/
def Ended.needs (e : Ended) (n : Nat) : Nat :=
  match e.call with
  | .submit _ => n + 1
  | _ => n

section Facts

variable {𝒮 : Deployment} {w w' : World} {e : Ended} {n : Nat}

theorem FirstResult.mono {identity : String × String} {result : KvResult} {p : Nat}
    {first : KvCommandEnvelope} (h : FirstResult 𝒮 w identity result p first) (hg : Grow w w') :
    FirstResult 𝒮 w' identity result p first where
  settled := Nat.lt_of_lt_of_le h.settled hg.settled
  command := (Deployment.commands_grow hg h.settled).trans h.command
  same := h.same
  least := by
    intro q hq c hc
    rw [Deployment.commands_grow hg (Nat.lt_trans hq h.settled)] at hc
    exact h.least q hq c hc
  result := by
    rw [Deployment.replay_grow hg (Nat.le_of_lt h.settled)]
    exact h.result

theorem Ended.TakesEffect.mono (h : e.TakesEffect 𝒮 w n) (hu : e.upTo ≤ w.settled)
    (hg : Grow w w') : e.TakesEffect 𝒮 w' n := by
  unfold Ended.TakesEffect at h ⊢
  cases hcall : e.call with
  | get key =>
      rw [hcall] at h
      intro hdirty
      obtain ⟨value, houtcome, hsince, hn, hvalue⟩ := h hdirty
      refine ⟨value, houtcome, hsince, hn, ?_⟩
      rw [Deployment.replay_grow hg (Nat.le_trans hn hu)]
      exact hvalue
  | submit command =>
      rw [hcall] at h
      intro hlossless
      obtain ⟨result, houtcome, hsince, hn, first, hfirst⟩ := h hlossless
      exact ⟨result, houtcome, hsince, hn, first, hfirst.mono hg⟩
  | _ => trivial

/-- A call takes effect between its invocation and its return. -/
theorem Ended.TakesEffect.within (h : e.TakesEffect 𝒮 w n) (he : e.Effective 𝒮) :
    e.since ≤ n ∧ e.needs n ≤ e.upTo := by
  unfold Ended.TakesEffect at h
  unfold Ended.Effective at he
  unfold Ended.needs
  cases hcall : e.call with
  | get key =>
      rw [hcall] at h he
      obtain ⟨value, -, hreads⟩ := h he
      exact ⟨hreads.since, hreads.upTo⟩
  | submit command =>
      rw [hcall] at h he
      obtain ⟨result, -, hexecutes⟩ := h he.1
      exact ⟨hexecutes.since he.2, hexecutes.upTo⟩
  | _ =>
      rw [hcall] at he
      exact he.elim

end Facts

/-! ## Calls marked by the settled prefix -/

section Marked

variable {𝒮 : Deployment} {t : TaskId} {c : Call}

/-- The mark of a log that settles no more than it answers. -/
def settledMark (w : World) (_ : Notes) : Nat := w.settled

/-- What was in the log below the mark is still there. -/
def Found (w : World) (since : Nat) (found : Nat → Option Content) : Prop :=
  since ≤ w.settled ∧ ∀ p < since, w.log p = found p

theorem Found.mono {w w' : World} {since : Nat} {found : Nat → Option Content}
    (h : Found w since found) (hg : Grow w w') : Found w' since found :=
  ⟨Nat.le_trans h.1 hg.settled,
    fun p hp => (hg.fixed p (Nat.lt_of_lt_of_le hp h.1)).trans (h.2 p hp)⟩

/-- What is known of the calls that have returned and of the open ones. -/
structure NotesInv (𝒮 : Deployment) (w : World) (g : Notes) : Prop where
  found : ∀ t, Found w (g.since t) (g.found t)
  before : ∀ t, g.before t ≤ g.ended.length ∧
    ∀ e ∈ g.ended.take (g.before t), e.upTo ≤ g.since t
  ended : ∀ e ∈ g.ended, e.upTo ≤ w.settled ∧ ∃ n, e.TakesEffect 𝒮 w n
  counted : ∀ e ∈ g.ended, e.before ≤ g.ended.length
  order : ∀ (i j : Nat) (e e' : Ended), g.ended[i]? = some e → g.ended[j]? = some e' →
    i < e'.before → e.upTo ≤ e'.since

theorem NotesInv.grow {w w' : World} {g : Notes} (h : NotesInv 𝒮 w g) (hg : Grow w w') :
    NotesInv 𝒮 w' g where
  found := fun t => (h.found t).mono hg
  before := h.before
  ended := by
    intro e he
    obtain ⟨hu, n, hn⟩ := h.ended e he
    exact ⟨Nat.le_trans hu hg.settled, n, hn.mono hu hg⟩
  counted := h.counted
  order := h.order

theorem NotesInv.start {w : World} {g : Notes} (h : NotesInv 𝒮 w g) (t : TaskId) (c : Call) :
    NotesInv 𝒮 w ((callObserver settledMark).start w t c g) := by
  refine { h with found := fun u => ?_, before := fun u => ?_ }
  · by_cases hu : u = t
    · subst hu
      simp only [callObserver, Function.update_self]
      exact ⟨Nat.le_refl _, fun _ _ => rfl⟩
    · simp only [callObserver, Function.update_of_ne hu]
      exact h.found u
  · by_cases hu : u = t
    · subst hu
      simp only [callObserver, Function.update_self]
      exact ⟨Nat.le_refl _, fun e he => (h.ended e (List.mem_of_mem_take he)).1⟩
    · simp only [callObserver, Function.update_of_ne hu]
      exact h.before u

/-- Notes about dirty statements and about the fence say nothing of the calls. -/
theorem NotesInv.of_eq {w : World} {g g' : Notes} (h : NotesInv 𝒮 w g) (hs : g'.since = g.since)
    (hb : g'.before = g.before) (hf : g'.found = g.found) (he : g'.ended = g.ended) :
    NotesInv 𝒮 w g' := by
  refine ⟨?_, ?_, ?_, ?_, ?_⟩
  · rw [hs, hf]
    exact h.found
  · rw [hs, hb, he]
    exact h.before
  · rw [he]
    exact h.ended
  · rw [he]
    exact h.counted
  · rw [he]
    exact h.order

/-- The note of a call that has returned. -/
def Notes.ending (g : Notes) (mark : Nat) (t : TaskId) (c : Call) (outcome : Outcome) : Ended :=
  ⟨c, outcome, g.since t, mark, g.before t, g.found t, g.dirty t⟩

/-- Another call has returned. -/
theorem NotesInv.finish {w : World} {g : Notes} (h : NotesInv 𝒮 w g) {outcome : Outcome}
    (he : ∃ n, (g.ending w.settled t c outcome).TakesEffect 𝒮 w n) :
    NotesInv 𝒮 w { g with ended := g.ended ++ [g.ending w.settled t c outcome] } where
  found := h.found
  before := by
    intro u
    obtain ⟨hle, hupTo⟩ := h.before u
    refine ⟨Nat.le_trans hle (by simp), ?_⟩
    rw [List.take_append_of_le_length hle]
    exact hupTo
  ended := by
    intro e hmem
    rcases List.mem_append.mp hmem with hmem | hmem
    · exact h.ended e hmem
    · obtain rfl := List.mem_singleton.mp hmem
      exact ⟨Nat.le_refl _, he⟩
  counted := by
    intro e hmem
    refine Nat.le_trans (m := g.ended.length) ?_ (by simp)
    rcases List.mem_append.mp hmem with hmem | hmem
    · exact h.counted e hmem
    · obtain rfl := List.mem_singleton.mp hmem
      exact (h.before t).1
  order := by
    intro i j e e' hi hj hlt
    -- The earlier of the two has returned before.
    have hold : e'.before ≤ g.ended.length := by
      rcases List.mem_append.mp (List.mem_of_getElem? hj) with hmem | hmem
      · exact h.counted e' hmem
      · obtain rfl := List.mem_singleton.mp hmem
        exact (h.before t).1
    rw [List.getElem?_append_left (Nat.lt_of_lt_of_le hlt hold)] at hi
    by_cases hnew : j < g.ended.length
    · rw [List.getElem?_append_left hnew] at hj
      exact h.order i j e e' hi hj hlt
    · rw [List.getElem?_append_right (Nat.le_of_not_lt hnew)] at hj
      obtain rfl := List.mem_singleton.mp (List.mem_of_getElem? hj)
      refine (h.before t).2 e ?_
      exact List.mem_of_getElem? ((List.getElem?_take_of_lt hlt).trans hi)

theorem exec_notes (mark : World → Notes → Nat) (w : World) (t : TaskId) (a : Act) (g : Notes) :
    ((callObserver mark).exec w t a g).since = g.since ∧
      ((callObserver mark).exec w t a g).before = g.before ∧
      ((callObserver mark).exec w t a g).found = g.found ∧
      ((callObserver mark).exec w t a g).ended = g.ended ∧
      ((callObserver mark).exec w t a g).fence = g.fence := by
  cases a <;> exact ⟨rfl, rfl, rfl, rfl, rfl⟩

theorem resume_notes (mark : World → Notes → Nat) (w : World) (t : TaskId) (e : Wait)
    (r : Except Error (WaitResult e)) (g : Notes) :
    ((callObserver mark).resume w t e r g).since = g.since ∧
      ((callObserver mark).resume w t e r g).before = g.before ∧
      ((callObserver mark).resume w t e r g).found = g.found ∧
      ((callObserver mark).resume w t e r g).ended = g.ended ∧
      ((callObserver mark).resume w t e r g).dirty = g.dirty := by
  cases e <;> cases r <;> exact ⟨rfl, rfl, rfl, rfl, rfl⟩

/-- The notes about the open call of a task are its own. -/
structure OwnNotes (t : TaskId) (g g' : Notes) : Prop where
  since : g'.since t = g.since t
  before : g'.before t = g.before t
  found : g'.found t = g.found t
  dirty : g'.dirty t = g.dirty t

/-- The notes of a system whose log settles no more than it answers. -/
def callWatch (𝒮 : Deployment) : Watch (progressDiscipline 𝒮) (callObserver settledMark) where
  Inv := NotesInv 𝒮
  Rely := OwnNotes
  rely_refl := fun _ _ => ⟨rfl, rfl, rfl, rfl⟩
  rely_trans := fun h h' => ⟨h'.since.trans h.since, h'.before.trans h.before,
    h'.found.trans h.found, h'.dirty.trans h.dirty⟩
  grow := fun hg h => h.grow hg
  start := fun t c _ h => h.start t c
  exec := by
    intro w g t a h
    obtain ⟨hs, hb, hf, he, -⟩ := exec_notes settledMark w t a g
    exact h.of_eq hs hb hf he
  resume := by
    intro w g t e r h
    obtain ⟨hs, hb, hf, he, -⟩ := resume_notes settledMark w t e r g
    exact h.of_eq hs hb hf he
  start_rely := fun _ _ _ hu => ⟨Function.update_of_ne hu _ _, Function.update_of_ne hu _ _,
    Function.update_of_ne hu _ _, Function.update_of_ne hu _ _⟩
  exec_rely := by
    intro u t w a g hu
    obtain ⟨hs, hb, hf, -⟩ := exec_notes settledMark w t a g
    refine ⟨congrFun hs u, congrFun hb u, congrFun hf u, ?_⟩
    cases a with
    | sql s => exact Function.update_of_ne hu _ _
    | _ => rfl
  resume_rely := by
    intro u t w e r g hu
    obtain ⟨hs, hb, hf, -, hd⟩ := resume_notes settledMark w t e r g
    exact ⟨congrFun hs u, congrFun hb u, congrFun hf u, congrFun hd u⟩

/-! ## What a call knows -/

/-- The triple of an observed call; nothing is said of its exceptions. -/
abbrev Observed {α : Type} (𝒮 : Deployment) (t : TaskId) (c : Call) (P : World × Notes → Prop)
    (p : Co α) (Q : World × Notes → α → Prop) : Prop :=
  ((callWatch 𝒮).discipline (promised 𝒮 settledMark)).Triple t c P p Q fun _ _ => True

theorem observed {α : Type} {P : World → Prop} {Q : World → α → Prop} {X : World → Error → Prop}
    {p : Co α} (h : (discipline 𝒮).Triple t c P p Q X)
    (hP : ∀ w replays, P w → P (w.withReplays replays))
    (hQ : ∀ w replays a, Q (w.withReplays replays) a → Q w a)
    (hX : ∀ w replays e, X (w.withReplays replays) e → X w e) :
    ((callWatch 𝒮).discipline (promised 𝒮 settledMark)).Triple t c (fun w => P w.1) p
      (fun w a => Q w.1 a) fun w e => X w.1 e := by
  refine (callWatch 𝒮).triple ?_ (Triple.progress h hP hQ hX)
  intro w t c e x hc
  exact hc.1

/-- The replies of a wait leave the stores alone. -/
theorem Resumed.progress {w w' : World} {e : Wait} {x : Choice}
    {r : Except Error (WaitResult e)} (h : Resumed 𝒮 w t e x w' r) (node : String) :
    w'.progress node = w.progress node := by
  unfold World.progress
  cases h with
  | acquired lock _ => rw [World.connection_setLock]
  | refreshed => rw [World.connection_setCached]
  | bootstrapped => rw [World.connection_setCached]
  | _ => rfl

/-- However a wait is answered, the notes are kept too. -/
theorem observed_resume {w w' : World × Notes} {e : Wait} {x : Choice}
    {r : Except Error (WaitResult e)} (hi : Inv 𝒮 w.1 ∧ NotesInv 𝒮 w.1 w.2)
    (hs : (𝒮.runtime.observed (callObserver settledMark)).resume w t e x = some (w', r)) :
    Resumed 𝒮 w.1 t e x w'.1 r ∧ w'.2 = (callObserver settledMark).resume w'.1 t e r w.2 ∧
      ((callWatch 𝒮).discipline (promised 𝒮 settledMark)).Kept t w w' := by
  have hnoted := Watch.Noted.resume (K := callWatch 𝒮) hi.2 hs
  obtain ⟨⟨w₁, r'⟩, hr, heq⟩ := Option.map_eq_some_iff.mp hs
  obtain ⟨rfl, rfl⟩ := Prod.mk.inj heq
  have hres := resume_cases hr
  obtain ⟨hi', hrely⟩ := hres.kept hi.1
  refine ⟨hres, rfl, Watch.kept_iff.mpr ⟨⟨hi', fun u hu => ⟨hrely u hu, fun node => ?_⟩⟩, hnoted⟩⟩
  exact Int.le_of_eq (hres.progress node).symm

/-- What a call relies on in the system, and its mark. -/
theorem marked_stable {F : World → Prop} (hF : (discipline 𝒮).Lasting t F) (since : Nat) :
    ((callWatch 𝒮).discipline (promised 𝒮 settledMark)).Stable t
      fun w => F w.1 ∧ w.2.since t = since :=
  fun _ _ hg hr _ h => ⟨hF _ _ hg hr.1.1 h.1, hr.2.since.trans h.2⟩

/-- The mark of a call stays the same while it runs. -/
theorem Observed.marked {α : Type} {P : World × Notes → Prop} {Q : World × Notes → α → Prop}
    {p : Co α} (h : Observed 𝒮 t c P p Q) (since : Nat) :
    Observed 𝒮 t c (fun w => P w ∧ w.2.since t = since) p
      fun w a => Q w a ∧ w.2.since t = since := by
  refine (h.frame_own (F := fun w => w.2.since t = since) ?_ ?_ ?_).mono (fun _ _ h => h)
    (fun _ _ _ h => h) fun _ _ _ _ => trivial
  · exact fun _ _ _ hr _ h => hr.2.since.trans h
  · intro w a h
    exact (congrFun (exec_notes settledMark w.1 t a w.2).1 t).trans h
  · intro w e x w' r hs h
    obtain ⟨⟨w₁, r'⟩, -, heq⟩ := Option.map_eq_some_iff.mp hs
    obtain ⟨rfl, rfl⟩ := Prod.mk.inj heq
    exact (congrFun (resume_notes settledMark w₁ t e r' w.2).1 t).trans h

/-- A tail that a call is told is not behind its mark. -/
theorem observed_checkTail (since : Nat) :
    Observed 𝒮 t c (fun w => Quiet t w.1 ∧ w.2.since t = since) (wait .checkTail)
      fun w tail => ((Quiet t w.1 ∧ Below (tail.tail - 1) w.1) ∧ w.2.since t = since) ∧
        since ≤ tail.tail := by
  refine .wait (marked_stable gap_lasting since) fun w x w' r hi h hc hs => ?_
  obtain ⟨hres, hnotes, hkept⟩ := observed_resume hi hs
  refine ⟨hkept, fun tail htail => ?_, fun _ _ => trivial⟩
  subst htail
  obtain ⟨w₁, g₁⟩ := w'
  cases hres with
  | tail tail ht =>
      have hsince : w.2.since t ≤ tail.tail := hc.2
      refine ⟨⟨⟨h.1, ?_⟩, ?_⟩, h.2 ▸ hsince⟩
      · show ((tail.tail : Int) - 1) < w.1.settled
        omega
      · rw [hnotes, (resume_notes settledMark _ _ _ _ _).1]
        exact h.2

theorem observed_executed {F : World × Notes → Prop}
    (hF : ((callWatch 𝒮).discipline (promised 𝒮 settledMark)).Stable t F) :
    Observed 𝒮 t c F (wait .executed) fun w _ => F w := by
  refine .wait hF fun w x w' r hi h _ hs => ?_
  obtain ⟨hres, hnotes, hkept⟩ := observed_resume hi hs
  refine ⟨hkept, fun a ha => ?_, fun _ _ => trivial⟩
  subst ha
  obtain ⟨w₁, g₁⟩ := w'
  cases hres with
  | executed =>
      obtain rfl : g₁ = w.2 := hnotes
      exact h

/-- A statement that only reads, with the note of what it has read. -/
theorem observed_select {s : Statement} (hs : s.Selects) {P : World × Notes → Prop}
    {Q : World × Notes → s.Result → Prop}
    (hQ : ∀ w a, Inv 𝒮 w.1 → P w → ((w.1.connection t.node).execute s).2 = .ok a →
      Q ({ w.1 with reads := Deployment.readsAfter w.1 t.node s },
        (callObserver settledMark).exec w.1 t (.sql s) w.2) a)
    (hstable : ∀ a, ((callWatch 𝒮).discipline (promised 𝒮 settledMark)).Stable t fun w => Q w a) :
    Observed 𝒮 t c P (execute s) Q := by
  refine .bind (Triple.act (Q := fun w answer => ∃ a, Q w a ∧ answer = Except.ok a) ?_)
    fun answer => ?_
  · intro w hi hp
    obtain ⟨a, ha⟩ := Connection.execute_selects_ok hs (w.1.connection t.node)
    have hexec : (𝒮.runtime.observed (callObserver settledMark)).exec w t (.sql s) =
        (({ w.1 with reads := Deployment.readsAfter w.1 t.node s },
          (callObserver settledMark).exec w.1 t (.sql s) w.2),
          ((w.1.connection t.node).execute s).2) := by
      show ((_, _), _) = _
      rw [show 𝒮.runtime.exec w.1 t (.sql s) = _ from exec_selects hs]
    have hsame : (callWatch 𝒮).Noted t w w := ⟨hi.2, fun u _ => (callWatch 𝒮).rely_refl u w.2⟩
    have hnoted := hsame.exec (.sql s)
    rw [hexec] at hnoted ⊢
    refine ⟨Watch.kept_iff.mpr ⟨⟨hi.1.noted _, fun u _ => ?_⟩, hnoted⟩, a, hQ w a hi.1 hp ha, ha⟩
    exact ⟨.of_others rfl rfl id, fun _ => Int.le_refl _⟩
  · refine .of_forall fun a => .given fun ha => ?_
    subst ha
    exact .bind (observed_executed (hstable a)) fun _ => .ret fun _ _ h => h

/-! ## The service -/

theorem observed_orReconfigure {α : Type} {P : World × Notes → Prop} {body : Co α}
    {Q : World × Notes → α → Prop} {message : String} (h : Observed 𝒮 t c P body Q) :
    Observed 𝒮 t c P (Codec.orReconfigure message body) Q := by
  refine .handle h fun e => ?_
  cases e with
  | logletSealed message => exact .raise fun _ _ _ => trivial
  | logletUnavailable message => exact .raise fun _ _ _ => trivial
  | _ => exact .raise fun _ _ _ => trivial

/-- The store has committed everything below the mark, unless the task has read something
that no transaction has committed. -/
def CaughtUp (t : TaskId) (since : Nat) (w : World × Notes) : Prop :=
  w.2.dirty t = false → (since : Int) ≤ w.1.progress t.node + 1

/-- What a `sync` reads as the progress of the store is committed, or it is noted as dirty. -/
theorem observed_appliedPosition {target : Int} :
    Observed 𝒮 t c (fun w => Quiet t w.1 ∧ Below target w.1) SQLiteKvStore.appliedPosition
      fun w current => (Quiet t w.1 ∧ Below target w.1) ∧
        (w.2.dirty t = false → current ≤ w.1.progress t.node) := by
  refine observed_select (s := .selectProgress) trivial (fun w current hi h ha => ⟨h, ?_⟩)
    fun current => ?_
  · intro hdirty
    have hclean : (w.1.connection t.node).working.appliedPosition =
        (w.1.connection t.node).committed.appliedPosition := by
      by_contra hne
      have hnoted : (callObserver settledMark).exec w.1 t (.sql .selectProgress) w.2 = _ := rfl
      rw [hnoted] at hdirty
      simp only [callObserver, Function.update_self, Bool.or_eq_false_iff,
        decide_eq_false_iff_not] at hdirty
      exact hdirty.2 hne
    have hcurrent : (w.1.connection t.node).working.appliedPosition = current :=
      Except.ok.inj ha
    show current ≤ (w.1.connection t.node).committed.appliedPosition
    rw [← hcurrent, hclean]
  · intro w w' hg hr _ h
    refine ⟨⟨hr.1.1.gap.trans h.1.1, h.1.2.mono hg⟩, fun hdirty => ?_⟩
    rw [hr.2.dirty] at hdirty
    exact Int.le_trans (h.2 hdirty) (hr.1.2 t.node)

theorem observed_materializeThrough (target : Int) :
    Observed 𝒮 t c (fun w => Quiet t w.1 ∧ Below target w.1) (𝒮.codec.materializeThrough target)
      fun w _ => target ≤ w.1.progress t.node := by
  refine (observed (materializeThrough_spec target) (fun _ _ h => h) ?_ fun _ _ _ h => ?_).mono
    (fun _ _ h => h) (fun _ _ _ h => h.applied) fun _ _ _ _ => trivial
  · exact fun _ _ _ h => ⟨h.gap, h.applied, h.entry⟩
  · exact ⟨h.gapped, h.clean.imp_right (Or.imp_right fun hb => hb.of_log rfl)⟩

/-- **A `sync` catches up** with what the log had answered when the call was invoked. -/
theorem observed_sync (since : Nat) :
    Observed 𝒮 t c (fun w => Quiet t w.1 ∧ w.2.since t = since) 𝒮.codec.sync
      fun w _ => CaughtUp t since w := by
  have hboot : Observed 𝒮 t c (fun w => Quiet t w.1) Codec.ensureBootstrapped fun w _ =>
      Quiet t w.1 :=
    (observed ensureBootstrapped_spec (fun _ _ h => h) (fun _ _ _ h => h) fun _ _ _ h => h).mono
      (fun _ _ h => h) (fun _ _ _ h => h) fun _ _ _ _ => trivial
  refine .bind (hboot.marked since) fun _ =>
    .bind (observed_orReconfigure (observed_checkTail since)) fun tail => .given fun hsince =>
      .bind (.check fun _ _ _ _ => trivial) fun _ => .given fun _ => ?_
  refine .bind (observed_appliedPosition.pre fun _ _ h => h.1) fun current => ?_
  by_cases hlt : current < (tail.tail : Int) - 1
  · simp only [hlt, if_true]
    refine .bind ((observed_materializeThrough _).pre fun _ _ h => h.1) fun _ =>
      .ret fun w _ h _ => ?_
    omega
  · simp only [hlt, if_false]
    refine .ret fun w _ h hdirty => ?_
    have hcurrent := h.2 hdirty
    omega

/-- A `get` has read the replay of a prefix of the log that reaches the mark. -/
def GetPost (𝒮 : Deployment) (t : TaskId) (key : String) (since : Nat) (w : World × Notes)
    (value : Option KvValue) : Prop :=
  w.2.dirty t = false → ∃ n, since ≤ n ∧ n ≤ w.1.settled ∧
    value = (𝒮.replay w.1 n).state.lookup key

theorem GetPost.stable (key : String) (since : Nat) (value : Option KvValue) :
    ((callWatch 𝒮).discipline (promised 𝒮 settledMark)).Stable t fun w =>
      GetPost 𝒮 t key since w value := by
  intro w w' hg hr _ h hdirty
  rw [hr.2.dirty] at hdirty
  obtain ⟨n, hsince, hn, hvalue⟩ := h hdirty
  refine ⟨n, hsince, Nat.le_trans hn hg.settled, ?_⟩
  rw [Deployment.replay_grow hg hn]
  exact hvalue

theorem observed_get (key : String) (since : Nat) :
    Observed 𝒮 t c (fun w => Quiet t w.1 ∧ w.2.since t = since) (𝒮.codec.get key)
      fun w value => GetPost 𝒮 t key since w value := by
  refine .bind (observed_sync since) fun _ => ?_
  refine observed_select (s := .selectItem key) trivial (fun w value hi h ha hdirty => ?_)
    (GetPost.stable key since)
  have hnoted : (callObserver settledMark).exec w.1 t (.sql (.selectItem key)) w.2 = _ := rfl
  rw [hnoted] at hdirty
  simp only [callObserver, Function.update_self, Bool.or_eq_false_iff,
    decide_eq_false_iff_not] at hdirty
  obtain ⟨hdirty, hclean⟩ := hdirty
  have hstore := (hi.store t.node).committed
  have hnext : ((w.1.connection t.node).committed.next : Int) =
      (w.1.connection t.node).committed.appliedPosition + 1 := hstore.next_eq
  have hcaught : (since : Int) ≤ (w.1.connection t.node).committed.appliedPosition + 1 := h hdirty
  refine ⟨_, ?_, hstore.next_le, ?_⟩
  · show since ≤ (w.1.connection t.node).committed.next
    omega
  · have hvalue : (w.1.connection t.node).working.items.lookup key = value := Except.ok.inj ha
    have hworking : (w.1.connection t.node).working.items.lookup key =
        (w.1.connection t.node).committed.items.lookup key := not_not.mp hclean
    rw [← hvalue, hworking]
    exact congrArg (Finmap.lookup key) hstore.shape.items

/-! ## The ends of a call -/

/-- What a call tells when it returns. -/
def EndPost (𝒮 : Deployment) (t : TaskId) (c : Call) (w : World × Notes) (o : Outcome) : Prop :=
  CallPost 𝒮 t c w.1 o ∧
    (∀ key, c = .get key →
      ∃ value, o = .value value ∧ GetPost 𝒮 t key (w.2.since t) w value) ∧
    ∀ command, c = .submit command → ∃ result, o = .result result

theorem CallPost.of_replays {w : World} {replays : List Replayed} {o : Outcome}
    (h : CallPost 𝒮 t c (w.withReplays replays) o) : CallPost 𝒮 t c w o := by
  cases o with
  | result r =>
      cases c with
      | submit command => exact h
      | materializeThrough target => exact ⟨h.1, h.2.gap, h.2.applied, h.2.entry⟩
      | _ => trivial
  | _ => trivial

theorem CallError.of_replays {w : World} {replays : List Replayed} {e : Error}
    (h : CallError 𝒮 t c (w.withReplays replays) e) : CallError 𝒮 t c w e := by
  cases c with
  | materializeThrough target =>
      obtain ⟨hb, hgapped, hclean⟩ := h
      exact ⟨hb, hgapped, hclean.imp_right (Or.imp_right fun hb => hb.of_log rfl)⟩
  | _ => trivial

theorem observed_program {w₀ : World} (hc : c.Serves w₀) (since : Nat) :
    ((callWatch 𝒮).discipline (promised 𝒮 settledMark)).Triple t c
      (fun w => (Quiet t w.1 ∧ Grow w₀ w.1) ∧ w.2.since t = since) (𝒮.program c)
      (EndPost 𝒮 t c) fun w e => CallError 𝒮 t c w.1 e := by
  have hlifted : ((callWatch 𝒮).discipline (promised 𝒮 settledMark)).Triple t c
      (fun w => Quiet t w.1 ∧ Grow w₀ w.1) (𝒮.program c) (fun w o => CallPost 𝒮 t c w.1 o)
      fun w e => CallError 𝒮 t c w.1 e :=
    observed (program_spec hc) (fun _ _ h => ⟨h.1, h.2.log, h.2.settled, h.2.fixed⟩)
      (fun _ _ _ h => h.of_replays) fun _ _ _ h => h.of_replays
  cases c with
  | get key =>
      refine .bind (((observed_get key since).marked since).mono (fun _ _ h => ⟨⟨h.1.1, h.2⟩, h.2⟩)
        (fun _ _ _ h => h) fun _ _ _ _ => trivial) fun value => .ret fun w _ h => ?_
      refine ⟨trivial, fun key' hkey => ⟨value, rfl, ?_⟩, by rintro _ ⟨⟩⟩
      obtain rfl := Call.get.inj hkey
      rw [h.2]
      exact h.1
  | submit command =>
      refine .bind ((observed (submit_spec command) (fun _ _ h => h) (fun _ _ _ h => h)
        fun _ _ _ h => h).mono (fun _ _ h => h.1.1) (fun _ _ _ h => h) fun _ _ _ _ => trivial)
          fun result => .ret fun w _ h => ?_
      exact ⟨h, by rintro _ ⟨⟩, fun _ _ => ⟨result, rfl⟩⟩
  | _ =>
      refine hlifted.mono (fun _ _ h => h.1) (fun w o _ h => ⟨h, ?_, ?_⟩) fun _ _ _ h => h
      · rintro _ ⟨⟩
      · rintro _ ⟨⟩

/-- What a call has told is what it takes effect as. -/
theorem EndPost.takesEffect {w : World × Notes} {o : Outcome} (h : EndPost 𝒮 t c w o)
    (hfound : Found w.1 (w.2.since t) (w.2.found t)) :
    ∃ n, (w.2.ending w.1.settled t c o).TakesEffect 𝒮 w.1 n := by
  obtain ⟨hpost, hget, hsubmit⟩ := h
  unfold Ended.TakesEffect
  cases c with
  | get key =>
      obtain ⟨value, ho, hpost⟩ := hget key rfl
      by_cases hdirty : w.2.dirty t = false
      · obtain ⟨n, hsince, hn, hvalue⟩ := hpost hdirty
        exact ⟨n, fun _ => ⟨value, ho, hsince, hn, hvalue⟩⟩
      · exact ⟨0, fun hd => absurd hd hdirty⟩
  | submit command =>
      obtain ⟨result, rfl⟩ := hsubmit command rfl
      by_cases hlossless : 𝒮.codec.Lossless command
      · obtain ⟨p, first, hfirst⟩ := Completed.firstResult (hpost hlossless)
        refine ⟨p, fun _ => ⟨result, rfl, fun hfresh => ?_, hfirst.settled, first, hfirst⟩⟩
        -- An earlier occurrence was in the log when the call was invoked.
        by_contra hlt
        have hlt := Nat.lt_of_not_le hlt
        have hcommand := hfirst.command
        unfold Deployment.commands at hcommand
        rw [hfound.2 p hlt] at hcommand
        obtain ⟨content, hcontent, hdecode⟩ := Option.bind_eq_some_iff.mp hcommand
        exact hfresh p hlt content first hcontent hdecode hfirst.same
      · exact ⟨0, fun hl => absurd hl hlossless⟩
  | _ => exact ⟨0, trivial⟩

theorem finish_progress (w : World) (t : TaskId) (c : Call) (o : Except Error Outcome)
    (node : String) : (Deployment.finish w t c o).progress node = w.progress node := by
  unfold Deployment.finish
  split <;> rfl

/-- The end of a call is noted, and the system keeps what it keeps. -/
theorem observed_finish {w : World × Notes} {o : Except Error Outcome}
    (hi : NotesInv 𝒮 w.1 w.2)
    (hk : (discipline 𝒮).Kept t w.1 (Deployment.finish w.1 t c o))
    (he : ∀ outcome, o = .ok outcome →
      ∃ n, (w.2.ending w.1.settled t c outcome).TakesEffect 𝒮 w.1 n) :
    ((callWatch 𝒮).discipline (promised 𝒮 settledMark)).Kept t w
      ((𝒮.runtime.observed (callObserver settledMark)).finish w t c o) := by
  refine Watch.kept_iff.mpr ⟨⟨hk.1, fun u hu => ⟨hk.2 u hu, fun node => ?_⟩⟩, ?_, fun u _ => ?_⟩
  · exact Int.le_of_eq (finish_progress w.1 t c o node).symm
  · have hg : Grow w.1 (Deployment.finish w.1 t c o) := (discipline 𝒮).finish_grow w.1 t c o
    cases o with
    | error e => exact hi.grow hg
    | ok outcome => exact (hi.finish (he outcome rfl)).grow hg
  · cases o <;> exact ⟨rfl, rfl, rfl, rfl⟩

/-! ## Soundness -/

/-- No disturbance takes progress back. -/
theorem disturb_progress {w w' : World} {d : Disturbance} (h : Deployment.disturb w d = some w')
    (node : String) : w'.progress node = w.progress node := by
  cases d with
  | decide position content =>
      rw [Deployment.disturb] at h
      split at h <;> cases h
      rfl
  | settle position =>
      cases h
      rfl
  | trim position =>
      rw [Deployment.disturb] at h
      split at h <;> cases h
      rfl
  | crash crashed =>
      cases h
      show (((w.setReplica crashed _).replicas node).connection).committed.appliedPosition = _
      by_cases hn : node = crashed
      · subst hn
        have hself : (w.setReplica node (.opened (w.connection node).committed)).replicas node =
            .opened (w.connection node).committed := Function.update_self _ _ _
        rw [hself]
        rfl
      · rw [World.replicas_setReplica_ne hn]
        rfl

theorem observed_sound : ((callWatch 𝒮).discipline (promised 𝒮 settledMark)).Sound where
  start := by
    intro w t c w' p hi hc hst
    have heq : ((({ w.1 with gap := Function.update w.1.gap t false } : World),
        (callObserver settledMark).start _ t c w.2), 𝒮.program c) = (w', p) := Option.some.inj hst
    obtain ⟨rfl, rfl⟩ := Prod.mk.inj heq
    have hg : Grow w.1 { w.1 with gap := Function.update w.1.gap t false } := .of_eq rfl rfl
    obtain ⟨hi₁, hrely⟩ := hi.1.gap_kept (t := t) false
    refine ⟨hg, ?_⟩
    refine (observed_program hc w.1.settled).safe_finish (Watch.kept_iff.mpr ⟨⟨hi₁, fun u hu =>
      ⟨hrely u hu, fun _ => Int.le_refl _⟩⟩, (hi.2.grow hg).start t c, fun u hu =>
        (callWatch 𝒮).start_rely _ c w.2 hu⟩) ⟨⟨Function.update_self _ _ _, hg⟩, ?_⟩ ?_ ?_
    · exact Function.update_self _ _ _
    · intro w' o hi' h
      refine observed_finish hi'.2 (finish_ok hc hi'.1 h.1) fun outcome ho => ?_
      obtain rfl := Except.ok.inj ho
      exact h.takesEffect (hi'.2.found t)
    · intro w' e hi' h
      refine observed_finish hi'.2 (finish_error hc hi'.1 h) fun outcome ho => ?_
      cases ho
  disturb := by
    intro w d w' hi hd
    obtain ⟨w₁, hd', rfl⟩ := Option.map_eq_some_iff.mp hd
    obtain ⟨hi', hg, hr⟩ := disturb_kept hi.1 hd'
    refine ⟨⟨hi', hi.2.grow hg⟩, hg, fun u hu => ⟨⟨hr u hu, fun node => ?_⟩, ?_⟩⟩
    · exact Int.le_of_eq (disturb_progress hd' node).symm
    · exact (callWatch 𝒮).rely_refl u w.2

theorem notes_initial : NotesInv 𝒮 World.empty Notes.initial where
  found := fun _ => ⟨Nat.le_refl _, fun _ hp => absurd hp (Nat.not_lt_zero _)⟩
  before := fun _ => ⟨Nat.le_refl _, fun _ he => absurd he List.not_mem_nil⟩
  ended := fun _ he => absurd he List.not_mem_nil
  counted := fun _ he => absurd he List.not_mem_nil
  order := by
    intro i j e e' hi
    cases hi

theorem settled_reachable {s : ObservedState}
    (h : (𝒮.runtime.observed (callObserver settledMark)).ReachableUnder (promised 𝒮 settledMark)
      (· = (World.empty, Notes.initial)) s) : NotesInv 𝒮 s.world.1 s.world.2 := by
  refine (observed_sound.reachable ?_ h).1.2
  rintro w rfl
  exact ⟨inv_empty, notes_initial⟩

end Marked

end DelosLab.Kv
