import DelosLab.Async.Coroutine

/-!
# Scheduling tasks over a shared world

A `Runtime` says how a world answers the acts and waits of its tasks, which
coroutine a call starts, what the world remembers when a task ends, and which
disturbances (a message handled by a server, a crash) strike between the steps
of the tasks. The scheduler is executable, so a run is a list of actions.
-/

namespace Async

/-- `W` is the world, `Θ` the task names, `Call` what a task was started for,
`Choice` how an open wait is answered, `D` the disturbances, `O` the outcomes. -/
structure Runtime (S : Signature) (W Θ Call Choice D O : Type) where
  start : W → Θ → Call → Option (W × Coroutine S O)
  exec : W → Θ → (a : S.Act) → W × S.ActResult a
  resume : W → Θ → (e : S.Wait) → Choice → Option (W × Except S.Error (S.WaitResult e))
  finish : W → Θ → Call → Except S.Error O → W
  disturb : W → D → Option W
  survives : D → Θ → Bool

inductive Action (Θ Call Choice D : Type) : Type where
  | launch (t : Θ) (c : Call)
  | resume (t : Θ) (x : Choice)
  | disturb (d : D)

/-- Every task in `tasks` is suspended at a wait. -/
structure State (S : Signature) (W Θ Call O : Type) where
  world : W
  tasks : Θ → Option (Call × Coroutine S O)

/-- A condition on the steps of a run: which calls may start and how waits may
be answered, judged in the world before the step. -/
structure Condition (S : Signature) (W Θ Call Choice : Type) where
  launch : W → Θ → Call → Prop
  resume : W → Θ → Call → S.Wait → Choice → Prop

/-- The condition that every step meets. -/
def Condition.any {S : Signature} {W Θ Call Choice : Type} : Condition S W Θ Call Choice where
  launch := fun _ _ _ => True
  resume := fun _ _ _ _ _ => True

/-- `C`, in a world that satisfies `J`. -/
def Condition.within {S : Signature} {W Θ Call Choice : Type} (C : Condition S W Θ Call Choice)
    (J : W → Prop) : Condition S W Θ Call Choice where
  launch := fun w t c => J w ∧ C.launch w t c
  resume := fun w t c e x => J w ∧ C.resume w t c e x

namespace Runtime

variable {S : Signature} {W Θ Call Choice D O : Type}

/-- Run a coroutine to the end of its atomic segment. -/
def settle (M : Runtime S W Θ Call Choice D O) (t : Θ) : W → Coroutine S O → W × Coroutine S O
  | w, .act a k => M.settle t (M.exec w t a).1 (k (M.exec w t a).2)
  | w, .ret o => (w, .ret o)
  | w, .raise e => (w, .raise e)
  | w, .wait e k => (w, .wait e k)

section Step

variable [DecidableEq Θ]

/-- Let task `t` run to its next wait or to its end. -/
def advance (M : Runtime S W Θ Call Choice D O) (s : State S W Θ Call O) (t : Θ) (c : Call)
    (w : W) (p : Coroutine S O) : State S W Θ Call O :=
  match M.settle t w p with
  | (w', .ret o) => ⟨M.finish w' t c (.ok o), Function.update s.tasks t none⟩
  | (w', .raise e) => ⟨M.finish w' t c (.error e), Function.update s.tasks t none⟩
  | (w', q) => ⟨w', Function.update s.tasks t (some (c, q))⟩

def step (M : Runtime S W Θ Call Choice D O) (s : State S W Θ Call O) :
    Action Θ Call Choice D → Option (State S W Θ Call O)
  | .launch t c =>
      match s.tasks t with
      | some _ => none
      | none => (M.start s.world t c).map fun r => M.advance s t c r.1 r.2
  | .resume t x =>
      match s.tasks t with
      | some (c, .wait e k) =>
          (M.resume s.world t e x).map fun r => M.advance s t c r.1 (k r.2)
      | _ => none
  | .disturb d =>
      (M.disturb s.world d).map fun w =>
        ⟨w, fun t => if M.survives d t then s.tasks t else none⟩

/-- Run a list of actions; `none` when one of them is not enabled. -/
def run (M : Runtime S W Θ Call Choice D O) :
    State S W Θ Call O → List (Action Θ Call Choice D) → Option (State S W Θ Call O)
  | s, [] => some s
  | s, a :: as => (M.step s a).bind fun s' => M.run s' as

/-- Run a list of actions that pass a check before each step. -/
def runWhile (M : Runtime S W Θ Call Choice D O)
    (ok : State S W Θ Call O → Action Θ Call Choice D → Bool) :
    State S W Θ Call O → List (Action Θ Call Choice D) → Option (State S W Θ Call O)
  | s, [] => some s
  | s, a :: as => if ok s a then (M.step s a).bind fun s' => M.runWhile ok s' as else none

end Step

/-- A world before any task has started. -/
def fresh (S : Signature) (Θ Call O : Type) (w : W) : State S W Θ Call O := ⟨w, fun _ => none⟩

/-- `a` is a step from `s` that meets `C`. -/
def Meets (C : Condition S W Θ Call Choice) (s : State S W Θ Call O) :
    Action Θ Call Choice D → Prop
  | .launch t c => C.launch s.world t c
  | .resume t x => ∀ c e k, s.tasks t = some (c, .wait e k) → C.resume s.world t c e x
  | .disturb _ => True

variable [DecidableEq Θ]

/-- The states that runs from an initial world reach when every step meets `C`. -/
inductive ReachableUnder (M : Runtime S W Θ Call Choice D O) (C : Condition S W Θ Call Choice)
    (Init : W → Prop) : State S W Θ Call O → Prop
  | init {w : W} (h : Init w) : ReachableUnder M C Init (fresh S Θ Call O w)
  | step {s s' : State S W Θ Call O} {a : Action Θ Call Choice D}
      (h : ReachableUnder M C Init s) (hC : Meets C s a) (hs : M.step s a = some s') :
      ReachableUnder M C Init s'

/-- The states that runs from an initial world reach. -/
abbrev Reachable (M : Runtime S W Θ Call Choice D O) (Init : W → Prop) :
    State S W Θ Call O → Prop :=
  M.ReachableUnder Condition.any Init

/-- `s'` comes after `s` in a run whose steps meet `C`. -/
inductive Later (M : Runtime S W Θ Call Choice D O) (C : Condition S W Θ Call Choice)
    (s : State S W Θ Call O) : State S W Θ Call O → Prop
  | refl : Later M C s s
  | step {s' s'' : State S W Θ Call O} {a : Action Θ Call Choice D}
      (h : Later M C s s') (hC : Meets C s' a) (hs : M.step s' a = some s'') :
      Later M C s s''

/-- `s'` comes after `s` in a run of actions that satisfy `A`, whose steps meet `C`. -/
inductive Through (M : Runtime S W Θ Call Choice D O) (C : Condition S W Θ Call Choice)
    (A : Action Θ Call Choice D → Prop) (s : State S W Θ Call O) : State S W Θ Call O → Prop
  | refl : Through M C A s s
  | step {s' s'' : State S W Θ Call O} {a : Action Θ Call Choice D}
      (h : Through M C A s s') (hA : A a) (hC : Meets C s' a) (hs : M.step s' a = some s'') :
      Through M C A s s''

omit [DecidableEq Θ] in
theorem meets_any (s : State S W Θ Call O) (a : Action Θ Call Choice D) :
    Meets (Condition.any) s a := by
  cases a with
  | launch t c => trivial
  | resume t x => exact fun _ _ _ _ => trivial
  | disturb d => trivial

theorem ReachableUnder.later {M : Runtime S W Θ Call Choice D O}
    {C : Condition S W Θ Call Choice} {Init : W → Prop} {s s' : State S W Θ Call O}
    (h : M.ReachableUnder C Init s) (hl : M.Later C s s') : M.ReachableUnder C Init s' := by
  induction hl with
  | refl => exact h
  | step _ hC hs ih => exact .step ih hC hs

theorem Through.later {M : Runtime S W Θ Call Choice D O} {C : Condition S W Θ Call Choice}
    {A : Action Θ Call Choice D → Prop} {s s' : State S W Θ Call O} (h : M.Through C A s s') :
    M.Later C s s' := by
  induction h with
  | refl => exact .refl
  | step _ _ hC hs ih => exact .step ih hC hs

theorem Later.trans {M : Runtime S W Θ Call Choice D O} {C : Condition S W Θ Call Choice}
    {s₁ s₂ s₃ : State S W Θ Call O} (h : M.Later C s₁ s₂) (h' : M.Later C s₂ s₃) :
    M.Later C s₁ s₃ := by
  induction h' with
  | refl => exact h
  | step _ hC hs ih => exact .step ih hC hs

theorem Later.mono {M : Runtime S W Θ Call Choice D O} {C C' : Condition S W Θ Call Choice}
    (hC : ∀ s a s', Meets C s a → M.step s a = some s' → Meets C' s a)
    {s s' : State S W Θ Call O} (h : M.Later C s s') : M.Later C' s s' := by
  induction h with
  | refl => exact .refl
  | step _ hm hs ih => exact .step ih (hC _ _ _ hm hs) hs

/-- A run whose steps meet `C` is a run whose steps meet every weaker condition. -/
theorem ReachableUnder.mono {M : Runtime S W Θ Call Choice D O}
    {C C' : Condition S W Θ Call Choice} {Init : W → Prop}
    (hC : ∀ s a s', Meets C s a → M.step s a = some s' → Meets C' s a)
    {s : State S W Θ Call O} (h : M.ReachableUnder C Init s) : M.ReachableUnder C' Init s := by
  induction h with
  | init hw => exact .init hw
  | step _ hm hs ih => exact .step ih (hC _ _ _ hm hs) hs

/-- A property of every state that a run reaches may be assumed at each of its steps. -/
theorem ReachableUnder.within {M : Runtime S W Θ Call Choice D O}
    {C : Condition S W Θ Call Choice} {Init : W → Prop} {J : W → Prop}
    (hJ : ∀ s : State S W Θ Call O, M.ReachableUnder C Init s → J s.world)
    {s : State S W Θ Call O} (h : M.ReachableUnder C Init s) :
    M.ReachableUnder (C.within J) Init s := by
  induction h with
  | init hw => exact .init hw
  | @step s s' a h hC hs ih =>
      refine .step ih ?_ hs
      cases a with
      | launch t c => exact ⟨hJ s h, hC⟩
      | resume t x => exact fun c e k ht => ⟨hJ s h, hC c e k ht⟩
      | disturb d => trivial

/-- A property of worlds that every part of a step keeps. -/
structure Keeps (M : Runtime S W Θ Call Choice D O) (C : Condition S W Θ Call Choice)
    (I : W → Prop) : Prop where
  start : ∀ {w t c w' p}, I w → C.launch w t c → M.start w t c = some (w', p) → I w'
  exec : ∀ w t a, I w → I (M.exec w t a).1
  resume : ∀ {w t c e x w' r}, I w → C.resume w t c e x → M.resume w t e x = some (w', r) → I w'
  finish : ∀ w t c o, I w → I (M.finish w t c o)
  disturb : ∀ {w d w'}, I w → M.disturb w d = some w' → I w'

namespace Keeps

variable {M : Runtime S W Θ Call Choice D O} {C : Condition S W Θ Call Choice} {I : W → Prop}

theorem advance (h : M.Keeps C I) (s : State S W Θ Call O) (t : Θ) (c : Call) {w : W}
    (p : Coroutine S O) (hw : I w) : I (M.advance s t c w p).world := by
  induction p generalizing w with
  | ret o => exact h.finish w t c (.ok o) hw
  | raise e => exact h.finish w t c (.error e) hw
  | act a k ih => exact ih _ (h.exec w t a hw)
  | wait e k _ => exact hw

theorem step (h : M.Keeps C I) {s s' : State S W Θ Call O} {a : Action Θ Call Choice D}
    (hw : I s.world) (hC : Meets C s a) (hs : M.step s a = some s') : I s'.world := by
  cases a with
  | launch t c =>
      simp only [Runtime.step] at hs
      split at hs
      · cases hs
      · obtain ⟨⟨w, p⟩, hstart, rfl⟩ := Option.map_eq_some_iff.mp hs
        exact h.advance s t c p (h.start hw hC hstart)
  | resume t x =>
      simp only [Runtime.step] at hs
      split at hs
      · next c e k ht =>
          obtain ⟨⟨w, r⟩, hr, rfl⟩ := Option.map_eq_some_iff.mp hs
          exact h.advance s t c _ (h.resume hw (hC c e k ht) hr)
      · cases hs
  | disturb d =>
      obtain ⟨w, hd, rfl⟩ := Option.map_eq_some_iff.mp hs
      exact h.disturb hw hd

/-- What every part of a step keeps holds in every reachable state. -/
theorem reachable (h : M.Keeps C I) {Init : W → Prop} (hI : ∀ w, Init w → I w)
    {s : State S W Θ Call O} (hs : M.ReachableUnder C Init s) : I s.world := by
  induction hs with
  | init hw => exact hI _ hw
  | step _ hC hstep ih => exact h.step ih hC hstep

theorem later (h : M.Keeps C I) {s s' : State S W Θ Call O} (hw : I s.world)
    (hl : M.Later C s s') : I s'.world := by
  induction hl with
  | refl => exact hw
  | step _ hC hstep ih => exact h.step ih hC hstep

end Keeps

/-- A list of actions that runs through leads to a reachable state. -/
theorem Reachable.run {M : Runtime S W Θ Call Choice D O} {Init : W → Prop}
    {s s' : State S W Θ Call O} (h : M.Reachable Init s) {as : List (Action Θ Call Choice D)}
    (hr : M.run s as = some s') : M.Reachable Init s' := by
  induction as generalizing s with
  | nil =>
      obtain rfl := Option.some.inj hr
      exact h
  | cons a as ih =>
      obtain ⟨s₁, hs, hr'⟩ := Option.bind_eq_some_iff.mp hr
      exact ih (.step h (meets_any s a) hs) hr'

/-- The same for a run whose check implies the condition on its steps. -/
theorem ReachableUnder.runWhile {M : Runtime S W Θ Call Choice D O}
    {C : Condition S W Θ Call Choice} {Init : W → Prop}
    {ok : State S W Θ Call O → Action Θ Call Choice D → Bool}
    (hok : ∀ s a, ok s a = true → Meets C s a) {s s' : State S W Θ Call O}
    (h : M.ReachableUnder C Init s) {as : List (Action Θ Call Choice D)}
    (hr : M.runWhile ok s as = some s') : M.ReachableUnder C Init s' := by
  induction as generalizing s with
  | nil =>
      obtain rfl := Option.some.inj hr
      exact h
  | cons a as ih =>
      rw [Runtime.runWhile] at hr
      split at hr
      · next hs =>
          obtain ⟨s₁, hstep, hr'⟩ := Option.bind_eq_some_iff.mp hr
          exact ih (.step h (hok s a hs) hstep) hr'
      · cases hr

/-- A checked run leads through states of a run. -/
theorem Through.runWhile {M : Runtime S W Θ Call Choice D O}
    {C : Condition S W Θ Call Choice} {A : Action Θ Call Choice D → Prop}
    {ok : State S W Θ Call O → Action Θ Call Choice D → Bool}
    (hok : ∀ s a, ok s a = true → A a ∧ Meets C s a) {s₀ s s' : State S W Θ Call O}
    (h : M.Through C A s₀ s) {as : List (Action Θ Call Choice D)}
    (hr : M.runWhile ok s as = some s') : M.Through C A s₀ s' := by
  induction as generalizing s with
  | nil =>
      obtain rfl := Option.some.inj hr
      exact h
  | cons a as ih =>
      rw [Runtime.runWhile] at hr
      split at hr
      · next hs =>
          obtain ⟨s₁, hstep, hr'⟩ := Option.bind_eq_some_iff.mp hr
          obtain ⟨hA, hC⟩ := hok s a hs
          exact ih (.step h hA hC hstep) hr'
      · cases hr

end Runtime

end Async
