import DelosLab.Kv.CallNotes

/-!
# The service is linearizable

A log may have settled more than it has answered. The tasks see nothing of that, so every
run is also the run of a log that settles only what it answers, and there the calls take
effect between their invocation and their return.
-/

namespace DelosLab.Kv

open Async Async.Coroutine Async.Discipline Async.Runtime

/-! ## Calls marked by what the log has answered -/

section Fenced

variable {𝒮 : Deployment}

/-- The mark of a log that may have settled more than it has answered. -/
def fenceMark (_ : World) (g : Notes) : Nat := g.fence

/-- The world of a log that has settled `n` positions and is not trimmed. -/
def World.lazily (w : World) (n : Nat) : World := { w with settled := n, trimmed := 0 }

/-- The state in which the log has settled what it has answered. -/
def lazily (s : ObservedState) : ObservedState :=
  ⟨(s.world.1.lazily s.world.2.fence, s.world.2), s.tasks⟩

/-- How far an answer of the log shows it to be settled. -/
def answered : (e : Wait) → Except Error (WaitResult e) → Nat
  | .append _ _, .ok position => position + 1
  | .checkTail, .ok tail => tail.tail
  | _, _ => 0

theorem resume_fence (mark : World → Notes → Nat) (w : World) (t : TaskId) (e : Wait)
    (r : Except Error (WaitResult e)) (g : Notes) :
    ((callObserver mark).resume w t e r g).fence = max g.fence (answered e r) := by
  cases e with
  | append commandId payload =>
      cases r with
      | ok position => rfl
      | error e => exact (Nat.max_zero _).symm
  | checkTail =>
      cases r with
      | ok tail => rfl
      | error e => exact (Nat.max_zero _).symm
  | _ => cases r <;> exact (Nat.max_zero _).symm

theorem Resumed.answered {w w' : World} {t : TaskId} {e : Wait} {x : Choice}
    {r : Except Error (WaitResult e)} (h : Resumed 𝒮 w t e x w' r) : answered e r ≤ w.settled := by
  cases h with
  | appended commandId payload p hlog hp => exact hp
  | tail tail ht => exact ht
  | failed e x => cases e <;> exact Nat.zero_le _
  | _ => exact Nat.zero_le _

/-- The log answers nothing that it has not settled. -/
theorem fence_keeps : (𝒮.runtime.observed (callObserver fenceMark)).Keeps (promised 𝒮 fenceMark)
    fun w => w.2.fence ≤ w.1.settled where
  start := by
    intro w t c w' p h _ hst
    have heq : ((({ w.1 with gap := Function.update w.1.gap t false } : World),
        (callObserver fenceMark).start _ t c w.2), 𝒮.program c) = (w', p) := Option.some.inj hst
    obtain ⟨rfl, rfl⟩ := Prod.mk.inj heq
    exact h
  exec := by
    intro w t a h
    show ((callObserver fenceMark).exec w.1 t a w.2).fence ≤ (Deployment.exec w.1 t a).1.settled
    rw [(exec_notes fenceMark w.1 t a w.2).2.2.2.2, (exec_log w.1 t a).2]
    exact h
  resume := by
    intro w t c e x w' r h _ hs
    obtain ⟨⟨w₁, r'⟩, hr, heq⟩ := Option.map_eq_some_iff.mp hs
    obtain ⟨rfl, rfl⟩ := Prod.mk.inj heq
    have hres := resume_cases hr
    show ((callObserver fenceMark).resume w₁ t e r' w.2).fence ≤ w₁.settled
    rw [resume_fence, hres.log.2]
    exact Nat.max_le.mpr ⟨h, hres.answered⟩
  finish := by
    intro w t c o h
    show ((callObserver fenceMark).finish w.1 t c o w.2).fence ≤
      (Deployment.finish w.1 t c o).settled
    rw [(finish_log w.1 t c o).2]
    cases o <;> exact h
  disturb := by
    intro w d w' h hd
    obtain ⟨w₁, hd', rfl⟩ := Option.map_eq_some_iff.mp hd
    refine Nat.le_trans (m := w.1.settled) h ?_
    show w.1.settled ≤ w₁.settled
    cases d with
    | decide position content =>
        have hd' : Deployment.disturb w.1 (.decide position content) = some w₁ := hd'
        rw [Deployment.disturb] at hd'
        split at hd' <;> cases hd'
        exact Nat.le_refl _
    | settle position =>
        cases hd'
        exact Nat.le_max_left _ _
    | trim position =>
        have hd' : Deployment.disturb w.1 (.trim position) = some w₁ := hd'
        rw [Deployment.disturb] at hd'
        split at hd' <;> cases hd'
        exact Nat.le_refl _
    | crash node =>
        cases hd'
        exact Nat.le_refl _

/-! ### The tasks do not see what is settled -/

theorem exec_lazily (w : World) (n : Nat) (t : TaskId) (a : Act) :
    Deployment.exec (w.lazily n) t a =
      ((Deployment.exec w t a).1.lazily n, (Deployment.exec w t a).2) := by
  cases a <;> rfl

theorem exec_lazily_notes (w : World) (n : Nat) (t : TaskId) (a : Act) (g : Notes) :
    (callObserver settledMark).exec (w.lazily n) t a g = (callObserver fenceMark).exec w t a g := by
  cases a <;> rfl

theorem finish_lazily (w : World) (n : Nat) (t : TaskId) (c : Call) (o : Except Error Outcome) :
    Deployment.finish (w.lazily n) t c o = (Deployment.finish w t c o).lazily n := by
  unfold Deployment.finish
  split <;> rfl

/-- The end of a call is noted alike. -/
theorem lazily_finish (w : World) (g : Notes) (t : TaskId) (c : Call)
    (o : Except Error Outcome) :
    ((𝒮.runtime.observed (callObserver settledMark)).finish (w.lazily g.fence, g) t c o) =
      ((Deployment.finish w t c o).lazily ((callObserver fenceMark).finish w t c o g).fence,
        (callObserver fenceMark).finish w t c o g) := by
  have hnotes : (callObserver settledMark).finish (w.lazily g.fence) t c o g =
      (callObserver fenceMark).finish w t c o g ∧
        ((callObserver fenceMark).finish w t c o g).fence = g.fence := by
    cases o <;> exact ⟨rfl, rfl⟩
  show (Deployment.finish (w.lazily g.fence) t c o, _) = (_, _)
  rw [hnotes.1, hnotes.2, finish_lazily]

/-- The log answers what it has answered when it has settled only that. -/
theorem resume_lazily {w w' : World} {t : TaskId} {e : Wait} {x : Choice}
    {r : Except Error (WaitResult e)} (h : 𝒮.resume w t e x = some (w', r)) {n : Nat}
    (hn : answered e r ≤ n) : 𝒮.resume (w.lazily n) t e x = some (w'.lazily n, r) := by
  cases resume_cases h with
  | acquired lock hfree => exact if_pos hfree
  | appended commandId payload p hlog hp => exact if_pos ⟨hlog, hn⟩
  | tail tail htail => exact if_pos hn
  | read start stop view r hright hread =>
      refine (if_pos hright).trans ?_
      rw [hread]
      rfl
  | failed e x => cases e <;> rfl
  | _ => rfl

/-- A segment of a task is the same one. -/
theorem lazily_advance (s s' : ObservedState) (hs : s'.tasks = s.tasks) (t : TaskId) (c : Call)
    (w : World) (g : Notes) (p : Co Outcome) :
    lazily ((𝒮.runtime.observed (callObserver fenceMark)).advance s t c (w, g) p) =
      (𝒮.runtime.observed (callObserver settledMark)).advance s' t c (w.lazily g.fence, g) p := by
  induction p generalizing w g with
  | ret o =>
      show _ = State.mk ((𝒮.runtime.observed _).finish (w.lazily g.fence, g) t c (.ok o))
        (Function.update s'.tasks t none)
      rw [hs, lazily_finish]
      rfl
  | raise e =>
      show _ = State.mk ((𝒮.runtime.observed _).finish (w.lazily g.fence, g) t c (.error e))
        (Function.update s'.tasks t none)
      rw [hs, lazily_finish]
      rfl
  | act a k ih =>
      show _ = (𝒮.runtime.observed (callObserver settledMark)).advance s' t c
        ((Deployment.exec (w.lazily g.fence) t a).1,
          (callObserver settledMark).exec (w.lazily g.fence) t a g)
            (k (Deployment.exec (w.lazily g.fence) t a).2)
      rw [exec_lazily, exec_lazily_notes]
      refine (ih _ (Deployment.exec w t a).1 ((callObserver fenceMark).exec w t a g)).trans ?_
      rw [(exec_notes fenceMark w t a g).2.2.2.2]
      rfl
  | wait e k _ =>
      show _ = State.mk (w.lazily g.fence, g) (Function.update s'.tasks t (some (c, .wait e k)))
      rw [hs]
      rfl

/-- Settling shows nothing to the tasks. -/
theorem settle_step (s : ObservedState) {n : Nat} (hn : s.world.2.fence ≤ n) :
    (𝒮.runtime.observed (callObserver settledMark)).step (lazily s) (.disturb (.settle n)) =
      some ⟨(s.world.1.lazily n, s.world.2), s.tasks⟩ := by
  show some (State.mk ({ s.world.1.lazily s.world.2.fence with
    settled := max s.world.2.fence n }, s.world.2) _) = _
  rw [Nat.max_eq_right hn]
  rfl

theorem lazily_launch {s s' : ObservedState} {t : TaskId} {c : Call}
    (hC : Meets (promised 𝒮 fenceMark) s (.launch t c : Action TaskId Call Choice Disturbance))
    (hs : (𝒮.runtime.observed (callObserver fenceMark)).step s (.launch t c) = some s') :
    Meets (promised 𝒮 settledMark) (lazily s)
        (.launch t c : Action TaskId Call Choice Disturbance) ∧
      (𝒮.runtime.observed (callObserver settledMark)).step (lazily s) (.launch t c) =
        some (lazily s') := by
  constructor
  · cases c <;> exact hC
  · have htasks : (lazily s).tasks t = s.tasks t := rfl
    simp only [Runtime.step, htasks] at hs ⊢
    cases ht : s.tasks t with
    | some task =>
        rw [ht] at hs
        cases hs
    | none =>
        rw [ht] at hs
        obtain ⟨⟨⟨w, g⟩, p⟩, hst, rfl⟩ := Option.map_eq_some_iff.mp hs
        have heq : ((({ s.world.1 with gap := Function.update s.world.1.gap t false } : World),
            (callObserver fenceMark).start _ t c s.world.2), 𝒮.program c) = ((w, g), p) :=
          Option.some.inj hst
        obtain ⟨hw, rfl⟩ := Prod.mk.inj heq
        obtain ⟨rfl, rfl⟩ := Prod.mk.inj hw
        rw [lazily_advance s (lazily s) rfl]
        rfl

theorem lazily_resume {s s' : ObservedState} {t : TaskId} {x : Choice}
    (hC : Meets (promised 𝒮 fenceMark) s (.resume t x : Action TaskId Call Choice Disturbance))
    (hs : (𝒮.runtime.observed (callObserver fenceMark)).step s (.resume t x) = some s') :
    (𝒮.runtime.observed (callObserver settledMark)).Later (promised 𝒮 settledMark) (lazily s)
      (lazily s') := by
  simp only [Runtime.step] at hs
  split at hs
  · next c e k ht =>
      obtain ⟨⟨⟨w, g⟩, r⟩, hr, rfl⟩ := Option.map_eq_some_iff.mp hs
      obtain ⟨⟨w₁, r₁⟩, hr₁, heq⟩ := Option.map_eq_some_iff.mp hr
      obtain ⟨hw, rfl⟩ := Prod.mk.inj heq
      obtain ⟨rfl, rfl⟩ := Prod.mk.inj hw
      -- What the answer shows to be settled is settled first.
      have hn := resume_fence fenceMark w₁ t e r₁ s.world.2
      have hle : s.world.2.fence ≤
          ((callObserver fenceMark).resume w₁ t e r₁ s.world.2).fence := by
        rw [hn]
        exact Nat.le_max_left _ _
      have hsettled : (𝒮.runtime.observed (callObserver settledMark)).Later
          (promised 𝒮 settledMark) (lazily s) _ :=
        .step .refl (a := .disturb (.settle _)) trivial (settle_step s hle)
      refine hsettled.step (a := .resume t x) ?_ ?_
      · intro c' e' k' ht'
        exact hC c' e' k' ht'
      · have htasks : s.tasks t = some (c, .wait e k) := ht
        simp only [Runtime.step, htasks]
        have hlazy : 𝒮.resume (s.world.1.lazily
            ((callObserver fenceMark).resume w₁ t e r₁ s.world.2).fence) t e x = _ :=
          resume_lazily hr₁ (hn ▸ Nat.le_max_right _ _)
        show ((𝒮.resume _ t e x).map _).map _ = _
        rw [hlazy, lazily_advance s ⟨_, s.tasks⟩ rfl]
        rfl
  · cases hs

theorem lazily_disturb {s s' : ObservedState} {d : Disturbance}
    (hfence : s.world.2.fence ≤ s.world.1.settled)
    (hs : (𝒮.runtime.observed (callObserver fenceMark)).step s (.disturb d) = some s') :
    (𝒮.runtime.observed (callObserver settledMark)).Later (promised 𝒮 settledMark) (lazily s)
      (lazily s') := by
  obtain ⟨w, hd, rfl⟩ := Option.map_eq_some_iff.mp hs
  obtain ⟨w₁, hd₁, rfl⟩ := Option.map_eq_some_iff.mp hd
  have hd₁ : Deployment.disturb s.world.1 d = some w₁ := hd₁
  cases d with
  | decide position content =>
      rw [Deployment.disturb] at hd₁
      split at hd₁
      · next hfree =>
          cases hd₁
          refine .step .refl (a := .disturb (.decide position content)) trivial ?_
          have hfree' : s.world.2.fence ≤ position ∧ s.world.1.log position = none :=
            ⟨Nat.le_trans hfence hfree.1, hfree.2⟩
          show (((if s.world.2.fence ≤ position ∧ s.world.1.log position = none then _
            else none : Option World).map _).map _) = _
          rw [if_pos hfree']
          rfl
      · cases hd₁
  | settle position =>
      cases hd₁
      exact .refl
  | trim position =>
      rw [Deployment.disturb] at hd₁
      split at hd₁
      · cases hd₁
        exact .refl
      · cases hd₁
  | crash node =>
      cases hd₁
      exact .step .refl (a := .disturb (.crash node)) trivial rfl

/-- **Every run is a run of a log that settles no more than it answers.** -/
theorem lazily_reachable {s : ObservedState}
    (h : (𝒮.runtime.observed (callObserver fenceMark)).ReachableUnder (promised 𝒮 fenceMark)
      (· = (World.empty, Notes.initial)) s) :
    s.world.2.fence ≤ s.world.1.settled ∧
      (𝒮.runtime.observed (callObserver settledMark)).ReachableUnder (promised 𝒮 settledMark)
        (· = (World.empty, Notes.initial)) (lazily s) := by
  have hfence : ∀ {s : ObservedState}, (𝒮.runtime.observed (callObserver fenceMark)).ReachableUnder
      (promised 𝒮 fenceMark) (· = (World.empty, Notes.initial)) s →
        s.world.2.fence ≤ s.world.1.settled := by
    refine fun h => fence_keeps.reachable ?_ h
    rintro _ rfl
    exact Nat.le_refl _
  refine ⟨hfence h, ?_⟩
  induction h with
  | init hw =>
      subst hw
      exact .init rfl
  | @step s s' a h hC hs ih =>
      cases a with
      | launch t c =>
          obtain ⟨hC', hs'⟩ := lazily_launch hC hs
          exact .step ih hC' hs'
      | resume t x => exact ih.later (lazily_resume hC hs)
      | disturb d => exact ih.later (lazily_disturb (hfence h) hs)

/-- What the calls tell about a log that settles no more than it answers, they tell about
the log. -/
theorem notes_reachable {s : ObservedState}
    (h : (𝒮.runtime.observed (callObserver fenceMark)).ReachableUnder (promised 𝒮 fenceMark)
      (· = (World.empty, Notes.initial)) s) : NotesInv 𝒮 s.world.1 s.world.2 := by
  obtain ⟨hfence, hlazy⟩ := lazily_reachable h
  refine (settled_reachable hlazy).grow ⟨fun _ _ hp => hp, hfence, fun _ _ => rfl⟩

/-- **The service is linearizable.** Over a log whose reads skip nothing and whose `checkTail`
is never behind what the log has answered before the call, every call that has returned takes
effect at a position of the log: a `get` that has read nothing uncommitted shows the replay
of the log before it, a `submit` tells what the first command of its identity does there. Of
the effective calls, which are such a `get` and the `submit` of a new command, one that returns
before another is invoked takes effect before it. -/
theorem calls_linearize (𝒮 : Deployment) {s : ObservedState}
    (h : (𝒮.runtime.observed (callObserver fenceMark)).ReachableUnder (promised 𝒮 fenceMark)
      (· = (World.empty, Notes.initial)) s) :
    ∃ point : Nat → Nat,
      (∀ (i : Nat) (e : Ended), s.world.2.ended[i]? = some e →
        e.TakesEffect 𝒮 s.world.1 (point i)) ∧
      ∀ (i j : Nat) (e e' : Ended), s.world.2.ended[i]? = some e → s.world.2.ended[j]? = some e' →
        i < e'.before → e.Effective 𝒮 → e'.Effective 𝒮 → e.needs (point i) ≤ point j := by
  have hi := notes_reachable h
  have hpoint : ∀ i : Nat, ∃ n, ∀ e : Ended, s.world.2.ended[i]? = some e →
      e.TakesEffect 𝒮 s.world.1 n := by
    intro i
    cases he : s.world.2.ended[i]? with
    | none => exact ⟨0, by rintro _ ⟨⟩⟩
    | some e =>
        obtain ⟨-, n, hn⟩ := hi.ended e (List.mem_of_getElem? he)
        refine ⟨n, fun e' he' => ?_⟩
        obtain rfl := Option.some.inj he'
        exact hn
  choose point hpoint using hpoint
  refine ⟨point, hpoint, fun i j e e' he he' hlt heff heff' => ?_⟩
  obtain ⟨-, hneeds⟩ := (hpoint i e he).within heff
  obtain ⟨hsince, -⟩ := (hpoint j e' he').within heff'
  exact Nat.le_trans hneeds (Nat.le_trans (hi.order i j e e' he he' hlt) hsince)

end Fenced

/-! ## A run of two replicas -/

/-- The check of a run of `replicas` that keeps what is promised. -/
def meetsPromised (s : ObservedState) (a : Action TaskId Call Choice Disturbance) : Bool :=
  match a with
  | .launch _ c => decide (c.Serves { s.world.1 with settled := s.world.2.fence })
  | .resume t (.read view) =>
      match s.tasks t with
      | some (_, .wait (.readNext start stop) _) =>
          decide (s.world.1.LeastRead replicas t.node start stop view)
      | _ => true
  | .resume t (.tail tail) => decide (s.world.2.since t ≤ tail.tail)
  | _ => true

theorem meets_promised (s : ObservedState) (a : Action TaskId Call Choice Disturbance)
    (h : meetsPromised s a = true) : Meets (promised replicas fenceMark) s a := by
  cases a with
  | launch t c => exact of_decide_eq_true (p := c.Serves _) h
  | disturb d => trivial
  | resume t x =>
      intro c e k ht
      cases x with
      | read view =>
          cases e with
          | readNext start stop =>
              simp only [meetsPromised, ht] at h
              have hread := of_decide_eq_true (p := s.world.1.LeastRead replicas _ _ _ _) h
              exact ⟨hread.unskipped, trivial⟩
          | _ => exact ⟨trivial, trivial⟩
      | tail tail =>
          have htail := of_decide_eq_true (p := s.world.2.since t ≤ tail.tail) h
          cases e with
          | checkTail => exact ⟨trivial, htail⟩
          | _ => exact ⟨trivial, trivial⟩
      | _ => cases e <;> exact ⟨trivial, trivial⟩

/-- `a` submits a `put`; when it has returned, `b` asks for the item. -/
def putThenGetRun : List (Action TaskId Call Choice Disturbance) :=
  let a : TaskId := ⟨"a", 0⟩
  let b : TaskId := ⟨"b", 0⟩
  let view := viewOf [firstPut]
  List.flatten
    [[.launch a (.submit firstPut)], done a 3,
     [.disturb (.decide 0 (content firstPut)), .disturb (.settle 1), .resume a (.position 0)],
     done a 2, [.resume a (.read view)], done a 11,
     [.launch b (.get "k")], done b 2, [.resume b (.tail ⟨1, false⟩)], done b 3,
     [.resume b (.read view)], done b 12]

/-- What a `get` has returned. -/
def Outcome.shown : Outcome → Option (Option KvValue)
  | .value found => some found
  | _ => none

set_option synthInstance.maxSize 256 in
theorem putThenGetRun_runs :
    (((replicas.runtime.observed (callObserver fenceMark)).runWhile meetsPromised
        (fresh _ _ _ _ (World.empty, Notes.initial)) putThenGetRun).map
      fun s => (s.world.2.ended.map fun e => ([e.since, e.upTo, e.before], e.dirty),
        s.world.2.ended.map fun e => e.outcome.shown)) =
    some ([([0, 1, 0], false), ([1, 1, 1], false)], [none, some (some (.str "v"))]) := by
  decide +kernel

theorem calls_linearize_putThenGet :
    ∃ s : ObservedState,
      (s.world.2.ended.map fun e => e.outcome.shown) = [none, some (some (.str "v"))] ∧
      ∃ point : Nat → Nat,
        (∀ (i : Nat) (e : Ended), s.world.2.ended[i]? = some e →
          e.TakesEffect replicas s.world.1 (point i)) ∧
        ∀ (i j : Nat) (e e' : Ended), s.world.2.ended[i]? = some e →
          s.world.2.ended[j]? = some e' → i < e'.before → e.Effective replicas →
            e'.Effective replicas → e.needs (point i) ≤ point j := by
  obtain ⟨s, hs, hpost⟩ := Option.map_eq_some_iff.mp putThenGetRun_runs
  exact ⟨s, (Prod.mk.inj hpost).2,
    calls_linearize replicas (ReachableUnder.runWhile meets_promised (.init rfl) hs)⟩

end DelosLab.Kv
