import DelosLab.NativeLoglet.Durability

/-!
# The sequencer's own assertion

A commit round that reaches a quorum expects the known tail at the pending entry. A
client may have found the entry on a quorum before and told a LogServer, and the answer
of that LogServer then moves the known tail past the entry. The operations of the
stores are atomic in these runs.
-/

namespace DelosLab.NativeLoglet

open Async Async.Runtime Consensus

namespace World

/-- No call ended with the error of the sequencer's assertion. -/
def Contiguous (w : World) : Prop := ∀ c message, (c, Error.runtimeError message) ∉ w.failed

/-- When `t`, inside the lock, gathers a quorum of `replies` for the pending entry, neither
the sequencer nor one of the LogServers that answered knows a tail behind the entry. -/
def RoundWithin (𝒮 : Deployment) (w : World) (t : TaskId) (replies : List (Option Response)) :
    Prop :=
  ∀ s ∈ (w.processes t.node).sequencer, s.holder = some t → ∀ e ∈ s.pending,
    𝒮.segment.quorum ≤ (replies.filterMap stateOf).length →
      s.knownTail ≤ e.position ∧ ∀ state ∈ replies.filterMap stateOf, state.knownTail ≤ e.position

instance (𝒮 : Deployment) (w : World) (t : TaskId) (replies : List (Option Response)) :
    Decidable (w.RoundWithin 𝒮 t replies) :=
  inferInstanceAs (Decidable (∀ s ∈ (w.processes t.node).sequencer, s.holder = some t →
    ∀ e ∈ s.pending, 𝒮.segment.quorum ≤ (replies.filterMap stateOf).length →
      s.knownTail ≤ e.position ∧
        ∀ state ∈ replies.filterMap stateOf, state.knownTail ≤ e.position))

end World

/-- The runs in which the commit rounds of the sequencer find no tail behind the
pending entry. -/
def roundsWithin (𝒮 : Deployment) : Condition signature World TaskId Call Choice where
  launch := fun w _ c => w.Launchable c
  resume := fun w t _ e x =>
    match e, x with
    | .gather _ _, .gathered replies => w.RoundWithin 𝒮 t replies
    | _, _ => True

variable {𝒮 : Deployment}

/-- In such a run no round is to blame for the error. -/
theorem not_blamed {t : TaskId} {c : Call} : ¬Blamed 𝒮 (roundsWithin 𝒮) t c := by
  rintro ⟨w, s, e, batch, replies, hC, hl, hpending, hq, hbehind⟩
  obtain ⟨hown, hreplies⟩ := hC s hl.1 hl.2 e hpending hq
  rcases hbehind with hlt | ⟨state, hmem, hlt⟩
  · omega
  · have hle := hreplies state hmem
    omega

/-- The rider of a run without the error. -/
def contiguousRider (𝒮 : Deployment) : Rider 𝒮 where
  holds := World.Contiguous
  stable := by
    intro w w' _ _ _ _ hf h c message
    rw [hf]
    exact h c message

theorem contiguousRider_kept : (contiguousRider 𝒮).Kept (roundsWithin 𝒮) where
  returned := fun _ _ _ _ _ _ _ _ h _ _ _ => h
  raised := by
    intro w t c e _ h herr c' message hmem
    rcases List.mem_cons.mp hmem with heq | hmem
    · cases heq
      rcases herr with htame | ⟨-, hexcused⟩
      · exact htame.2 message rfl
      · exact not_blamed (hexcused message rfl)
    · exact h c' message hmem

/-- **The sequencer never trips its assertion** in any run in which no round reaches a
quorum with a tail behind the pending entry. -/
theorem sequencer_contiguous {s : SystemState}
    (h : 𝒮.runtime.ReachableUnder (roundsWithin 𝒮) (· = World.initial 𝒮) s) :
    s.world.Contiguous :=
  (inv_of_reachable (fun _ _ _ hc => hc) contiguousRider_kept (fun _ _ hmem => nomatch hmem) h).2

/-! ## Two runs of three nodes -/

def meetsRoundsWithin (s : SystemState) (a : Action TaskId Call Choice Disturbance) : Bool :=
  match a with
  | .launch _ c => decide (s.world.Launchable c)
  | .resume t (.gathered replies) => decide (s.world.RoundWithin threeNodes t replies)
  | _ => true

theorem meets_of_meetsRoundsWithin (s : SystemState) (a : Action TaskId Call Choice Disturbance)
    (h : meetsRoundsWithin s a = true) : Meets (roundsWithin threeNodes) s a := by
  cases a with
  | launch t c => exact of_decide_eq_true (p := s.world.Launchable c) h
  | resume t x =>
      intro c e k _
      cases e with
      | gather batch members =>
          cases x with
          | gathered replies =>
              exact of_decide_eq_true (p := s.world.RoundWithin threeNodes t replies) h
          | _ => trivial
      | _ => trivial
  | disturb d => trivial

/-- `a` appends two commands with `a` and `b`, and `c` checks the tail in between. -/
def contiguousRun : List (Action TaskId Call Choice Disturbance) :=
  let held := fun localTail knownTail => some (Response.state (stateAt localTail knownTail false))
  List.flatten
    [[.launch ⟨"a", 0⟩ (.append "x" [1] 1), .resume ⟨"a", 0⟩ .done], handled 0 ["a", "b"],
     [.resume ⟨"a", 0⟩ (.gathered [held 1 0, held 1 0, none]),
      .launch ⟨"c", 0⟩ (.checkTail 1)],
     delivered 1 ["a", "b"], [.resume ⟨"c", 0⟩ (.gathered [held 1 0, held 1 0, none]),
      .launch ⟨"a", 0⟩ (.append "y" [2] 1), .resume ⟨"a", 0⟩ .done], handled 2 ["a", "b"],
     [.resume ⟨"a", 0⟩ (.gathered [held 2 1, held 2 1, none])]]

theorem contiguousRun_runs :
    ((threeNodes.runtime.runWhile meetsRoundsWithin (fresh _ _ _ _ (World.initial threeNodes))
      contiguousRun).map fun s => s.world.completed.map Completion.outcome) =
    some [.appended "x" ⟨0, 1⟩, .tail ⟨1, false⟩, .appended "y" ⟨1, 2⟩] := by
  decide +kernel

theorem sequencer_contiguous_appended :
    ∃ s : SystemState, (s.world.completed.map Completion.outcome) =
        [.appended "x" ⟨0, 1⟩, .tail ⟨1, false⟩, .appended "y" ⟨1, 2⟩] ∧
      s.world.Contiguous := by
  obtain ⟨s, hs, hpost⟩ := Option.map_eq_some_iff.mp contiguousRun_runs
  exact ⟨s, hpost, sequencer_contiguous
    (ReachableUnder.runWhile meets_of_meetsRoundsWithin (.init rfl) hs)⟩

/-- The put of `a` is stored by `b` and `c`. Before they have answered, the client of `b`
finds the position on both of them, checks the tail again and so tells `b` the known
tail 1. The answers that `a` gathers are a quorum. -/
def trippedRun : List (Action TaskId Call Choice Disturbance) :=
  let held := fun knownTail => some (Response.state (stateAt 1 knownTail false))
  List.flatten
    [[.launch ⟨"a", 0⟩ (.append "x" [1] 1), .resume ⟨"a", 0⟩ .done], delivered 0 ["b", "c"],
     [.launch ⟨"b", 0⟩ (.checkTail 1)], delivered 1 ["b", "c"],
     [.resume ⟨"b", 0⟩ (.gathered [none, held 0, held 0]), .launch ⟨"b", 0⟩ (.checkTail 1)],
     delivered 2 ["b"], [.disturb (.respond 0 "b"), .disturb (.respond 0 "c"),
      .resume ⟨"a", 0⟩ (.gathered [none, held 1, held 0])]]

theorem trippedRun_runs :
    ((threeNodes.runtime.run (fresh _ _ _ _ (World.initial threeNodes)) trippedRun).map
      fun s => s.world.failed) =
    some [(.append "x" [1] 1, .runtimeError "sequencer committed prefix is not contiguous")] := by
  decide +kernel

theorem sequencer_tripped :
    ∃ s : SystemState, threeNodes.runtime.Reachable (· = World.initial threeNodes) s ∧
      ¬s.world.Contiguous := by
  obtain ⟨s, hs, hpost⟩ := Option.map_eq_some_iff.mp trippedRun_runs
  refine ⟨s, Reachable.run (.init rfl) hs, fun h => ?_⟩
  exact h _ _ (hpost ▸ List.mem_singleton_self _)

end DelosLab.NativeLoglet
