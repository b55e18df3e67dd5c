import DelosLab.NativeLoglet.Durability

/-!
# Sealed tails and acknowledgements

An append that commits its entry has it accepted by a majority of LogServers, each of
them before its seal, and so below every sealed tail. The sequencer also answers a
retried append from its known tail alone. That tail may have come from a repair, which
goes past the seals, while the entry is still pending on a minority. The operations of
the stores are atomic in these runs, the trims among them.
-/

namespace DelosLab.NativeLoglet

open Async Async.Runtime Consensus

namespace World

/-- No append returned a position at or behind a sealed tail that was returned. -/
def TailsBound (w : World) : Prop :=
  ∀ r ∈ w.completed, ∀ tail, r.outcome = .tail tail → tail.sealed = true →
    ∀ e ∈ w.completed, ∀ id result, e.outcome = .appended id result →
      result.position < tail.tail

instance (𝒮 : Deployment) (w : World) (p : Nat) : Decidable (w.StoredByMajority 𝒮 p) :=
  decidable_of_iff _
    (majority_iff_filter 𝒮.segment.configuration.storageMembers.nodup
      (p := fun node => (node, p) ∈ w.stored)).symm

/-- The position that the append `c` is answered with from the known tail alone, while
its entry is still pending, when `t` enters the lock now. -/
def earlyPosition (w : World) (t : TaskId) : Call → Option Nat
  | .append commandId payload _ => do
      let s ← (w.processes t.node).sequencer
      let e ← s.pending
      if e.commandId = commandId ∧ e.payload = payload ∧ e.position < s.knownTail then
        some e.position
      else none
  | _ => none

/-- When `t` enters the lock, an append that is answered early has its entry stored by
a majority. -/
def EarlyStored (𝒮 : Deployment) (w : World) (t : TaskId) (c : Call) : Prop :=
  ∀ p ∈ w.earlyPosition t c, w.StoredByMajority 𝒮 p

instance (𝒮 : Deployment) (w : World) (t : TaskId) (c : Call) : Decidable (w.EarlyStored 𝒮 t c) :=
  inferInstanceAs (Decidable (∀ p ∈ w.earlyPosition t c, w.StoredByMajority 𝒮 p))

end World

/-- The runs in which a retried append is answered from the known tail only when its
entry was stored by a majority. -/
def earlyStored (𝒮 : Deployment) : Condition signature World TaskId Call Choice where
  launch := fun w _ c => w.Launchable c
  resume := fun w t c e _ =>
    match e with
    | .acquire => w.EarlyStored 𝒮 t c
    | _ => True

variable {𝒮 : Deployment} {w : World}

/-- In such a run every acknowledged entry was stored by a majority. -/
theorem Acked.storedByMajority {t : TaskId} {commandId : String} {payload : VirtualLog.Bytes}
    {turns : Nat} {r : AppendResult}
    (h : Acked 𝒮 (earlyStored 𝒮) t (.append commandId payload turns) commandId payload w r) :
    w.StoredByMajority 𝒮 r.position := by
  rcases h.stored with hstored | ⟨w₀, s, e, hg, hC, hs, hpending, hid, hpayload, hp, hlt⟩
  · exact hstored
  · refine World.StoredByMajority.mono (hC r.position ?_) hg
    rw [← hp] at hlt ⊢
    have hearly : w₀.earlyPosition t (.append commandId payload turns) = some e.position := by
      simp only [World.earlyPosition, hs, hpending, Option.bind_eq_bind, Option.bind_some]
      rw [if_pos ⟨hid, hpayload, hlt⟩]
    exact hearly

/-- The rider of a run whose acknowledged entries were stored by majorities. -/
def storedRider (𝒮 : Deployment) : Rider 𝒮 where
  holds := fun w => ∀ r ∈ w.completed, ∀ id result, r.outcome = .appended id result →
    w.StoredByMajority 𝒮 result.position
  stable := by
    intro w w' _ _ hg hc _ h r hr id result hout
    rw [hc] at hr
    exact World.StoredByMajority.mono (h r hr id result hout) hg

theorem storedRider_kept : (storedRider 𝒮).Kept (earlyStored 𝒮) where
  returned := by
    intro w₀ w t c o _ _ _ h _ _ hpost r hr id result hout
    have hg := finish_grow w t c (.ok o)
    rcases List.mem_append.mp hr with hr | hr
    · exact World.StoredByMajority.mono (h r hr id result hout) hg
    · obtain rfl := List.mem_singleton.mp hr
      obtain rfl : o = .appended id result := hout
      obtain ⟨payload, turns, rfl, hacked⟩ := hpost
      exact World.StoredByMajority.mono hacked.storedByMajority hg
  raised := fun w t c e _ h _ r hr id result hout =>
    World.StoredByMajority.mono (h r hr id result hout) (finish_grow w t c (.error e))

/-- **A sealed tail bounds every acknowledgement** in every run in which a retried
append is answered from the known tail only when its entry was stored by a majority. -/
theorem sealed_tail_bounds {s : SystemState}
    (h : 𝒮.runtime.ReachableUnder (earlyStored 𝒮) (· = World.initial 𝒮) s) :
    s.world.TailsBound := by
  have hinit : (storedRider 𝒮).holds (World.initial 𝒮) := fun _ hr => nomatch hr
  obtain ⟨hi, hstored⟩ := inv_of_reachable (fun _ _ _ hc => hc) storedRider_kept hinit h
  intro r hr tail hout hsealed e he id result hout'
  have hret := hi.returned r hr
  rw [hout] at hret
  -- A member of the majority that stored the entry is among those that bound the tail.
  obtain ⟨node, -, hmem, -, hbound⟩ :=
    Majority.inter (hstored e he id result hout') (hret.2 hsealed)
  exact hbound _ hmem

/-! ## Two runs of three nodes -/

def meetsEarlyStored (s : SystemState) (a : Action TaskId Call Choice Disturbance) : Bool :=
  match a with
  | .launch _ c => decide (s.world.Launchable c)
  | .resume t _ =>
      match s.tasks t with
      | some (c, _) => decide (s.world.EarlyStored threeNodes t c)
      | none => true
  | .disturb _ => true

theorem meets_of_meetsEarlyStored (s : SystemState) (a : Action TaskId Call Choice Disturbance)
    (h : meetsEarlyStored s a = true) : Meets (earlyStored threeNodes) s a := by
  cases a with
  | launch t c => exact of_decide_eq_true (p := s.world.Launchable c) h
  | resume t x =>
      intro c e k ht
      rw [meetsEarlyStored, ht] at h
      cases e with
      | acquire => exact of_decide_eq_true (p := s.world.EarlyStored threeNodes t c) h
      | _ => trivial
  | disturb d => trivial

/-- `a` appends a command with `a` and `b`; `b` seals them and checks the tail; the
append is tried again and answered at once. -/
def boundedRun : List (Action TaskId Call Choice Disturbance) :=
  let put := some (Response.state (stateAt 1 0 false))
  let closed := some (Response.state (stateAt 1 0 true))
  let entry : LogEntry := ⟨threeNodes.segment.segmentId, 0, "x", [1]⟩
  List.flatten
    [[.launch ⟨"a", 0⟩ (.append "x" [1] 1), .resume ⟨"a", 0⟩ .done], handled 0 ["a", "b"],
     [.resume ⟨"a", 0⟩ (.gathered [put, put, none]), .launch ⟨"b", 0⟩ .seal],
     handled 1 ["a", "b"],
     [.resume ⟨"b", 0⟩ (.gathered [closed, closed, none]), .launch ⟨"b", 0⟩ (.checkTail 1)],
     delivered 2 ["a", "b"], [.resume ⟨"b", 0⟩ (.gathered [closed, closed, none])],
     delivered 3 ["a"], [.resume ⟨"b", 0⟩ (.entry (some entry))],
     delivered 4 ["b"], [.resume ⟨"b", 0⟩ (.entry (some entry))],
     delivered 5 ["a"], [.resume ⟨"b", 0⟩ (.entry (some entry))],
     delivered 6 ["b"], [.resume ⟨"b", 0⟩ (.entry (some entry)),
      .launch ⟨"a", 0⟩ (.append "x" [1] 1), .resume ⟨"a", 0⟩ .done]]

theorem boundedRun_runs :
    ((threeNodes.runtime.runWhile meetsEarlyStored (fresh _ _ _ _ (World.initial threeNodes))
      boundedRun).map fun s => s.world.completed.map Completion.outcome) =
    some [.appended "x" ⟨0, 1⟩, .done, .tail ⟨1, true⟩, .appended "x" ⟨0, 1⟩] := by
  decide +kernel

theorem sealed_tail_bounds_bounded :
    ∃ s : SystemState, (s.world.completed.map Completion.outcome) =
        [.appended "x" ⟨0, 1⟩, .done, .tail ⟨1, true⟩, .appended "x" ⟨0, 1⟩] ∧
      s.world.TailsBound := by
  obtain ⟨s, hs, hpost⟩ := Option.map_eq_some_iff.mp boundedRun_runs
  exact ⟨s, hpost, sealed_tail_bounds
    (ReachableUnder.runWhile meets_of_meetsEarlyStored (.init rfl) hs)⟩

/-- The put of `a` reaches `c` alone. `b` seals `a` and `b` and reads the sealed tail 0
from them; `c` seals itself, reads the sealed tail 1 from `b` and itself, which repairs
`b`, and starts another check, whose request tells `c` the known tail 1. Only now does
`c` answer the put, with that known tail; `a` and `b` refuse it, and the append raises.
When it is tried again, position 0 is below the known tail. -/
def overtakenRun : List (Action TaskId Call Choice Disturbance) :=
  let entry : LogEntry := ⟨threeNodes.segment.segmentId, 0, "x", [1]⟩
  let refused := some (Response.error (.segmentSealed threeNodes.segment.segmentId))
  let closed := fun localTail => some (Response.state (stateAt localTail 0 true))
  List.flatten
    [[.launch ⟨"a", 0⟩ (.append "x" [1] 1), .resume ⟨"a", 0⟩ .done], delivered 0 ["c"],
     [.launch ⟨"b", 0⟩ .seal], handled 1 ["a", "b"],
     [.resume ⟨"b", 0⟩ (.gathered [closed 0, closed 0, none]), .launch ⟨"b", 0⟩ (.checkTail 1)],
     delivered 2 ["a", "b"], [.resume ⟨"b", 0⟩ (.gathered [closed 0, closed 0, none]),
      .launch ⟨"c", 0⟩ .seal], handled 3 ["b", "c"],
     [.resume ⟨"c", 0⟩ (.gathered [none, closed 0, closed 1]), .launch ⟨"c", 0⟩ (.checkTail 1)],
     delivered 4 ["b", "c"], [.resume ⟨"c", 0⟩ (.gathered [none, closed 0, closed 1])],
     delivered 5 ["b"], [.resume ⟨"c", 0⟩ (.entry none)],
     delivered 6 ["c"], [.resume ⟨"c", 0⟩ (.entry (some entry))],
     delivered 7 ["b"], [.resume ⟨"c", 0⟩ (.entry none)],
     handled 8 ["b"], [.resume ⟨"c", 0⟩ (.state (stateAt 1 0 true))],
     delivered 9 ["c"], [.resume ⟨"c", 0⟩ (.entry (some entry)),
      .launch ⟨"c", 0⟩ (.checkTail 1)],
     delivered 10 ["c"], [.disturb (.respond 0 "c")], delivered 0 ["a", "b"],
     [.resume ⟨"a", 0⟩ (.gathered [refused, refused, some (.state (stateAt 1 1 true))]),
      .launch ⟨"a", 0⟩ (.append "x" [1] 1), .resume ⟨"a", 0⟩ .done]]

theorem overtakenRun_runs :
    ((threeNodes.runtime.run (fresh _ _ _ _ (World.initial threeNodes)) overtakenRun).map
      fun s => s.world.completed.map Completion.outcome) =
    some [.done, .tail ⟨0, true⟩, .done, .tail ⟨1, true⟩, .appended "x" ⟨0, 1⟩] := by
  decide +kernel

theorem sealed_tail_overtaken :
    ∃ s : SystemState, threeNodes.runtime.Reachable (· = World.initial threeNodes) s ∧
      ¬s.world.TailsBound := by
  obtain ⟨s, hs, hpost⟩ := Option.map_eq_some_iff.mp overtakenRun_runs
  refine ⟨s, Reachable.run (.init rfl) hs, fun hbound => ?_⟩
  have hmem : ∀ o ∈ [Outcome.tail ⟨0, true⟩, .appended "x" ⟨0, 1⟩],
      ∃ r ∈ s.world.completed, r.outcome = o := by
    intro o ho
    refine List.mem_map.mp (hpost ▸ ?_)
    rcases List.mem_pair.mp ho with rfl | rfl
    · decide
    · decide
  obtain ⟨r, hr, hout⟩ := hmem (.tail ⟨0, true⟩) (by decide)
  obtain ⟨e, he, hout'⟩ := hmem (.appended "x" ⟨0, 1⟩) (by decide)
  exact absurd (hbound r hr _ hout rfl e he _ _ hout') (Nat.lt_irrefl 0)

end DelosLab.NativeLoglet
