import DelosLab.Paxos.Tasks

/-!
# Paxos agreement

What an acceptor has decided was chosen, choices are unique in each slot, and
both outlive whatever the peers, the network and the crashes do next.
-/

namespace DelosLab.Paxos

open Async Async.Runtime Consensus

variable {P : Type}

section Agreement

variable [DecidableEq P] (𝒮 : Deployment)

theorem sound_none :
    (discipline 𝒮 (Condition.any (S := signature P)) (Rider.none 𝒮 P)).Sound :=
  sound fun _ _ _ _ _ _ => ⟨fun _ => True, fun _ _ _ _ => trivial, trivial,
    fun _ _ _ _ _ _ _ => trivial⟩

variable {𝒮}

theorem stateInv_of_reachable {s : SystemState P}
    (h : 𝒮.runtime.Reachable (· = World.initial P) s) :
    (discipline 𝒮 Condition.any (Rider.none 𝒮 P)).StateInv s :=
  (sound_none 𝒮).reachable (fun _ hw => hw ▸ ⟨inv_initial 𝒮, trivial⟩) h

/-- **Paxos agreement.** Whatever two acceptors decide for one slot, now and
later, is one value; a majority accepted it at one ballot; and no acceptor or
proposer ever saw a violation. -/
theorem paxos_agreement {s s' : SystemState P} (h : 𝒮.runtime.Reachable (· = World.initial P) s)
    (hl : 𝒮.runtime.Later Condition.any s s') :
    (∀ a b slot v u, s.world.decided a slot = some v → s'.world.decided b slot = some u → v = u) ∧
    (∀ a slot v, s.world.decided a slot = some v →
      ∃ ballot, Majority 𝒮.members.members fun m => ⟨m, slot, ballot, v⟩ ∈ s.world.votes) ∧
    s.world.safetyErrors = [] := by
  have hi := stateInv_of_reachable h
  obtain ⟨hi', hg⟩ := (sound_none 𝒮).grow_later hi hl
  refine ⟨fun a b slot v u hv hu => ?_, fun a slot v hv => ?_, hi.1.1.safe⟩
  · exact hi'.1.1.agreement ((hi.1.1.chosen_of_decided hv).mono hg) (hi'.1.1.chosen_of_decided hu)
  · exact hi.1.1.chosen_of_decided hv

end Agreement

/-! ## A run of three nodes -/

def threeNodes : Deployment where
  members := .abc
  maxBallotAttempts := 8
  positive := by decide

/-- `request` is handled by each of `nodes`. -/
def handled (targets : List String) (request : Request Unit) (nodes : List String) :
    List (Action TaskId (Call Unit) (Choice Unit) (Disturbance Unit)) :=
  nodes.map fun node => .disturb (.handle ⟨targets, request⟩ node true)

/-- The actions of `t` and of the acceptors `a` and `c` when `t` takes `value`
through its ballot in a slot where nothing was accepted; nobody hears its Decide
request. -/
def undisturbed (t : TaskId) (slot : Nat) (ballot : Ballot) (value : PaxosValue Unit) :
    List (Action TaskId (Call Unit) (Choice Unit) (Disturbance Unit)) :=
  let members := ["a", "b", "c"]
  let promise : PrepareResponse Unit := ⟨true, ballot, none, none, none⟩
  let vote : AcceptResponse := ⟨true, ballot⟩
  [.resume t .saved] ++ handled members (.prepare ⟨slot, ballot⟩) ["a", "c"] ++
    [.resume t (.prepared [some promise, none, some promise])] ++
    handled members (.accept ⟨slot, ballot, value⟩) ["a", "c"] ++
    [.resume t (.accepted [some vote, none, some vote]), .resume t .saved, .resume t .done]

/-- `a` decides a barrier in slot 1, `c` learns it and restarts. -/
def decidedRun : List (Action TaskId (Call Unit) (Choice Unit) (Disturbance Unit)) :=
  let t : TaskId := ⟨"a", 0⟩
  [.launch t (.decideSlot 1 ⟨.readBarrier⟩)] ++
    undisturbed t 1 ⟨1, "a", Nat.one_pos, a_named⟩ ⟨.readBarrier⟩ ++
    handled ["b", "c"] (.decide ⟨1, ⟨.readBarrier⟩⟩) ["c"] ++ [.disturb (.crash "c")]

theorem decidedRun_runs :
    ((threeNodes.runtime.run (fresh _ _ _ _ (World.initial Unit)) decidedRun).map fun s =>
      (s.world.decided "a" 1, s.world.decided "c" 1)) =
    some (some ⟨.readBarrier⟩, some ⟨.readBarrier⟩) := by
  decide +kernel

theorem paxos_agreement_decided :
    ∃ s : SystemState Unit, s.world.decided "a" 1 = some ⟨.readBarrier⟩ ∧
      (∃ ballot, Majority ["a", "b", "c"] fun m => ⟨m, 1, ballot, ⟨.readBarrier⟩⟩ ∈ s.world.votes) ∧
      (∀ u, s.world.decided "c" 1 = some u → PaxosValue.mk .readBarrier = u) ∧
      s.world.safetyErrors = [] := by
  obtain ⟨s, hs, hpost⟩ := Option.map_eq_some_iff.mp decidedRun_runs
  obtain ⟨ha, -⟩ := Prod.mk.inj hpost
  obtain ⟨hsame, hchosen, hsafe⟩ := paxos_agreement (Reachable.run (.init rfl) hs) .refl
  exact ⟨s, ha, hchosen _ _ _ ha, fun u hu => hsame _ _ _ _ _ ha hu, hsafe⟩

end DelosLab.Paxos
