import Mathlib.Data.List.MinMax
import DelosLab.Paxos.Proposals
import DelosLab.Paxos.Solo

/-!
# Calls that run alone complete

From every state of every run: a node whose call runs alone, while a majority of the acceptors
with its own among them answers, gets its result. No reachable state, no lost message and no
abandoned ballot stands in the way of the next read or swap.
-/

namespace DelosLab.Paxos

open Async Async.Coroutine Async.Runtime Consensus

variable {P : Type} [DecidableEq P] {𝒮 : Deployment} {awake : String → Bool} {t : TaskId}
  {c : Call P}

/-! ## What every reachable world offers -/

omit [DecidableEq P] in
theorem Inv.ready {w : World P} (h : Inv 𝒮 w) (node : String) (slot : Nat) :
    w.Ready 𝒮 awake node slot := by
  refine ⟨h.nodeId node, fun a _ b _ v u hv hu => ?_, fun a _ ballot hballot hown => ?_⟩
  · exact h.agreement (h.chosen_of_decided hv) (h.chosen_of_decided hu)
  · obtain ⟨v, p, -, -, -, hvoted, -⟩ := (h.slots a slot).accepted ballot hballot
    obtain ⟨u, hu⟩ := h.proposer slot ballot v ((h.disciplined slot).voted a ballot v hvoted)
    obtain ⟨hnode, hround⟩ := h.reserved ballot u hu
    rwa [← hnode, hown] at hround

/-- Acceptors are well formed and caught up. -/
def World.Orderly (w : World P) : Prop :=
  ∀ node, (w.acceptors node).WellFormed ∧ (w.acceptors node).CaughtUp

omit [DecidableEq P] in
theorem World.Orderly.of_acceptors {w w' : World P} (h : w.Orderly)
    (heq : w'.acceptors = w.acceptors) : w'.Orderly := by
  intro node
  rw [heq]
  exact h node

theorem orderly_keeps :
    𝒮.runtime.Keeps (Condition.any (S := signature P)) World.Orderly where
  start := by
    intro w t c w' p h _ hstart
    change 𝒮.start w t c = some (w', p) at hstart
    rw [Deployment.start] at hstart
    split at hstart
    · cases hstart
      exact h
    · cases hstart
  exec := by
    intro w t a h
    cases a <;> exact h
  resume := fun h _ hs node =>
    ⟨(resumed_of_resume hs).wellFormed (fun n => (h n).1) node,
      ((resumed_of_resume hs).carries node).caughtUp (h node).2⟩
  finish := fun w t c o h => h.of_acceptors (acceptors_finish w t o)
  disturb := by
    intro w d w' h hd
    cases d with
    | handle message target saves =>
        obtain ⟨-, hd⟩ := Option.ite_none_right_eq_some.mp hd
        cases hd
        obtain ⟨-, acceptor, heq, -, hwf⟩ := w.handle_cases target saves message.request
        intro node
        refine ⟨?_, (w.carries_handle target saves message.request node).caughtUp (h node).2⟩
        rw [heq]
        exact World.wellFormed_setAcceptor (fun n => (h n).1) (hwf (h target).1) node
    | crash node =>
        cases hd
        obtain ⟨hwf, hstate⟩ := (h node).1.restart
        intro n
        by_cases hn : n = node
        · subst hn
          rw [World.setAcceptor_acceptors]
          refine ⟨hwf, ?_⟩
          rw [PaxosAcceptor.CaughtUp, hstate]
          exact (h n).2
        · rw [World.setAcceptor_acceptors_of_ne _ hn]
          exact h n

theorem orderly_of_reachable {s : SystemState P}
    (h : 𝒮.runtime.Reachable (· = World.initial P) s) : s.world.Orderly := by
  refine orderly_keeps.reachable (fun w hw => ?_) h
  subst hw
  exact fun node => ⟨(inv_initial 𝒮).wellFormed node, rfl⟩

/-- Handling requests keeps the discipline and what was added to it. -/
theorem withstands :
    (resultExtension 𝒮).discipline.Withstands (steady P awake) t := by
  intro w d w' hd hi hs
  obtain ⟨message, target, rfl, -⟩ := hd
  have hsurvives : 𝒮.runtime.survives (.handle message target true) t = true := rfl
  obtain ⟨hi', hg, hr⟩ := (sound_none 𝒮).disturb hi.1 hs
  obtain ⟨-, hs⟩ := Option.ite_none_right_eq_some.mp hs
  cases hs
  have hc := w.carries_handle target true message.request
  exact ⟨⟨hi', fun node => (hc node).caughtUp (hi.2 node)⟩, hg, hr t hsurvives,
    fun n => (hc t.node).remembers n⟩

/-! ## Proposals -/

/-- No awake member has used a slot after `m`. -/
def World.UsedUpTo (w : World P) (𝒮 : Deployment) (awake : String → Bool) (m : Nat) : Prop :=
  ∀ a ∈ 𝒮.live awake, ∀ n, m < n → (w.slotAt a n).Unused

omit [DecidableEq P] in
theorem unused_of_slots_le {a : PaxosAcceptor P} {m : Nat} (h : ∀ s ∈ a.state.slots, s.slot ≤ m)
    {n : Nat} (hn : m < n) : (a.state.slot n).Unused := by
  have hnone : a.state.slots.find? (fun s => s.slot == n) = none := by
    rw [List.find?_eq_none]
    intro s hs heq
    have hle : s.slot ≤ m := h s hs
    rw [beq_iff_eq] at heq
    omega
  rw [PersistentPaxosState.slot, hnone]
  exact ⟨rfl, rfl⟩

omit [DecidableEq P] in
/-- There is a last slot that an acceptor has used. -/
theorem exists_last_used (a : PaxosAcceptor P) :
    ∃ m, ∀ n, m < n → (a.state.slot n).Unused :=
  ⟨(a.state.slots.map AcceptorSlotState.slot).foldr max 0, fun _ hn =>
    unused_of_slots_le (fun _ hs =>
      List.le_max_of_le' 0 (List.mem_map_of_mem hs) (Nat.le_refl _)) hn⟩

omit [DecidableEq P] in
theorem World.exists_usedUpTo (w : World P) (𝒮 : Deployment) (awake : String → Bool) :
    ∃ m, w.UsedUpTo 𝒮 awake m := by
  unfold World.UsedUpTo
  induction 𝒮.live awake with
  | nil => exact ⟨0, fun _ h => absurd h List.not_mem_nil⟩
  | cons a live ih =>
      obtain ⟨m, hm⟩ := ih
      obtain ⟨m', hm'⟩ := exists_last_used (w.acceptors a)
      refine ⟨max m m', fun b hb n hn => ?_⟩
      rcases List.mem_cons.mp hb with rfl | hb
      · exact hm' n (by omega)
      · exact hm b hb n (by omega)

/-- A world in which the invariants of the peers hold. -/
abbrev Sound (𝒮 : Deployment) (w : World P) : Prop := (resultExtension 𝒮).discipline.Inv w

/-- A slot that the node decides is one that it applies. -/
theorem decideSlot_ends (self : PaxosProposer) (hself : self.members = 𝒮.members)
    (hattempts : 2 ≤ self.maxBallotAttempts)
    (hquorum : 𝒮.members.quorum ≤ (𝒮.live awake).length) (howner : t.node ∈ 𝒮.live awake)
    (slot : Nat) (proposed : PaxosValue P) {w : World P} (hi : Sound 𝒮 w) :
    ∃ w' v, Comes 𝒮 awake t w (self.decideSlot slot proposed) w' v ∧ Sound 𝒮 w' ∧
      w.Settled w' 𝒮 awake slot proposed v ∧ w'.decided t.node slot = some v ∧
      (w.acceptors t.node).state.lastApplied ≤ (w'.acceptors t.node).state.lastApplied := by
  let last := (w.acceptors t.node).state.lastApplied
  have hspec : Finds 𝒮 t (.read 0) (fun w' => last ≤ (w'.acceptors t.node).state.lastApplied)
      (self.decideSlot slot proposed) fun w' v =>
        Decides 𝒮 t slot w' v ∧ last ≤ (w'.acceptors t.node).state.lastApplied :=
    (((resultExtension 𝒮).triple ((decideSlotLoop_spec self hself slot proposed _ 0).frame
      (persistent_lastApplied t.node last))).raises (fun h => expected_resume h)
        (raises_decideSlotLoop self slot proposed _ 0)).mono (fun _ _ h => ⟨trivial, h⟩)
          (fun _ _ _ h => h) fun _ _ _ h => ⟨h.1.1, h.2⟩
  have hends : 𝒮.runtime.Ends (steady P awake) t (· = w) (self.decideSlot slot proposed)
      fun w' v => w.Settled w' 𝒮 awake slot proposed v := by
    rintro _ rfl
    exact decideSlotLoop_settles self hself hquorum howner proposed hattempts 0
      (hi.1.1.ready t.node slot)
  obtain ⟨w', v, hend, hi', ⟨hdecides, hlast⟩, hsettled⟩ :=
    hspec.ends withstands hends w ⟨hi, Nat.le_refl _, rfl⟩
  exact ⟨w', v, hend, hi', hsettled, hdecides.2, hlast⟩

/-- `propose` needs as many turns as there are slots to catch up with, and one. -/
theorem propose_ends (self : PaxosProposer) (hself : self.members = 𝒮.members)
    (hattempts : 2 ≤ self.maxBallotAttempts)
    (hquorum : 𝒮.members.quorum ≤ (𝒮.live awake).length) (howner : t.node ∈ 𝒮.live awake)
    (value : PaxosValue P) (m : Nat) {turns k : Nat} (hturns : k < turns) :
    𝒮.runtime.Ends (steady P awake) t
      (fun w => Sound 𝒮 w ∧ w.UsedUpTo 𝒮 awake m ∧
        m ≤ (w.acceptors t.node).state.lastApplied + k)
      (self.propose value turns) fun _ _ => True := by
  induction turns generalizing k with
  | zero => exact absurd hturns (Nat.not_lt_zero k)
  | succ turns ih =>
      rintro w ⟨hi, hused, hm⟩
      let last := (w.acceptors t.node).state.lastApplied
      have hlast : Comes 𝒮 awake t w (act .lastApplied) w last := .perform w _
      obtain ⟨w₁, v, hdecide, hi₁, hsettled, hdecided, hle⟩ :=
        decideSlot_ends self hself hattempts hquorum howner (last + 1) value hi
      by_cases hv : v = value
      · refine ⟨w₁, (last + 1, v), hlast.bind (hdecide.bind ?_), trivial⟩
        rw [if_pos hv]
        exact .ret _ _
      · -- An unused slot would have gone to the own proposal.
        have hslot : last + 1 ≤ m := by
          by_contra hnot
          exact hv (hsettled.own fun a ha => hused a ha _ (Nat.lt_of_not_le hnot))
        have happlied : last + 1 ≤ (w₁.acceptors t.node).state.lastApplied := by
          by_contra hnot
          have heq : (w₁.acceptors t.node).state.lastApplied = last := by omega
          have hcaught := hi₁.2 t.node
          rw [PaxosAcceptor.CaughtUp, heq] at hcaught
          rw [World.decided, hcaught] at hdecided
          cases hdecided
        have hused₁ : w₁.UsedUpTo 𝒮 awake m := by
          intro a ha n hn
          rw [hsettled.beside a n (by omega)]
          exact hused a ha n hn
        obtain ⟨w', r, hend, -⟩ := ih (k := k - 1) (by omega) w₁ ⟨hi₁, hused₁, by omega⟩
        refine ⟨w', r, hlast.bind (hdecide.bind ?_), trivial⟩
        rw [if_neg hv]
        exact hend

/-! ## Reads and swaps -/

/-- How a call can be answered. -/
def Call.Answers : Call P → Outcome P → Prop
  | .decideSlot _ _, outcome => ∃ v, outcome = .value v
  | .read _, outcome => ∃ snapshot, outcome = .snapshot snapshot
  | .compareAndSet _ _ _, outcome => ∃ result, outcome = .swapped result

/-- The turns that the loop of the call has. -/
def Call.Patient (n : Nat) : Call P → Prop
  | .decideSlot _ _ => True
  | .read turns => n ≤ turns
  | .compareAndSet _ _ turns => n ≤ turns

theorem proposed_ends (self : PaxosProposer) (hself : self.members = 𝒮.members)
    (hattempts : 2 ≤ self.maxBallotAttempts)
    (hquorum : 𝒮.members.quorum ≤ (𝒮.live awake).length) (howner : t.node ∈ 𝒮.live awake)
    (value : PaxosValue P) (m : Nat) {turns : Nat} {w : World P} (hi : Sound 𝒮 w)
    (hused : w.UsedUpTo 𝒮 awake m) (hturns : m < turns) :
    ∃ w' r result, Comes 𝒮 awake t w (self.propose value turns) w' r ∧
      (w'.acceptors t.node).Answered value r.1 result := by
  obtain ⟨w', r, hend, -, ⟨result, hans⟩, -⟩ :=
    (propose_finds (c := .read 0) self hself value (w.acceptors t.node).state.lastApplied
      turns).ends withstands (propose_ends self hself hattempts hquorum howner value m hturns) w
      ⟨hi, ⟨Nat.le_refl _, fun slot hlt hle => absurd hle (Nat.not_le.mpr hlt)⟩, hi, hused,
        Nat.le_add_left _ _⟩
  exact ⟨w', r, result, hend, hans⟩

theorem program_ends (self : PaxosProposer) (hself : self.members = 𝒮.members)
    (hattempts : 2 ≤ self.maxBallotAttempts)
    (hquorum : 𝒮.members.quorum ≤ (𝒮.live awake).length) (howner : t.node ∈ 𝒮.live awake)
    {m : Nat} (c : Call P) (hc : c.Patient (m + 1)) {w : World P} (hi : Sound 𝒮 w)
    (hused : w.UsedUpTo 𝒮 awake m) :
    ∃ w' outcome, Comes 𝒮 awake t w (Deployment.program self c) w' outcome ∧
      c.Answers outcome := by
  cases c with
  | decideSlot slot proposed =>
      obtain ⟨w', v, hend, -⟩ :=
        decideSlot_ends self hself hattempts hquorum howner slot proposed hi
      exact ⟨w', _, hend.bind (.ret _ _), v, rfl⟩
  | read turns =>
      obtain ⟨w', r, result, hend, hans⟩ :=
        proposed_ends self hself hattempts hquorum howner ⟨.readBarrier⟩ m hi hused hc
      have hfound : Comes 𝒮 awake t w' (act (.result r.1)) w' (some result) := by
        rw [← hans.available]
        exact .perform w' _
      have hown := hans.own
      rw [resultAt, hans.decided] at hown
      cases result with
      | snapshot snapshot =>
          refine ⟨w', .snapshot snapshot, (hend.bind (hfound.bind ?_)).bind (.ret _ _), _, rfl⟩
          exact .ret w' snapshot
      | swapped swapped => cases hown
  | compareAndSet expectedVersion newChain turns =>
      obtain ⟨w', r, result, hend, hans⟩ := proposed_ends self hself hattempts hquorum howner
        ⟨.compareAndSet expectedVersion newChain⟩ m hi hused hc
      have hfound : Comes 𝒮 awake t w' (act (.result r.1)) w' (some result) := by
        rw [← hans.available]
        exact .perform w' _
      have hown := hans.own
      rw [resultAt, hans.decided] at hown
      cases result with
      | swapped swapped =>
          refine ⟨w', .swapped swapped, (hend.bind (hfound.bind ?_)).bind (.ret _ _), _, rfl⟩
          exact .ret w' swapped
      | snapshot snapshot =>
          simp only [Option.map_some, apply, Option.some.injEq] at hown
          split at hown <;> cases hown

/-- The world in which a call of `t` begins. -/
theorem sound_start {s : SystemState P} (h : 𝒮.runtime.Reachable (· = World.initial P) s)
    (t : TaskId) (n : Nat) :
    Sound 𝒮 { s.world with invoked := Function.update s.world.invoked t n } :=
  ⟨⟨(stateInv_of_reachable h).1.1.invoke t n, trivial⟩,
    fun node => (orderly_of_reachable h node).2⟩

/-- **Calls that run alone complete.** In every reachable state: if a majority of the members,
the node of an idle task among them, answers and nobody else runs, each call of the node comes
to its own kind of answer. There is a last slot that the majority has used, and a read or a swap
takes no more turns than that slot, and one; two ballots a slot are enough. -/
theorem calls_complete (hattempts : 2 ≤ 𝒮.maxBallotAttempts) {s : SystemState P}
    (h : 𝒮.runtime.Reachable (· = World.initial P) s) {quorum : List String}
    (hquorum : IsQuorum 𝒮.members.members quorum) {t : TaskId} (hown : t.node ∈ quorum)
    (hidle : s.tasks t = none) :
    (∃ m, s.world.UsedUpTo 𝒮 (fun node => node ∈ quorum) m) ∧
      ∀ m, s.world.UsedUpTo 𝒮 (fun node => node ∈ quorum) m →
        ∀ c : Call P, c.Patient (m + 1) → ∃ s' outcome,
          𝒮.runtime.Through Condition.any
            ((steady P fun node => node ∈ quorum).Alone t) s s' ∧
          c.Answers outcome ∧ s'.tasks = s.tasks ∧
          s'.world.completed =
            s.world.completed ++ [⟨s.world.completed.length, outcome⟩] := by
  let awake : String → Bool := fun node => node ∈ quorum
  have hmember : t.node ∈ 𝒮.members.members := hquorum.subset hown
  have howner : t.node ∈ 𝒮.live awake := List.mem_filter.mpr ⟨hmember, decide_eq_true hown⟩
  have hlarge : 𝒮.members.quorum ≤ (𝒮.live awake).length :=
    (majority_iff_filter 𝒮.members.nodup).mp ⟨quorum, hquorum, fun _ h => h⟩
  let w : World P :=
    { s.world with invoked := Function.update s.world.invoked t s.world.completed.length }
  refine ⟨s.world.exists_usedUpTo 𝒮 awake, fun m hused c hc => ?_⟩
  obtain ⟨w', outcome, hend, hans⟩ := program_ends (𝒮.proposer t.node hmember) rfl hattempts hlarge
    howner c hc (sound_start h t s.world.completed.length) hused
  have hsurvives : ∀ d, (steady P awake).disturb d → ∀ u, 𝒮.runtime.survives d u = true := by
    rintro _ ⟨message, target, rfl, -⟩ u
    rfl
  have hstart : 𝒮.runtime.start s.world t c =
      some (w, Deployment.program (𝒮.proposer t.node hmember) c) := dif_pos hmember
  -- No step of the run returns another call.
  have hkept : w'.completed = s.world.completed ∧
      w'.invoked t = s.world.completed.length := by
    refine hend.keeps (F := fun v => v.completed = s.world.completed ∧
      v.invoked t = s.world.completed.length) (fun v a hv => ?_) (fun hs hv => ?_)
      (fun hd hs hv => ?_) ⟨rfl, Function.update_self _ _ _⟩
    · exact ⟨by cases a <;> exact hv.1, (invoked_exec v t a).trans hv.2⟩
    · exact ⟨(resumed_of_resume hs).completed.trans hv.1,
        (resumed_of_resume hs).invoked.trans hv.2⟩
    · obtain ⟨message, target, rfl, -⟩ := hd
      obtain ⟨-, hs⟩ := Option.ite_none_right_eq_some.mp hs
      cases hs
      exact ⟨(completed_handle _ target true message.request).trans hv.1,
        (congrFun (World.served_handle _ target message.request).invoked t).trans hv.2⟩
  refine ⟨_, outcome, hend.call hsurvives hidle hstart, hans, rfl, ?_⟩
  show w'.completed ++ [⟨w'.invoked t, outcome⟩] = _
  rw [hkept.1, hkept.2]

/-- `c` takes promises for slot 1 and crashes: its ballot outbids the first one of `a`. -/
def abandonedRun : List (Action TaskId (Call Unit) (Choice Unit) (Disturbance Unit)) :=
  let t : TaskId := ⟨"c", 0⟩
  [.launch t (.read 1), .resume t .saved] ++
    handled ["a", "b", "c"] (.prepare ⟨1, ⟨1, "c", Nat.one_pos, c_named⟩⟩) ["a", "b"] ++
    [.disturb (.crash "c")]

theorem abandonedRun_runs :
    ((threeNodes.runtime.run (fresh _ _ _ _ (World.initial Unit)) abandonedRun).map fun s =>
      ((s.tasks ⟨"a", 0⟩).isNone, (s.world.slotAt "b" 1).promisedBallot.map Ballot.nodeId,
        ["a", "b"].all fun node =>
          (s.world.acceptors node).state.slots.all fun slot => decide (slot.slot ≤ 1))) =
    some (true, some "c", true) := by
  decide +kernel

/-- Slot 1 is the last one that `a` and `b` have used: two turns are enough. -/
theorem calls_complete_abandoned :
    ∃ s : SystemState Unit, (s.world.slotAt "b" 1).promisedBallot.map Ballot.nodeId = some "c" ∧
      ∀ c : Call Unit, c.Patient 2 → ∃ s' outcome,
        threeNodes.runtime.Through Condition.any
          ((steady Unit fun node => node ∈ ["a", "b"]).Alone ⟨"a", 0⟩) s s' ∧
        c.Answers outcome ∧ s'.tasks = s.tasks ∧
        s'.world.completed = s.world.completed ++ [⟨s.world.completed.length, outcome⟩] := by
  obtain ⟨s, hs, hpost⟩ := Option.map_eq_some_iff.mp abandonedRun_runs
  obtain ⟨hidle, hpost⟩ := Prod.mk.inj hpost
  obtain ⟨hpromised, hslots⟩ := Prod.mk.inj hpost
  have hquorum : IsQuorum threeNodes.members.members ["a", "b"] :=
    ⟨by decide, by decide, by decide⟩
  have hused : s.world.UsedUpTo threeNodes (fun node => node ∈ ["a", "b"]) 1 := by
    intro node hnode n hn
    have hawake : node ∈ ["a", "b"] := of_decide_eq_true (List.mem_filter.mp hnode).2
    have hall := List.all_eq_true.mp (List.all_eq_true.mp hslots node hawake)
    exact unused_of_slots_le (fun slot hslot => of_decide_eq_true (hall slot hslot)) hn
  exact ⟨s, hpromised, (calls_complete (by decide) (Reachable.run (.init rfl) hs) hquorum
    (by decide) (Option.isNone_iff_eq_none.mp hidle)).2 1 hused⟩

end DelosLab.Paxos
