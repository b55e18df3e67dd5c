import DelosLab.Paxos.Agreement

/-!
# Barrier reads

All read barriers are equal values, so `propose` takes a slot that an earlier read
decided for its own. A peer that missed the decision answers a new read from that
slot, and misses the updates that were applied behind it.
-/

namespace DelosLab.Paxos

open Async Async.Runtime Consensus

variable {P : Type}

/-- The version that a read returned. -/
def Outcome.readVersion : Outcome P → Option Nat
  | .snapshot chain => some chain.version
  | _ => none

/-- The version that a read returned or that a `compare_and_set` applied. -/
def Outcome.version : Outcome P → Option Nat
  | .snapshot chain => some chain.version
  | .swapped (.applied chain) => some chain.version
  | _ => none

namespace World

/-- No read returned less than a call that had returned when the read was invoked. -/
def BarrierReads (w : World P) : Prop :=
  ∀ r ∈ w.completed, ∀ u ∈ r.outcome.readVersion,
    ∀ e ∈ w.completed.take r.before, ∀ v ∈ e.outcome.version, v ≤ u

instance (w : World P) : Decidable w.BarrierReads :=
  inferInstanceAs (Decidable (∀ r ∈ w.completed, ∀ u ∈ r.outcome.readVersion,
    ∀ e ∈ w.completed.take r.before, ∀ v ∈ e.outcome.version, v ≤ u))

/-- No barrier that a member has applied and `node` has not is older than a version
that has been returned. -/
def NoStaleBarrier (w : World P) (members : List String) (node : String) : Prop :=
  ∀ a ∈ members, ∀ slot ≤ (w.acceptors a).state.lastApplied,
    (w.acceptors node).state.lastApplied < slot → w.decided a slot = some ⟨.readBarrier⟩ →
      ∀ e ∈ w.completed, ∀ v ∈ e.outcome.version, v ≤ (registerAt (w.decided a) slot).version

instance [DecidableEq P] (w : World P) (members : List String) (node : String) :
    Decidable (w.NoStaleBarrier members node) :=
  inferInstanceAs (Decidable (∀ a ∈ members, ∀ slot ≤ (w.acceptors a).state.lastApplied,
    (w.acceptors node).state.lastApplied < slot → w.decided a slot = some ⟨.readBarrier⟩ →
      ∀ e ∈ w.completed, ∀ v ∈ e.outcome.version, v ≤ (registerAt (w.decided a) slot).version))

/-- A member has applied a slot behind which the register has reached `v`. -/
def Reached (w : World P) (members : List String) (v : Nat) : Prop :=
  ∃ a ∈ members, ∃ slot ≤ (w.acceptors a).state.lastApplied,
    v ≤ (registerAt (w.decided a) slot).version

/-- What the returned calls of a run with barrier reads say. -/
structure Returned (w : World P) (members : List String) : Prop where
  barrier : w.BarrierReads
  before : ∀ r ∈ w.completed, r.before ≤ w.completed.length
  reached : ∀ r ∈ w.completed, ∀ v ∈ r.outcome.version, w.Reached members v

end World

/-- Reads are only invoked on peers that lag behind no stale barrier. What counts is how far the
peer has applied at the invocation; by a later turn of the read it may have come further. -/
def noStaleBarriers (𝒮 : Deployment) :
    Condition (signature P) (World P) TaskId (Call P) (Choice P) where
  launch := fun w t c =>
    match c with
    | .read _ => w.NoStaleBarrier 𝒮.members.members t.node
    | _ => True
  resume := fun _ _ _ _ _ => True

/-! ## One register for all peers -/

/-- Two peers that have applied a slot, now and later, decided the same in every slot
up to it. -/
theorem Inv.decided_eq {𝒮 : Deployment} {w w' : World P} (h : Inv 𝒮 w) (h' : Inv 𝒮 w')
    (hg : Grow w w') {a b : String} {slot : Nat}
    (ha : slot ≤ (w.acceptors a).state.lastApplied)
    (hb : slot ≤ (w'.acceptors b).state.lastApplied) {m : Nat} (hm : 1 ≤ m) (hle : m ≤ slot) :
    w.decided a m = w'.decided b m := by
  obtain ⟨x, hx⟩ := Option.ne_none_iff_exists'.mp
    ((h.wellFormed a).applied m hm (Nat.le_trans hle ha))
  obtain ⟨y, hy⟩ := Option.ne_none_iff_exists'.mp
    ((h'.wellFormed b).applied m hm (Nat.le_trans hle hb))
  have hx' : w.decided a m = some x := hx
  have hy' : w'.decided b m = some y := hy
  rw [hx', hy', h'.agreement ((h.chosen_of_decided hx').mono hg) (h'.chosen_of_decided hy')]

/-- They have one register there. -/
theorem Inv.registerAt_eq {𝒮 : Deployment} {w w' : World P} (h : Inv 𝒮 w) (h' : Inv 𝒮 w')
    (hg : Grow w w') {a b : String} {slot : Nat}
    (ha : slot ≤ (w.acceptors a).state.lastApplied)
    (hb : slot ≤ (w'.acceptors b).state.lastApplied) :
    registerAt (w.decided a) slot = registerAt (w'.decided b) slot :=
  registerAt_congr fun _ hm hle => h.decided_eq h' hg ha hb hm hle

theorem World.Reached.grow {𝒮 : Deployment} {w w' : World P} (h : Inv 𝒮 w) (h' : Inv 𝒮 w')
    (hg : Grow w w') {members : List String} {v : Nat} (hv : w.Reached members v) :
    w'.Reached members v := by
  obtain ⟨a, ha, slot, hle, hv⟩ := hv
  have hle' := Nat.le_trans hle (hg.advances a).lastApplied
  exact ⟨a, ha, slot, hle', h.registerAt_eq h' hg hle hle' ▸ hv⟩

/-- What a swap answers with is what the register holds behind its slot. -/
theorem registerAt_of_swapped {decided : Nat → Option (PaxosValue P)} {slot : Nat} (hs : 1 ≤ slot)
    {result : VirtualLog.CompareAndSetResult P}
    (h : resultAt decided slot = some (.swapped result)) :
    registerAt decided slot = result.current := by
  obtain ⟨n, rfl⟩ : ∃ n, slot = n + 1 := ⟨slot - 1, by omega⟩
  obtain ⟨value, hv, hres⟩ := Option.map_eq_some_iff.mp h
  rw [registerAt, hv]
  simp only [Nat.add_sub_cancel] at hres ⊢
  cases hc : value.command with
  | readBarrier =>
      rw [hc] at hres
      cases hres
  | compareAndSet expectedVersion newChain =>
      rw [hc, apply] at hres
      rw [apply]
      split at hres
      · next heq =>
          rw [if_pos heq]
          cases hres
          rfl
      · next heq =>
          rw [if_neg heq]
          cases hres
          rfl

/-- The version that a call returned has been reached on its peer. -/
theorem CallPost.reached {𝒮 : Deployment} {t : TaskId} {n : Nat} {c : Call P} {w : World P}
    {o : Outcome P} (h : CallPost 𝒮 t n c w o) {members : List String} (hmem : t.node ∈ members)
    {v : Nat} (hv : v ∈ o.version) : w.Reached members v := by
  cases c with
  | decideSlot slot proposed =>
      cases o with
      | value _ => cases hv
      | snapshot _ => exact False.elim h
      | swapped _ => exact False.elim h
  | read turns =>
      cases o with
      | snapshot snapshot =>
          obtain ⟨slot, -, hle, -, hreg⟩ := h
          obtain rfl := Option.some.inj hv
          exact ⟨t.node, hmem, slot, hle, Nat.le_of_eq (by rw [hreg])⟩
      | value _ => cases hv
      | swapped _ => exact False.elim h
  | compareAndSet expectedVersion newChain turns =>
      cases o with
      | swapped result =>
          cases result with
          | applied snapshot =>
              obtain ⟨slot, hpos, hle, -, hres⟩ := h
              obtain rfl := Option.some.inj hv
              have hreg := congrArg VirtualLog.VersionedLogChain.version
                (registerAt_of_swapped hpos hres)
              exact ⟨t.node, hmem, slot, hle, Nat.le_of_eq hreg.symm⟩
          | versionMismatch _ => cases hv
      | value _ => cases hv
      | snapshot _ => exact False.elim h

/-! ## When reads are barriers -/

/-- A read that lags behind no stale barrier at its start returns every version
that had been returned by then. -/
theorem ReadsAt.le_version {𝒮 : Deployment} {w w' : World P} (h : Inv 𝒮 w) (h' : Inv 𝒮 w')
    (hg : Grow w w') (hret : w.Returned 𝒮.members.members) {node : String}
    (hfresh : w.NoStaleBarrier 𝒮.members.members node)
    {snapshot : VirtualLog.VersionedLogChain P}
    (hread : ReadsAt node (w.acceptors node).state.lastApplied w' snapshot)
    {e : Completion P} (he : e ∈ w.completed) {v : Nat} (hv : v ∈ e.outcome.version) :
    v ≤ snapshot.version := by
  obtain ⟨slot, hlt, hle, hdec, rfl⟩ := hread
  by_cases hold : ∃ a ∈ 𝒮.members.members, slot ≤ (w.acceptors a).state.lastApplied
  · -- A member had applied the slot, so it had decided the same barrier.
    obtain ⟨a, hmem, ha⟩ := hold
    obtain ⟨x, hx⟩ := Option.ne_none_iff_exists'.mp
      ((h.wellFormed a).applied slot (Nat.one_le_of_lt hlt) ha)
    have hx' : w.decided a slot = some x := hx
    obtain rfl := h'.agreement ((h.chosen_of_decided hx').mono hg) (h'.chosen_of_decided hdec)
    rw [← h.registerAt_eq h' hg ha hle]
    exact hfresh a hmem slot ha hlt hx' e he v hv
  · -- The slot lies behind every slot that had been applied.
    obtain ⟨a, hmem, slot', ha, hv'⟩ := hret.reached e he v hv
    have hlt' : slot' < slot :=
      Nat.lt_of_not_le fun hge => hold ⟨a, hmem, Nat.le_trans hge ha⟩
    rw [h.registerAt_eq h' hg ha (Nat.le_trans (Nat.le_of_lt hlt') hle)] at hv'
    exact Nat.le_trans hv' (version_registerAt_le _ (Nat.le_of_lt hlt'))

/-- A call returns. -/
theorem World.Returned.finish {w : World P} {members : List String} (h : w.Returned members)
    {r : Completion P} (hb : r.before ≤ w.completed.length)
    (hreach : ∀ v ∈ r.outcome.version, w.Reached members v)
    (hread : ∀ u ∈ r.outcome.readVersion,
      ∀ e ∈ w.completed.take r.before, ∀ v ∈ e.outcome.version, v ≤ u) :
    World.Returned { w with completed := w.completed ++ [r] } members where
  barrier := by
    intro r' hr' u hu e he v hv
    rcases List.mem_append.mp hr' with hr' | hr'
    · rw [List.take_append_of_le_length (h.before r' hr')] at he
      exact h.barrier r' hr' u hu e he v hv
    · obtain rfl := List.mem_singleton.mp hr'
      rw [List.take_append_of_le_length hb] at he
      exact hread u hu e he v hv
  before := by
    intro r' hr'
    rw [List.length_append]
    rcases List.mem_append.mp hr' with hr' | hr'
    · exact Nat.le_add_right_of_le (h.before r' hr')
    · obtain rfl := List.mem_singleton.mp hr'
      exact Nat.le_add_right_of_le hb
  reached := by
    intro r' hr' v hv
    rcases List.mem_append.mp hr' with hr' | hr'
    · exact h.reached r' hr' v hv
    · obtain rfl := List.mem_singleton.mp hr'
      exact hreach v hv

/-- The rider of a run with barrier reads. -/
def barrierRider (𝒮 : Deployment) (P : Type) : Rider 𝒮 P where
  holds := fun w => w.Returned 𝒮.members.members
  stable := by
    intro w w' hi hi' hg hc h
    refine ⟨?_, ?_, fun r hr v hv => ?_⟩
    · rw [World.BarrierReads, hc]
      exact h.barrier
    · rw [hc]
      exact h.before
    · rw [hc] at hr
      exact (h.reached r hr v hv).grow hi hi' hg

section Run

variable [DecidableEq P] {𝒮 : Deployment}

theorem sound_barrier :
    (discipline 𝒮 (noStaleBarriers 𝒮) (barrierRider 𝒮 P)).Sound := by
  refine sound fun w t c hi hmem hC => ⟨Grow w, fun _ _ hg h => h.trans hg, .refl w, ?_⟩
  intro w' o hi' hret hg hinv hpost
  obtain ⟨tail, hprefix⟩ := hg.completed
  refine hret.finish ?_ (fun v hv => hpost.reached hmem hv) fun u hu e he v hv => ?_
  · rw [hinv, ← hprefix, List.length_append]
    exact Nat.le_add_right _ _
  · -- The calls that had returned at the invocation are those of the world then.
    simp only at he
    rw [hinv, ← hprefix, List.take_left] at he
    cases c with
    | decideSlot slot proposed =>
        cases o with
        | snapshot _ => exact False.elim hpost
        | value _ => cases hu
        | swapped _ => cases hu
    | compareAndSet expectedVersion newChain turns =>
        cases o with
        | snapshot _ => exact False.elim hpost
        | value _ => cases hu
        | swapped _ => cases hu
    | read turns =>
        cases o with
        | snapshot snapshot =>
            obtain rfl := Option.some.inj hu
            exact ReadsAt.le_version hi.1 hi' hg hi.2 hC hpost he hv
        | value _ => cases hu
        | swapped _ => cases hu

/-- **Reads are barriers** in every run in which no read is invoked on a peer that
lags behind a stale barrier. -/
theorem read_is_barrier {s : SystemState P}
    (h : 𝒮.runtime.ReachableUnder (noStaleBarriers 𝒮) (· = World.initial P) s) :
    s.world.BarrierReads := by
  have hinit : ∀ w : World P, w = World.initial P →
      (discipline 𝒮 (noStaleBarriers 𝒮) (barrierRider 𝒮 P)).Inv w := by
    rintro w rfl
    refine ⟨inv_initial 𝒮, ?_, ?_, ?_⟩
    · exact fun _ hr => nomatch hr
    · exact fun _ hr => nomatch hr
    · exact fun _ hr => nomatch hr
  exact (sound_barrier.reachable hinit h).1.2.barrier

end Run

/-! ## Two runs of three nodes -/

def meetsNoStaleBarriers (s : SystemState Unit)
    (a : Action TaskId (Call Unit) (Choice Unit) (Disturbance Unit)) : Bool :=
  match a with
  | .launch t (.read _) => decide (s.world.NoStaleBarrier threeNodes.members.members t.node)
  | _ => true

theorem meets_of_meetsNoStaleBarriers (s : SystemState Unit)
    (a : Action TaskId (Call Unit) (Choice Unit) (Disturbance Unit))
    (h : meetsNoStaleBarriers s a = true) : Meets (noStaleBarriers threeNodes) s a := by
  cases a with
  | launch t c =>
      cases c with
      | read turns => exact of_decide_eq_true (p := s.world.NoStaleBarrier _ t.node) h
      | decideSlot slot proposed => trivial
      | compareAndSet expectedVersion newChain turns => trivial
  | resume t x => exact fun _ _ _ _ => trivial
  | disturb d => trivial

def singleSegment : VirtualLog.LogChain Unit where
  segments := [.first "initial" ⟨"memory", 1, ()⟩ initial_named]
  valid := by decide

def bootstrapValue : PaxosValue Unit := ⟨.compareAndSet 0 singleSegment⟩

/-- `a` installs the first chain in slot 1 and reads it in slot 2. -/
def freshRun : List (Action TaskId (Call Unit) (Choice Unit) (Disturbance Unit)) :=
  [.launch ⟨"a", 0⟩ (.compareAndSet 0 singleSegment 1)] ++
    undisturbed ⟨"a", 0⟩ 1 ⟨1, "a", Nat.one_pos, a_named⟩ bootstrapValue ++
    [.launch ⟨"a", 1⟩ (.read 1)] ++
    undisturbed ⟨"a", 1⟩ 2 ⟨2, "a", Nat.two_pos, a_named⟩ ⟨.readBarrier⟩

theorem freshRun_runs :
    ((threeNodes.runtime.runWhile meetsNoStaleBarriers (fresh _ _ _ _ (World.initial Unit))
      freshRun).map fun s => s.world.completed.map fun r => (r.before, r.outcome.version)) =
    some [(0, some 1), (1, some 1)] := by
  decide +kernel

theorem read_is_barrier_fresh :
    ∃ s : SystemState Unit,
      (s.world.completed.map fun r => (r.before, r.outcome.version)) =
        [(0, some 1), (1, some 1)] ∧ s.world.BarrierReads := by
  obtain ⟨s, hs, hpost⟩ := Option.map_eq_some_iff.mp freshRun_runs
  exact ⟨s, hpost, read_is_barrier
    (ReachableUnder.runWhile meets_of_meetsNoStaleBarriers (.init rfl) hs)⟩

/-- `a` reads in slot 1, and `b` does not learn it; `a` installs the first chain in
slot 2; `b` is asked to read, finds the old barrier in slot 1 and takes it for its
own. -/
def staleRun : List (Action TaskId (Call Unit) (Choice Unit) (Disturbance Unit)) :=
  let members := ["a", "b", "c"]
  let old : Ballot := ⟨1, "a", Nat.one_pos, a_named⟩
  let new : Ballot := ⟨1, "b", Nat.one_pos, b_named⟩
  let barrier : PaxosValue Unit := ⟨.readBarrier⟩
  List.flatten
    [[.launch ⟨"a", 0⟩ (.read 1)], undisturbed ⟨"a", 0⟩ 1 old barrier,
     [.launch ⟨"a", 1⟩ (.compareAndSet 0 singleSegment 1)],
     undisturbed ⟨"a", 1⟩ 2 ⟨2, "a", Nat.two_pos, a_named⟩ bootstrapValue,
     [.launch ⟨"b", 0⟩ (.read 1), .resume ⟨"b", 0⟩ .saved],
     handled members (.prepare ⟨1, new⟩) ["a", "b"],
     [.resume ⟨"b", 0⟩ (.prepared [some ⟨true, new, some old, some barrier, some barrier⟩,
        some ⟨true, new, none, none, none⟩, none]),
      .resume ⟨"b", 0⟩ .saved, .resume ⟨"b", 0⟩ .done]]

/-- The last read was invoked after version 1 was returned, and returns version 0. -/
theorem staleRun_runs :
    ((threeNodes.runtime.run (fresh _ _ _ _ (World.initial Unit)) staleRun).map fun s =>
      (s.world.completed.map fun r => (r.before, r.outcome.version),
        decide s.world.BarrierReads)) =
    some ([(0, some 0), (1, some 1), (2, some 0)], false) := by
  decide +kernel

theorem read_is_no_barrier :
    ∃ s : SystemState Unit, threeNodes.runtime.Reachable (· = World.initial Unit) s ∧
      ¬s.world.BarrierReads := by
  obtain ⟨s, hs, hpost⟩ := Option.map_eq_some_iff.mp staleRun_runs
  exact ⟨s, Reachable.run (.init rfl) hs, of_decide_eq_false (Prod.mk.inj hpost).2⟩

end DelosLab.Paxos
