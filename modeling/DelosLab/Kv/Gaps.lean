import DelosLab.Kv.ExactlyOnce

/-!
# Replay over a trimmed log

A read passes over what the replica can no longer read. When it finds a later entry in the
asked range, nothing tells the gap from a position that never held an entry.
-/

namespace DelosLab.Kv

open Async Async.Runtime

variable {𝒮 : Deployment}

/-- The log has an entry at `p` that a read of the replica passes over. -/
def World.Lost (w : World) (view : ReadView) (node : String) (p : Nat) : Prop :=
  w.log p ≠ none ∧ view.Passed node p

instance (w : World) (view : ReadView) (node : String) (p : Nat) :
    Decidable (w.Lost view node p) :=
  inferInstanceAs (Decidable (w.log p ≠ none ∧ view.Passed node p))

/-- A read from `start` on ends before `p`. -/
def EndsBefore (view : ReadView) (node : String) (start p : Nat) : Prop :=
  ∃ r < p, start ≤ r ∧ view.Visible node r

instance (view : ReadView) (node : String) (start p : Nat) :
    Decidable (EndsBefore view node start p) :=
  inferInstanceAs (Decidable (∃ r < p, start ≤ r ∧ view.Visible node r))

/-- No entry in the range is lost to the view while a later one is visible, unless the read
ends before the gap. -/
def World.NoHole (w : World) (view : ReadView) (node : String) (start stop : Nat) : Prop :=
  ∀ q < stop, view.Visible node q → ∀ p < q, start ≤ p → w.Lost view node p →
    EndsBefore view node start p

instance (w : World) (view : ReadView) (node : String) (start stop : Nat) :
    Decidable (w.NoHole view node start stop) :=
  inferInstanceAs (Decidable (∀ q < stop, view.Visible node q → ∀ p < q, start ≤ p →
    w.Lost view node p → EndsBefore view node start p))

/-- The runs of the service in which no read meets a hole. -/
def noHoles : Condition signature World TaskId Call Choice :=
  serving fun w node start stop view => w.NoHole view node start.toNat stop.toNat

/-- A read without a hole skips nothing. -/
theorem World.NoHole.unskipped {w : World} {view : ReadView} {node : String} {start stop : Int}
    (h : w.NoHole view node start.toNat stop.toNat)
    (hright : view.Right node w.log start.toNat stop.toNat) :
    w.Unskipped 𝒮 node start stop view := by
  intro e he p hp hlt
  by_contra hlog
  obtain ⟨-, -, hreads⟩ := ReadView.readNext_reads hright he
  obtain ⟨-, hstop, -, hvisible⟩ := hreads.found e rfl
  have hpassed : ∀ q, start.toNat ≤ q → q < e.position → view.Passed node q := by
    intro q hq hqe
    refine hreads.passed q hq (Nat.lt_trans hqe hstop) ?_
    rintro e' ⟨⟩
    exact hqe
  obtain ⟨r, hrp, hr, hvr⟩ := h _ hstop hvisible p hlt hp ⟨hlog, hpassed p hp hlt⟩
  exact hvr.not_passed (hpassed r hr (Nat.lt_trans hrp hlt))

/-- The stores are replays of the whole log through their applied positions, a
`materialize_through` that returns has met no gap, and one whose last read has met a gap
asks for a snapshot. -/
structure World.SkipsNothing (𝒮 : Deployment) (w : World) : Prop where
  stores : ∀ node, ∃ n : Nat, (n : Int) = (w.connection node).committed.appliedPosition + 1 ∧
    n ≤ w.settled ∧ (w.connection node).committed.IsReplay (𝒮.replay w n)
  returned : ∀ f ∈ w.replayed, ∀ result, f.outcome = .ok result →
    f.gap = false ∧ f.target ≤ (w.connection f.node).committed.appliedPosition
  gapped : ∀ f ∈ w.replayed, f.gap = true → ∃ message, f.outcome = .error (.syncRequired message)

/-- **Replay skips nothing** in every run in which no read meets a hole. -/
theorem replay_skips_nothing {s : SystemState}
    (h : 𝒮.runtime.ReachableUnder noHoles (· = World.empty) s) :
    s.world.SkipsNothing 𝒮 := by
  have hi := inv_of_reachable
    (h.mono (serving_mono fun _ _ _ _ _ hright hread => hread.unskipped hright))
  constructor
  · intro node
    have hstore := (hi.store node).committed
    exact ⟨_, hstore.next_eq, hstore.next_le, hstore.shape⟩
  · intro f hf result hresult
    exact (hi.replayed f hf).returned result hresult
  · intro f hf hgap
    cases houtcome : f.outcome with
    | ok result =>
        have hnone := ((hi.replayed f hf).returned result houtcome).1
        rw [hgap] at hnone
        cases hnone
    | error e =>
        obtain ⟨message, he⟩ := ((hi.replayed f hf).raised e houtcome).gapped hgap
        exact ⟨message, congrArg _ he⟩

/-! ## Two runs over a trimmed log -/

/-- The members have trimmed the first `n` positions. -/
def trimmedView (n : Nat) (commands : List KvCommandEnvelope) : ReadView :=
  { viewOf commands with
    answers := fun segmentId member p =>
      if p < n then .ok none else (viewOf commands).answers segmentId member p }

/-- The log of the runs: two commands. -/
def twoPuts : List (Action TaskId Call Choice Disturbance) :=
  [.disturb (.decide 0 (content firstPut)), .disturb (.decide 1 (content secondPut)),
    .disturb (.settle 2)]

/-- `a` replays both entries; then the log is trimmed behind them, and `b` asks for them. -/
def behindRun : List (Action TaskId Call Choice Disturbance) :=
  let a : TaskId := ⟨"a", 0⟩
  let b : TaskId := ⟨"b", 0⟩
  let view := viewOf [firstPut, secondPut]
  List.flatten
    [twoPuts, [.launch a (.materializeThrough 1)], done a 2, [.resume a (.read view)],
     done a 11, [.resume a (.read view)], done a 11,
     [.disturb (.trim 2), .launch b (.materializeThrough 1)], done b 2,
     [.resume b (.read (trimmedView 2 [firstPut, secondPut]))]]

theorem behindRun_runs :
    ((replicas.runtime.runWhile (meetsServing fun w node start stop view =>
      w.NoHole view node start.toNat stop.toNat) (fresh _ _ _ _ World.empty) behindRun).map fun s =>
      s.world.replayed.map fun f => (f.node, f.gap, f.outcome)) =
    some [("a", false, .ok ⟨.applied, some (.str "w")⟩),
      ("b", true, .error (.syncRequired "readNext found no entry in committed range [0, 2)"))] := by
  decide +kernel

theorem replay_skips_nothing_behind :
    ∃ s : SystemState, (s.world.replayed.map fun f => (f.node, f.gap, f.outcome)) =
        [("a", false, .ok ⟨.applied, some (.str "w")⟩), ("b", true,
          .error (.syncRequired "readNext found no entry in committed range [0, 2)"))] ∧
      s.world.SkipsNothing replicas := by
  obtain ⟨s, hs, hpost⟩ := Option.map_eq_some_iff.mp behindRun_runs
  exact ⟨s, hpost, replay_skips_nothing
    (ReachableUnder.runWhile meets_of_meetsServing (.init rfl) hs)⟩

/-- What has not been trimmed is visible to every read. -/
def World.OnlyTrimmed (w : World) (view : ReadView) (node : String) (start stop : Nat) : Prop :=
  ∀ p < stop, start ≤ p → w.trimmed ≤ p → w.log p ≠ none → view.Visible node p

instance (w : World) (view : ReadView) (node : String) (start stop : Nat) :
    Decidable (w.OnlyTrimmed view node start stop) :=
  inferInstanceAs (Decidable (∀ p < stop, start ≤ p → w.trimmed ≤ p → w.log p ≠ none →
    view.Visible node p))

/-- The runs of the service in which reads miss what has been trimmed and nothing else. -/
def missTrimmed : Condition signature World TaskId Call Choice :=
  serving fun w node start stop view => w.OnlyTrimmed view node start.toNat stop.toNat

/-- The first entry is trimmed before `b` has read it; `b` replays through the second. -/
def skippedRun : List (Action TaskId Call Choice Disturbance) :=
  let b : TaskId := ⟨"b", 0⟩
  twoPuts ++ [.disturb (.trim 1), .launch b (.materializeThrough 1)] ++ done b 2 ++
    [.resume b (.read (trimmedView 1 [firstPut, secondPut]))] ++ done b 11

/-- `materialize_through` returns, and the store has never applied the first entry. -/
theorem skippedRun_runs :
    ((replicas.runtime.runWhile (meetsServing fun w node start stop view =>
      w.OnlyTrimmed view node start.toNat stop.toNat) (fresh _ _ _ _ World.empty) skippedRun).map
      fun s => (s.world.replayed.map Replayed.outcome,
        (s.world.connection "b").committed.appliedPosition,
        ((s.world.connection "b").committed.entryAt 0).isSome,
        ((replicas.replay s.world 2).applied 0).isSome)) =
    some ([.ok ⟨.applied, some (.str "w")⟩], 1, false, true) := by
  decide +kernel

theorem replay_skips_trimmed :
    ∃ s : SystemState, replicas.runtime.ReachableUnder missTrimmed (· = World.empty) s ∧
      ¬s.world.SkipsNothing replicas := by
  obtain ⟨s, hs, hpost⟩ := Option.map_eq_some_iff.mp skippedRun_runs
  refine ⟨s, ReachableUnder.runWhile meets_of_meetsServing (.init rfl) hs, fun h => ?_⟩
  simp only [Prod.mk.injEq] at hpost
  obtain ⟨-, hposition, hentry, happlied⟩ := hpost
  obtain ⟨n, hn, -, hreplay⟩ := h.stores "b"
  obtain rfl : n = 2 := by omega
  rw [hreplay.entries 0, happlied] at hentry
  cases hentry

end DelosLab.Kv
