import DelosLab.Kv.Gaps

/-!
# A request with two commands

The log may hold two commands under one identity. `apply` refuses the second one, so every
replica stops before it.
-/

namespace DelosLab.Kv

open Async Async.Runtime

variable {𝒮 : Deployment}

/-! ## Least reads meet no gap -/

/-- No read has met a gap. -/
structure World.Gapless (w : World) : Prop where
  gap : ∀ t, w.gap t = false
  replayed : ∀ f ∈ w.replayed, f.gap = false

/-- A read of the least entry passes over no entry. -/
theorem World.Least.overlooked {w : World} {start stop : Nat}
    {r : Option VirtualLog.VirtualLogEntry} (h : w.Least start stop r) :
    w.overlooked start stop r = false := by
  apply decide_eq_false
  rintro ⟨p, hp, hstart, hlog⟩
  cases r with
  | none => exact hlog (h p hp hstart)
  | some e => exact hlog (h.2.2.2 p hp hstart)

theorem World.Gapless.finish {w : World} (h : w.Gapless) (t : TaskId) (c : Call)
    (o : Except Error Outcome) : (Deployment.finish w t c o).Gapless := by
  unfold Deployment.finish
  split
  case h_2 | h_3 =>
    refine ⟨h.gap, fun f hf => ?_⟩
    rcases List.mem_append.mp hf with hf | hf
    · exact h.replayed f hf
    · obtain rfl := List.mem_singleton.mp hf
      exact h.gap t
  all_goals exact ⟨h.gap, h.replayed⟩

theorem gapless_keeps : 𝒮.runtime.Keeps (leastReads 𝒮) World.Gapless where
  start := by
    intro w t c w' p h _ hs
    obtain ⟨rfl, rfl⟩ := Prod.mk.inj (Option.some.inj hs)
    refine ⟨fun u => ?_, h.replayed⟩
    by_cases hu : u = t
    · rw [hu]
      exact Function.update_self _ _ _
    · exact (Function.update_of_ne hu _ _).trans (h.gap u)
  exec := by
    intro w t a h
    cases a <;> exact ⟨h.gap, h.replayed⟩
  resume := by
    intro w t c e x w' r h hC hr
    cases resume_cases hr with
    | read start stop view r _ hread =>
        refine ⟨fun u => ?_, h.replayed⟩
        by_cases hu : u = t
        · rw [hu]
          exact (Function.update_self _ _ _).trans (World.LeastRead.of_ok hC hread).overlooked
        · exact (Function.update_of_ne hu _ _).trans (h.gap u)
    | _ => exact ⟨h.gap, h.replayed⟩
  finish := fun w t c o h => h.finish t c o
  disturb := by
    intro w d w' h hd
    have hd : Deployment.disturb w d = some w' := hd
    cases d with
    | decide position content =>
        rw [Deployment.disturb] at hd
        split at hd
        · cases hd
          exact ⟨h.gap, h.replayed⟩
        · cases hd
    | settle position =>
        cases hd
        exact ⟨h.gap, h.replayed⟩
    | trim position =>
        rw [Deployment.disturb] at hd
        split at hd
        · cases hd
          exact ⟨h.gap, h.replayed⟩
        · cases hd
    | crash node =>
        cases hd
        exact ⟨h.gap, h.replayed⟩

/-! ## What a conflict does -/

/-- The target of a replay is an entry of the log, and every entry through it is valid. -/
structure World.Committed (𝒮 : Deployment) (w : World) (target : Int) : Prop where
  entry : ∃ p : Nat, (p : Int) = target ∧ w.log p ≠ none
  valid : ∀ p : Nat, (p : Int) ≤ target → w.log p ≠ none → 𝒮.commands w p ≠ none

/-- Every replay that has ended has advanced its replica through its target. -/
def World.Advances (𝒮 : Deployment) (w : World) : Prop :=
  ∀ f ∈ w.replayed, f.faulted = false → w.Committed 𝒮 f.target →
    (∃ result, f.outcome = .ok result) ∧
      f.target ≤ (w.connection f.node).committed.appliedPosition

/-- Every replica stops before the first conflict, and all replays through it are refused;
without a conflict they advance. -/
structure World.StopsAtConflicts (𝒮 : Deployment) (w : World) : Prop where
  stores : ∀ node, ∃ n : Nat, (n : Int) = (w.connection node).committed.appliedPosition + 1 ∧
    (w.connection node).committed.IsReplay (𝒮.replay w n) ∧ ∀ p < n, ¬𝒮.Conflict w p
  advanced : ∀ f ∈ w.replayed, f.faulted = false → w.Committed 𝒮 f.target →
    (∀ p : Nat, (p : Int) ≤ f.target → ¬𝒮.Conflict w p) →
      (∃ result, f.outcome = .ok result) ∧
        f.target ≤ (w.connection f.node).committed.appliedPosition
  refused : ∀ f ∈ w.replayed, f.faulted = false → w.Committed 𝒮 f.target →
    (∃ p : Nat, (p : Int) ≤ f.target ∧ 𝒮.Conflict w p) →
      ∃ message, f.outcome = .error (.requestConflict message)

/-- What has blocked a replay without faults and gaps through a committed entry. -/
theorem ReplayedInv.conflict {w : World} {f : Replayed} (h : ReplayedInv 𝒮 w f)
    (hgap : f.gap = false) (hfault : f.faulted = false) (hc : w.Committed 𝒮 f.target)
    {e : Error} (he : f.outcome = .error e) :
    (∃ p : Nat, (p : Int) ≤ f.target ∧ 𝒮.Conflict w p) ∧ ∃ message, e = .requestConflict message := by
  rcases (h.raised e he).clean with hf | hg | hb
  · rw [hfault] at hf
    cases hf
  · rw [hgap] at hg
    cases hg
  · cases hb with
    | conflict p hp hconflict hmessage => exact ⟨⟨p, hp, hconflict⟩, hmessage⟩
    | invalid p hp hlog hnone => exact absurd hnone (hc.valid p hp hlog)
    | missing hmissing =>
        obtain ⟨p, hp, hlog⟩ := hc.entry
        exact absurd (hmissing p hp) hlog

/-- **A conflict stops the replicas.** -/
theorem conflicts_stop_replicas {s : SystemState}
    (h : 𝒮.runtime.ReachableUnder (leastReads 𝒮) (· = World.empty) s) :
    s.world.StopsAtConflicts 𝒮 := by
  have hi := inv_of_reachable (faithful_of_leastReads h)
  have hgapless : s.world.Gapless :=
    gapless_keeps.reachable (fun w hw => by rw [hw]; exact ⟨fun _ => rfl, nofun⟩) h
  constructor
  · intro node
    have hstore := (hi.store node).committed
    exact ⟨_, hstore.next_eq, hstore.shape, hstore.agreed⟩
  · intro f hf hfault hc hfree
    have hinv := hi.replayed f hf
    cases houtcome : f.outcome with
    | ok result => exact ⟨⟨result, rfl⟩, (hinv.returned result houtcome).2⟩
    | error e =>
        obtain ⟨⟨p, hp, hconflict⟩, -⟩ :=
          hinv.conflict (hgapless.replayed f hf) hfault hc houtcome
        exact absurd hconflict (hfree p hp)
  · intro f hf hfault hc hconflict
    have hinv := hi.replayed f hf
    cases houtcome : f.outcome with
    | ok result =>
        -- The replica would have applied the conflict.
        obtain ⟨p, hp, hconflict⟩ := hconflict
        have hstore := (hi.store f.node).committed
        have hle := (hinv.returned result houtcome).2
        have hnext := hstore.next_eq
        have hle : f.target ≤ (s.world.replicas f.node).connection.committed.appliedPosition := hle
        exact absurd hconflict (hstore.agreed p (by omega))
    | error e =>
        obtain ⟨-, message, he⟩ := hinv.conflict (hgapless.replayed f hf) hfault hc houtcome
        exact ⟨message, congrArg _ he⟩

/-! ## Two nodes that are asked for different commands -/

/-- `a` and `b` are asked under one identity, and both commands reach the log before any of
them is applied; a third command follows. Then `a` and `b` replay the log. -/
def conflictRun : List (Action TaskId Call Choice Disturbance) :=
  let a : TaskId := ⟨"a", 0⟩
  let b : TaskId := ⟨"b", 0⟩
  let view := viewOf [firstPut, otherPut, secondPut]
  List.flatten
    [[.launch a (.submit firstPut), .launch b (.submit otherPut)], done a 3, done b 3,
     [.disturb (.decide 0 (content firstPut)), .disturb (.decide 1 (content otherPut)),
      .disturb (.decide 2 (content secondPut)), .disturb (.settle 3),
      .resume a (.position 0), .resume b (.position 1)],
     done a 2, [.resume a (.read view)], done a 11,
     done b 2, [.resume b (.read view)], done b 11, [.resume b (.read view)], done b 5,
     [.launch a (.materializeThrough 2)], done a 2, [.resume a (.read view)], done a 5,
     [.launch b (.materializeThrough 2)], done b 2, [.resume b (.read view)], done b 5]

/-- Both replicas have stopped at position 0. -/
theorem conflictRun_runs :
    ((replicas.runtime.runWhile meetsLeast (fresh _ _ _ _ World.empty) conflictRun).map fun s =>
      (s.world.replayed, ["a", "b"].map fun node =>
        (s.world.connection node).committed.appliedPosition,
        [0, 1, 2].map fun p => (s.world.log p, (replicas.commands s.world p).isSome))) =
    some ([⟨"a", 2, false, false, .error (.requestConflict "alice/1")⟩,
        ⟨"b", 2, false, false, .error (.requestConflict "alice/1")⟩], [0, 0],
      [(some (content firstPut), true), (some (content otherPut), true),
        (some (content secondPut), true)]) := by
  decide +kernel

theorem conflicts_stop_replicas_twice :
    ∃ s : SystemState, s.world.replayed.map Replayed.outcome =
        [.error (.requestConflict "alice/1"), .error (.requestConflict "alice/1")] ∧
      s.world.StopsAtConflicts replicas := by
  obtain ⟨s, hs, hpost⟩ := Option.map_eq_some_iff.mp conflictRun_runs
  refine ⟨s, ?_, conflicts_stop_replicas
    (ReachableUnder.runWhile meets_of_meetsServing (.init rfl) hs)⟩
  rw [(Prod.mk.inj hpost).1]
  rfl

theorem replicas_do_not_advance :
    ∃ s : SystemState,
      replicas.runtime.ReachableUnder (leastReads replicas) (· = World.empty) s ∧
        ¬s.world.Advances replicas := by
  obtain ⟨s, hs, hpost⟩ := Option.map_eq_some_iff.mp conflictRun_runs
  refine ⟨s, ReachableUnder.runWhile meets_of_meetsServing (.init rfl) hs, fun h => ?_⟩
  simp only [Prod.mk.injEq, List.map_cons, List.map_nil, List.cons.injEq, and_true] at hpost
  obtain ⟨hreplayed, -, ⟨hlog₀, hc₀⟩, ⟨hlog₁, hc₁⟩, hlog₂, hc₂⟩ := hpost
  have hcommitted : s.world.Committed replicas 2 := by
    refine ⟨⟨2, rfl, ?_⟩, fun p hp _ => ?_⟩
    · rw [hlog₂]
      exact Option.some_ne_none _
    · apply Option.isSome_iff_ne_none.mp
      obtain rfl | rfl | rfl : p = 0 ∨ p = 1 ∨ p = 2 := by omega
      · exact hc₀
      · exact hc₁
      · exact hc₂
  obtain ⟨⟨result, hresult⟩, -⟩ :=
    h ⟨"a", 2, false, false, .error (.requestConflict "alice/1")⟩
      (by rw [hreplayed]; exact List.mem_cons_self) rfl hcommitted
  cases hresult

end DelosLab.Kv
