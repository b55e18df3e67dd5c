import DelosLab.Async.Shape
import DelosLab.Controller.Operations

/-!
# No stray processes

When no operation is in progress, a process that is alive runs under a node of the manifest, as
long as no launch has ended for a node whose process a kill, or the stop of a reset, had already
taken. `start_node` does not look for such an operation: it checks the manifest, in which the
node still is.
-/

namespace DelosLab.Controller.Supervisor

open Async Async.Runtime

/-- Each process that is alive is the one of its node, which is one of the manifest and has not
been removed; no identity that is retired has one. -/
structure NoStrays (w : World) : Prop where
  tracked : ∀ (process : Nat) (p : Process), w.launched[process]? = some p → p.alive = true →
    w.Tracked process p
  alone : ∀ (i j : Nat) (p q : Process), w.launched[i]? = some p → w.launched[j]? = some q →
    p.alive = true → q.alive = true → p.command.nodeId = q.command.nodeId → i = j
  retired : ∀ (process : Nat) (p : Process) (node : NodeManifest), w.launched[process]? = some p → p.alive = true →
    w.manifest.node? p.command.nodeId = some node → node.retired = false

/-- A supervisor of a valid manifest that has launched nothing yet. -/
def Initial (w : World) : Prop :=
  ∃ manifest : LabManifest, manifest.validated = .ok manifest ∧ w = .initial manifest

theorem inv_initial {w : World} (h : Initial w) : Inv w := by
  obtain ⟨manifest, hvalid, rfl⟩ := h
  exact {
    valid := hvalid
    live := fun _ _ hp => by cases hp
    closed := fun _ _ => rfl
    swept := fun _ _ h => by cases h
    covered := nofun
    listed := nofun
    made := fun _ h => by
      rcases h with h | h
      · cases h
      · exact absurd rfl h
    idle := fun _ _ => rfl }

/-- A live process that nobody has in hand is tracked. -/
theorem noStrays_of_idle {w : World} (hi : Inv w) (hidle : ∀ t, w.calls t = none) :
    NoStrays w := by
  have htracked : ∀ (process : Nat) (p : Process), w.launched[process]? = some p → p.alive = true →
      w.Tracked process p := by
    intro process p hp halive
    refine (hi.live process p hp halive).resolve_right ?_
    rintro ⟨t, ht⟩
    rw [hi.idle t (hidle t)] at ht
    cases ht
  refine ⟨htracked, ?_, ?_⟩
  · intro i j p q hp hq hpalive hqalive hsame
    obtain ⟨-, hi, -⟩ := htracked i p hp hpalive
    obtain ⟨-, hj, -⟩ := htracked j q hq hqalive
    rw [hsame] at hi
    exact Option.some.inj (hi.symm.trans hj)
  · intro process p node hp halive hnode
    obtain ⟨⟨active, hactive, hremoved⟩, -⟩ := htracked process p hp halive
    obtain rfl := Option.some.inj (hactive.symm.trans hnode)
    cases hretired : active.retired with
    | false => rfl
    | true =>
        have h := LabManifest.removed_of_retired hi.valid (LabManifest.mem_of_node? hnode) hretired
        exact absurd (hremoved.symm.trans h) nofun

theorem start_calls {w w' : World} {t : Nat} {c : Call} {p : Co Unit}
    (hs : start w t c = some (w', p)) : w'.calls = Function.update w.calls t (some c) := by
  unfold start at hs
  split at hs
  · cases hs
  · split at hs
    · split at hs
      · cases hs
      · split at hs
        · cases hs
        · cases hs
          rfl
    · cases hs
      rfl

theorem exec_calls (w : World) (t : Nat) (a : Act) : (exec w t a).1.calls = w.calls := by
  cases a with
  | addDatabaseNode nodeId endpoint => exact (edit_frame w _).1
  | markDatabaseNodeJoined nodeId => exact (edit_frame w _).1
  | retireDatabaseNode nodeId => exact (edit_frame w _).1
  | _ => rfl

theorem finish_calls (w : World) (t : Nat) (c : Call) (r : Except Error Unit) :
    (finish w t c r).calls = Function.update w.calls t none := by
  cases c with
  | _ => rfl

theorem disturb_calls {w w' : World} {d : Disturbance} (hs : disturb w d = some w') :
    w'.calls = w.calls := by
  obtain ⟨process⟩ := d
  simp only [disturb] at hs
  split at hs
  · obtain ⟨-, heq⟩ := Option.ite_none_right_eq_some.mp hs
    obtain rfl := Option.some.inj heq
    rfl
  · cases hs

/-- A task that does not run has no call in progress. -/
theorem calls_of_idle {C : Condition signature World Nat Call Choice} {s : SystemState}
    (h : runtime.ReachableUnder C Initial s) {t : Nat} (ht : s.tasks t = none) :
    s.world.calls t = none := by
  refine h.idle (F := fun w t => w.calls t = none) ?_ ?_ ?_ ?_ ?_ ?_ ht
  · rintro w u ⟨manifest, -, rfl⟩
    rfl
  · intro w t c w' p u hs hut hu
    rw [start_calls hs, Function.update_of_ne hut]
    exact hu
  · intro w t a u _ hu
    exact (congrFun (exec_calls w t a) u).trans hu
  · intro w t e x w' r u hs _ hu
    rw [(resume_frame hs).2]
    exact hu
  · intro w t c r u hu
    show (finish w t c r).calls u = none
    rw [finish_calls, Function.update_apply]
    split
    · rfl
    · next hut => exact hu hut
  · intro w d w' u hs hu
    rw [disturb_calls hs]
    exact hu rfl

/-- **No stray processes**, in runs whose launches end in time. -/
theorem no_strays_of_launches_in_time {s : SystemState}
    (h : runtime.ReachableUnder launchesInTime Initial s) (hidle : ∀ t, s.tasks t = none) :
    NoStrays s.world :=
  noStrays_of_idle (sound.reachable (fun _ => inv_initial) h).1 fun t => calls_of_idle h (hidle t)

/-! ## Two runs -/

instance (manifest : LabManifest) (nodeId : String) : Decidable (manifest.Active nodeId) :=
  decidable_of_iff (((manifest.node? nodeId).any fun node => !node.processRemoved) = true) <| by
    rw [Option.any_eq_true, LabManifest.Active]
    simp only [Bool.not_eq_true']

instance (w : World) (command : Command) : Decidable (w.Launchable command) :=
  decidable_of_iff (w.manifest.Active command.nodeId ∧ command.generation = w.generation ∧
      w.closing command.nodeId = false)
    ⟨fun h => ⟨h.1, h.2.1, h.2.2⟩, fun h => ⟨h.active, h.current, h.apart⟩⟩

abbrev Step : Type := Action Nat Call Choice Disturbance

def meetsLaunchesInTime (s : SystemState) : Step → Bool
  | .resume t .done =>
      match s.tasks t with
      | some (_, .wait (.launch command) _) => decide (s.world.Launchable command)
      | _ => true
  | _ => true

theorem meets_of_meetsLaunchesInTime (s : SystemState) (a : Step)
    (h : meetsLaunchesInTime s a = true) : Meets launchesInTime s a := by
  cases a with
  | launch t c => trivial
  | disturb d => trivial
  | resume t x =>
      intro c e k ht
      cases x with
      | failed err =>
          cases e with
          | _ => trivial
      | done =>
          cases e with
          | launch command =>
              simp only [meetsLaunchesInTime, ht, decide_eq_true_eq] at h
              exact h
          | _ => trivial

def testManifest : LabManifest where
  nodes :=
    [⟨"meta-1", .metastore, "m1", false, false, false⟩,
      ⟨"meta-2", .metastore, "m2", false, false, false⟩,
      ⟨"meta-3", .metastore, "m3", false, false, false⟩,
      ⟨"db-a", .database, "a", false, false, false⟩,
      ⟨"db-b", .database, "b", false, false, false⟩,
      ⟨"db-c", .database, "c", false, false, false⟩]

theorem initial_testManifest : Initial (.initial testManifest) := ⟨_, by decide +kernel, rfl⟩

/-- Two nodes are started; one of them is killed, and retired. -/
def orderlyRun : List Step :=
  [.launch 0 (.startNode "db-a"), .resume 0 .done, .resume 0 .done,
    .launch 1 (.startNode "db-b"), .resume 1 .done, .resume 1 .done,
    .launch 2 (.killNode "db-a"), .resume 2 .done, .disturb (.exit 0), .resume 2 .done]

/-- While a kill waits for the process of its node to end, the node is started again. -/
def strayRun : List Step :=
  [.launch 0 (.startNode "db-a"), .resume 0 .done, .resume 0 .done,
    .launch 1 (.killNode "db-a"), .resume 1 .done,
    .launch 2 (.startNode "db-a"), .resume 2 .done, .resume 2 .done,
    .disturb (.exit 0), .resume 1 .done]

/-- The processes of a state, and which of the first three tasks do not run. -/
def seen (s : SystemState) : List (String × Bool) × List Bool :=
  (s.world.launched.map fun p => (p.command.nodeId, p.alive),
    (List.range 3).map fun t => (s.tasks t).isNone)

theorem idle_of_seen {ok : SystemState → Step → Bool} {w : World} {s : SystemState}
    {as : List Step} (hs : runtime.runWhile ok (fresh _ _ _ _ w) as = some s)
    (has : ∀ t ∈ as.filterMap Action.task?, t < 3)
    (hseen : (seen s).2 = [true, true, true]) (t : Nat) : s.tasks t = none := by
  by_cases ht : 3 ≤ t
  · refine tasks_runWhile_none hs (fun a ha htask => ?_) rfl
    have hlt := has t (List.mem_filterMap.mpr ⟨a, ha, htask⟩)
    omega
  · simp only [seen, List.range, List.range.loop, List.map_cons, List.map_nil, List.cons.injEq,
      Option.isNone_iff_eq_none, and_true] at hseen
    obtain ⟨h0, h1, h2⟩ := hseen
    rcases t with _ | _ | _ | t
    · exact h0
    · exact h1
    · exact h2
    · omega

theorem orderlyRun_runs :
    ((runtime.runWhile meetsLaunchesInTime (fresh _ _ _ _ (.initial testManifest))
      orderlyRun).map seen) =
    some ([("db-a", false), ("db-b", true)], [true, true, true]) := by
  decide +kernel

theorem no_strays_orderly :
    ∃ s : SystemState, (seen s).1 = [("db-a", false), ("db-b", true)] ∧ NoStrays s.world := by
  obtain ⟨s, hs, hseen⟩ := Option.map_eq_some_iff.mp orderlyRun_runs
  exact ⟨s, by rw [hseen], no_strays_of_launches_in_time
    (ReachableUnder.runWhile meets_of_meetsLaunchesInTime (.init initial_testManifest) hs)
    (idle_of_seen hs (by decide) (by rw [hseen]))⟩

/-- In general a launch can end too late: the new process of a retired identity goes on. -/
theorem strayRun_runs :
    ((runtime.runWhile (fun _ _ => true) (fresh _ _ _ _ (.initial testManifest)) strayRun).map
      fun s => (seen s, s.world.manifest.node? "db-a")) =
    some (([("db-a", false), ("db-a", true)], [true, true, true]),
      some ⟨"db-a", .database, "a", false, true, true⟩) := by
  decide +kernel

theorem retired_identity_has_stray :
    ¬∀ s : SystemState, runtime.Reachable Initial s → (∀ t, s.tasks t = none) →
      NoStrays s.world := by
  intro h
  obtain ⟨s, hs, hpost⟩ := Option.map_eq_some_iff.mp strayRun_runs
  obtain ⟨hseen, hnode⟩ := Prod.mk.inj hpost
  have hstrays := h s (ReachableUnder.runWhile (fun s a _ => meets_any s a)
    (.init initial_testManifest) hs) (idle_of_seen hs (by decide) (by rw [hseen]))
  have hlaunched : (s.world.launched.map fun p => (p.command.nodeId, p.alive)) =
      [("db-a", false), ("db-a", true)] := congrArg Prod.fst hseen
  obtain ⟨p, hp, hfields⟩ : ∃ p, s.world.launched[1]? = some p ∧
      (p.command.nodeId, p.alive) = ("db-a", true) := by
    rw [← Option.map_eq_some_iff, ← List.getElem?_map, hlaunched]
    rfl
  obtain ⟨hid, halive⟩ := Prod.mk.inj hfields
  have hretired := hstrays.retired 1 p _ hp halive (hid.symm ▸ hnode)
  cases hretired

end DelosLab.Controller.Supervisor
