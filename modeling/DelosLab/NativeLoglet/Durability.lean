import DelosLab.NativeLoglet.Runs

/-!
# Durability and agreement

The entries that LogServers hold were assigned, each position once, and what an
append has returned is covered on a majority with everything below it.
-/

namespace DelosLab.NativeLoglet

open Async Async.Runtime Consensus

namespace World

/-- No LogServer has refused a repair for a conflict, and no call but an append has
ended with one. -/
structure ConflictFree (w : World) : Prop where
  replies : ∀ r ∈ w.replies, ∀ message, r.response = .error (.entryConflict message) →
    ∃ entry knownTail, w.request r.batch r.node = some (.put entry knownTail)
  calls : ∀ c message, (c, Error.entryConflict message) ∈ w.failed →
    ∃ commandId payload turns, c = .append commandId payload turns

/-- What the appends that returned say of the LogServers. -/
structure Durable (𝒮 : Deployment) (w : World) : Prop where
  distinct : ∀ r ∈ w.completed, ∀ r' ∈ w.completed, ∀ id id' result result',
    r.outcome = .appended id result → r'.outcome = .appended id' result' → id ≠ id' →
      result.position ≠ result'.position
  covered : ∀ r ∈ w.completed, ∀ id result, r.outcome = .appended id result →
    ∀ p ≤ result.position, Majority 𝒮.segment.members fun node => w.Covers node p

end World

variable {𝒮 : Deployment} {w : World}

theorem Inv.conflictFree (h : Inv 𝒮 w) : w.ConflictFree where
  replies := by
    intro r hr message he
    obtain ⟨request, hreq, hinv⟩ := h.replies r hr
    rcases hinv.tame _ he with htame | ⟨entry, knownTail, rfl⟩
    · exact absurd rfl (htame.1 message)
    · exact ⟨entry, knownTail, hreq⟩
  calls := h.failed

/-- Two commands with one position would be one entry. -/
theorem Inv.durable (h : Inv 𝒮 w) : w.Durable 𝒮 where
  distinct := by
    intro r hr r' hr' id id' result result' hout hout' hne hsame
    have hret := h.returned r hr
    have hret' := h.returned r' hr'
    rw [hout] at hret
    rw [hout'] at hret'
    obtain ⟨⟨e, he, hid, hp⟩, -, -⟩ := hret
    obtain ⟨⟨e', he', hid', hp'⟩, -, -⟩ := hret'
    have heq := h.eq_of_position he he' (hp.trans (hsame.trans hp'.symm))
    exact hne (hid.symm.trans (heq ▸ hid'))
  covered := by
    intro r hr id result hout p hle
    have hret := h.returned r hr
    rw [hout] at hret
    exact hret.2.1 p (Nat.lt_succ_of_le hle)

theorem sound_trimsReturned : (discipline 𝒮 trimsReturned (Rider.none 𝒮)).Sound :=
  sound (fun _ _ _ h => h) Rider.kept_none

/-- **Durability and agreement.** In every state of every run, and from then on: the
entries that LogServers hold at one position are one entry, now and later; repairs
meet no conflict; appends of different commands returned different positions, and
everything up to them is covered on a majority; and no LogServer loses what it covers. -/
theorem segment_durable {s s' : SystemState}
    (h : 𝒮.runtime.ReachableUnder trimsReturned (· = World.initial 𝒮) s)
    (hl : 𝒮.runtime.Later trimsReturned s s') :
    (∀ a b, ∀ e ∈ (s.world.store a).entries, ∀ e' ∈ (s'.world.store b).entries,
      e.position = e'.position → e = e') ∧
    s.world.ConflictFree ∧ s.world.Durable 𝒮 ∧
    ∀ node p, s.world.Covers node p → s'.world.Covers node p := by
  have hs := sound_trimsReturned.reachable (fun w hw => ⟨hw ▸ inv_initial 𝒮, trivial⟩) h
  obtain ⟨hs', hg⟩ := sound_trimsReturned.grow_later hs hl
  have hi := hs.1.1
  have hi' := hs'.1.1
  refine ⟨fun a b e he e' he' hp => ?_, hi.conflictFree, hi.durable, Grow.covers hg⟩
  have hassigned := (Grow.assigned hg).subset ((hi.store a).entries e he)
  exact hi'.eq_of_position hassigned ((hi'.store b).entries e' he') hp

/-! ## A run of three nodes -/

/-- The sequencer of the segment is in the first incarnation of `a`. -/
def threeNodes : Deployment where
  segment :=
    { segmentId := "segment"
      configuration :=
        { storageMembers := .abc
          sequencerNode := "a"
          sequencerIncarnation := "a1"
          named := a_named
          incarnated := by decide
          member := FixedMembers.a_mem_abc } }
  kind := .sqlite
  incarnation := fun node => node ++ "1"

/-- `nodes` handle their requests of a batch up to the first store operation. -/
def delivered (batch : Nat) (nodes : List String) : List (Action TaskId Call Choice Disturbance) :=
  nodes.map fun node => .disturb (.deliver batch node)

/-- `nodes` handle their requests of a batch and answer. -/
def handled (batch : Nat) (nodes : List String) : List (Action TaskId Call Choice Disturbance) :=
  delivered batch nodes ++ nodes.map fun node => .disturb (.respond batch node)

/-- The state of an untrimmed LogServer. -/
def stateAt (localTail knownTail : Nat) (sealed : Bool) : LogServerState :=
  ⟨threeNodes.segment.segmentId, localTail, 0, knownTail, sealed⟩

/-- The run keeps to the launches that are allowed. -/
def meetsLaunches (s : SystemState) (a : Action TaskId Call Choice Disturbance) : Bool :=
  match a with
  | .launch _ c => decide (s.world.Launchable c)
  | _ => true

theorem meets_of_meetsLaunches (s : SystemState) (a : Action TaskId Call Choice Disturbance)
    (h : meetsLaunches s a = true) : Meets trimsReturned s a := by
  cases a with
  | launch t c => exact of_decide_eq_true (p := s.world.Launchable c) h
  | resume t x => exact fun _ _ _ _ => trivial
  | disturb d => trivial

/-- `a` appends a command with `a` and `b`, `c` checks the tail with `b` and itself and
trims what it has read, and `b` restarts. -/
def trimmedRun : List (Action TaskId Call Choice Disturbance) :=
  let put := some (Response.state (stateAt 1 0 false))
  List.flatten
    [[.launch ⟨"a", 0⟩ (.append "x" [1] 1), .resume ⟨"a", 0⟩ .done], handled 0 ["a", "b"],
     [.resume ⟨"a", 0⟩ (.gathered [put, put, none]), .launch ⟨"c", 0⟩ (.checkTail 1)],
     delivered 1 ["a", "b"],
     [.resume ⟨"c", 0⟩ (.gathered [put, put, none]), .launch ⟨"c", 0⟩ (.prefixTrim 1)],
     handled 2 ["b"], [.disturb (.restart "b" "b2")]]

theorem trimmedRun_runs :
    ((threeNodes.runtime.runWhile meetsLaunches (fresh _ _ _ _ (World.initial threeNodes))
      trimmedRun).map fun s => s.world.completed.map Completion.outcome) =
    some [.appended "x" ⟨0, 1⟩, .tail ⟨1, false⟩] := by
  decide +kernel

theorem segment_durable_trimmed :
    ∃ s : SystemState, (s.world.completed.map Completion.outcome) =
        [.appended "x" ⟨0, 1⟩, .tail ⟨1, false⟩] ∧
      s.world.ConflictFree ∧ s.world.Durable threeNodes := by
  obtain ⟨s, hs, hpost⟩ := Option.map_eq_some_iff.mp trimmedRun_runs
  obtain ⟨-, hfree, hdurable, -⟩ :=
    segment_durable (ReachableUnder.runWhile meets_of_meetsLaunches (.init rfl) hs) .refl
  exact ⟨s, hpost, hfree, hdurable⟩

end DelosLab.NativeLoglet
