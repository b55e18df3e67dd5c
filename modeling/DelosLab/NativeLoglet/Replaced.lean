import DelosLab.NativeLoglet.ReplacementSteps

/-!
# What a replacement carries over

A `prepare` that returns has found, among the members that it heard from, the watermark that a
majority of the source had reached; from there on a majority of the target has the entry that
the source has at each position of the segment, and the target is trimmed as far and sealed. A
trim that was confirmed before the call is carried over when a majority of the source tells of
it, and it may be lost when only some of those members answer.
-/

namespace DelosLab.NativeLoglet.Replacement

open Async Async.Coroutine Consensus NativeLogletReplacementPreparer
open VirtualLog (LogletConfiguration LogSegment)

variable {P : Type} {𝒮 : Deployment} {codec : ParametersCodec P} {t : TaskId} {c : Call P}

/-! ## `prepare` -/

theorem prepare_spec (segment : LogSegment P) (replacement : LogletConfiguration P) (turns : Nat)
    (opened : Opened) :
    Ensures 𝒮 codec t c (Since opened.began)
      (NativeLogletReplacementPreparer.prepare codec segment replacement turns) fun w r =>
        Kept codec w.servers ⟨segment, replacement, opened, r.2⟩ := by
  refine .bind (.orRaise (Q := fun w stop => Since opened.began w ∧ segment.virtualStop = some stop)
    (fun _ _ _ h hs => ⟨h, hs⟩) fun _ _ _ _ => trivial) fun stop => .given fun hstop => ?_
  refine .bind (.ofExcept (Q := fun w source => Since opened.began w ∧
    codec.fromGeneric segment.loglet = .ok source) (fun _ _ _ h hs => ⟨h, hs⟩)
      fun _ _ _ _ _ => trivial) fun source => .given fun hsource => ?_
  refine .bind (.ofExcept (Q := fun w target => Since opened.began w ∧
    codec.fromGeneric replacement = .ok target) (fun _ _ _ h hs => ⟨h, hs⟩)
      fun _ _ _ _ _ => trivial) fun target => .given fun htarget => ?_
  have hnothing : (discipline 𝒮 codec).Persistent fun _ => True := Discipline.persistent_const True
  refine .bind ((checkTail_spec hnothing turns .new).pre fun _ _ h => ⟨h, trivial⟩) fun tail => ?_
  refine .bind (.check fun _ _ _ _ => trivial) fun _ => .given fun _ => ?_
  refine .bind (.check fun _ _ _ _ => trivial) fun _ => .given fun _ => ?_
  refine .bind (quorumTrimmedPrefix_spec hnothing segment.segmentId) fun r => ?_
  obtain ⟨v, states⟩ := r
  -- What each part has established survives the next ones.
  have hgathered : (discipline 𝒮 codec).Persistent fun w =>
      v = quorumWatermark source.storageMembers states ∧
        Gathering source.storageMembers opened.began states w.servers :=
    fun _ _ hg h => ⟨h.1, h.2.mono hg.servers⟩
  refine .bind ((copyPositions_spec hgathered segment.segmentId tail.1.tail v _).pre
    fun _ _ h => ⟨h.1.1, h.2⟩) fun _ => ?_
  have hcopied : (discipline 𝒮 codec).Persistent fun w => ∀ p, v ≤ p →
      p < v + (stop - segment.virtualStart - v) →
        Copied source.storageMembers target.storageMembers p w.servers :=
    fun _ _ hg h p hp hlt => (h p hp hlt).mono hg.servers
  refine .bind ((confirmTrim_spec (hgathered.and hcopied) ⟨segment.segmentId, target⟩ v _).pre
    fun _ _ h => ⟨h.1.1, h.1.2, h.2⟩) fun client => ?_
  have htrimmed : (discipline 𝒮 codec).Persistent fun w =>
      Majority target.storageMembers.members fun node =>
        v ≤ (w.servers.store node).trimmedPrefix :=
    fun _ _ hg h => reached_mono h hg.servers
  refine .bind ((seal_spec ((hgathered.and hcopied).and htrimmed) client).pre
    fun _ _ h => ⟨h.1.1, h.1.2, h.2⟩) fun r => ?_
  have hsealed : (discipline 𝒮 codec).Persistent fun w =>
      Majority target.storageMembers.members fun node => (w.servers.store node).sealed = true :=
    fun _ _ hg h => sealed_mono h hg.servers
  refine .bind ((checkTail_spec (((hgathered.and hcopied).and htrimmed).and hsealed) turns _).pre
    fun _ _ h => ⟨h.1.1, h.1.2, h.2⟩) fun targetTail => ?_
  refine .bind (.check fun _ _ _ _ => trivial) fun _ => .ret fun w _ h => ?_
  obtain ⟨⟨-, ⟨⟨⟨rfl, hg⟩, hc⟩, ht⟩, hs⟩, -⟩ := h
  refine ⟨stop, source, target, hstop, hsource, htarget, hg, fun p hp hlt => ?_, ht, hs⟩
  have hlt : p < stop - segment.virtualStart := hlt
  exact hc p hp (by omega)

/-- What the end of a call of `t` leaves behind. -/
def Ended (codec : ParametersCodec P) (opened : Opened) (w : World P) :
    Call P → Outcome P → Prop
  | .prepare segment replacement _, .prepared _ states =>
      Kept codec w.servers ⟨segment, replacement, opened, states⟩
  | _, _ => True

theorem program_spec (c : Call P) (opened : Opened) :
    Ensures 𝒮 codec t c (fun w => Since opened.began w ∧ w.opened t = opened)
      (program 𝒮 codec c) fun w o => Ended codec opened w c o ∧ w.opened t = opened := by
  have hprogram : Ensures 𝒮 codec t c (Since opened.began) (program 𝒮 codec c) fun w o =>
      Ended codec opened w c o := by
    cases c with
    | prefixTrim configuration trimPosition =>
        refine .bind ((prefixTrim_spec (Discipline.persistent_const True) trimPosition .new).pre
          fun _ _ h => ⟨h, trivial⟩) fun r => ?_
        exact .ret fun _ _ _ => trivial
    | prepare segment replacement turns =>
        refine .bind (prepare_spec segment replacement turns opened) fun r => ?_
        exact .ret fun _ _ h => h
  refine (hprogram.frame_own (F := fun w => w.opened t = opened) ?_ ?_ ?_).mono
    (fun _ _ h => h) (fun _ _ _ h => h) fun _ _ _ _ => trivial
  · exact fun _ _ _ hr _ h => hr.trans h
  · exact fun _ _ h => h
  · intro w e x w' r hs h
    obtain ⟨⟨servers, r'⟩, -, heq⟩ := Option.map_eq_some_iff.mp hs
    obtain ⟨rfl, -⟩ := Prod.mk.inj heq
    exact h

/-! ## Soundness -/

theorem Inv.finished {w : World P} (hi : Inv 𝒮 codec w) {o : Outcome P}
    (h : Ended codec (w.opened t) w c o) : Inv 𝒮 codec (finish w t c (.ok o)) := by
  cases c with
  | prefixTrim configuration trimPosition =>
      cases o <;> exact ⟨hi.system, hi.truthful, hi.swept, hi.prepared⟩
  | prepare segment replacement turns =>
      cases o with
      | trimmed watermark => exact hi
      | prepared update states =>
          refine ⟨hi.system, hi.truthful, hi.swept, fun r hr => ?_⟩
          rcases List.mem_append.mp hr with hr | hr
          · exact hi.prepared r hr
          · obtain rfl := List.mem_singleton.mp hr
            exact h

theorem opened_finish (w : World P) (t : TaskId) (c : Call P) (o : Except Error (Outcome P)) :
    (finish w t c o).opened = w.opened := by
  unfold finish
  split <;> rfl

theorem sound : (discipline 𝒮 codec).Sound where
  start := by
    intro w t c w' p hi _ hs
    let opened : Opened := ⟨w.watermark, w.trims⟩
    have hstart : w' = { w with opened := Function.update w.opened t opened } ∧
        p = program 𝒮 codec c := by
      cases c with
      | prefixTrim configuration trimPosition =>
          obtain ⟨rfl, rfl⟩ := Prod.mk.inj (Option.some.inj hs)
          exact ⟨rfl, rfl⟩
      | prepare segment replacement turns =>
          obtain ⟨-, hs⟩ := Option.ite_none_right_eq_some.mp hs
          obtain ⟨rfl, rfl⟩ := Prod.mk.inj (Option.some.inj hs)
          exact ⟨rfl, rfl⟩
    obtain ⟨rfl, rfl⟩ := hstart
    refine ⟨⟨.refl w.servers, List.prefix_refl _⟩, ?_⟩
    have hkept : (discipline 𝒮 codec).Kept t w
        { w with opened := Function.update w.opened t opened } :=
      ⟨⟨hi.system, hi.truthful, hi.swept, hi.prepared⟩, fun u hu => Function.update_of_ne hu _ _⟩
    refine (program_spec c opened).safe_finish hkept ⟨?_, ?_⟩ ?_ ?_
    · exact fun _ => Nat.le_refl _
    · exact Function.update_self _ _ _
    · intro w₁ o hi₁ h
      have hended : Ended codec (w₁.opened t) w₁ c o := h.2 ▸ h.1
      exact ⟨Inv.finished hi₁ hended, fun _ _ => congrFun (opened_finish w₁ t c _) _⟩
    · intro w₁ e hi₁ _
      have hsame : finish w₁ t c (.error e) = w₁ := by cases c <;> rfl
      have hkept₁ : (discipline 𝒮 codec).Kept t w₁ w₁ := .refl hi₁
      show (discipline 𝒮 codec).Kept t w₁ (finish w₁ t c (.error e))
      rwa [hsame]
  disturb := by
    intro w d w' hi hd
    cases d with
    | process a =>
        obtain ⟨hserves, hd⟩ := Option.ite_none_right_eq_some.mp hd
        obtain ⟨system, hstep, rfl⟩ := Option.map_eq_some_iff.mp hd
        obtain ⟨hsystem, hgrow⟩ :=
          (Remote.sound undenied).step hi.system (meets_of_serves hserves) hstep
        obtain ⟨honward, htruthful⟩ := (onward_keeps w.servers).step
          ⟨.refl w.servers, hi.truthful⟩ (Runtime.meets_any w.system a) hstep
        have hinv : Inv 𝒮 codec { w with system := system } :=
          hi.onward hsystem honward htruthful rfl
        exact ⟨hinv, ⟨honward, hgrow.assigned⟩, fun _ _ => rfl⟩
    | post requests =>
        obtain ⟨hassigned, hd⟩ := Option.ite_none_right_eq_some.mp hd
        cases hd
        have hcarries : ∀ item ∈ requests, Remote.Carries w.servers.assigned item.2 := by
          intro item hitem
          have h := List.all_eq_true.mp hassigned item hitem
          obtain ⟨node, request⟩ := item
          cases request with
          | put entry knownTail =>
              show entry ∈ w.servers.assigned
              simpa [assignedOnly] using h
          | repair entry knownTail =>
              show entry ∈ w.servers.assigned
              simpa [assignedOnly] using h
          | _ => trivial
        exact ⟨hi.send hcarries, ⟨onward_send w.servers requests, List.prefix_refl _⟩,
          fun _ _ => rfl⟩

theorem inv_of_reachable {s : SystemState P}
    (h : (runtime 𝒮 codec).Reachable (· = World.initial P 𝒮) s) : Inv 𝒮 codec s.world := by
  refine (sound.reachable ?_ h).1
  rintro w rfl
  refine ⟨Discipline.stateInv_fresh (Remote.inv_initial 𝒮), ⟨?_, ?_, ?_⟩, ?_, ?_⟩
  · exact fun _ _ hb => absurd hb List.not_mem_nil
  · exact fun _ hr => absurd hr List.not_mem_nil
  · exact fun _ _ he => absurd he List.not_mem_nil
  · exact fun _ _ he => absurd he List.not_mem_nil
  · exact fun _ hr => absurd hr List.not_mem_nil

/-! ## What has been carried over -/

/-- `e` is what the source has at its position. -/
structure SourceEntry (source : FixedMembers) (w : NativeLoglet.World) (e : LogEntry) : Prop where
  shown : ∃ node ∈ source.members, w.Shows node e
  only : ∀ node ∈ source.members, ∀ e' ∈ (w.store node).entries, e'.position = e.position → e' = e

/-- What a replacement of a segment of `length` positions has left behind: `v` is the watermark
that it took from `states`, `began` are the watermarks when it was called. -/
structure Carried (source target : FixedMembers) (length v : Nat) (began : String → Nat)
    (states : List (String × LogServerState)) (w : NativeLoglet.World) : Prop where
  senders : (states.map Prod.fst).Sublist source.members
  vouched : ∀ m, source.quorum ≤ states.countP (fun item => decide (m ≤ began item.1)) → m ≤ v
  certified : Majority source.members fun node => v ≤ (w.store node).trimmedPrefix
  copied : ∀ p, v ≤ p → p < length → ∃ e, e.position = p ∧ SourceEntry source w e ∧
    Majority target.members fun node => (w.store node).Keeps e
  trimmed : Majority target.members fun node => v ≤ (w.store node).trimmedPrefix
  sealed : Majority target.members fun node => (w.store node).sealed = true

/-- A quorum of the members has told of `confirmed`. -/
def Certified (members : FixedMembers) (confirmed : Nat) (states : List (String × LogServerState)) :
    Prop :=
  members.quorum ≤ states.countP fun item => decide (confirmed ≤ item.2.trimmedPrefix)

instance (members : FixedMembers) (confirmed : Nat) (states : List (String × LogServerState)) :
    Decidable (Certified members confirmed states) :=
  inferInstanceAs (Decidable (_ ≤ _))

/-- A member has something to answer a `get` of the position with. -/
def Readable (members : FixedMembers) (w : NativeLoglet.World) (p : Nat) : Prop :=
  ∃ node ∈ members.members, ∃ e, (w.store node).entryAt p = some e

theorem c_mem : "c" ∈ ["c", "d", "e"] := by decide

theorem cde_size : 3 ≤ ["c", "d", "e"].length := by decide

theorem cde_nodup : ["c", "d", "e"].Nodup := by decide

theorem cde_named : ∀ m ∈ ["c", "d", "e"], m ≠ "" := by decide

def successor : NativeLogletConfiguration where
  storageMembers := ⟨["c", "d", "e"], cde_size, cde_nodup, cde_named⟩
  sequencerNode := "c"
  sequencerIncarnation := "c"
  named := c_named
  incarnated := c_named
  member := c_mem

abbrev Step : Type := Action TaskId (Call NativeLogletConfiguration) Choice Disturbance

def served (batch : Nat) (nodes : List String) : List Step :=
  nodes.map fun node => .disturb (.process (.disturb (.deliver batch node)))

def responded (batch : Nat) (nodes : List String) : List Step :=
  nodes.map fun node => .disturb (.process (.disturb (.respond batch node)))

def state (localTail trimmedPrefix knownTail : Nat) (isSealed : Bool) : Option Response :=
  some (.state ⟨"segment", localTail, trimmedPrefix, knownTail, isSealed⟩)

/-- `a` appends a command with all three nodes. -/
def appended (batch : Nat) (commandId : String) : List Step :=
  let t : TaskId := ⟨"a", 0⟩
  let stored := state (batch + 1) 0 batch false
  [.disturb (.process (.launch t (.registryAppend commandId [] 1))),
    .disturb (.process (.resume t (.native .done)))] ++
    served batch ["a", "b", "c"] ++ responded batch ["a", "b", "c"] ++
    [.disturb (.process (.resume t (.native (.gathered [stored, stored, stored]))))]

/-- Two entries are sealed, and `a` and `b` confirm that the first one is trimmed. -/
def trimmedRun : List Step :=
  appended 0 "first" ++ appended 1 "second" ++
    [.disturb (.post (["a", "b", "c"].map fun node => (node, .seal 2)))] ++
    served 2 ["a", "b", "c"] ++
    [.launch ⟨"y", 0⟩ (.prefixTrim threeNodes.segment.configuration 1)] ++
    served 3 ["a", "b"] ++ responded 3 ["a", "b"] ++
    [.resume ⟨"y", 0⟩ (.gathered [state 2 1 2 true, state 2 1 2 true, none])]

def z : TaskId := ⟨"z", 0⟩

def gathered (replies : List (Option Response)) : List Step := [.resume z (.gathered replies)]

def first : LogEntry := ⟨"segment", 0, "first", []⟩

/-- Parameters that are configurations need no validation. -/
abbrev plain : ParametersCodec NativeLogletConfiguration := ⟨.ok⟩

end DelosLab.NativeLoglet.Replacement
