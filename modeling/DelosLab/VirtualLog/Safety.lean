import DelosLab.VirtualLog.Tasks

/-!
# Safety of the virtual address space

What every run of any number of VirtualLog instances on one register keeps: the
shape of the installed history, and the address of every acknowledged append.
-/

namespace DelosLab.VirtualLog

open Async

variable {P : Type}

/-! ## A run with a reconfiguration -/

/-- A Loglet's sealed tail bounds every position that its appends return, whichever of
the two was returned first. -/
structure LogletContract.Bounding (contract : LogletContract) : Prop where
  below : ∀ {events segmentId c p t}, contract.admits events (.appended segmentId c p) = true →
    LogletEvent.tail segmentId t true ∈ events → p < t
  above : ∀ {events segmentId c p t}, contract.admits events (.tail segmentId t true) = true →
    LogletEvent.appended segmentId c p ∈ events → p < t

/-- What an append relies on its Loglets for: they give different commands
different positions, and a sealed tail bounds every position, whichever of the
two they returned first. -/
structure LogletContract.Sealing (contract : LogletContract) : Prop where
  apart : ∀ {events segmentId c c' p}, contract.admits events (.appended segmentId c p) = true →
    LogletEvent.appended segmentId c' p ∈ events → c = c'
  below : ∀ {events segmentId c p t}, contract.admits events (.appended segmentId c p) = true →
    LogletEvent.tail segmentId t true ∈ events → p < t
  above : ∀ {events segmentId c p t}, contract.admits events (.tail segmentId t true) = true →
    LogletEvent.appended segmentId c p ∈ events → p < t

theorem LogletContract.Sealing.bounding {contract : LogletContract} (h : contract.Sealing) :
    contract.Bounding :=
  ⟨h.below, h.above⟩

/-- The contract that admits all that a sealing Loglet may answer. -/
def LogletContract.sealing : LogletContract where
  admits := fun events e =>
    match e with
    | .appended segmentId commandId position => events.all fun
        | .appended segmentId' commandId' position' =>
            segmentId' ≠ segmentId || position' ≠ position || commandId = commandId'
        | .tail segmentId' t true => segmentId' ≠ segmentId || position < t
        | _ => true
    | .tail segmentId t true => events.all fun
        | .appended segmentId' _ position => segmentId' ≠ segmentId || position < t
        | _ => true
    | _ => true

theorem LogletContract.sealing_sealing : LogletContract.sealing.Sealing where
  apart := by
    intro events segmentId c c' p h hmem
    have := List.all_eq_true.mp h _ hmem
    simpa using this
  below := by
    intro events segmentId c p t h hmem
    have := List.all_eq_true.mp h _ hmem
    simpa using this
  above := by
    intro events segmentId c p t h hmem
    have := List.all_eq_true.mp h _ hmem
    simpa using this

theorem replicate_append_cons_inj {α : Type} {x y : α} (h : x ≠ y) :
    ∀ {n m : Nat} {r r' : List α},
      List.replicate n x ++ y :: r = List.replicate m x ++ y :: r' → n = m ∧ r = r'
  | 0, 0, _, _, heq => ⟨rfl, (List.cons.inj heq).2⟩
  | 0, _ + 1, _, _, heq => absurd (List.cons.inj heq).1.symm h
  | _ + 1, 0, _, _, heq => absurd (List.cons.inj heq).1 h
  | n + 1, m + 1, _, _, heq => by
      obtain ⟨hn, hr⟩ := replicate_append_cons_inj h (List.cons.inj heq).2
      exact ⟨congrArg (· + 1) hn, hr⟩

/-- Identifiers that spell out who drew them, and which of its draws it was. -/
def UuidSource.spelled : UuidSource where
  id := fun t n => String.ofList
    (List.replicate n 'x' ++ '-' :: (List.replicate t.number 'x' ++ '-' :: t.node.toList))
  named := by
    intro t n h
    have := congrArg String.toList h
    simp at this
  injective := by
    intro t n t' n' h
    obtain ⟨hn, hrest⟩ := replicate_append_cons_inj (by decide) (String.ofList_injective h)
    obtain ⟨hnumber, hnode⟩ := replicate_append_cons_inj (by decide) hrest
    exact ⟨TaskId.ext (String.toList_injective hnode) hnumber, hn⟩

/-- Instances on sealing Loglets. -/
def sealingDeployment : Deployment where
  instances := fun _ => ⟨true, true, 3, three_positive⟩
  uuids := UuidSource.spelled
  contract := LogletContract.sealing

/-- Instance `a` bootstraps and appends; `b` refreshes, seals the segment and
installs a successor; `a` appends with its stale chain, rolls forward to the new
one, and its append lands there. -/
def reconfiguredRun : List (Action TaskId (Call Unit) (Choice Unit) Disturbance) :=
  let a : TaskId := ⟨"a", 0⟩
  let b : TaskId := ⟨"b", 0⟩
  let loglet : LogletConfiguration Unit := ⟨"memory", 1, ()⟩
  [.launch a (.bootstrap (.first "initial" loglet initial_named)),
    .disturb (.linearize 0), .resume a .done,
    .launch a (.append "first" []), .resume a (.position 0),
    .launch b .refresh, .disturb (.linearize 1), .resume b .done,
    .launch b (.reconfigExtend loglet), .resume b .done, .resume b (.tail ⟨1, true⟩),
    .disturb (.linearize 2), .resume b .done,
    .launch a (.append "second" []), .resume a (.fail (.logletSealed "sealed")),
    .resume a .done, .disturb (.linearize 3), .resume a .done, .resume a (.position 0)]

/-- The run installs two chains and acknowledges two appends. -/
theorem reconfiguredRun_runs :
    ((sealingDeployment.runtime.run (Runtime.fresh _ _ _ _ (World.initial Unit))
      reconfiguredRun).map fun s => (s.world.history.length, s.world.acks.map Ack.position)) =
    some (2, [1, 0]) := by
  decide +kernel

theorem reconfiguredRun_reachable :
    ∃ s : SystemState Unit, sealingDeployment.runtime.Reachable (· = World.initial Unit) s ∧
      s.world.history.length = 2 ∧ s.world.acks.map Ack.position = [1, 0] := by
  obtain ⟨s, hs, hpost⟩ := Option.map_eq_some_iff.mp reconfiguredRun_runs
  obtain ⟨hlen, hacks⟩ := Prod.mk.inj hpost
  exact ⟨s, Runtime.Reachable.run (.init rfl) hs, hlen, hacks⟩

/-! ## The history of installed chains -/

def ExactlyOne (a b c : Prop) : Prop :=
  (a ∨ b ∨ c) ∧ ¬(a ∧ b) ∧ ¬(a ∧ c) ∧ ¬(b ∧ c)

/-- A step has one shape only: the three shapes change the number of segments
in three ways. -/
theorem Succeeds.exactlyOne {events : List LogletEvent} {earlier : List (LogChain P)}
    {old new : LogChain P} (h : Succeeds events earlier old new) :
    ExactlyOne (Extends events old new) (Truncates events old new) (Modifies old new) := by
  refine ⟨?_, ?_, ?_, ?_⟩
  · cases h with
    | «extends» h _ => exact .inl h
    | truncates h => exact .inr (.inl h)
    | modifies h => exact .inr (.inr h)
  · rintro ⟨he, ht⟩
    have := he.length
    have := ht.length
    omega
  · rintro ⟨he, hm⟩
    have := he.length
    have := hm.length
    omega
  · rintro ⟨ht, hm⟩
    have := ht.length
    have := hm.length
    omega

/-- One segment at two times: its Loglet may have changed, its range has not. -/
def SameRange (s s' : LogSegment P) : Prop :=
  s'.segmentId = s.segmentId ∧ s'.virtualStart = s.virtualStart ∧ s'.virtualStop = s.virtualStop

/-- What the installed chains of a world satisfy; `history[n]` is version `n + 1`. -/
structure LogChainHistory (w : World P) : Prop where
  newest : w.register.version = w.history.length ∧ w.register.chain = w.history.getLast?
  first : ∀ chain, w.history[0]? = some chain →
    ∃ s, chain.segments = [s] ∧ s.virtualStart = 0 ∧ s.virtualStop = none
  step : ∀ n old new, w.history[n]? = some old → w.history[n + 1]? = some new →
    ExactlyOne (Extends w.events old new) (Truncates w.events old new) (Modifies old new)
  valid : ∀ chain ∈ w.history, ValidChain chain.segments
  closed : ∀ (n m : Nat) (old new : LogChain P), n ≤ m → w.history[n]? = some old →
    w.history[m]? = some new → ∀ s ∈ old.segments, s.virtualStop ≠ none →
      (∃ s' ∈ new.segments, SameRange s s') ∨
        ∃ stop, s.virtualStop = some stop ∧ stop ≤ new.first.virtualStart
  frozen : ∀ (n m : Nat) (old new : LogChain P), n ≤ m → w.history[n]? = some old →
    w.history[m]? = some new → ∀ s ∈ old.segments, s.virtualStop ≠ none →
      ∀ s' ∈ new.segments, s'.segmentId = s.segmentId → SameRange s s'
  starts : ∀ (n m : Nat) (old new : LogChain P), n ≤ m → w.history[n]? = some old →
    w.history[m]? = some new →
      old.first.virtualStart ≤ new.first.virtualStart ∧
      old.active.virtualStart ≤ new.active.virtualStart

theorem Inv.logChainHistory {𝒮 : Deployment} {w : World P} (h : Inv 𝒮 w) :
    LogChainHistory w where
  newest := h.register
  first := h.history.first
  step := fun n old new hold hnew => (h.history.step n old new hold hnew).exactlyOne
  valid := fun chain _ => chain.valid
  closed := by
    intro n m old new hnm hold hnew s hs hclosed
    rcases h.history.fate hnm hold hnew hs with ⟨s', hs', hev⟩ | ⟨s', stop, hev, hstop, hle⟩
    · exact .inl ⟨s', hs', hev.1, hev.2.1, hev.closed hclosed⟩
    · exact .inr ⟨stop, (hev.closed hclosed).symm.trans hstop, hle⟩
  frozen := fun n m old new hnm hold hnew s hs hclosed s' hs' hid =>
    ⟨hid, h.history.range_frozen hnm hold hnew hs hs' hid hclosed⟩
  starts := fun n m old new hnm hold hnew =>
    ⟨h.history.first_le hnm hold hnew, h.history.active_le hnm hold hnew⟩

theorem inv_of_reachable [DecidableEq P] {𝒮 : Deployment}
    {s : SystemState P}
    (h : (𝒮.runtime (P := P)).Reachable (· = World.initial P) s) : Inv 𝒮 s.world :=
  ((sound 𝒮).reachable (fun _ hw => hw ▸ inv_initial 𝒮) h).1

/-- **LogChain history.** In every run of any number of instances and tasks,
whatever they have cached, the installed chains form a history of extensions,
truncations and modifications, each of the version right before it. -/
theorem logChain_history [DecidableEq P] (𝒮 : Deployment)
    (s : SystemState P)
    (h : (𝒮.runtime (P := P)).Reachable (· = World.initial P) s) : LogChainHistory s.world :=
  (inv_of_reachable h).logChainHistory

theorem logChain_history_reconfigured :
    ∃ s : SystemState Unit, s.world.history.length = 2 ∧ LogChainHistory s.world := by
  obtain ⟨s, h, hlen, -⟩ := reconfiguredRun_reachable
  exact ⟨s, hlen, logChain_history sealingDeployment s h⟩

/-! ## Acknowledged appends -/

theorem Admitted.apart {contract : LogletContract} (hC : contract.Sealing)
    {events : List LogletEvent} (h : Admitted contract events) {segmentId c c' : String} {p : Nat}
    (hc : LogletEvent.appended segmentId c p ∈ events)
    (hc' : LogletEvent.appended segmentId c' p ∈ events) : c = c' := by
  induction events with
  | nil => cases hc
  | cons e events ih =>
      rcases List.mem_cons.mp hc with heq | hold <;> rcases List.mem_cons.mp hc' with heq' | hold'
      · rw [← heq] at heq'
        cases heq'
        rfl
      · exact hC.apart (heq ▸ h.1) hold'
      · exact (hC.apart (heq' ▸ h.1) hold).symm
      · exact ih h.2 hold hold'

theorem Admitted.lt_tail {contract : LogletContract} (hC : contract.Bounding)
    {events : List LogletEvent} (h : Admitted contract events) {segmentId c : String} {p t : Nat}
    (hc : LogletEvent.appended segmentId c p ∈ events)
    (ht : LogletEvent.tail segmentId t true ∈ events) : p < t := by
  induction events with
  | nil => cases hc
  | cons e events ih =>
      rcases List.mem_cons.mp hc with heq | hold <;> rcases List.mem_cons.mp ht with heq' | hold'
      · rw [← heq] at heq'
        cases heq'
      · exact hC.below (heq ▸ h.1) hold'
      · exact hC.above (heq' ▸ h.1) hold
      · exact ih h.2 hold hold'

/-- `chain` maps the acknowledged position to the Loglet position behind it. -/
def LogChain.Maps (chain : LogChain P) (ack : Ack) : Prop :=
  ∃ s, chain.segmentAt ack.position = some s ∧ s.segmentId = ack.segmentId ∧
    ack.position = s.virtualStart + ack.localPosition

/-- A segment that has evolved from the one an append used still covers the
position: if it was closed, then at a sealed tail. -/
theorem Evolves.lt_stop {𝒮 : Deployment} {w : World P} (hC : 𝒮.contract.Bounding)
    (hi : Inv 𝒮 w) {s s' : LogSegment P} (h : Evolves w.events s s')
    (hopen : s.virtualStop = none) {c : String} {l stop : Nat}
    (ha : LogletEvent.appended s.segmentId c l ∈ w.events) (hstop : s'.virtualStop = some stop) :
    s.virtualStart + l < stop := by
  rcases h.2.2 with heq | ⟨-, length, hlen, htail⟩
  · rw [heq, hopen] at hstop
    cases hstop
  · rw [hlen] at hstop
    obtain rfl := Option.some.inj hstop
    exact Nat.add_lt_add_left (hi.admitted.lt_tail hC ha htail) _

/-- From the chain an append used on, every chain maps its position to it or
starts above it. -/
theorem Inv.maps_or_above {𝒮 : Deployment} {w : World P} (hC : 𝒮.contract.Bounding)
    (hi : Inv 𝒮 w) {n m : Nat} (hnm : n ≤ m) {old new : LogChain P} {ack : Ack}
    (hold : w.history[n]? = some old) (hnew : w.history[m]? = some new)
    (hid : ack.segmentId = old.active.segmentId)
    (hpos : ack.position = old.active.virtualStart + ack.localPosition)
    (ha : LogletEvent.appended ack.segmentId ack.commandId ack.localPosition ∈ w.events) :
    new.Maps ack ∨ ack.position < new.first.virtualStart := by
  rw [hid] at ha
  rcases hi.history.fate hnm hold hnew old.active_mem with
    ⟨s', hs', hev⟩ | ⟨s', stop, hev, hstop, hle⟩
  · refine .inl ⟨s', LogChain.segmentAt_eq_some hs' ⟨?_, fun stop hstop => ?_⟩, ?_, ?_⟩
    · rw [hev.2.1, hpos]
      exact Nat.le_add_right _ _
    · rw [hpos]
      exact hev.lt_stop hC hi old.active_open ha hstop
    · rw [hev.1, hid]
    · rw [hev.2.1, hpos]
  · right
    rw [hpos]
    exact Nat.lt_of_lt_of_le (hev.lt_stop hC hi old.active_open ha hstop) hle

/-- Two acknowledgements of one position, ordered by the chains they used, name
one command. -/
theorem Inv.acks_agree {𝒮 : Deployment} {w : World P} (hC : 𝒮.contract.Sealing)
    (hi : Inv 𝒮 w) {n m : Nat} (hnm : n ≤ m) {old new : LogChain P} {a b : Ack}
    (hold : w.history[n]? = some old) (hnew : w.history[m]? = some new)
    (hida : a.segmentId = old.active.segmentId)
    (hposa : a.position = old.active.virtualStart + a.localPosition)
    (hea : LogletEvent.appended a.segmentId a.commandId a.localPosition ∈ w.events)
    (hidb : b.segmentId = new.active.segmentId)
    (hposb : b.position = new.active.virtualStart + b.localPosition)
    (heb : LogletEvent.appended b.segmentId b.commandId b.localPosition ∈ w.events)
    (hab : a.position = b.position) : a.commandId = b.commandId := by
  have hb : new.active.virtualStart ≤ b.position := hposb ▸ Nat.le_add_right _ _
  rcases hi.maps_or_above hC.bounding hnm hold hnew hida hposa hea with ⟨s, hs, hsid, hspos⟩ | hlt
  · -- The active segment covers the position too, so it is the one that `a` used.
    have hcovers : new.active.Covers a.position := by
      refine ⟨hab ▸ hb, fun stop hstop => ?_⟩
      rw [new.active_open] at hstop
      cases hstop
    rw [LogChain.segmentAt_eq_some new.active_mem hcovers] at hs
    obtain rfl := Option.some.inj hs
    have hl : a.localPosition = b.localPosition := by omega
    rw [← hsid, ← hidb, hl] at hea
    exact hi.admitted.apart hC hea heb
  · have := new.first_le new.active_mem
    omega

/-- **Acknowledged appends keep their virtual address.** Every chain installed
when an append returned or later maps its position to the same Loglet position
of the same segment or starts above it, and one position was acknowledged for
one command. -/
theorem append_keeps_address [DecidableEq P] (𝒮 : Deployment) (hC : 𝒮.contract.Sealing)
    (s : SystemState P)
    (h : (𝒮.runtime (P := P)).Reachable (· = World.initial P) s) :
    (∀ ack ∈ s.world.acks, ∀ n chain, ack.version ≤ n + 1 → s.world.history[n]? = some chain →
      chain.Maps ack ∨ ack.position < chain.first.virtualStart) ∧
    ∀ a ∈ s.world.acks, ∀ b ∈ s.world.acks, a.commandId ≠ b.commandId → a.position ≠ b.position := by
  have hi := inv_of_reachable h
  refine ⟨fun ack hack n chain hv hn => ?_, fun a ha b hb hne hpos => hne ?_⟩
  · obtain ⟨k, old, hk, -, hold, hid, hp, he⟩ := hi.acks ack hack
    exact hi.maps_or_above hC.bounding (by omega) hold hn hid hp he
  · obtain ⟨n, old, -, -, hold, hida, hpa, hea⟩ := hi.acks a ha
    obtain ⟨m, new, -, -, hnew, hidb, hpb, heb⟩ := hi.acks b hb
    rcases Nat.le_total n m with hnm | hmn
    · exact hi.acks_agree hC hnm hold hnew hida hpa hea hidb hpb heb hpos
    · exact (hi.acks_agree hC hmn hnew hold hidb hpb heb hida hpa hea hpos.symm).symm

theorem append_keeps_address_reconfigured :
    ∃ s : SystemState Unit, sealingDeployment.runtime.Reachable (· = World.initial Unit) s ∧
      s.world.acks.map Ack.position = [1, 0] ∧
      ∀ ack ∈ s.world.acks, ∀ n chain, ack.version ≤ n + 1 →
        s.world.history[n]? = some chain →
        chain.Maps ack ∨ ack.position < chain.first.virtualStart := by
  obtain ⟨s, h, -, hacks⟩ := reconfiguredRun_reachable
  exact ⟨s, h, hacks,
    (append_keeps_address sealingDeployment LogletContract.sealing_sealing s h).1⟩

end DelosLab.VirtualLog
