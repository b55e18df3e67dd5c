import DelosLab.Common.Behaviour
import DelosLab.NativeLoglet.SealedTail
import DelosLab.VirtualLog.Safety

/-!
# VirtualLog on NativeLoglets

The instances of a virtual log run on one NativeLoglet for each segment, and nothing is
assumed of what a Loglet answers: every answer is the outcome of a call that returned in
the run of the segment's own processes. What `LogletContract.Sealing` asks for then
follows from the NativeLoglet protocol. The store operations of the LogServers are atomic
here: a `SQLiteLogletStore.state` whose two queries a `prefix_trim` comes between can tell
a tail below an acknowledged append.
-/

namespace DelosLab.Stack

open Async Async.Runtime Consensus
open VirtualLog (LogletEvent LogletContract)

/-- How the instances are built, and where the segment of each identifier is stored. -/
structure Deployment where
  instances : String → VirtualLog
  uuids : VirtualLog.UuidSource
  segment : String → NativeLoglet.Deployment
  named : ∀ id, (segment id).segment.segmentId = id

/-- The instances on Loglets that may answer anything. -/
def Deployment.log (𝒮 : Deployment) : VirtualLog.Deployment where
  instances := 𝒮.instances
  uuids := 𝒮.uuids
  contract := ⟨fun _ _ => true⟩

structure State (P : Type) where
  log : VirtualLog.SystemState P
  segments : String → NativeLoglet.SystemState

variable {P : Type}

/-- What `RemoteNativeLogletRuntime` makes of the outcome of a call on a segment. -/
def answer (segmentId : String) : NativeLoglet.Outcome → Option LogletEvent
  | .appended commandId result => some (.appended segmentId commandId result.position)
  | .done => some (.sealed segmentId)
  | .trimmed watermark => some (.trimmed segmentId watermark)
  | .tail result => some (.tail segmentId result.tail result.sealed)
  | .entry _ => none

/-- Calls that returned in the segments' own processes. -/
def Returned (segments : String → NativeLoglet.SystemState) (e : LogletEvent) : Prop :=
  ∃ id, ∃ r ∈ (segments id).world.completed, answer id r.outcome = some e

section Runs

variable [DecidableEq P]

/-- The instances take a step, or the processes of one segment do, those in runs where
a retried append is answered early only when a majority has stored it. -/
inductive Next (𝒮 : Deployment) (s : State P) : State P → Prop
  | segment (id : String)
      {a : Action TaskId NativeLoglet.Call NativeLoglet.Choice
        NativeLoglet.Disturbance} {s' : NativeLoglet.SystemState}
      (hC : Meets (NativeLoglet.earlyStored (𝒮.segment id)) (s.segments id) a)
      (hs : (𝒮.segment id).runtime.step (s.segments id) a = some s') :
      Next 𝒮 s { s with segments := Function.update s.segments id s' }
  | log {a : Action TaskId (VirtualLog.Call P) (VirtualLog.Choice P)
        VirtualLog.Disturbance} {s' : VirtualLog.SystemState P}
      (hs : 𝒮.log.runtime.step s.log a = some s')
      (hreturned : ∀ e ∈ s'.world.events, e ∈ s.log.world.events ∨ Returned s.segments e) :
      Next 𝒮 s { s with log := s' }

def initial (𝒮 : Deployment) : State P where
  log := fresh _ _ _ _ (VirtualLog.World.initial P)
  segments := fun id => fresh _ _ _ _ (NativeLoglet.World.initial (𝒮.segment id))

def spec (𝒮 : Deployment) : Behaviour.Spec (State P) where
  Init := (· = initial 𝒮)
  Next := Next 𝒮

/-! ## What every run keeps -/

structure Inv (𝒮 : Deployment) (s : State P) : Prop where
  log : (VirtualLog.discipline 𝒮.log).StateInv s.log
  segments : ∀ id, (NativeLoglet.discipline (𝒮.segment id) (NativeLoglet.earlyStored (𝒮.segment id))
    (NativeLoglet.storedRider (𝒮.segment id))).StateInv (s.segments id)
  returned : ∀ e ∈ s.log.world.events, Returned s.segments e

theorem segment_sound (𝒮 : NativeLoglet.Deployment) :
    (NativeLoglet.discipline 𝒮 (NativeLoglet.earlyStored 𝒮) (NativeLoglet.storedRider 𝒮)).Sound :=
  NativeLoglet.sound (fun _ _ _ hc => hc) NativeLoglet.storedRider_kept

/-- Calls that have returned stay so. -/
theorem Returned.mono {segments : String → NativeLoglet.SystemState} {e : LogletEvent}
    (h : Returned segments e) {id : String} {s' : NativeLoglet.SystemState}
    (hc : (segments id).world.completed <+: s'.world.completed) :
    Returned (Function.update segments id s') e := by
  obtain ⟨id', r, hr, ht⟩ := h
  refine ⟨id', r, ?_, ht⟩
  by_cases hid : id' = id
  · subst hid
    rw [Function.update_self]
    exact hc.subset hr
  · rwa [Function.update_of_ne hid]

theorem inv_inductive (𝒮 : Deployment) : (spec (P := P) 𝒮).Inductive (Inv 𝒮) where
  init := by
    rintro s rfl
    refine ⟨Discipline.stateInv_fresh (VirtualLog.inv_initial 𝒮.log), fun id => ?_,
      fun e he => absurd he List.not_mem_nil⟩
    refine Discipline.stateInv_fresh ⟨NativeLoglet.inv_initial (𝒮.segment id), ?_⟩
    exact fun r hr => absurd hr List.not_mem_nil
  next := by
    intro s s' hi hn
    cases hn with
    | segment id hC hs =>
        obtain ⟨hinv, hg⟩ := (segment_sound (𝒮.segment id)).step (hi.segments id) hC hs
        refine ⟨hi.log, fun id' => ?_, fun e he => (hi.returned e he).mono hg.completed⟩
        by_cases hid : id' = id
        · subst hid
          simp only [Function.update_self]
          exact hinv
        · simp only [Function.update_of_ne hid]
          exact hi.segments id'
    | log hs hreturned =>
        obtain ⟨hinv, -⟩ := (VirtualLog.sound 𝒮.log).step hi.log (meets_any s.log _) hs
        refine ⟨hinv, hi.segments, fun e he => ?_⟩
        rcases hreturned e he with hold | hnew
        · exact hi.returned e hold
        · exact hnew

end Runs

/-! ## The contract that NativeLoglets keep -/

theorem tailsBound_of_stored {𝒮 : NativeLoglet.Deployment} {w : NativeLoglet.World}
    (hi : NativeLoglet.Inv 𝒮 w) (hstored : (NativeLoglet.storedRider 𝒮).holds w) :
    w.TailsBound := by
  intro r hr tail hout hsealed e he id result hout'
  have hret := hi.returned r hr
  rw [hout] at hret
  obtain ⟨node, -, hmem, -, hbound⟩ :=
    Majority.inter (hstored e he id result hout') (hret.2 hsealed)
  exact hbound _ hmem

theorem answer_appended {id segmentId commandId : String} {p : Nat} {o : NativeLoglet.Outcome}
    (h : answer id o = some (.appended segmentId commandId p)) :
    id = segmentId ∧ ∃ result, o = .appended commandId result ∧ result.position = p := by
  cases o <;> simp [answer] at h
  obtain ⟨rfl, rfl, rfl⟩ := h
  exact ⟨rfl, _, rfl, rfl⟩

theorem answer_tail {id segmentId : String} {t : Nat} {isSealed : Bool} {o : NativeLoglet.Outcome}
    (h : answer id o = some (.tail segmentId t isSealed)) :
    id = segmentId ∧ ∃ result, o = .tail result ∧ result.tail = t ∧ result.sealed = isSealed := by
  cases o <;> simp [answer] at h
  obtain ⟨rfl, rfl, rfl⟩ := h
  exact ⟨rfl, _, rfl, rfl, rfl⟩

section Contract

variable [DecidableEq P] {𝒮 : Deployment} {s : State P}

/-- Different commands got different positions of a segment. -/
theorem Inv.apart (h : Inv 𝒮 s) {id c c' : String} {p : Nat}
    (hc : Returned s.segments (.appended id c p)) (hc' : Returned s.segments (.appended id c' p)) :
    c = c' := by
  obtain ⟨id, r, hr, ha⟩ := hc
  obtain ⟨rfl, result, ho, rfl⟩ := answer_appended ha
  obtain ⟨id', r', hr', ha'⟩ := hc'
  obtain ⟨rfl, result', ho', hp⟩ := answer_appended ha'
  by_contra hne
  exact (h.segments id').1.1.durable.distinct r hr r' hr' c c' result result' ho ho' hne hp.symm

/-- A sealed tail of a segment is above its appends. -/
theorem Inv.bounded (h : Inv 𝒮 s) {id c : String} {p t : Nat}
    (hc : Returned s.segments (.appended id c p)) (ht : Returned s.segments (.tail id t true)) :
    p < t := by
  obtain ⟨id, r, hr, ha⟩ := hc
  obtain ⟨rfl, result, ho, rfl⟩ := answer_appended ha
  obtain ⟨id', r', hr', ha'⟩ := ht
  obtain ⟨rfl, tail, ho', rfl, hsealed⟩ := answer_tail ha'
  obtain ⟨hi, hstored⟩ := (h.segments id').1
  exact tailsBound_of_stored hi hstored r' hr' tail ho' hsealed r hr c result ho

/-- NativeLoglets answer what a sealing Loglet may. -/
theorem Inv.admitted (h : Inv 𝒮 s) {events : List LogletEvent}
    (hr : ∀ e ∈ events, Returned s.segments e) :
    VirtualLog.Admitted LogletContract.sealing events := by
  induction events with
  | nil => trivial
  | cons e events ih =>
      have he := hr e List.mem_cons_self
      have hold := fun e' he' => hr e' (List.mem_cons_of_mem e he')
      refine ⟨?_, ih hold⟩
      cases e with
      | appended id c p =>
          refine List.all_eq_true.mpr fun e' he' => ?_
          cases e' with
          | appended id' c' p' =>
              by_cases hsame : id' = id ∧ p' = p
              · obtain ⟨rfl, rfl⟩ := hsame
                simp [h.apart he (hold _ he')]
              · simp
                tauto
          | «sealed» id' => rfl
          | tail id' t isSealed =>
              cases isSealed with
              | false => rfl
              | true =>
                  by_cases hid : id' = id
                  · subst hid
                    simp [h.bounded he (hold _ he')]
                  · simp [hid]
          | trimmed id' watermark => rfl
      | «sealed» id => rfl
      | tail id t isSealed =>
          cases isSealed with
          | false => rfl
          | true =>
              refine List.all_eq_true.mpr fun e' he' => ?_
              cases e' with
              | appended id' c' p' =>
                  by_cases hid : id' = id
                  · subst hid
                    simp [h.bounded (hold _ he') he]
                  · simp [hid]
              | «sealed» id' => rfl
              | tail id' t' isSealed' => rfl
              | trimmed id' watermark => rfl
      | trimmed id watermark => rfl

/-- So the instances keep what they keep on sealing Loglets. -/
theorem Inv.sealing (h : Inv 𝒮 s) :
    VirtualLog.Inv { 𝒮.log with contract := LogletContract.sealing } s.log.world :=
  { h.log.1 with admitted := h.admitted h.returned }

/-- The segment of an acknowledged append has returned it. -/
theorem Inv.returned_ack (h : Inv 𝒮 s) {ack : VirtualLog.Ack} (hack : ack ∈ s.log.world.acks) :
    ∃ r ∈ (s.segments ack.segmentId).world.completed, ∃ result,
      r.outcome = .appended ack.commandId result ∧ result.position = ack.localPosition := by
  obtain ⟨-, -, -, -, -, -, -, he⟩ := h.log.1.acks ack hack
  obtain ⟨id, r, hr, ha⟩ := h.returned _ he
  obtain ⟨rfl, result, ho, hp⟩ := answer_appended ha
  exact ⟨r, hr, result, ho, hp⟩

end Contract

/-! ## Acknowledged appends -/

/-- An acknowledged append is where the installed chains say, a majority of the
LogServers of its segment covers its position and all before it, and no LogServer holds
another command there. -/
structure Kept (𝒮 : Deployment) (s : State P) (ack : VirtualLog.Ack) : Prop where
  mapped : ∀ n chain, ack.version ≤ n + 1 → s.log.world.history[n]? = some chain →
    chain.Maps ack ∨ ack.position < chain.first.virtualStart
  covered : ∀ p ≤ ack.localPosition, Majority (𝒮.segment ack.segmentId).segment.members
    fun node => (s.segments ack.segmentId).world.Covers node p
  stored : ∀ node, ∀ e ∈ ((s.segments ack.segmentId).world.store node).entries,
    e.position = ack.localPosition → e.commandId = ack.commandId

/-- **No acknowledged append is lost.** In every run of any number of instances on
NativeLoglets, whatever is reconfigured meanwhile, an append that returned keeps its
virtual address and stays on a majority of its LogServers, and no two commands were
given one address. Each store operation of a LogServer, `state()` too, is one step. -/
theorem acknowledged_kept [DecidableEq P] (𝒮 : Deployment) (s : State P)
    (h : (spec 𝒮).Reachable s) :
    (∀ ack ∈ s.log.world.acks, Kept 𝒮 s ack) ∧
    ∀ a ∈ s.log.world.acks, ∀ b ∈ s.log.world.acks, a.commandId ≠ b.commandId →
      a.position ≠ b.position := by
  have hinv := (inv_inductive 𝒮).reachable h
  have hi := hinv.sealing
  have hC := LogletContract.sealing_sealing
  refine ⟨fun ack hack => ⟨fun n chain hv hn => ?_, fun p hp => ?_, fun node e he hp => ?_⟩,
    fun a ha b hb hne hpos => hne ?_⟩
  · obtain ⟨k, old, hk, -, hold, hid, hpos, he⟩ := hi.acks ack hack
    exact hi.maps_or_above hC.bounding (by omega) hold hn hid hpos he
  · obtain ⟨r, hr, result, ho, hlocal⟩ := hinv.returned_ack hack
    exact (hinv.segments ack.segmentId).1.1.durable.covered r hr _ result ho p (hlocal ▸ hp)
  · obtain ⟨r, hr, result, ho, hlocal⟩ := hinv.returned_ack hack
    have hsegment := (hinv.segments ack.segmentId).1.1
    have hret := hsegment.returned r hr
    rw [ho] at hret
    obtain ⟨⟨e', he', hcommand, hp'⟩, -, -⟩ := hret
    have hassigned := (hsegment.store node).entries e he
    rw [hsegment.eq_of_position hassigned he' (hp.trans (hlocal.symm.trans hp'.symm)), hcommand]
  · obtain ⟨n, old, -, -, hold, hida, hpa, hea⟩ := hi.acks a ha
    obtain ⟨m, new, -, -, hnew, hidb, hpb, heb⟩ := hi.acks b hb
    rcases Nat.le_total n m with hnm | hmn
    · exact hi.acks_agree hC hnm hold hnew hida hpa hea hidb hpb heb hpos
    · exact (hi.acks_agree hC hmn hnew hold hidb hpb heb hida hpa hea hpos.symm).symm

/-! ## A run with a reconfiguration -/

section Example

variable [DecidableEq P] {𝒮 : Deployment}

/-- The processes of a segment may run first. -/
theorem reachable_segment {s : State P} (h : (spec 𝒮).Reachable s) (id : String)
    (hfresh : s.segments id = fresh _ _ _ _ (NativeLoglet.World.initial (𝒮.segment id)))
    {s' : NativeLoglet.SystemState}
    (hs : (𝒮.segment id).runtime.ReachableUnder (NativeLoglet.earlyStored (𝒮.segment id))
      (· = NativeLoglet.World.initial (𝒮.segment id)) s') :
    (spec 𝒮).Reachable { s with segments := Function.update s.segments id s' } := by
  induction hs with
  | init hw =>
      subst hw
      rwa [← hfresh, Function.update_eq_self]
  | step hs hC hstep ih =>
      have hn := ih.next (.segment id (by simpa using hC) (by simpa using hstep))
      simpa using hn

theorem run_grows {s s' : VirtualLog.SystemState P}
    (hs : (VirtualLog.discipline 𝒮.log).StateInv s)
    {as : List (Action TaskId (VirtualLog.Call P) (VirtualLog.Choice P) VirtualLog.Disturbance)}
    (hr : 𝒮.log.runtime.run s as = some s') : s.world.events ⊆ s'.world.events := by
  induction as generalizing s with
  | nil =>
      obtain rfl := Option.some.inj hr
      exact List.Subset.refl _
  | cons a as ih =>
      obtain ⟨m, hm, hr'⟩ := Option.bind_eq_some_iff.mp hr
      obtain ⟨hinv, hg⟩ := (VirtualLog.sound 𝒮.log).step hs (meets_any s a) hm
      exact List.Subset.trans hg.events (ih hinv hr')

/-- Then the instances, as long as they are told what the segments have returned. -/
theorem reachable_log {s : State P} (h : (spec 𝒮).Reachable s) {s' : VirtualLog.SystemState P}
    {as : List (Action TaskId (VirtualLog.Call P) (VirtualLog.Choice P) VirtualLog.Disturbance)}
    (hr : 𝒮.log.runtime.run s.log as = some s')
    (hreturned : ∀ e ∈ s'.world.events, Returned s.segments e) :
    (spec 𝒮).Reachable { s with log := s' } := by
  induction as generalizing s with
  | nil =>
      obtain rfl := Option.some.inj hr
      exact h
  | cons a as ih =>
      obtain ⟨m, hm, hr'⟩ := Option.bind_eq_some_iff.mp hr
      have hinv := ((inv_inductive 𝒮).reachable h).log
      obtain ⟨hinv', -⟩ := (VirtualLog.sound 𝒮.log).step hinv (meets_any s.log a) hm
      have hnext := h.next (.log hm fun e he => .inr (hreturned e (run_grows hinv' hr' he)))
      exact ih (s := { s with log := m }) hnext hr' hreturned

omit [DecidableEq P] in
theorem returned_of_outcome {segments : String → NativeLoglet.SystemState} (id : String)
    {outcomes : List NativeLoglet.Outcome}
    (h : (segments id).world.completed.map NativeLoglet.Completion.outcome = outcomes)
    (o : NativeLoglet.Outcome) (ho : o ∈ outcomes) {e : LogletEvent} (ha : answer id o = some e) :
    Returned segments e := by
  rw [← h] at ho
  obtain ⟨r, hr, rfl⟩ := List.mem_map.mp ho
  exact ⟨id, r, hr, ha⟩

end Example

/-- The segments of three nodes each. -/
def threeNodes : Deployment where
  instances := VirtualLog.sealingDeployment.instances
  uuids := VirtualLog.UuidSource.spelled
  segment := fun id => { NativeLoglet.threeNodes with
    segment := { NativeLoglet.threeNodes.segment with segmentId := id } }
  named := fun _ => rfl

section Native

open NativeLoglet

/-- `a` appends a command, and `b` seals the segment and checks its tail. -/
def sealedRun (id commandId : String) : List (Action TaskId Call Choice Disturbance) :=
  let state := fun isSealed => some (Response.state ⟨id, 1, 0, 0, isSealed⟩)
  let read := fun batch node => delivered batch [node] ++
    [.resume ⟨"b", 0⟩ (.entry (some ⟨id, 0, commandId, []⟩))]
  List.flatten
    [[.launch ⟨"a", 0⟩ (.append commandId [] 1), .resume ⟨"a", 0⟩ .done], handled 0 ["a", "b"],
     [.resume ⟨"a", 0⟩ (.gathered [state false, state false, none]), .launch ⟨"b", 0⟩ .seal],
     handled 1 ["a", "b"],
     [.resume ⟨"b", 0⟩ (.gathered [state true, state true, none]),
      .launch ⟨"b", 0⟩ (.checkTail 1)], delivered 2 ["a", "b"],
     [.resume ⟨"b", 0⟩ (.gathered [state true, state true, none])],
     read 3 "a", read 4 "b", read 5 "a", read 6 "b"]

theorem sealedRun_runs (id commandId : String)
    (h : (((threeNodes.segment id).runtime.runWhile meetsEarlyStored
      (fresh _ _ _ _ (World.initial (threeNodes.segment id))) (sealedRun id commandId)).map
        fun s => s.world.completed.map Completion.outcome) =
      some [.appended commandId ⟨0, 1⟩, .done, .tail ⟨1, true⟩]) :
    ∃ s : SystemState, (threeNodes.segment id).runtime.ReachableUnder
        (earlyStored (threeNodes.segment id)) (· = World.initial (threeNodes.segment id)) s ∧
      s.world.completed.map Completion.outcome =
        [.appended commandId ⟨0, 1⟩, .done, .tail ⟨1, true⟩] := by
  obtain ⟨s, hs, hpost⟩ := Option.map_eq_some_iff.mp h
  exact ⟨s, ReachableUnder.runWhile meets_of_meetsEarlyStored (.init rfl) hs, hpost⟩

end Native

theorem reconfiguredRun_answers :
    ((threeNodes.log.runtime.run (fresh _ _ _ _ (VirtualLog.World.initial Unit))
      VirtualLog.reconfiguredRun).map fun s =>
        (s.world.events, s.world.acks.map VirtualLog.Ack.position)) =
    some ([.appended "--b" "second" 0, .tail "--a" 1 true, .sealed "--a",
      .appended "--a" "first" 0], [1, 0]) := by
  decide +kernel

theorem acknowledged_kept_reconfigured :
    ∃ s : State Unit, s.log.world.acks.map VirtualLog.Ack.position = [1, 0] ∧
      ∀ ack ∈ s.log.world.acks, Kept threeNodes s ack := by
  obtain ⟨old, hold, houtcomes⟩ := sealedRun_runs "--a" "first" (by decide +kernel)
  obtain ⟨new, hnew, houtcomes'⟩ := sealedRun_runs "--b" "second" (by decide +kernel)
  obtain ⟨log, hlog, hpost⟩ := Option.map_eq_some_iff.mp reconfiguredRun_answers
  obtain ⟨hevents, hacks⟩ := Prod.mk.inj hpost
  have hstart : (spec (P := Unit) threeNodes).Reachable (initial threeNodes) := .init rfl
  have hone := reachable_segment hstart "--a" rfl hold
  have htwo := reachable_segment hone "--b" rfl hnew
  have hthree := reachable_log htwo hlog ?_
  · exact ⟨_, hacks, (acknowledged_kept threeNodes _ hthree).1⟩
  · intro e he
    rw [hevents] at he
    simp only [List.mem_cons, List.not_mem_nil, or_false] at he
    rcases he with rfl | rfl | rfl | rfl
    · exact returned_of_outcome "--b" houtcomes' (.appended "second" ⟨0, 1⟩) (by simp) rfl
    · exact returned_of_outcome "--a" houtcomes (.tail ⟨1, true⟩) (by simp) rfl
    · exact returned_of_outcome "--a" houtcomes .done (by simp) rfl
    · exact returned_of_outcome "--a" houtcomes (.appended "first" ⟨0, 1⟩) (by simp) rfl

end DelosLab.Stack
