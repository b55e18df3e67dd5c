import DelosLab.Async.Observer
import DelosLab.Paxos.Agreement
import DelosLab.Paxos.History
import DelosLab.Paxos.Representation

/-!
# Where decided values come from

Every value that a slot decides was taken up for that slot by a call on some peer, which
had applied every slot before it. An observer notes the slots that the calls take up.
-/

namespace DelosLab.Paxos

open Async Async.Runtime Async.Coroutine Consensus
open VirtualLog (LogChain VersionedLogChain CompareAndSetResult)

variable {P : Type}

/-! ## What a peer takes up -/

/-- The value that a call proposes. -/
def Call.value : Call P → Option (PaxosValue P)
  | .decideSlot _ _ => none
  | .read _ => some ⟨.readBarrier⟩
  | .compareAndSet expectedVersion newChain _ => some ⟨.compareAndSet expectedVersion newChain⟩

/-- A call on `node` takes up `value` for `slot`. It is spent when the peer has applied the
same command before, at a version up to the one that the command expects. -/
structure Pick (P : Type) where
  node : String
  slot : Nat
  value : PaxosValue P
  spent : Bool

section Pick

variable [DecidableEq P]

/-- `node` has applied `value` while the register was at most at the version that it
expects. -/
def World.spent (w : World P) (node : String) (value : PaxosValue P) : Bool :=
  match value.command with
  | .readBarrier => false
  | .compareAndSet expectedVersion _ =>
      (List.range (w.acceptors node).state.lastApplied).any fun n =>
        decide (w.decided node (n + 1) = some value) &&
          decide ((registerAt (w.decided node) n).version ≤ expectedVersion)

def World.pick (w : World P) (node : String) (value : PaxosValue P) : Pick P :=
  ⟨node, (w.acceptors node).state.lastApplied + 1, value, w.spent node value⟩

end Pick

/-- The calls of the tasks, the slots they take up, and what they returned. -/
structure Notes (P : Type) where
  calls : TaskId → Option (Call P)
  picks : List (Pick P)
  returned : TaskId → Option (Return P)

def Notes.initial (P : Type) : Notes P := ⟨fun _ => none, [], fun _ => none⟩

/-- A call takes up the slot after the last that it finds applied. -/
def pickObserver [DecidableEq P] :
    Observer (signature P) (World P) TaskId (Call P) (Outcome P) (Notes P) where
  start := fun _ t c notes => { notes with calls := Function.update notes.calls t (some c) }
  exec := fun w t a notes =>
    match a, (notes.calls t).bind Call.value with
    | .lastApplied, some value => { notes with picks := w.pick t.node value :: notes.picks }
    | _, _ => notes
  resume := fun _ _ _ _ notes => notes
  finish := fun _ t c o notes =>
    match o with
    | .ok outcome => { notes with returned := Function.update notes.returned t (some ⟨c, outcome⟩) }
    | .error _ => notes

/-- `value` was taken up for `slot`. -/
def Notes.Picked (notes : Notes P) (slot : Nat) (value : PaxosValue P) : Prop :=
  ∃ p ∈ notes.picks, p.slot = slot ∧ p.value = value

/-- What lasts of the moment of a pick: the peer had applied every slot before it, and if the
pick is not spent, then the command not before the register had passed it. -/
structure Pick.Holds (p : Pick P) (w : World P) : Prop where
  positive : 1 ≤ p.slot
  applied : w.HasApplied p.node (p.slot - 1)
  fresh : p.spent = false → ∀ v c, p.value.command = .compareAndSet v c → ∀ n, 1 ≤ n →
    n < p.slot → w.decided p.node n = some p.value →
      v < (registerAt (w.decided p.node) (n - 1)).version

theorem Pick.Holds.grow {p : Pick P} {w w' : World P} (h : p.Holds w)
    (hg : ∀ node, (w.acceptors node).Advances (w'.acceptors node)) : p.Holds w' := by
  have hsame : ∀ n, 1 ≤ n → n ≤ p.slot - 1 → w'.decided p.node n = w.decided p.node n := by
    intro n hn hle
    obtain ⟨v, hv⟩ := Option.ne_none_iff_exists'.mp (h.applied.2 n hn hle)
    rw [hv]
    exact (hg p.node).decided n v hv
  refine ⟨h.positive, ⟨Nat.le_trans h.applied.1 (hg p.node).lastApplied, fun n hn hle => ?_⟩,
    fun hs v c hv n hn hlt hd => ?_⟩
  · rw [hsame n hn hle]
    exact h.applied.2 n hn hle
  rw [hsame n hn (Nat.le_sub_one_of_lt hlt)] at hd
  have hregister : registerAt (w'.decided p.node) (n - 1) =
      registerAt (w.decided p.node) (n - 1) :=
    registerAt_congr fun m hm hle => hsame m hm (by omega)
  rw [hregister]
  exact h.fresh hs v c hv n hn hlt hd

section Pick

variable [DecidableEq P]

/-- A pick of a well-formed peer holds. -/
theorem World.holds_pick {w : World P} {node : String} (h : (w.acceptors node).WellFormed)
    (value : PaxosValue P) : (w.pick node value).Holds w := by
  refine ⟨Nat.le_add_left 1 _, ⟨Nat.le_refl _, h.applied⟩, fun hs v c hv n hn hlt hd => ?_⟩
  have hs : w.spent node value = false := hs
  have hv : value.command = .compareAndSet v c := hv
  rw [World.spent, hv] at hs
  have hnone := List.any_eq_false.mp hs (n - 1) (List.mem_range.mpr (by
    have hlt : n < (w.acceptors node).state.lastApplied + 1 := hlt
    omega))
  rw [Nat.sub_add_cancel hn] at hnone
  by_contra hle
  refine hnone ?_
  rw [Bool.and_eq_true, decide_eq_true_eq, decide_eq_true_eq]
  exact ⟨hd, Nat.le_of_not_lt hle⟩

/-! ## Well-formed peers -/

omit [DecidableEq P] in
theorem PaxosAcceptor.WellFormed.prepare {a : PaxosAcceptor P} (h : a.WellFormed)
    (request : PrepareRequest) (saves : Bool) : (a.prepare request saves).1.WellFormed := by
  rcases a.prepare_cases request saves with heq | ⟨promised, -, heq⟩ | ⟨-, heq⟩
  · rw [heq]
    exact h
  · rw [heq]
    exact h
  · rw [heq]
    exact h.setSlot (congrArg a.state.decided (slot_slot a.state request.slot).symm)

theorem PaxosAcceptor.WellFormed.accept {a : PaxosAcceptor P} (h : a.WellFormed)
    (request : AcceptRequest P) (saves : Bool) : (a.accept request saves).1.WellFormed := by
  rcases a.accept_cases request saves with ⟨⟨message, heq⟩, -⟩ | heq | ⟨promised, heq⟩ | ⟨-, heq⟩
  · rw [heq]
    exact h
  · rw [heq]
    exact h
  · rw [heq]
    exact h
  · rw [heq]
    exact h.setSlot (congrArg a.state.decided (slot_slot a.state request.slot).symm)

theorem PaxosAcceptor.WellFormed.decide {a : PaxosAcceptor P} (h : a.WellFormed)
    (request : DecideRequest P) (saves : Bool) : (a.decide request saves).1.WellFormed := by
  rcases a.decide_cases request saves with ⟨value, -, ⟨-, heq⟩ | ⟨-, message, heq⟩⟩ |
    ⟨hnone, heq | ⟨stop, hstop, heq⟩⟩
  · rw [heq]
    exact h
  · rw [heq]
    exact h
  · rw [heq]
    exact h
  · rw [heq, hstop]
    exact h.applied_wellFormed hnone _

omit [DecidableEq P] in
theorem World.wellFormed_setAcceptor {w : World P} {node : String} {acceptor : PaxosAcceptor P}
    (h : ∀ n, (w.acceptors n).WellFormed) (ha : acceptor.WellFormed) (n : String) :
    ((w.setAcceptor node acceptor).acceptors n).WellFormed := by
  show (Function.update w.acceptors node acceptor n).WellFormed
  by_cases hn : n = node
  · rw [hn, Function.update_self]
    exact ha
  · rw [Function.update_of_ne hn]
    exact h n

omit [DecidableEq P] in
theorem World.advances_setAcceptor {w : World P} {node : String} {acceptor : PaxosAcceptor P}
    (h : (w.acceptors node).Advances acceptor) (n : String) :
    (w.acceptors n).Advances ((w.setAcceptor node acceptor).acceptors n) := by
  show (w.acceptors n).Advances (Function.update w.acceptors node acceptor n)
  by_cases hn : n = node
  · rw [hn, Function.update_self]
    exact h
  · rw [Function.update_of_ne hn]
    exact .refl _

/-- What handling a request does to the acceptors and to the messages. -/
theorem World.handle_cases (w : World P) (target : String) (saves : Bool) (request : Request P) :
    (w.handle target saves request).messages = w.messages ∧
      ∃ acceptor, (w.handle target saves request).acceptors =
          (w.setAcceptor target acceptor).acceptors ∧
        (w.acceptors target).Advances acceptor ∧
        ((w.acceptors target).WellFormed → acceptor.WellFormed) := by
  cases request with
  | prepare request =>
      refine ⟨?_, _, ?_, (w.acceptors target).advances_prepare request saves,
        fun h => h.prepare request saves⟩
      all_goals
        rw [World.handle]
        split
        · next e _ => cases e <;> rfl
        · rfl
  | accept request =>
      refine ⟨?_, _, ?_, (w.acceptors target).advances_accept request saves,
        fun h => h.accept request saves⟩
      all_goals
        rw [World.handle]
        split
        · next e _ => cases e <;> rfl
        · rfl
  | decide request =>
      refine ⟨?_, _, ?_, (w.acceptors target).advances_decide request saves,
        fun h => h.decide request saves⟩
      all_goals
        rw [World.handle]
        split
        · next e _ => cases e <;> rfl
        · rfl

end Pick

/-- A restarted peer has lost nothing that it had decided. -/
theorem PaxosAcceptor.WellFormed.advances_restart {a : PaxosAcceptor P} (h : a.WellFormed) :
    a.Advances (PaxosAcceptor.create a.nodeId a.storage) := by
  have hstate := h.restart.2
  refine ⟨rfl, fun slot v hv => ?_, ?_, ?_, fun slot p hp => ⟨p, ?_, le_refl p⟩⟩
  · rw [hstate]
    exact hv
  · rw [hstate]
  · rw [hstate]
  · rw [hstate]
    exact hp

/-! ## What the calls keep -/

section Origins

variable [DecidableEq P]

/-- Every proposal was taken up for its slot. -/
structure Origins (w : World P × Notes P) : Prop where
  wellFormed : ∀ node, (w.1.acceptors node).WellFormed
  proposed : ∀ slot b v, w.1.Proposed slot b v → w.2.Picked slot v
  picks : ∀ p ∈ w.2.picks, p.Holds w.1
  returned : ∀ t r, w.2.returned t = some r → w.2.calls t = some r.call

/-- Calls with a value of their own, each by a task of its own. -/
def ownTasks : Condition (signature P) (World P × Notes P) TaskId (Call P) (Choice P) where
  launch := fun w t c => w.2.calls t = none ∧ c.value ≠ none
  resume := fun _ _ _ _ _ => True

theorem picks_exec (w : World P) (t : TaskId) (a : Act P) (notes : Notes P) :
    notes.picks ⊆ (pickObserver.exec w t a notes).picks := by
  simp only [pickObserver]
  split
  · exact List.subset_cons_self _ _
  · exact List.Subset.refl _

variable (𝒮 : Deployment)

/-- In the runs that keep the invariant of the peers. -/
def originDiscipline : Discipline (𝒮.runtime.observed (pickObserver (P := P)))
    (ownTasks.within fun w => Inv 𝒮 w.1) where
  Inv := Origins
  Grow := fun w w' => (∀ node, (w.1.acceptors node).Advances (w'.1.acceptors node)) ∧
    w.2.picks ⊆ w'.2.picks
  Rely := fun t w w' => w'.2.calls t = w.2.calls t
  grow_refl := fun _ => ⟨fun _ => .refl _, List.Subset.refl _⟩
  grow_trans := fun h h' =>
    ⟨fun node => (h.1 node).trans (h'.1 node), List.Subset.trans h.2 h'.2⟩
  rely_refl := fun _ _ => rfl
  rely_trans := fun h h' => h'.trans h
  exec_grow := fun w t a => ⟨(exec_grow w.1 t a).advances, picks_exec w.1 t a w.2⟩
  resume_grow := by
    intro w t e x w' r h
    obtain ⟨⟨w₁, r'⟩, hr, heq⟩ := Option.map_eq_some_iff.mp h
    obtain ⟨rfl, -⟩ := Prod.mk.inj heq
    exact ⟨(resumed_of_resume hr).grow.advances, List.Subset.refl _⟩
  finish_grow := by
    intro w t c o
    refine ⟨(finish_grow w.1 t o).advances, ?_⟩
    cases o <;> exact List.Subset.refl _

variable {𝒮} {t : TaskId} {c : Call P} {α : Type}

omit [DecidableEq P] in
/-- A step that leaves the messages and the picks as they are. -/
theorem Origins.step {w w' : World P × Notes P} (h : Origins w)
    (hg : ∀ node, (w.1.acceptors node).Advances (w'.1.acceptors node))
    (hw : ∀ node, (w'.1.acceptors node).WellFormed) (hm : w'.1.messages = w.1.messages)
    (hp : w'.2.picks = w.2.picks)
    (hr : ∀ t r, w'.2.returned t = some r → w'.2.calls t = some r.call) : Origins w' := by
  refine ⟨hw, fun slot b v hv => ?_, fun p hp' => ?_, hr⟩
  · rw [World.proposed_congr hm] at hv
    rw [Notes.Picked, hp]
    exact h.proposed slot b v hv
  · rw [hp] at hp'
    exact (h.picks p hp').grow hg

/-- No wait sends anything. -/
theorem Resumed.messages {w w' : World P} {e : Wait P} {r : Except Error (WaitResult P e)}
    (h : Resumed 𝒮 t w e w' r) : w'.messages = w.messages := by
  cases h <;> rfl

theorem Resumed.wellFormed {w w' : World P} {e : Wait P} {r : Except Error (WaitResult P e)}
    (h : Resumed 𝒮 t w e w' r) (hw : ∀ node, (w.acceptors node).WellFormed) (node : String) :
    (w'.acceptors node).WellFormed := by
  cases h with
  | failed _ => exact hw node
  | reserved _ => exact World.wellFormed_setAcceptor hw ((hw _).reserveBallot _ _) node
  | refused _ _ => exact World.wellFormed_setAcceptor hw ((hw _).reserveBallot _ _) node
  | decided request saves => exact World.wellFormed_setAcceptor hw ((hw _).decide _ _) node
  | prepared _ => exact hw node
  | accepted _ => exact hw node
  | learned _ => exact hw node

/-- The triple of a piece of a call; what it raises says nothing. -/
abbrev Traces (t : TaskId) (c : Call P) (𝒮 : Deployment) (F : World P × Notes P → Prop)
    (p : Co P α) (Q : World P × Notes P → α → Prop) : Prop :=
  (originDiscipline 𝒮).Triple t c F p Q fun _ _ => True

/-- `t` works on `c`. -/
def Serves (t : TaskId) (c : Call P) (w : World P × Notes P) : Prop := w.2.calls t = some c

/-- It has taken up `value` for `slot`. -/
def TakenUp (t : TaskId) (c : Call P) (slot : Nat) (value : PaxosValue P)
    (w : World P × Notes P) : Prop := Serves t c w ∧ w.2.Picked slot value

theorem serves_lasting : (originDiscipline 𝒮).Lasting t (Serves (P := P) t c) :=
  fun _ _ _ hr h => hr.trans h

omit [DecidableEq P] in
theorem picked_mono {w w' : World P × Notes P} {slot : Nat} {value : PaxosValue P}
    (h : w.2.Picked slot value) (hs : w.2.picks ⊆ w'.2.picks) : w'.2.Picked slot value := by
  obtain ⟨p, hp, heq⟩ := h
  exact ⟨p, hs hp, heq⟩

theorem takenUp_lasting (slot : Nat) (value : PaxosValue P) :
    (originDiscipline 𝒮).Lasting t (TakenUp t c slot value) :=
  fun w w' hg hr h => ⟨serves_lasting w w' hg hr h.1, picked_mono h.2 hg.2⟩

/-! ### Acts and waits -/

/-- A wait leaves the origins alone, and its answer is judged in a world of the peers. -/
theorem await_spec {e : Wait P} {F : World P × Notes P → Prop}
    {Q : World P × Notes P → WaitResult P e → Prop} (hF : (originDiscipline 𝒮).Lasting t F)
    (hQ : ∀ w w' a, Inv 𝒮 w.1 → Origins w → F w → (originDiscipline 𝒮).Grow w w' →
      w'.2 = w.2 → Resumed 𝒮 t w.1 e w'.1 (.ok a) → Q w' a) :
    Traces t c 𝒮 F (wait e) Q := by
  refine .wait hF.stable fun w x w' r hi hf hx hr => ?_
  have hg := (originDiscipline 𝒮).resume_grow hr
  obtain ⟨⟨w₁, r'⟩, hres, heq⟩ := Option.map_eq_some_iff.mp hr
  obtain ⟨rfl, rfl⟩ := Prod.mk.inj heq
  have hresumed := resumed_of_resume hres
  refine ⟨⟨hi.step hg.1 (hresumed.wellFormed hi.wellFormed) hresumed.messages rfl hi.returned,
    fun _ _ => rfl⟩, fun a ha => ?_, fun _ _ => trivial⟩
  have ha : r' = .ok a := ha
  subst ha
  exact hQ w _ a hx.1 hi hf hg rfl hresumed

/-- A wait whose answer does not matter. -/
theorem pass_spec (e : Wait P) {F : World P × Notes P → Prop}
    (hF : (originDiscipline 𝒮).Lasting t F) : Traces t c 𝒮 F (wait e) fun w _ => F w := by
  refine await_spec hF fun w w' a _ _ hf hg hn _ => hF w w' hg ?_ hf
  exact congrArg (fun n : Notes P => n.calls t) hn

/-- An act that adds no message and no pick. -/
theorem idle_spec {a : Act P} {F : World P × Notes P → Prop} (ha : ∀ w, (Deployment.exec w t a).1 = w)
    (hn : ∀ w notes, pickObserver.exec w t a notes = notes) :
    Traces t c 𝒮 F (act a) fun w _ => F w := by
  refine .act fun w hi hf => ?_
  have hworld : ((𝒮.runtime.observed pickObserver).exec w t a).1 = w :=
    Prod.ext (ha w.1) (hn w.1 w.2)
  have hkept : (originDiscipline 𝒮).Kept t w ((𝒮.runtime.observed pickObserver).exec w t a).1 := by
    rw [hworld]
    exact .refl hi
  refine ⟨hkept, ?_⟩
  rw [hworld]
  exact hf

/-- What is sent was taken up, if it is an Accept request. -/
theorem send_traces (targets : List String) (request : Request P) {F : World P × Notes P → Prop}
    (hF : (originDiscipline 𝒮).Lasting t F)
    (hr : ∀ w r, F w → request = .accept r → w.2.Picked r.slot r.value) :
    Traces t c 𝒮 F (act (.send targets request)) fun w _ => F w := by
  refine .act fun w hi hf => ?_
  have hg := (originDiscipline 𝒮).exec_grow w t (.send targets request)
  refine ⟨⟨⟨hi.wellFormed, fun slot b v hv => ?_, fun p hp => ?_, hi.returned⟩, fun _ _ => rfl⟩,
    hF w _ hg rfl hf⟩
  · rcases World.proposed_send hv with hv | hv
    · exact hr w _ hf hv
    · exact hi.proposed slot b v hv
  · exact (hi.picks p hp).grow hg.1

/-- A call takes up its value for the slot after the last one applied. -/
theorem pick_spec {value : PaxosValue P} (hc : c.value = some value) :
    Traces t c 𝒮 (Serves t c) (act .lastApplied) fun w last => TakenUp t c (last + 1) value w := by
  refine .act fun w hi hf => ?_
  have hg := (originDiscipline 𝒮).exec_grow w t .lastApplied
  have hnotes : pickObserver.exec w.1 t .lastApplied w.2 =
      { w.2 with picks := w.1.pick t.node value :: w.2.picks } := by
    have hvalue : (w.2.calls t).bind Call.value = some value := by
      rw [show w.2.calls t = some c from hf]
      exact hc
    simp only [pickObserver, hvalue]
  have hworld : ((𝒮.runtime.observed pickObserver).exec w t .lastApplied).1 =
      (w.1, { w.2 with picks := w.1.pick t.node value :: w.2.picks }) :=
    Prod.ext rfl hnotes
  have hresult : ((𝒮.runtime.observed pickObserver).exec w t .lastApplied).2 =
      (w.1.acceptors t.node).state.lastApplied := rfl
  rw [hworld, hresult]
  refine ⟨⟨⟨hi.wellFormed, fun slot b v hv => ?_, fun p hp => ?_, hi.returned⟩, fun _ _ => rfl⟩,
    hf, _, List.mem_cons_self, rfl, rfl⟩
  · exact picked_mono (hi.proposed slot b v hv) (List.subset_cons_self _ _)
  · rcases List.mem_cons.mp hp with rfl | hp
    · exact World.holds_pick (hi.wellFormed t.node) value
    · exact hi.picks p hp

/-- What the promises of other acceptors report was taken up for the slot. -/
theorem promises_spec (request : PrepareRequest) {F : World P × Notes P → Prop}
    (hF : (originDiscipline 𝒮).Lasting t F) :
    Traces t c 𝒮 F (wait (.gatherPrepare request)) fun w replies => F w ∧
      ∀ r ∈ replies.filterMap id, r.promised = true → ∀ b v,
        PaxosProposer.acceptedPair r = some (b, v) → w.2.Picked request.slot v := by
  refine await_spec hF fun w w' replies hinv hi hf hg hn hr => ?_
  refine ⟨hF w w' hg (congrArg (fun n : Notes P => n.calls t) hn) hf, fun r hr' hp b v hv => ?_⟩
  rw [hn]
  obtain ⟨w₁, notes⟩ := w
  obtain ⟨w₂, notes'⟩ := w'
  cases hr with
  | prepared h =>
      obtain ⟨m, -, hm⟩ := Gathered.mem (World.gathered h) hr'
      have hreports := (hinv.prepared m request r hm).reports hp
      rw [hv] at hreports
      exact hi.proposed _ b v ((hinv.disciplined request.slot).voted m b v hreports.2.1)

omit [DecidableEq P] in
/-- An adopted value is the proposer's own or one that was reported. -/
theorem adoptedValue_mem (responses : List (PrepareResponse P)) (proposed : PaxosValue P) :
    PaxosProposer.adoptedValue responses proposed = proposed ∨ ∃ r ∈ responses, ∃ b,
      PaxosProposer.acceptedPair r = some (b, PaxosProposer.adoptedValue responses proposed) := by
  unfold PaxosProposer.adoptedValue
  split
  · exact .inl rfl
  · next first rest h =>
      have hmem := highest_mem first rest
      rw [← h] at hmem
      obtain ⟨r, hr, hpair⟩ := List.mem_filterMap.mp hmem
      exact .inr ⟨r, hr, _, hpair⟩

/-! ### The proposer -/

theorem learn_traces (self : PaxosProposer) (slot : Nat) (value : PaxosValue P) :
    Traces t c 𝒮 (Serves t c) (self.learn slot value) fun w _ => Serves t c w := by
  refine .bind (pass_spec _ serves_lasting) fun _ => ?_
  refine .bind (send_traces _ _ serves_lasting nofun) fun _ => ?_
  exact pass_spec _ serves_lasting

theorem decideSlotLoop_traces (self : PaxosProposer) (slot : Nat) (proposed : PaxosValue P)
    (attempts observedRound : Nat) :
    Traces t c 𝒮 (TakenUp t c slot proposed)
      (self.decideSlotLoop slot proposed attempts observedRound) fun w _ => Serves t c w := by
  induction attempts generalizing observedRound with
  | zero => exact .raise fun _ _ _ => trivial
  | succ attempts ih =>
      have hF : (originDiscipline 𝒮).Lasting t (TakenUp t c slot proposed) :=
        takenUp_lasting slot proposed
      refine .bind (pass_spec _ hF) fun ballot => ?_
      refine .bind (send_traces _ _ hF nofun) fun _ => ?_
      refine .bind (promises_spec ⟨slot, ballot⟩ hF) fun replies => ?_
      refine .bind (.check fun _ _ _ _ => trivial) fun _ => ?_
      refine .bind (Q := fun w _ => TakenUp t c slot proposed w ∧
        ∀ r ∈ replies.filterMap id, r.promised = true → ∀ b v,
          PaxosProposer.acceptedPair r = some (b, v) → w.2.Picked slot v)
        (.ofExcept (fun _ _ _ h _ => h.1) fun _ _ _ _ _ => trivial) fun decision => ?_
      cases decision with
      | some decided =>
          exact .bind ((learn_traces self slot decided).pre fun _ _ h => h.1.1) fun _ =>
            .ret fun _ _ h => h
      | none =>
          simp only
          split
          · exact (ih _).pre fun _ _ h => h.1
          · let selected := PaxosProposer.adoptedValue
              ((replies.filterMap id).filter PrepareResponse.promised) proposed
            have hselected : (originDiscipline 𝒮).Lasting t fun w =>
                TakenUp t c slot proposed w ∧ w.2.Picked slot selected :=
              fun w w' hg hr h => ⟨hF w w' hg hr h.1, picked_mono h.2 hg.2⟩
            refine .bind ((send_traces _ _ hselected fun w r h hr => ?_).pre
              fun w _ h => ⟨h.1, ?_⟩) fun _ => ?_
            · cases hr
              exact h.2
            · rcases adoptedValue_mem ((replies.filterMap id).filter PrepareResponse.promised)
                proposed with heq | ⟨r, hr, b, hpair⟩
              · show w.2.Picked slot (PaxosProposer.adoptedValue _ proposed)
                rw [heq]
                exact h.1.2
              · obtain ⟨hr, hp⟩ := List.mem_filter.mp hr
                exact h.2 r hr hp b _ hpair
            · refine .bind ((pass_spec _ hF).pre fun _ _ h => h.1) fun acceptReplies => ?_
              refine .bind (.check fun _ _ _ _ => trivial) fun _ => ?_
              split
              · exact (ih _).pre fun _ _ h => h.1
              · exact .bind ((learn_traces self slot _).pre fun _ _ h => h.1.1) fun _ =>
                  .ret fun _ _ h => h

/-- Every turn of `propose` takes up the value of the call. -/
theorem propose_traces (self : PaxosProposer) {value : PaxosValue P} (hc : c.value = some value)
    (turns : Nat) :
    Traces t c 𝒮 (Serves t c) (self.propose value turns) fun w _ => Serves t c w := by
  induction turns with
  | zero => exact .bind (pass_spec _ serves_lasting) fun never => nomatch never
  | succ turns ih =>
      refine .bind (pick_spec hc) fun last => ?_
      refine .bind (decideSlotLoop_traces self (last + 1) value _ 0) fun decided => ?_
      split
      · exact .ret fun _ _ h => h
      · exact ih

theorem program_traces (self : PaxosProposer) (hc : c.value ≠ none) :
    Traces t c 𝒮 (Serves t c) (Deployment.program self c) fun w _ => Serves t c w := by
  cases c with
  | decideSlot slot proposed => exact absurd rfl hc
  | read turns =>
      refine .bind (Q := fun w _ => Serves t (.read turns) w) ?_ fun _ => .ret fun _ _ h => h
      refine .bind (propose_traces self rfl turns) fun proposed => ?_
      refine .bind (idle_spec (fun _ => rfl) fun _ _ => rfl) fun result => ?_
      split
      · exact .raise fun _ _ _ => trivial
      · exact .ret fun _ _ h => h
      · exact .raise fun _ _ _ => trivial
  | compareAndSet v chain turns =>
      refine .bind (Q := fun w _ => Serves t (.compareAndSet v chain turns) w) ?_
        fun _ => .ret fun _ _ h => h
      refine .bind (propose_traces self rfl turns) fun proposed => ?_
      refine .bind (idle_spec (fun _ => rfl) fun _ _ => rfl) fun result => ?_
      split
      · exact .raise fun _ _ _ => trivial
      · exact .ret fun _ _ h => h
      · exact .raise fun _ _ _ => trivial

/-- **Every call keeps the origins of the proposals.** -/
theorem origins_sound : (originDiscipline (P := P) 𝒮).Sound where
  start := by
    intro w t c w' p hi hC hst
    obtain ⟨⟨w₁, p'⟩, hst', heq⟩ := Option.map_eq_some_iff.mp hst
    obtain ⟨rfl, rfl⟩ := Prod.mk.inj heq
    change 𝒮.start w.1 t c = some (w₁, p') at hst'
    rw [Deployment.start] at hst'
    split at hst'
    · next hmem =>
        cases hst'
        refine ⟨⟨fun _ => .refl _, List.Subset.refl _⟩, ?_⟩
        refine (program_traces (𝒮.proposer t.node hmem) hC.2.2).safe_finish ⟨?_, fun u hu => ?_⟩
          (Function.update_self _ _ _) (fun v o hi' hv => ⟨?_, fun _ _ => rfl⟩)
          fun v e hi' _ => ⟨?_, fun _ _ => rfl⟩
        · refine hi.step (fun _ => .refl _) hi.wellFormed rfl rfl fun u r hu => ?_
          have hcall := hi.returned u r hu
          have hne : u ≠ t := by
            rintro rfl
            rw [hC.2.1] at hcall
            cases hcall
          exact (Function.update_of_ne hne _ _).trans hcall
        · exact Function.update_of_ne hu _ _
        · refine hi'.step (fun _ => .refl _) hi'.wellFormed rfl rfl fun u r hu => ?_
          change Function.update v.2.returned t (some ⟨c, o⟩) u = some r at hu
          by_cases hut : u = t
          · rw [hut, Function.update_self] at hu
            cases hu
            rw [hut]
            exact hv
          · rw [Function.update_of_ne hut] at hu
            exact hi'.returned u r hu
        · have hg := (originDiscipline 𝒮).finish_grow v t c (.error e)
          refine hi'.step hg.1 ?_ ?_ rfl hi'.returned
          · cases e <;> exact hi'.wellFormed
          · cases e <;> rfl
    · cases hst'
  disturb := by
    intro w d w' hi hd
    obtain ⟨w₁, hd', rfl⟩ := Option.map_eq_some_iff.mp hd
    cases d with
    | handle message target saves =>
        change Deployment.disturb w.1 (.handle message target saves) = some w₁ at hd'
        rw [Deployment.disturb] at hd'
        split at hd'
        · cases hd'
          obtain ⟨hm, acceptor, ha, hadv, hwf⟩ := w.1.handle_cases target saves message.request
          have hg : ∀ node, (w.1.acceptors node).Advances
              ((w.1.handle target saves message.request).acceptors node) := by
            intro node
            rw [ha]
            exact World.advances_setAcceptor hadv node
          refine ⟨hi.step hg (fun node => ?_) hm rfl hi.returned, ⟨hg, List.Subset.refl _⟩,
            fun _ _ => rfl⟩
          rw [ha]
          exact World.wellFormed_setAcceptor hi.wellFormed (hwf (hi.wellFormed target)) node
        · cases hd'
    | crash node =>
        cases hd'
        have hg : ∀ n, (w.1.acceptors n).Advances ((w.1.setAcceptor node
            (.create (w.1.acceptors node).nodeId (w.1.acceptors node).storage)).acceptors n) :=
          World.advances_setAcceptor (hi.wellFormed node).advances_restart
        refine ⟨hi.step hg ?_ rfl rfl hi.returned, ⟨hg, List.Subset.refl _⟩, fun _ _ => rfl⟩
        exact World.wellFormed_setAcceptor hi.wellFormed (hi.wellFormed node).restart.1

end Origins

end DelosLab.Paxos
