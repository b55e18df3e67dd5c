import DelosLab.Async.Extension
import DelosLab.Paxos.History
import DelosLab.Paxos.Representation

/-!
# The results of proposed commands

Results live in the memory of one process, for the slots that this process has applied. At
every point where a task can look, the slot after the last applied one is not decided; so a
slot that a proposal chose after the last applied one, and that is decided when `propose`
returns, was applied by this process, and its result is there.
-/

namespace DelosLab.Paxos

open Async Async.Coroutine Async.Runtime

variable {P : Type}

/-! ## What an acceptor carries from one operation to the next -/

namespace PaxosAcceptor

/-- The slot after the last applied one is not decided. -/
def CaughtUp (a : PaxosAcceptor P) : Prop := a.state.decided (a.state.lastApplied + 1) = none

/-- The results of the slots applied after `n` are there. -/
def Remembers (a : PaxosAcceptor P) (n : Nat) : Prop :=
  ∀ slot, n < slot → slot ≤ a.state.lastApplied → a.result slot ≠ none

structure Carries (a a' : PaxosAcceptor P) : Prop where
  caughtUp : a.CaughtUp → a'.CaughtUp
  remembers : ∀ n, a.Remembers n → a'.Remembers n

theorem Carries.refl (a : PaxosAcceptor P) : a.Carries a := ⟨fun h => h, fun _ h => h⟩

theorem carries_reserveBallot (a : PaxosAcceptor P) (minimumRound : Nat) (saves : Bool) :
    a.Carries (a.reserveBallot minimumRound saves).1 := by
  cases saves with
  | true => exact ⟨fun h => h, fun _ h => h⟩
  | false => exact .refl a

/-- Setting a slot without deciding it. -/
theorem carries_setSlot {a : PaxosAcceptor P} {changed : AcceptorSlotState P}
    (hd : changed.decidedValue = a.state.decided changed.slot) : a.Carries (a.setSlot changed) :=
  ⟨fun h => (decided_replaceSlot hd _).trans h, fun _ h => h⟩

theorem carries_prepare (a : PaxosAcceptor P) (request : PrepareRequest) (saves : Bool) :
    a.Carries (a.prepare request saves).1 := by
  rcases a.prepare_cases request saves with heq | ⟨promised, -, heq⟩ | ⟨-, heq⟩
  · rw [heq]
    exact .refl a
  · rw [heq]
    exact .refl a
  · rw [heq]
    exact carries_setSlot (congrArg a.state.decided (slot_slot _ _).symm)

/-- The loop of `decide` keeps the result of every slot that it applies. -/
theorem lookup_applyDecided (state : PersistentPaxosState P) (turns : Nat) (applied : Applied P)
    (slot : Nat) (h : applied.results.lookup slot ≠ none ∨
      applied.lastApplied < slot ∧ slot ≤ (applyDecided state turns applied).lastApplied) :
    (applyDecided state turns applied).results.lookup slot ≠ none := by
  induction turns generalizing applied with
  | zero =>
      rcases h with h | ⟨hlt, hle⟩
      · exact h
      · exact absurd hle (Nat.not_le.mpr hlt)
  | succ turns ih =>
      rw [applyDecided] at h ⊢
      simp only at h ⊢
      split at h
      · next hnone =>
          rcases h with h | ⟨hlt, hle⟩
          · exact h
          · exact absurd hle (Nat.not_le.mpr hlt)
      · next value hvalue =>
          refine ih _ ?_
          rcases h with h | ⟨hlt, hle⟩
          · left
            rw [List.lookup_cons]
            split
            · rintro ⟨⟩
            · exact h
          · by_cases heq : slot = applied.lastApplied + 1
            · left
              rw [heq, List.lookup_cons_self]
              rintro ⟨⟩
            · exact .inr ⟨Nat.lt_of_le_of_ne hlt (Ne.symm heq), hle⟩

section Decide

variable [DecidableEq P]

theorem carries_accept (a : PaxosAcceptor P) (request : AcceptRequest P) (saves : Bool) :
    a.Carries (a.accept request saves).1 := by
  rcases a.accept_cases request saves with ⟨⟨message, heq⟩, -⟩ | heq | ⟨promised, heq⟩ | ⟨-, heq⟩
  · rw [heq]
    exact .refl a
  · rw [heq]
    exact .refl a
  · rw [heq]
    exact .refl a
  · rw [heq]
    exact carries_setSlot (congrArg a.state.decided (slot_slot _ _).symm)

theorem carries_decide (a : PaxosAcceptor P) (request : DecideRequest P) (saves : Bool) :
    a.Carries (a.decide request saves).1 := by
  rcases a.decide_cases request saves with ⟨value, -, ⟨-, heq⟩ | ⟨-, message, heq⟩⟩ |
    ⟨hnone, heq | ⟨stop, hstop, heq⟩⟩
  · rw [heq]
    exact .refl a
  · rw [heq]
    exact .refl a
  · rw [heq]
    exact .refl a
  · rw [heq, hstop]
    refine ⟨fun _ => applyDecided_stops _ List.countP_le_length, fun n h slot hlt hle => ?_⟩
    intro hlost
    rw [result, applied, List.lookup_append, Option.or_eq_none_iff] at hlost
    by_cases hold : slot ≤ a.state.lastApplied
    · exact h slot hlt hold hlost.2
    · exact lookup_applyDecided _ _ _ slot (.inr ⟨Nat.lt_of_not_le hold, hle⟩) hlost.1

end Decide

end PaxosAcceptor

/-! ## What the steps of a run carry -/

/-- Every acceptor carries on. -/
def World.Carries (w w' : World P) : Prop := ∀ node, (w.acceptors node).Carries (w'.acceptors node)

theorem World.Carries.refl (w : World P) : w.Carries w := fun _ => .refl _

theorem World.setAcceptor_acceptors_of_ne (w : World P) {node n : String} (h : n ≠ node)
    (acceptor : PaxosAcceptor P) : (w.setAcceptor node acceptor).acceptors n = w.acceptors n :=
  Function.update_of_ne h _ _

theorem World.carries_setAcceptor {w : World P} {node : String} {acceptor : PaxosAcceptor P}
    (h : (w.acceptors node).Carries acceptor) : w.Carries (w.setAcceptor node acceptor) := by
  intro n
  by_cases hn : n = node
  · subst hn
    rw [World.setAcceptor_acceptors]
    exact h
  · rw [w.setAcceptor_acceptors_of_ne hn]
    exact .refl _

theorem World.Carries.of_acceptors {w w' w'' : World P} (h : w.Carries w')
    (heq : w''.acceptors = w'.acceptors) : w.Carries w'' := by
  intro n
  rw [heq]
  exact h n

theorem World.acceptors_noteError (w : World P) (e : Error) :
    (w.noteError e).acceptors = w.acceptors := by
  cases e <;> rfl

section Runs

variable [DecidableEq P] {𝒮 : Deployment}

theorem World.carries_handle (w : World P) (target : String) (saves : Bool)
    (request : Request P) : w.Carries (w.handle target saves request) := by
  cases request with
  | prepare request =>
      have h := World.carries_setAcceptor ((w.acceptors target).carries_prepare request saves)
      rw [World.handle]
      split
      · exact h.of_acceptors (World.acceptors_noteError _ _)
      · exact h.of_acceptors rfl
  | accept request =>
      have h := World.carries_setAcceptor ((w.acceptors target).carries_accept request saves)
      rw [World.handle]
      split
      · exact h.of_acceptors (World.acceptors_noteError _ _)
      · exact h.of_acceptors rfl
  | decide request =>
      have h := World.carries_setAcceptor ((w.acceptors target).carries_decide request saves)
      rw [World.handle]
      split
      · exact h.of_acceptors (World.acceptors_noteError _ _)
      · exact h.of_acceptors rfl

theorem Resumed.carries {w w' : World P} {t : TaskId} {e : Wait P}
    {r : Except Error (WaitResult P e)} (h : Resumed 𝒮 t w e w' r) : w.Carries w' := by
  cases h with
  | failed h => exact .refl w
  | reserved h =>
      exact (World.carries_setAcceptor
        ((w.acceptors t.node).carries_reserveBallot _ true)).of_acceptors rfl
  | refused minimumRound h =>
      exact World.carries_setAcceptor ((w.acceptors t.node).carries_reserveBallot _ true)
  | decided request saves =>
      exact World.carries_setAcceptor ((w.acceptors t.node).carries_decide request saves)
  | prepared h => exact .refl w
  | accepted h => exact .refl w
  | learned request => exact .refl w

/-- Every acceptor is caught up, and what it remembers it keeps. -/
def resultExtension (𝒮 : Deployment) :
    Extension (discipline 𝒮 (Condition.any (S := signature P)) (Rider.none 𝒮 P)) where
  Inv := fun w => ∀ node, (w.acceptors node).CaughtUp
  Rely := fun t w w' =>
    ∀ n, (w.acceptors t.node).Remembers n → (w'.acceptors t.node).Remembers n
  rely_refl := fun _ _ _ h => h
  rely_trans := fun h h' n hn => h' n (h n hn)
  exec := by
    intro w t a h
    cases a <;> exact ⟨h, fun _ _ hn => hn⟩
  resume := fun h hs =>
    have hc := (resumed_of_resume hs).carries
    ⟨fun node => (hc node).caughtUp (h node), fun u n => (hc u.node).remembers n⟩

/-! ## The errors of a proposal -/

/-- Neither a `KeyError` nor a `TypeError`. -/
structure Error.Expected (e : Error) : Prop where
  key : ∀ slot, e ≠ .keyError slot
  type : ∀ message, e ≠ .typeError message

theorem expected_decide {a : PaxosAcceptor P} {request : DecideRequest P} {saves : Bool}
    {e : Error} (h : (a.decide request saves).2 = .error e) : e.Expected := by
  rcases a.decide_cases request saves with ⟨value, -, ⟨-, heq⟩ | ⟨-, message, heq⟩⟩ |
    ⟨-, heq | ⟨stop, -, heq⟩⟩
  · rw [heq] at h
    cases h
  · rw [heq] at h
    cases h
    exact ⟨nofun, nofun⟩
  · rw [heq] at h
    cases h
    exact ⟨nofun, nofun⟩
  · rw [heq] at h
    cases h

theorem expected_resume {w w' : World P} {t : TaskId} {e : Wait P} {x : Choice P} {err : Error}
    (h : 𝒮.resume w t e x = some (w', .error err)) : err.Expected := by
  unfold Deployment.resume at h
  split at h
  · cases h
    exact ⟨nofun, nofun⟩
  · cases h
    exact ⟨nofun, nofun⟩
  · split at h
    · cases h
    · next acceptor e heq =>
        cases h
        rw [PaxosAcceptor.reserveBallot_error (congrArg Prod.snd heq)]
        exact ⟨nofun, nofun⟩
  · injection h with h
    exact expected_decide (congrArg Prod.snd h)
  · injection h with h
    exact expected_decide (congrArg Prod.snd h)
  · split at h <;> cases h
  · split at h <;> cases h
  · cases h
  · cases h

theorem raises_singleDecision (responses : List (PrepareResponse P)) :
    (ofExcept (S := signature P) (PaxosProposer.singleDecision responses)).Raises
      Error.Expected := by
  refine raises_ofExcept fun e he => ?_
  rw [PaxosProposer.singleDecision] at he
  split at he
  · cases he
  · split at he
    · cases he
      exact ⟨by rintro _ ⟨⟩, by rintro _ ⟨⟩⟩
    · cases he

omit [DecidableEq P] in
theorem raises_learn (self : PaxosProposer) (slot : Nat) (value : PaxosValue P) :
    (self.learn slot value).Raises Error.Expected :=
  (raises_await _).bind fun _ => (raises_perform _).bind fun _ => raises_await _

theorem raises_decideSlotLoop (self : PaxosProposer) (slot : Nat) (proposed : PaxosValue P)
    (attempts observedRound : Nat) :
    (self.decideSlotLoop slot proposed attempts observedRound).Raises Error.Expected := by
  induction attempts generalizing observedRound with
  | zero => exact ⟨by rintro _ ⟨⟩, by rintro _ ⟨⟩⟩
  | succ attempts ih =>
      refine (raises_await _).bind fun ballot => (raises_perform _).bind fun _ => ?_
      refine (raises_await _).bind fun replies => (raises_require ⟨by rintro _ ⟨⟩, by rintro _ ⟨⟩⟩).bind fun _ => ?_
      refine (raises_singleDecision _).bind fun decision => ?_
      cases decision with
      | some decided => exact (raises_learn self slot decided).bind fun _ => trivial
      | none =>
          simp only
          split
          · exact ih _
          · refine (raises_perform _).bind fun _ => (raises_await _).bind fun acceptReplies => ?_
            refine (raises_require ⟨by rintro _ ⟨⟩, by rintro _ ⟨⟩⟩).bind fun _ => ?_
            split
            · exact ih _
            · exact (raises_learn self slot _).bind fun _ => trivial

theorem raises_propose (self : PaxosProposer) (value : PaxosValue P) (turns : Nat) :
    (self.propose value turns).Raises Error.Expected := by
  induction turns with
  | zero => exact (raises_await _).bind fun never => nomatch never
  | succ turns ih =>
      refine (raises_perform _).bind fun last => ?_
      refine (raises_decideSlotLoop self _ value _ 0).bind fun decided => ?_
      split
      · trivial
      · exact ih

/-! ## The result of a proposal -/

/-- `slot` decided `value`, and the acceptor has the answer of the state machine to it, which
has applied the slots before it in order. -/
structure PaxosAcceptor.Answered (a : PaxosAcceptor P) (value : PaxosValue P) (slot : Nat)
    (result : StateMachineResult P) : Prop where
  positive : 1 ≤ slot
  applied : ∀ m, 1 ≤ m → m ≤ slot → a.state.decided m ≠ none
  decided : a.state.decided slot = some value
  available : a.result slot = some result
  own : resultAt a.state.decided slot = some result

omit [DecidableEq P] in
/-- A slot after `n` that is decided and at most one behind the applied ones is applied, and
an acceptor that remembers what it applied after `n` has its result. -/
theorem PaxosAcceptor.WellFormed.answered {a : PaxosAcceptor P} (h : a.WellFormed)
    (hcaught : a.CaughtUp) {n slot : Nat} (hremembers : a.Remembers n) (hlt : n < slot)
    (hle : slot ≤ a.state.lastApplied + 1) {value : PaxosValue P}
    (hdecided : a.state.decided slot = some value) : ∃ result, a.Answered value slot result := by
  have happlied : slot ≤ a.state.lastApplied := by
    by_contra hnot
    have heq : slot = a.state.lastApplied + 1 := by omega
    rw [heq, hcaught] at hdecided
    cases hdecided
  obtain ⟨result, hresult⟩ := Option.ne_none_iff_exists'.mp (hremembers slot hlt happlied)
  obtain ⟨l₁, l₂, hl, -⟩ := List.lookup_eq_some_iff.mp hresult
  obtain ⟨hpos, -, hown⟩ := h.results slot result (by simp [hl])
  exact ⟨result, hpos, fun m hm hm' => h.applied m hm (Nat.le_trans hm' happlied), hdecided,
    hresult, hown⟩

/-- The triple of a function of the node under the extended discipline, whose errors are
expected. -/
abbrev Finds (𝒮 : Deployment) (t : TaskId) (c : Call P) {α : Type} (F : World P → Prop)
    (p : Co P α) (Q : World P → α → Prop) : Prop :=
  (resultExtension 𝒮).discipline.Triple t c F p Q fun _ e => e.Harmless ∧ e.Expected

variable {t : TaskId} {c : Call P}

/-- The node has applied `n` slots and remembers what it applied after them. -/
def World.Since (w : World P) (node : String) (n : Nat) : Prop :=
  n ≤ (w.acceptors node).state.lastApplied ∧ (w.acceptors node).Remembers n

theorem propose_finds (self : PaxosProposer) (hself : self.members = 𝒮.members)
    (value : PaxosValue P) (n turns : Nat) :
    Finds 𝒮 t c (fun w => w.Since t.node n) (self.propose value turns) fun w r =>
      ∃ result, (w.acceptors t.node).Answered value r.1 result := by
  have hpropose : Finds 𝒮 t c (fun w => n ≤ (w.acceptors t.node).state.lastApplied)
      (self.propose value turns) fun w r => n < r.1 ∧ r.2 = value ∧ Decides 𝒮 t r.1 w value ∧
        r.1 ≤ (w.acceptors t.node).state.lastApplied + 1 :=
    ((resultExtension 𝒮).triple (propose_spec self hself value n turns)).raises
      (fun h => expected_resume h) (raises_propose self value turns)
  have hstable : (resultExtension 𝒮).discipline.Stable t
      fun w : World P => (w.acceptors t.node).Remembers n := fun _ _ _ hr _ h => hr.2 n h
  have hspec := hpropose.frame_own hstable (fun w a h => by cases a <;> exact h)
    fun hs h => ((resumed_of_resume hs).carries t.node).remembers n h
  refine hspec.mono (fun w _ h => h) (fun w r hi h => ?_) fun w e _ h => h.1
  obtain ⟨⟨hlt, -, hdecides, hle⟩, hremembers⟩ := h
  exact (hi.1.1.wellFormed t.node).answered (hi.2 t.node) hremembers hlt hle hdecides.2

theorem result_finds (value : PaxosValue P) (slot : Nat) :
    Finds 𝒮 t c (fun w => ∃ result, (w.acceptors t.node).Answered value slot result)
      (act (.result slot)) fun w r =>
        ∃ result, r = some result ∧ (w.acceptors t.node).Answered value slot result :=
  .act fun _ hi ⟨result, h⟩ => ⟨.refl hi, result, h.available, h⟩

theorem read_finds (self : PaxosProposer) (hself : self.members = 𝒮.members) (n turns : Nat) :
    Finds 𝒮 t c (fun w => w.Since t.node n) (self.read turns) fun w snapshot =>
      ∃ slot, (w.acceptors t.node).Answered ⟨.readBarrier⟩ slot (.snapshot snapshot) := by
  refine .bind (propose_finds self hself _ n turns) fun proposed => ?_
  refine .bind (result_finds _ proposed.1) fun found => ?_
  cases found with
  | none => exact .raise fun _ _ ⟨_, h, _⟩ => nomatch h
  | some result =>
      cases result with
      | snapshot snapshot =>
          refine .ret fun w _ h => ?_
          obtain ⟨result, heq, hans⟩ := h
          cases heq
          exact ⟨_, hans⟩
      | swapped swapped =>
          -- A barrier is never answered by a swap.
          refine .raise fun w _ h => ?_
          obtain ⟨result, heq, hans⟩ := h
          cases heq
          have hown := hans.own
          rw [resultAt, hans.decided] at hown
          cases hown

theorem compareAndSet_finds (self : PaxosProposer) (hself : self.members = 𝒮.members)
    (expectedVersion : Nat) (newChain : VirtualLog.LogChain P) (n turns : Nat) :
    Finds 𝒮 t c (fun w => w.Since t.node n)
      (self.compareAndSet expectedVersion newChain turns) fun w swapped =>
        ∃ slot, (w.acceptors t.node).Answered ⟨.compareAndSet expectedVersion newChain⟩ slot
          (.swapped swapped) := by
  refine .bind (propose_finds self hself _ n turns) fun proposed => ?_
  refine .bind (result_finds _ proposed.1) fun found => ?_
  cases found with
  | none => exact .raise fun _ _ ⟨_, h, _⟩ => nomatch h
  | some result =>
      cases result with
      | swapped swapped =>
          refine .ret fun w _ h => ?_
          obtain ⟨result, heq, hans⟩ := h
          cases heq
          exact ⟨_, hans⟩
      | snapshot snapshot =>
          -- A swap is never answered by a bare snapshot.
          refine .raise fun w _ h => ?_
          obtain ⟨result, heq, hans⟩ := h
          cases heq
          have hown := hans.own
          rw [resultAt, hans.decided] at hown
          simp only [Option.map_some, apply] at hown
          split at hown <;> cases hown

/-! ## Every run -/

/-- How a call ended, and the acceptor of its node then. -/
structure Ending (P : Type) where
  call : Call P
  ended : Except Error (Outcome P)
  acceptor : PaxosAcceptor P

/-- Keeps how every call of every peer ended. -/
def endObserver : Observer (signature P) (World P) TaskId (Call P) (Outcome P)
    (List (Ending P)) where
  start := fun _ _ _ endings => endings
  exec := fun _ _ _ endings => endings
  resume := fun _ _ _ _ endings => endings
  finish := fun w t c o endings => ⟨c, o, w.acceptors t.node⟩ :: endings

/-- The value that a call of the MetaStore proposes. -/
def Call.proposed : Call P → Option (PaxosValue P)
  | .decideSlot _ _ => none
  | .read _ => some ⟨.readBarrier⟩
  | .compareAndSet expectedVersion newChain _ => some ⟨.compareAndSet expectedVersion newChain⟩

/-- The outcome that a call makes of a result. -/
def Outcome.ofResult : StateMachineResult P → Outcome P
  | .snapshot chain => .snapshot chain
  | .swapped result => .swapped result

/-- A call ended without a `KeyError` or a `TypeError`; one that proposed a value and returned
found the answer to this value, at a slot that decided it. -/
structure Ending.Own (e : Ending P) : Prop where
  key : ∀ slot, e.ended ≠ .error (.keyError slot)
  type : ∀ message, e.ended ≠ .error (.typeError message)
  own : ∀ value outcome, e.call.proposed = some value → e.ended = .ok outcome →
    ∃ slot result, e.acceptor.Answered value slot result ∧ outcome = .ofResult result

theorem program_finds (self : PaxosProposer) (hself : self.members = 𝒮.members) (n : Nat)
    (call : Call P) :
    Finds 𝒮 t c (fun w => w.Since t.node n) (Deployment.program self call) fun w o =>
      ∀ value, call.proposed = some value →
        ∃ slot result, (w.acceptors t.node).Answered value slot result ∧ o = .ofResult result := by
  cases call with
  | decideSlot slot proposed =>
      have hloop : Finds 𝒮 t c (fun _ => True)
          (self.decideSlotLoop slot proposed self.maxBallotAttempts 0) (Decides 𝒮 t slot) :=
        ((resultExtension 𝒮).triple (decideSlotLoop_spec self hself slot proposed _ 0)).raises
          (fun h => expected_resume h) (raises_decideSlotLoop self slot proposed _ 0)
      exact .bind (hloop.pre fun _ _ _ => trivial) fun _ => .ret fun _ _ _ _ hv => nomatch hv
  | read turns =>
      refine .bind (read_finds self hself n turns) fun snapshot => .ret fun w _ h value hv => ?_
      obtain ⟨slot, hans⟩ := h
      cases hv
      exact ⟨slot, _, hans, rfl⟩
  | compareAndSet expectedVersion newChain turns =>
      refine .bind (compareAndSet_finds self hself expectedVersion newChain n turns)
        fun swapped => .ret fun w _ h value hv => ?_
      obtain ⟨slot, hans⟩ := h
      cases hv
      exact ⟨slot, _, hans, rfl⟩

def endWatch (𝒮 : Deployment) :
    Watch (resultExtension (P := P) 𝒮).discipline (endObserver (P := P)) where
  Inv := fun _ endings => ∀ e ∈ endings, e.Own
  Rely := fun _ _ _ => True
  rely_refl := fun _ _ => trivial
  rely_trans := fun _ _ => trivial
  grow := fun _ h => h
  start := fun _ _ _ h => h
  exec := fun _ _ h => h
  resume := fun _ _ _ h => h
  start_rely := fun _ _ _ _ => trivial
  exec_rely := fun _ _ _ _ => trivial
  resume_rely := fun _ _ _ _ _ => trivial

omit [DecidableEq P] in
theorem acceptors_finish (w : World P) (t : TaskId) (o : Except Error (Outcome P)) :
    (Deployment.finish w t o).acceptors = w.acceptors := by
  cases o with
  | ok outcome => rfl
  | error e => exact World.acceptors_noteError w e

/-- A world with the same acceptors has kept what was added. -/
theorem added_of_acceptors {w w' : World P} (h : ∀ node, (w.acceptors node).CaughtUp)
    (heq : w'.acceptors = w.acceptors) : (resultExtension 𝒮).Added t w w' := by
  refine ⟨fun node => ?_, fun u _ n hn => ?_⟩
  · rw [heq]
    exact h node
  · rw [heq]
    exact hn

theorem end_sound : ((endWatch (P := P) 𝒮).discipline Condition.any).Sound where
  start := by
    intro w t c w' p hi _ hst
    obtain ⟨⟨w₁, p'⟩, hst', heq⟩ := Option.map_eq_some_iff.mp hst
    obtain ⟨rfl, rfl⟩ := Prod.mk.inj heq
    change 𝒮.start w.1 t c = some (w₁, p') at hst'
    rw [Deployment.start] at hst'
    split at hst'
    · next hmem =>
        cases hst'
        have hg := w.1.grow_invoke t w.1.completed.length
        have hk : ((endWatch 𝒮).discipline Condition.any).Kept t w
            ({ w.1 with invoked := Function.update w.1.invoked t w.1.completed.length }, w.2) :=
          Watch.kept_iff.mpr ⟨Extension.kept_iff.mpr ⟨kept_invoke hi.1.1 t _,
            added_of_acceptors hi.1.2 rfl⟩, hi.2, fun _ _ => trivial⟩
        have hp : ((endWatch 𝒮).discipline Condition.any).Triple t c
            (fun w' => w'.1.Since t.node (w.1.acceptors t.node).state.lastApplied) _ _ _ :=
          (endWatch 𝒮).triple (fun _ => trivial)
            (program_finds (𝒮.proposer t.node hmem) rfl _ c)
        have hsince : w.1.Since t.node (w.1.acceptors t.node).state.lastApplied :=
          ⟨Nat.le_refl _, fun slot hlt hle => absurd hle (Nat.not_le.mpr hlt)⟩
        refine ⟨hg, hp.safe_finish hk hsince (fun v o hi' h => ?_) fun v e hi' h => ?_⟩
        · refine Watch.kept_iff.mpr ⟨Extension.kept_iff.mpr ⟨kept_finish hi'.1.1 t o trivial,
            added_of_acceptors hi'.1.2 rfl⟩, fun e he => ?_, fun _ _ => trivial⟩
          rcases List.mem_cons.mp he with rfl | he
          · refine ⟨by rintro _ ⟨⟩, by rintro _ ⟨⟩, fun value outcome hv ho => ?_⟩
            cases ho
            exact h value hv
          · exact hi'.2 e he
        · refine Watch.kept_iff.mpr ⟨Extension.kept_iff.mpr ⟨kept_raise hi'.1.1 t h.1,
            added_of_acceptors hi'.1.2 (acceptors_finish v.1 t (.error e))⟩, fun e' he => ?_,
            fun _ _ => trivial⟩
          rcases List.mem_cons.mp he with rfl | he
          · exact ⟨fun slot heq => h.2.key slot (Except.error.inj heq),
              fun message heq => h.2.type message (Except.error.inj heq), by rintro _ _ _ ⟨⟩⟩
          · exact hi'.2 e' he
    · cases hst'
  disturb := by
    intro w d w' hi hd
    obtain ⟨w₁, hd', rfl⟩ := Option.map_eq_some_iff.mp hd
    obtain ⟨hi', hg, hr⟩ := (sound_none 𝒮).disturb hi.1.1 hd'
    cases d with
    | handle message target saves =>
        change Deployment.disturb w.1 (.handle message target saves) = some w₁ at hd'
        rw [Deployment.disturb] at hd'
        split at hd'
        · cases hd'
          have hc := w.1.carries_handle target saves message.request
          exact ⟨⟨⟨hi', fun node => (hc node).caughtUp (hi.1.2 node)⟩, hi.2⟩, hg,
            fun u hu => ⟨⟨hr u hu, fun n => (hc u.node).remembers n⟩, trivial⟩⟩
        · cases hd'
    | crash node =>
        cases hd'
        -- The restarted node has the state that it had; its own tasks are gone.
        have hstate := ((hi.1.1.1.wellFormed node).restart).2
        refine ⟨⟨⟨hi', fun n => ?_⟩, hi.2⟩, hg, fun u hu => ⟨⟨hr u hu, fun n hn => ?_⟩, trivial⟩⟩
        · by_cases hnode : n = node
          · subst hnode
            rw [World.setAcceptor_acceptors, PaxosAcceptor.CaughtUp, hstate]
            exact hi.1.2 n
          · rw [World.setAcceptor_acceptors_of_ne _ hnode]
            exact hi.1.2 n
        · have hnode : u.node ≠ node := of_decide_eq_true hu
          rw [World.setAcceptor_acceptors_of_ne _ hnode]
          exact hn

/-- **The result of a proposed command is there and is its own.** In every run of concurrent
calls, messages, failed saves and restarts, no call ends with a `KeyError` or a `TypeError`,
and a read or `compare_and_set` that returned found, at a slot that decided its own command,
what the state machine answers there after the slots before it. -/
theorem result_available {s : State (signature P) (World P × List (Ending P)) TaskId (Call P)
    (Outcome P)}
    (h : (𝒮.runtime.observed endObserver).Reachable (· = (World.initial P, [])) s) :
    ∀ e ∈ s.world.2, e.Own := by
  have hinit : ∀ w : World P × List (Ending P), w = (World.initial P, []) →
      ((endWatch 𝒮).discipline Condition.any).Inv w := by
    rintro w rfl
    exact ⟨⟨⟨inv_initial 𝒮, trivial⟩, fun _ => rfl⟩, fun _ h => absurd h List.not_mem_nil⟩
  exact (end_sound.reachable hinit h).1.2

end Runs

/-- The calls of a node, before and after its restart, all return. -/
theorem mismatchRun_ends :
    (((threeNodes.runtime.observed endObserver).run
        (fresh _ _ _ _ (World.initial Unit, [])) mismatchRun).map fun s =>
      s.world.2.map fun e => e.ended.toOption.isSome) = some [true, true, true] := by
  decide +kernel

theorem result_available_mismatch :
    ∃ s : State (signature Unit) (World Unit × List (Ending Unit)) TaskId (Call Unit)
        (Outcome Unit),
      (s.world.2.map fun e => e.ended.toOption.isSome) = [true, true, true] ∧
        ∀ e ∈ s.world.2, e.Own := by
  obtain ⟨s, hs, hends⟩ := Option.map_eq_some_iff.mp mismatchRun_ends
  exact ⟨s, hends, result_available (Reachable.run (.init rfl) hs)⟩

end DelosLab.Paxos
