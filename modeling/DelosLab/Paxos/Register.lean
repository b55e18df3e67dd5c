import DelosLab.Paxos.Acceptor

/-!
# The register of an acceptor

An acceptor applies its decided slots in order. What its state machine holds and
what it answers for a slot are functions of the decided values alone.
-/

namespace DelosLab.Paxos

open VirtualLog (VersionedLogChain)

variable {P : Type}

def PersistentPaxosState.decided (state : PersistentPaxosState P) (slot : Nat) :
    Option (PaxosValue P) :=
  (state.slot slot).decidedValue

/-- The register after the decided commands of the slots from 1 to `n`. -/
def registerAt (decided : Nat → Option (PaxosValue P)) : Nat → VersionedLogChain P
  | 0 => VersionedLogChain.zero
  | n + 1 =>
      match decided (n + 1) with
      | some value => (apply (registerAt decided n) value.command).1
      | none => registerAt decided n

/-- What the state machine answers for slot `n`. -/
def resultAt (decided : Nat → Option (PaxosValue P)) (n : Nat) : Option (StateMachineResult P) :=
  (decided n).map fun value => (apply (registerAt decided (n - 1)) value.command).2

theorem registerAt_congr {decided decided' : Nat → Option (PaxosValue P)} {n : Nat}
    (h : ∀ m, 1 ≤ m → m ≤ n → decided m = decided' m) :
    registerAt decided n = registerAt decided' n := by
  induction n with
  | zero => rfl
  | succ n ih =>
      have hn := ih fun m hm hle => h m hm (Nat.le_succ_of_le hle)
      rw [registerAt, registerAt, h (n + 1) (Nat.le_add_left 1 n) (Nat.le_refl _), hn]

theorem resultAt_congr {decided decided' : Nat → Option (PaxosValue P)} {n : Nat} (hn : 1 ≤ n)
    (h : ∀ m, 1 ≤ m → m ≤ n → decided m = decided' m) :
    resultAt decided n = resultAt decided' n := by
  rw [resultAt, resultAt, h n hn (Nat.le_refl _),
    registerAt_congr fun m hm hle => h m hm (Nat.le_trans hle (Nat.sub_le n 1))]

theorem version_registerAt_succ (decided : Nat → Option (PaxosValue P)) (n : Nat) :
    (registerAt decided n).version ≤ (registerAt decided (n + 1)).version := by
  rw [registerAt]
  cases decided (n + 1) with
  | none => exact Nat.le_refl _
  | some value => exact version_le_apply _ _

/-- Versions never decrease along the slots. -/
theorem version_registerAt_le (decided : Nat → Option (PaxosValue P)) {n m : Nat} (h : n ≤ m) :
    (registerAt decided n).version ≤ (registerAt decided m).version := by
  induction m, h using Nat.le_induction with
  | base => exact Nat.le_refl _
  | succ m _ ih => exact Nat.le_trans ih (version_registerAt_succ decided m)

/-! ## What an acceptor keeps -/

/-- The storage has every saved state, and the register is what the decided slots
make of it. -/
structure PaxosAcceptor.WellFormed (a : PaxosAcceptor P) : Prop where
  durable : a.storage = a.state
  stateMachine : a.stateMachine = a.state.stateMachine
  register : a.state.stateMachine = registerAt a.state.decided a.state.lastApplied
  applied : ∀ slot, 1 ≤ slot → slot ≤ a.state.lastApplied → a.state.decided slot ≠ none
  results : ∀ slot r, (slot, r) ∈ a.appliedResults →
    1 ≤ slot ∧ slot ≤ a.state.lastApplied ∧ resultAt a.state.decided slot = some r

/-- What the operations of an acceptor only ever increase. -/
structure PaxosAcceptor.Advances (a a' : PaxosAcceptor P) : Prop where
  nodeId : a'.nodeId = a.nodeId
  decided : ∀ slot v, a.state.decided slot = some v → a'.state.decided slot = some v
  lastApplied : a.state.lastApplied ≤ a'.state.lastApplied
  localRound : a.state.localRound ≤ a'.state.localRound
  promised : ∀ slot p, (a.state.slot slot).promisedBallot = some p →
    ∃ p', (a'.state.slot slot).promisedBallot = some p' ∧ p ≤ p'

theorem PaxosAcceptor.Advances.refl (a : PaxosAcceptor P) : a.Advances a :=
  ⟨rfl, fun _ _ h => h, Nat.le_refl _, Nat.le_refl _, fun _ p h => ⟨p, h, le_refl p⟩⟩

theorem PaxosAcceptor.Advances.trans {a b c : PaxosAcceptor P} (h : a.Advances b)
    (h' : b.Advances c) : a.Advances c := by
  refine ⟨h'.nodeId.trans h.nodeId, fun slot v hv => h'.decided slot v (h.decided slot v hv),
    Nat.le_trans h.lastApplied h'.lastApplied, Nat.le_trans h.localRound h'.localRound,
    fun slot p hp => ?_⟩
  obtain ⟨p', hp', hle⟩ := h.promised slot p hp
  obtain ⟨p'', hp'', hle'⟩ := h'.promised slot p' hp'
  exact ⟨p'', hp'', le_trans hle hle'⟩

/-- Changing a slot without its decision changes no register. -/
theorem decided_replaceSlot {state : PersistentPaxosState P} {changed : AcceptorSlotState P}
    (h : changed.decidedValue = state.decided changed.slot) (n : Nat) :
    (replaceSlot state changed).decided n = state.decided n := by
  rw [PersistentPaxosState.decided]
  by_cases hn : n = changed.slot
  · subst hn
    rw [slot_replaceSlot_self, h]
  · rw [slot_replaceSlot_of_ne hn]
    rfl

theorem PaxosAcceptor.WellFormed.save {a : PaxosAcceptor P} (h : a.WellFormed)
    {state : PersistentPaxosState P} (hd : ∀ n, state.decided n = a.state.decided n)
    (hl : state.lastApplied = a.state.lastApplied)
    (hm : state.stateMachine = a.state.stateMachine) : (a.save state).WellFormed := by
  have hdecided : state.decided = a.state.decided := funext hd
  refine ⟨rfl, ?_, ?_, ?_, ?_⟩
  · exact h.stateMachine.trans hm.symm
  · show state.stateMachine = registerAt state.decided state.lastApplied
    rw [hm, hdecided, hl]
    exact h.register
  · show ∀ slot, 1 ≤ slot → slot ≤ state.lastApplied → state.decided slot ≠ none
    rw [hdecided, hl]
    exact h.applied
  · show ∀ slot r, (slot, r) ∈ a.appliedResults →
      1 ≤ slot ∧ slot ≤ state.lastApplied ∧ resultAt state.decided slot = some r
    rw [hdecided, hl]
    exact h.results

/-- A restarted acceptor is well formed and has lost only its results. -/
theorem PaxosAcceptor.WellFormed.restart {a : PaxosAcceptor P} (h : a.WellFormed) :
    (PaxosAcceptor.create a.nodeId a.storage).WellFormed ∧
      (PaxosAcceptor.create a.nodeId a.storage).state = a.state := by
  refine ⟨⟨rfl, rfl, ?_, ?_, fun slot r hr => by cases hr⟩, h.durable⟩
  · rw [PaxosAcceptor.create, h.durable]
    exact h.register
  · rw [PaxosAcceptor.create, h.durable]
    exact h.applied

/-! ## The operations -/

theorem PaxosAcceptor.WellFormed.reserveBallot {a : PaxosAcceptor P} (h : a.WellFormed)
    (minimumRound : Nat) (saves : Bool) : (a.reserveBallot minimumRound saves).1.WellFormed := by
  rw [PaxosAcceptor.reserveBallot]
  split
  · exact h.save (fun _ => rfl) rfl rfl
  · exact h

theorem PaxosAcceptor.advances_reserveBallot (a : PaxosAcceptor P) (minimumRound : Nat)
    (saves : Bool) : a.Advances (a.reserveBallot minimumRound saves).1 := by
  rw [PaxosAcceptor.reserveBallot]
  split
  · refine ⟨rfl, fun _ _ h => h, Nat.le_refl _, ?_, fun _ p h => ⟨p, h, le_refl p⟩⟩
    exact Nat.le_trans (Nat.le_succ _) (Nat.le_max_left _ _)
  · exact .refl a

/-- A reserved ballot is the node's own and above every round that it has used. -/
theorem PaxosAcceptor.reserveBallot_ok {a : PaxosAcceptor P} {minimumRound : Nat} {ballot : Ballot}
    (h : (a.reserveBallot minimumRound true).2 = .ok ballot) :
    ballot.nodeId = a.nodeId ∧ a.state.localRound < ballot.round ∧
      (a.reserveBallot minimumRound true).1.state.localRound = ballot.round := by
  rw [PaxosAcceptor.reserveBallot] at h ⊢
  simp only [if_true] at h ⊢
  split at h
  · cases h
    exact ⟨rfl, Nat.lt_of_succ_le (Nat.le_max_left _ _), rfl⟩
  · cases h

/-- A node without a name has no ballots. -/
theorem PaxosAcceptor.reserveBallot_error {a : PaxosAcceptor P} {minimumRound : Nat} {e : Error}
    (h : (a.reserveBallot minimumRound true).2 = .error e) : e = .validation := by
  rw [PaxosAcceptor.reserveBallot] at h
  simp only [if_true] at h
  split at h
  · cases h
  · cases h
    rfl

/-- The shapes of `prepare`'s effect: nothing, or a higher promise. -/
theorem PaxosAcceptor.prepare_cases (a : PaxosAcceptor P) (request : PrepareRequest)
    (saves : Bool) :
    (a.prepare request saves = (a, .error .storage)) ∨
    (∃ promised, (a.state.slot request.slot).outbid request.ballot = some promised ∧
      a.prepare request saves = (a, .ok
        { promised := false
          promisedBallot := promised
          acceptedBallot := (a.state.slot request.slot).acceptedBallot
          acceptedValue := (a.state.slot request.slot).acceptedValue
          decidedValue := (a.state.slot request.slot).decidedValue })) ∨
    ((a.state.slot request.slot).outbid request.ballot = none ∧
      a.prepare request saves =
        (a.setSlot ((a.state.slot request.slot).withPromise request.ballot), .ok
        { promised := true
          promisedBallot := request.ballot
          acceptedBallot := (a.state.slot request.slot).acceptedBallot
          acceptedValue := (a.state.slot request.slot).acceptedValue
          decidedValue := (a.state.slot request.slot).decidedValue })) := by
  rw [PaxosAcceptor.prepare]
  cases hb : (a.state.slot request.slot).outbid request.ballot with
  | some promised => exact .inr (.inl ⟨promised, rfl, rfl⟩)
  | none =>
      cases saves with
      | true => exact .inr (.inr ⟨rfl, rfl⟩)
      | false => exact .inl rfl

/-- A ballot that is not outbid is at least the promise. -/
theorem AcceptorSlotState.le_of_outbid {s : AcceptorSlotState P} {b p : Ballot}
    (h : s.outbid b = none) (hp : s.promisedBallot = some p) : p ≤ b := by
  rw [AcceptorSlotState.outbid, hp, Option.filter_some] at h
  by_contra hlt
  simp [not_le.mp hlt] at h

section Decide

variable [DecidableEq P]

/-- The shapes of `accept`'s effect. -/
theorem PaxosAcceptor.accept_cases (a : PaxosAcceptor P) (request : AcceptRequest P)
    (saves : Bool) :
    ((∃ message, a.accept request saves = (a, .error (.safety message))) ∧
      (a.state.slot request.slot).acceptedBallot = some request.ballot ∧
      ∃ v, (a.state.slot request.slot).acceptedValue = some v ∧ v ≠ request.value) ∨
    (a.accept request saves = (a, .error .storage)) ∨
    (∃ promised, a.accept request saves = (a, .ok ⟨false, promised⟩)) ∨
    ((a.state.slot request.slot).outbid request.ballot = none ∧
      a.accept request saves =
        (a.setSlot ((a.state.slot request.slot).withVote request.ballot request.value),
          .ok ⟨true, request.ballot⟩)) := by
  rw [PaxosAcceptor.accept]
  simp only
  split
  · next h =>
      obtain ⟨hb, hsome, hne⟩ := h
      obtain ⟨v, hv⟩ := Option.ne_none_iff_exists'.mp hsome
      exact .inl ⟨⟨_, rfl⟩, hb, v, hv, fun heq => hne (heq ▸ hv)⟩
  split
  · exact .inr (.inr (.inl ⟨_, rfl⟩))
  cases hb : (a.state.slot request.slot).outbid request.ballot with
  | some promised => exact .inr (.inr (.inl ⟨promised, rfl⟩))
  | none =>
      cases saves with
      | true => exact .inr (.inr (.inr ⟨rfl, rfl⟩))
      | false => exact .inr (.inl rfl)

end Decide

/-! ## Setting one slot -/

theorem PaxosAcceptor.slot_setSlot_of_eq {a : PaxosAcceptor P} {changed : AcceptorSlotState P}
    {n : Nat} (h : n = changed.slot) : (a.setSlot changed).state.slot n = changed :=
  slot_replaceSlot_of_eq h

theorem PaxosAcceptor.slot_setSlot_of_ne {a : PaxosAcceptor P} {changed : AcceptorSlotState P}
    {n : Nat} (h : n ≠ changed.slot) : (a.setSlot changed).state.slot n = a.state.slot n :=
  slot_replaceSlot_of_ne h

theorem PaxosAcceptor.WellFormed.setSlot {a : PaxosAcceptor P} (h : a.WellFormed)
    {changed : AcceptorSlotState P} (hd : changed.decidedValue = a.state.decided changed.slot) :
    (a.setSlot changed).WellFormed :=
  h.save (decided_replaceSlot hd) rfl rfl

/-- A promise that is not outbid only moves up. -/
theorem PaxosAcceptor.advances_setSlot {a : PaxosAcceptor P} {ballot : Ballot}
    {changed : AcceptorSlotState P} (hb : (a.state.slot changed.slot).outbid ballot = none)
    (hp : changed.promisedBallot = some ballot)
    (hd : changed.decidedValue = a.state.decided changed.slot) :
    a.Advances (a.setSlot changed) := by
  refine ⟨rfl, fun n v hv => ?_, Nat.le_refl _, Nat.le_refl _, fun n p hn => ?_⟩
  · show (replaceSlot a.state changed).decided n = some v
    rw [decided_replaceSlot hd]
    exact hv
  · by_cases hn' : n = changed.slot
    · rw [PaxosAcceptor.slot_setSlot_of_eq hn']
      exact ⟨ballot, hp, AcceptorSlotState.le_of_outbid hb (hn' ▸ hn)⟩
    · rw [PaxosAcceptor.slot_setSlot_of_ne hn']
      exact ⟨p, hn, le_refl p⟩

/-! ## Applying decided slots -/

theorem PaxosAcceptor.lastApplied_le_applyDecided (state : PersistentPaxosState P) (turns : Nat)
    (applied : PaxosAcceptor.Applied P) :
    applied.lastApplied ≤ (PaxosAcceptor.applyDecided state turns applied).lastApplied := by
  induction turns generalizing applied with
  | zero => exact Nat.le_refl _
  | succ turns ih =>
      rw [PaxosAcceptor.applyDecided]
      simp only
      split
      · exact Nat.le_refl _
      · exact Nat.le_of_succ_le (ih ⟨applied.lastApplied + 1, _, _⟩)

/-- What the loop of `decide` has done when it stops. -/
theorem PaxosAcceptor.applyDecided_spec (state : PersistentPaxosState P) (turns : Nat)
    (applied : PaxosAcceptor.Applied P)
    (h : applied.stateMachine = registerAt state.decided applied.lastApplied) :
    let stop := PaxosAcceptor.applyDecided state turns applied
    stop.stateMachine = registerAt state.decided stop.lastApplied ∧
      (∀ slot, applied.lastApplied < slot → slot ≤ stop.lastApplied → state.decided slot ≠ none) ∧
      ∀ slot r, (slot, r) ∈ stop.results → (slot, r) ∈ applied.results ∨
        (applied.lastApplied < slot ∧ slot ≤ stop.lastApplied ∧
          resultAt state.decided slot = some r) := by
  induction turns generalizing applied with
  | zero =>
      exact ⟨h, fun slot hlt hle => absurd hle (Nat.not_le.mpr hlt),
        fun _ _ hr => .inl hr⟩
  | succ turns ih =>
      rw [PaxosAcceptor.applyDecided]
      simp only
      split
      · exact ⟨h, fun slot hlt hle => absurd hle (Nat.not_le.mpr hlt),
          fun _ _ hr => .inl hr⟩
      · next value hvalue =>
          have hdec : state.decided (applied.lastApplied + 1) = some value := hvalue
          have hnext : (apply applied.stateMachine value.command).1 =
              registerAt state.decided (applied.lastApplied + 1) := by
            rw [registerAt, hdec, h]
          let next : PaxosAcceptor.Applied P := ⟨applied.lastApplied + 1,
            (apply applied.stateMachine value.command).1,
            (applied.lastApplied + 1, (apply applied.stateMachine value.command).2) ::
              applied.results⟩
          obtain ⟨hreg, hall, hres⟩ := ih next hnext
          have hle : applied.lastApplied + 1 ≤ _ :=
            PaxosAcceptor.lastApplied_le_applyDecided state turns next
          refine ⟨hreg, fun slot hlt hslot => ?_, fun slot r hr => ?_⟩
          · by_cases heq : slot = applied.lastApplied + 1
            · rw [heq, hdec]
              simp
            · exact hall slot (Nat.lt_of_le_of_ne hlt (Ne.symm heq)) hslot
          · rcases hres slot r hr with hr | ⟨hlt, hslot, hr⟩
            · rcases List.mem_cons.mp hr with heq | hr
              · cases heq
                refine .inr ⟨Nat.lt_succ_self _, hle, ?_⟩
                rw [resultAt, hdec, Nat.add_sub_cancel, ← h]
                rfl
              · exact .inl hr
            · exact .inr ⟨Nat.lt_of_succ_lt hlt, hslot, hr⟩

section Decide

variable [DecidableEq P]

/-- The shapes of `decide`'s effect: the slot was decided before, or it is now and
the register has moved on. -/
theorem PaxosAcceptor.decide_cases (a : PaxosAcceptor P) (request : DecideRequest P)
    (saves : Bool) :
    (∃ value, a.state.decided request.slot = some value ∧
      ((value = request.value ∧ a.decide request saves = (a, .ok ())) ∨
        (value ≠ request.value ∧
          ∃ message, a.decide request saves = (a, .error (.safety message))))) ∨
    (a.state.decided request.slot = none ∧ (a.decide request saves = (a, .error .storage) ∨
      ∃ stop, stop = PaxosAcceptor.applyDecided (a.decidedState request)
          (a.decidedState request).slots.length ⟨a.state.lastApplied, a.stateMachine, []⟩ ∧
        a.decide request saves = (a.applied (a.decidedState request) stop, .ok ()))) := by
  rw [PaxosAcceptor.decide]
  simp only
  split
  · next value hvalue =>
      refine .inl ⟨value, hvalue, ?_⟩
      by_cases hv : value = request.value
      · exact .inl ⟨hv, by rw [if_neg (not_not_intro hv)]⟩
      · exact .inr ⟨hv, _, by rw [if_pos hv]⟩
  · next hnone =>
      refine .inr ⟨hnone, ?_⟩
      cases saves with
      | true => exact .inr ⟨_, rfl, rfl⟩
      | false => exact .inl rfl

omit [DecidableEq P] in
/-- The decided values after a decision. -/
theorem PaxosAcceptor.decided_decidedState (a : PaxosAcceptor P) (request : DecideRequest P)
    (n : Nat) : (a.decidedState request).decided n =
      if n = request.slot then some request.value else a.state.decided n := by
  have hslot : ((a.state.slot request.slot).withDecision request.value).slot = request.slot :=
    slot_slot a.state request.slot
  by_cases hn : n = request.slot
  · rw [if_pos hn]
    exact congrArg AcceptorSlotState.decidedValue (slot_replaceSlot_of_eq (hn.trans hslot.symm))
  · rw [if_neg hn]
    exact congrArg AcceptorSlotState.decidedValue
      (slot_replaceSlot_of_ne fun h => hn (h.trans hslot))

omit [DecidableEq P] in
/-- Deciding an open slot keeps what was decided. -/
theorem PaxosAcceptor.decided_of_decided {a : PaxosAcceptor P} {request : DecideRequest P}
    (hnone : a.state.decided request.slot = none) {n : Nat} {v : PaxosValue P}
    (hv : a.state.decided n = some v) : (a.decidedState request).decided n = some v := by
  rw [a.decided_decidedState request n, if_neg ?_]
  · exact hv
  · rintro rfl
    rw [hnone] at hv
    cases hv

omit [DecidableEq P] in
/-- Up to the last applied slot a decision changes nothing. -/
theorem PaxosAcceptor.WellFormed.decided_eq {a : PaxosAcceptor P} (h : a.WellFormed)
    {request : DecideRequest P} (hnone : a.state.decided request.slot = none) {m : Nat}
    (hm : 1 ≤ m) (hle : m ≤ a.state.lastApplied) :
    a.state.decided m = (a.decidedState request).decided m := by
  obtain ⟨v, hv⟩ := Option.ne_none_iff_exists'.mp (h.applied m hm hle)
  rw [hv, PaxosAcceptor.decided_of_decided hnone hv]

omit [DecidableEq P] in
theorem PaxosAcceptor.WellFormed.applied_wellFormed {a : PaxosAcceptor P} (h : a.WellFormed)
    {request : DecideRequest P} (hnone : a.state.decided request.slot = none) (turns : Nat) :
    (a.applied (a.decidedState request) (PaxosAcceptor.applyDecided (a.decidedState request) turns
      ⟨a.state.lastApplied, a.stateMachine, []⟩)).WellFormed := by
  have hstart : a.stateMachine =
      registerAt (a.decidedState request).decided a.state.lastApplied := by
    rw [h.stateMachine, h.register]
    exact registerAt_congr fun m hm hle => h.decided_eq hnone hm hle
  obtain ⟨hreg, hall, hres⟩ := PaxosAcceptor.applyDecided_spec (a.decidedState request) turns
    ⟨a.state.lastApplied, a.stateMachine, []⟩ hstart
  have hle : a.state.lastApplied ≤ _ := PaxosAcceptor.lastApplied_le_applyDecided
    (a.decidedState request) turns ⟨a.state.lastApplied, a.stateMachine, []⟩
  refine ⟨rfl, rfl, hreg, fun slot hpos hslot => ?_, fun slot r hr => ?_⟩
  · by_cases hold : slot ≤ a.state.lastApplied
    · show (a.decidedState request).decided slot ≠ none
      rw [← h.decided_eq hnone hpos hold]
      exact h.applied slot hpos hold
    · exact hall slot (Nat.lt_of_not_le hold) hslot
  · rcases List.mem_append.mp hr with hr | hr
    · rcases hres slot r hr with hr | ⟨hlt, hslot, hr⟩
      · cases hr
      · exact ⟨Nat.lt_of_le_of_lt (Nat.zero_le _) hlt, hslot, hr⟩
    · obtain ⟨hpos, hslot, hr⟩ := h.results slot r hr
      refine ⟨hpos, Nat.le_trans hslot hle, ?_⟩
      rw [← hr]
      exact (resultAt_congr hpos fun m hm hm' =>
        h.decided_eq hnone hm (Nat.le_trans hm' hslot)).symm

omit [DecidableEq P] in
/-- A decision touches no promise and no accepted pair. -/
theorem PaxosAcceptor.slot_decidedState (a : PaxosAcceptor P) (request : DecideRequest P)
    (n : Nat) : (a.decidedState request).slot n = a.state.slot n ∨
      (a.decidedState request).slot n = (a.state.slot n).withDecision request.value := by
  have hslot : ((a.state.slot request.slot).withDecision request.value).slot = request.slot :=
    slot_slot a.state request.slot
  by_cases hn : n = request.slot
  · right
    rw [PaxosAcceptor.decidedState, slot_replaceSlot_of_eq (hn.trans hslot.symm), hn]
  · exact .inl (slot_replaceSlot_of_ne fun h => hn (h.trans hslot))

theorem PaxosAcceptor.advances_decide (a : PaxosAcceptor P) (request : DecideRequest P)
    (saves : Bool) : a.Advances (a.decide request saves).1 := by
  rcases a.decide_cases request saves with ⟨value, -, ⟨-, heq⟩ | ⟨-, message, heq⟩⟩ |
    ⟨hnone, heq | ⟨stop, hstop, heq⟩⟩
  · rw [heq]
    exact .refl a
  · rw [heq]
    exact .refl a
  · rw [heq]
    exact .refl a
  · rw [heq]
    have hle : a.state.lastApplied ≤ _ := PaxosAcceptor.lastApplied_le_applyDecided
      (a.decidedState request) (a.decidedState request).slots.length
      ⟨a.state.lastApplied, a.stateMachine, []⟩
    rw [← hstop] at hle
    refine ⟨rfl, fun n v hv => ?_, hle, Nat.le_refl _, fun n p hp => ?_⟩
    · exact PaxosAcceptor.decided_of_decided hnone hv
    · refine ⟨p, ?_, le_refl p⟩
      rcases a.slot_decidedState request n with hs | hs
      · exact (congrArg AcceptorSlotState.promisedBallot hs).trans hp
      · exact (congrArg AcceptorSlotState.promisedBallot hs).trans hp

end Decide

end DelosLab.Paxos
