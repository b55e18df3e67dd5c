import DelosLab.Async.Alone
import DelosLab.Paxos.Results

/-!
# A ballot without rivals

What a proposer gets when a majority of the acceptors, its own among them, answers it and
nobody else proposes: at most one ballot is outbid, the next one decides its slot.
-/

namespace DelosLab.Paxos

open Async Async.Coroutine Async.Runtime Consensus

variable {P : Type}

/-- Requests to `awake` nodes are handled and saved, waits do not fail. -/
def steady (P : Type) (awake : String → Bool) : Calm (Disturbance P) (Choice P) where
  disturb := fun d => ∃ message target, d = .handle message target true ∧ awake target = true
  answer := fun x => x ≠ .cancel ∧ x ≠ .saveFailed

theorem steady_prepared (awake : String → Bool)
    (replies : List (Option (PrepareResponse P))) :
    (steady P awake).answer (.prepared replies) :=
  ⟨by rintro ⟨⟩, by rintro ⟨⟩⟩

theorem steady_accepted (awake : String → Bool) (replies : List (Option AcceptResponse)) :
    (steady P awake).answer (.accepted replies) :=
  ⟨by rintro ⟨⟩, by rintro ⟨⟩⟩

/-! ## Operations that save -/

namespace AcceptorSlotState

/-- The answer to a Prepare request. -/
def promiseTo (s : AcceptorSlotState P) (ballot : Ballot) : PrepareResponse P :=
  { promised := (s.outbid ballot).isNone
    promisedBallot := (s.outbid ballot).getD ballot
    acceptedBallot := s.acceptedBallot
    acceptedValue := s.acceptedValue
    decidedValue := s.decidedValue }

/-- What a Prepare request leaves. -/
def afterPrepare (s : AcceptorSlotState P) (ballot : Ballot) : AcceptorSlotState P :=
  match s.outbid ballot with
  | some _ => s
  | none => s.withPromise ballot

/-- The answer to an Accept request in an open slot. -/
def voteOn (s : AcceptorSlotState P) (ballot : Ballot) : AcceptResponse :=
  ⟨(s.outbid ballot).isNone, (s.outbid ballot).getD ballot⟩

/-- Nothing was accepted and nothing decided. -/
def Unused (s : AcceptorSlotState P) : Prop := s.acceptedBallot = none ∧ s.decidedValue = none

theorem acceptedBallot_afterPrepare (s : AcceptorSlotState P) (ballot : Ballot) :
    (s.afterPrepare ballot).acceptedBallot = s.acceptedBallot := by
  unfold afterPrepare
  split <;> rfl

theorem decidedValue_afterPrepare (s : AcceptorSlotState P) (ballot : Ballot) :
    (s.afterPrepare ballot).decidedValue = s.decidedValue := by
  unfold afterPrepare
  split <;> rfl

/-- A promise is not outbid by itself. -/
theorem outbid_withPromise (s : AcceptorSlotState P) (ballot : Ballot) :
    (s.withPromise ballot).outbid ballot = none := by
  simp [outbid, withPromise]

/-- Who promised is not outbid, who did not still is. -/
theorem outbid_afterPrepare (s : AcceptorSlotState P) (ballot : Ballot) :
    (s.afterPrepare ballot).outbid ballot = s.outbid ballot := by
  unfold afterPrepare
  split
  · rfl
  · next h => rw [h, outbid_withPromise]

/-- What is promised after a Prepare request is what the answer says. -/
theorem promisedBallot_afterPrepare (s : AcceptorSlotState P) (ballot : Ballot) :
    (s.afterPrepare ballot).promisedBallot = some (s.promiseTo ballot).promisedBallot := by
  unfold afterPrepare promiseTo
  split
  · next promised h =>
      have hp : s.promisedBallot = some promised := (Option.filter_eq_some_iff.mp h).1
      rw [hp, h]
      rfl
  · next h =>
      rw [h]
      rfl

/-- A ballot above the promise is not outbid. -/
theorem outbid_eq_none {s : AcceptorSlotState P} {ballot : Ballot}
    (h : ∀ p, s.promisedBallot = some p → p.round < ballot.round) : s.outbid ballot = none := by
  rw [outbid, Option.filter_eq_none_iff]
  intro p hp hlt
  have hround := h p hp
  rcases Prod.Lex.lt_iff.mp (of_decide_eq_true hlt) with hlt | ⟨heq, -⟩
  · exact absurd (show ballot.round < p.round from hlt) (Nat.not_lt.mpr (Nat.le_of_lt hround))
  · exact absurd (show ballot.round = p.round from heq) (Nat.ne_of_gt hround)

end AcceptorSlotState

namespace PaxosAcceptor

theorem prepare_saved (a : PaxosAcceptor P) (request : PrepareRequest) :
    (a.prepare request true).2 = .ok ((a.state.slot request.slot).promiseTo request.ballot) := by
  rw [prepare, AcceptorSlotState.promiseTo]
  simp only
  split
  · next promised h =>
      rw [h]
      rfl
  · next h =>
      rw [h]
      rfl

/-- A Prepare request touches its own slot only. -/
theorem slot_prepare (a : PaxosAcceptor P) (request : PrepareRequest) (n : Nat) :
    (a.prepare request true).1.state.slot n =
      if n = request.slot then (a.state.slot n).afterPrepare request.ballot
      else a.state.slot n := by
  have hnumber := slot_slot a.state request.slot
  rw [prepare]
  simp only
  split
  · next promised h =>
      split
      · next hn =>
          rw [hn, AcceptorSlotState.afterPrepare, h]
      · rfl
  · next h =>
      rw [if_pos trivial]
      split
      · next hn =>
          rw [hn, AcceptorSlotState.afterPrepare, h]
          exact slot_setSlot_of_eq hnumber.symm
      · next hn => exact slot_setSlot_of_ne fun heq => hn (heq.trans hnumber)

theorem localRound_prepare (a : PaxosAcceptor P) (request : PrepareRequest) :
    (a.prepare request true).1.state.localRound = a.state.localRound := by
  rcases a.prepare_cases request true with h | ⟨promised, -, h⟩ | ⟨-, h⟩
  all_goals
    rw [h]
    try rfl

theorem nodeId_prepare (a : PaxosAcceptor P) (request : PrepareRequest) :
    (a.prepare request true).1.nodeId = a.nodeId := by
  rcases a.prepare_cases request true with h | ⟨promised, -, h⟩ | ⟨-, h⟩
  all_goals
    rw [h]
    try rfl

variable [DecidableEq P]

/-- An open slot whose ballot is new answers by its promise alone. -/
theorem accept_saved {a : PaxosAcceptor P} {request : AcceptRequest P}
    (hnew : (a.state.slot request.slot).acceptedBallot ≠ some request.ballot)
    (hopen : a.state.decided request.slot = none) :
    (a.accept request true).2 =
      .ok ((a.state.slot request.slot).voteOn request.ballot) := by
  have hopen' : (a.state.slot request.slot).decidedValue = none := hopen
  rw [accept, AcceptorSlotState.voteOn]
  simp only
  rw [if_neg fun h => hnew h.1, if_neg fun h => h.1 hopen']
  split
  · next promised h =>
      rw [h]
      rfl
  · next h =>
      rw [h]
      rfl

/-- An Accept request touches its own slot only. -/
theorem slot_accept_of_ne (a : PaxosAcceptor P) (request : AcceptRequest P) {n : Nat}
    (hn : n ≠ request.slot) : (a.accept request true).1.state.slot n = a.state.slot n := by
  have hnumber := slot_slot a.state request.slot
  rcases a.accept_cases request true with ⟨⟨message, h⟩, -⟩ | h | ⟨promised, h⟩ | ⟨-, h⟩
  · rw [h]
  · rw [h]
  · rw [h]
  · rw [h]
    exact slot_setSlot_of_ne fun heq => hn (heq.trans hnumber)

/-- An Accept request decides nothing. -/
theorem decided_accept (a : PaxosAcceptor P) (request : AcceptRequest P) (n : Nat) :
    (a.accept request true).1.state.decided n = a.state.decided n := by
  rcases a.accept_cases request true with ⟨⟨message, h⟩, -⟩ | h | ⟨promised, h⟩ | ⟨-, h⟩
  · rw [h]
  · rw [h]
  · rw [h]
  · have hd : ((a.state.slot request.slot).withVote request.ballot request.value).decidedValue =
        a.state.decided ((a.state.slot request.slot).withVote request.ballot request.value).slot :=
      congrArg a.state.decided (slot_slot a.state request.slot).symm
    rw [h]
    exact decided_replaceSlot hd n

/-- A value that does not go against an earlier decision is taken. -/
theorem decide_saved {a : PaxosAcceptor P} {request : DecideRequest P}
    (h : ∀ v, a.state.decided request.slot = some v → v = request.value) :
    (a.decide request true).2 = .ok () := by
  rw [decide]
  simp only
  split
  · next value hvalue =>
      have hv : value = request.value := h value hvalue
      rw [if_neg (not_not_intro hv)]
  · rfl

theorem slot_decide_of_ne (a : PaxosAcceptor P) (request : DecideRequest P) {n : Nat}
    (hn : n ≠ request.slot) : (a.decide request true).1.state.slot n = a.state.slot n := by
  have hnumber := slot_slot a.state request.slot
  rcases a.decide_cases request true with ⟨value, -, ⟨-, h⟩ | ⟨-, message, h⟩⟩ |
    ⟨-, h | ⟨stop, -, h⟩⟩
  · rw [h]
  · rw [h]
  · rw [h]
  · rw [h]
    exact slot_replaceSlot_of_ne fun heq => hn (heq.trans hnumber)

end PaxosAcceptor

/-! ## A slot as the awake members see it -/

variable {𝒮 : Deployment} {awake : String → Bool} {t : TaskId}

/-- The members that are awake. -/
abbrev Deployment.live (𝒮 : Deployment) (awake : String → Bool) : List String :=
  𝒮.members.members.filter awake

/-- The answers of the awake members, in the order of the members. -/
def answers (awake : String → Bool) (members : List String) {R : Type} (f : String → R) :
    List (Option R) :=
  members.map fun m => if awake m then some (f m) else none

theorem filterMap_answers (members : List String) {R : Type} (f : String → R) :
    (answers awake members f).filterMap id = (members.filter awake).map f := by
  induction members with
  | nil => rfl
  | cons m members ih =>
      rw [answers, List.map_cons]
      cases hm : awake m with
      | true =>
          rw [List.filter_cons_of_pos hm, List.map_cons, ← ih]
          rfl
      | false =>
          rw [List.filter_cons_of_neg (by simp [hm]), ← ih]
          rfl

/-- The state of `slot` at `node`. -/
def World.slotAt (w : World P) (node : String) (slot : Nat) : AcceptorSlotState P :=
  (w.acceptors node).state.slot slot

/-- The slots but `slot` are as they were. -/
def World.Beside (w w' : World P) (slot : Nat) : Prop :=
  ∀ node n, n ≠ slot → w'.slotAt node n = w.slotAt node n

/-- The awake members agree on `slot`, and none of them has accepted a ballot that the
proposer has yet to reserve. -/
structure World.Ready (w : World P) (𝒮 : Deployment) (awake : String → Bool) (node : String)
    (slot : Nat) : Prop where
  nodeId : (w.acceptors node).nodeId = node
  agreed : ∀ a ∈ 𝒮.live awake, ∀ b ∈ 𝒮.live awake, ∀ v u,
    (w.slotAt a slot).decidedValue = some v → (w.slotAt b slot).decidedValue = some u → v = u
  fresh : ∀ a ∈ 𝒮.live awake, ∀ ballot, (w.slotAt a slot).acceptedBallot = some ballot →
    ballot.nodeId = node → ballot.round ≤ (w.acceptors node).state.localRound

/-- No awake member has promised a round above `r` in `slot`. -/
def World.PromisedBelow (w : World P) (𝒮 : Deployment) (awake : String → Bool) (slot r : Nat) :
    Prop :=
  ∀ a ∈ 𝒮.live awake, ∀ p, (w.slotAt a slot).promisedBallot = some p → p.round ≤ r

/-- The slot was decided for `v`; where nobody had used it, for the own proposal. -/
structure World.Settled (w w' : World P) (𝒮 : Deployment) (awake : String → Bool) (slot : Nat)
    (proposed v : PaxosValue P) : Prop where
  beside : w.Beside w' slot
  own : (∀ a ∈ 𝒮.live awake, (w.slotAt a slot).Unused) → v = proposed

theorem le_observed (observedRound : Nat) (ballots : List Ballot) :
    observedRound ≤ PaxosProposer.observed observedRound ballots ∧
      ∀ ballot ∈ ballots, ballot.round ≤ PaxosProposer.observed observedRound ballots := by
  induction ballots generalizing observedRound with
  | nil => exact ⟨Nat.le_refl _, fun _ h => absurd h List.not_mem_nil⟩
  | cons ballot ballots ih =>
      obtain ⟨hle, hall⟩ := ih (max observedRound ballot.round)
      refine ⟨Nat.le_trans (Nat.le_max_left _ _) hle, fun b hb => ?_⟩
      rcases List.mem_cons.mp hb with rfl | hb
      · exact Nat.le_trans (Nat.le_max_right _ _) hle
      · exact hall b hb

theorem World.Beside.trans {w₁ w₂ w₃ : World P} {slot : Nat} (h : w₁.Beside w₂ slot)
    (h' : w₂.Beside w₃ slot) : w₁.Beside w₃ slot :=
  fun node n hn => (h' node n hn).trans (h node n hn)

/-- The world after the awake members have answered a Prepare request at a new ballot. -/
structure World.Polled (w w' : World P) (𝒮 : Deployment) (awake : String → Bool) (node : String)
    (slot : Nat) (ballot : Ballot) : Prop where
  beside : w.Beside w' slot
  slots : ∀ m ∈ 𝒮.live awake, w'.slotAt m slot = (w.slotAt m slot).afterPrepare ballot
  nodeId : (w'.acceptors node).nodeId = node
  own : ballot.nodeId = node
  above : (w.acceptors node).state.localRound < ballot.round
  localRound : (w'.acceptors node).state.localRound = ballot.round

/-- The members agree as before, and what they have accepted is older than the next ballot. -/
theorem World.Polled.ready {w w' : World P} {slot : Nat} {ballot : Ballot}
    (h : w.Polled w' 𝒮 awake t.node slot ballot) (hready : w.Ready 𝒮 awake t.node slot) :
    w'.Ready 𝒮 awake t.node slot := by
  refine ⟨h.nodeId, fun a ha b hb v u hv hu => ?_, fun a ha c hc hown => ?_⟩
  · rw [h.slots a ha, AcceptorSlotState.decidedValue_afterPrepare] at hv
    rw [h.slots b hb, AcceptorSlotState.decidedValue_afterPrepare] at hu
    exact hready.agreed a ha b hb v u hv hu
  · rw [h.slots a ha, AcceptorSlotState.acceptedBallot_afterPrepare] at hc
    rw [h.localRound]
    exact Nat.le_of_lt (Nat.lt_of_le_of_lt (hready.fresh a ha c hc hown) h.above)

/-- The largest round of the answers is a bound on the promises. -/
theorem World.Polled.promisedBelow {w w' : World P} {slot : Nat} {ballot : Ballot}
    (h : w.Polled w' 𝒮 awake t.node slot ballot) (r : Nat) :
    w'.PromisedBelow 𝒮 awake slot (PaxosProposer.observed r
      (((𝒮.live awake).map fun m => (w.slotAt m slot).promiseTo ballot).map
        PrepareResponse.promisedBallot)) := by
  intro a ha p hp
  rw [h.slots a ha, AcceptorSlotState.promisedBallot_afterPrepare] at hp
  refine (le_observed r _).2 p ?_
  rw [List.map_map]
  exact List.mem_map.mpr ⟨a, ha, Option.some.inj hp⟩

/-- Nobody has accepted at the new ballot. -/
theorem World.Polled.unaccepted {w w' : World P} {slot : Nat} {ballot : Ballot}
    (h : w.Polled w' 𝒮 awake t.node slot ballot) (hready : w.Ready 𝒮 awake t.node slot)
    {a : String} (ha : a ∈ 𝒮.live awake) : (w'.slotAt a slot).acceptedBallot ≠ some ballot := by
  intro hc
  rw [h.slots a ha, AcceptorSlotState.acceptedBallot_afterPrepare] at hc
  exact absurd (hready.fresh a ha ballot hc h.own) (Nat.not_le.mpr h.above)

/-- Promises without an accepted pair leave the proposal as it is. -/
theorem adoptedValue_unused {responses : List (PrepareResponse P)} {proposed : PaxosValue P}
    (h : ∀ r ∈ responses, r.acceptedBallot = none) :
    PaxosProposer.adoptedValue responses proposed = proposed := by
  have hnil : responses.filterMap PaxosProposer.acceptedPair = [] := by
    rw [List.filterMap_eq_nil_iff]
    intro r hr
    rw [PaxosProposer.acceptedPair, h r hr]
  rw [PaxosProposer.adoptedValue, hnil]

/-! ## The awake members handle a request -/

section Handle

variable [DecidableEq P]

namespace PaxosAcceptor

/-- What becomes of an acceptor that handles a request, and what it answers. -/
def serve (a : PaxosAcceptor P) : Request P → PaxosAcceptor P × Option (Response P)
  | .prepare request =>
      ((a.prepare request true).1, (a.prepare request true).2.toOption.map .prepare)
  | .accept request =>
      ((a.accept request true).1, (a.accept request true).2.toOption.map .accept)
  | .decide request =>
      ((a.decide request true).1, (a.decide request true).2.toOption.map fun _ => .decide)

end PaxosAcceptor

/-- `w'` is `w` after `node` handled `request`. -/
structure World.Served (w w' : World P) (node : String) (request : Request P) : Prop where
  acceptors : w'.acceptors = Function.update w.acceptors node ((w.acceptors node).serve request).1
  messages : w'.messages = w.messages
  invoked : w'.invoked = w.invoked
  replies : w.replies ⊆ w'.replies
  answered : ∀ r, ((w.acceptors node).serve request).2 = some r → ⟨node, request, r⟩ ∈ w'.replies

/-- An operation whose exception is noted, or whose answer is sent. -/
theorem World.Served.intro {α : Type} {w w' : World P} {node : String} {request : Request P}
    {x : PaxosAcceptor P × Except Error α} {response : α → Response P}
    (hserve : (w.acceptors node).serve request = (x.1, x.2.toOption.map response))
    (herror : ∀ e, x.2 = .error e → w' = (w.setAcceptor node x.1).noteError e)
    (hok : ∀ a, x.2 = .ok a → w'.acceptors = (w.setAcceptor node x.1).acceptors ∧
      w'.messages = w.messages ∧ w'.invoked = w.invoked ∧
        w'.replies = ⟨node, request, response a⟩ :: w.replies) :
    w.Served w' node request := by
  cases hr : x.2 with
  | error e =>
      have hw := herror e hr
      have hnone : ((w.acceptors node).serve request).2 = none := by
        rw [hserve, hr]
        rfl
      refine ⟨?_, ?_, ?_, ?_, fun r h => ?_⟩
      · rw [hw, World.acceptors_noteError, hserve]
        rfl
      · rw [hw]
        cases e <;> rfl
      · rw [hw]
        cases e <;> rfl
      · rw [hw]
        cases e <;> exact List.Subset.refl _
      · rw [hnone] at h
        cases h
  | ok a =>
      obtain ⟨hacceptors, hmessages, hinvoked, hreplies⟩ := hok a hr
      have hsome : ((w.acceptors node).serve request).2 = some (response a) := by
        rw [hserve, hr]
        rfl
      refine ⟨?_, hmessages, hinvoked, ?_, fun r h => ?_⟩
      · rw [hacceptors, hserve]
        rfl
      · rw [hreplies]
        exact List.subset_cons_self _ _
      · rw [hsome] at h
        cases h
        rw [hreplies]
        exact List.mem_cons_self

theorem World.served_handle (w : World P) (node : String) (request : Request P) :
    w.Served (w.handle node true request) node request := by
  cases request with
  | prepare request =>
      refine .intro (x := (w.acceptors node).prepare request true) rfl (fun e h => ?_)
        fun a h => ?_
      · rw [World.handle, h]
      · rw [World.handle, h]
        exact ⟨rfl, rfl, rfl, rfl⟩
  | accept request =>
      refine .intro (x := (w.acceptors node).accept request true) rfl (fun e h => ?_)
        fun a h => ?_
      · rw [World.handle, h]
      · rw [World.handle, h]
        exact ⟨rfl, rfl, rfl, rfl⟩
  | decide request =>
      refine .intro (x := (w.acceptors node).decide request true) rfl (fun e h => ?_)
        fun a h => ?_
      · rw [World.handle, h]
      · rw [World.handle, h]
        exact ⟨rfl, rfl, rfl, rfl⟩

/-- `w'` is `w` after each of `nodes` handled `request`. -/
structure World.AllServed (w w' : World P) (nodes : List String) (request : Request P) : Prop where
  inside : ∀ node ∈ nodes, w'.acceptors node = ((w.acceptors node).serve request).1
  outside : ∀ node ∉ nodes, w'.acceptors node = w.acceptors node
  replies : w.replies ⊆ w'.replies
  answered : ∀ node ∈ nodes, ∀ r, ((w.acceptors node).serve request).2 = some r →
    ⟨node, request, r⟩ ∈ w'.replies

/-- A request that was sent can be handled by each awake target in turn. -/
theorem World.exists_allServed {m : Message P} {nodes : List String} (hnodup : nodes.Nodup)
    (htargets : nodes ⊆ m.targets) (hawake : ∀ node ∈ nodes, awake node = true) (w : World P)
    (hm : m ∈ w.messages) :
    ∃ w', 𝒮.runtime.Shaken (steady P awake) w w' ∧ w.AllServed w' nodes m.request := by
  induction nodes generalizing w with
  | nil =>
      exact ⟨w, .refl, fun _ h => absurd h List.not_mem_nil, fun _ _ => rfl,
        List.Subset.refl _, fun _ h => absurd h List.not_mem_nil⟩
  | cons node nodes ih =>
      obtain ⟨hnotin, hnodup⟩ := List.nodup_cons.mp hnodup
      obtain ⟨htarget, htargets⟩ := List.cons_subset.mp htargets
      let first := w.handle node true m.request
      have hserved : w.Served first node m.request := w.served_handle node m.request
      have hother : ∀ n, n ≠ node → first.acceptors n = w.acceptors n := by
        intro n hn
        rw [hserved.acceptors, Function.update_of_ne hn]
      have hfirst : 𝒮.runtime.Shaken (steady P awake) w first :=
        .step .refl (d := .handle m node true)
          ⟨m, node, rfl, hawake node List.mem_cons_self⟩ (if_pos ⟨hm, htarget⟩)
      obtain ⟨w', hshaken, hall⟩ := ih hnodup htargets
        (fun n hn => hawake n (List.mem_cons_of_mem _ hn)) first (hserved.messages ▸ hm)
      refine ⟨w', hfirst.trans hshaken, fun n hn => ?_, fun n hn => ?_,
        List.Subset.trans hserved.replies hall.replies, fun n hn r hr => ?_⟩
      · rcases List.mem_cons.mp hn with rfl | hn
        · rw [hall.outside n hnotin, hserved.acceptors, Function.update_self]
        · rw [hall.inside n hn, hother n fun heq => hnotin (heq ▸ hn)]
      · have hne : n ≠ node := fun heq => hn (heq ▸ List.mem_cons_self)
        rw [hall.outside n fun hmem => hn (List.mem_cons_of_mem _ hmem), hother n hne]
      · rcases List.mem_cons.mp hn with rfl | hn
        · exact hall.replies (hserved.answered r hr)
        · refine hall.answered n hn r ?_
          rwa [hother n fun heq => hnotin (heq ▸ hn)]

/-! ## What the awake members answer -/

theorem World.answered_answers {w : World P} {request : Request P} {R : Type}
    {response : R → Response P} {f : String → R} {members : List String}
    (h : ∀ m ∈ members.filter awake, ⟨m, request, response (f m)⟩ ∈ w.replies) :
    w.answered request response members (answers awake members f) = true := by
  induction members with
  | nil => rfl
  | cons m members ih =>
      have hrest : w.answered request response members (answers awake members f) = true := by
        refine ih fun n hn => h n ?_
        obtain ⟨hmem, hawake⟩ := List.mem_filter.mp hn
        exact List.mem_filter.mpr ⟨List.mem_cons_of_mem _ hmem, hawake⟩
      rw [answers, List.map_cons]
      cases hm : awake m with
      | true =>
          have hown := h m (List.mem_filter.mpr ⟨List.mem_cons_self, hm⟩)
          rw [if_pos rfl, World.answered, Bool.and_eq_true, List.contains_iff_mem]
          exact ⟨hown, hrest⟩
      | false =>
          rw [if_neg Bool.false_ne_true, World.answered]
          exact hrest

/-! ## One ballot -/

/-- A task can get from `w` to `w'` with `r`. -/
abbrev Comes (𝒮 : Deployment) (awake : String → Bool) (t : TaskId) {α : Type} (w : World P)
    (p : Co P α) (w' : World P) (a : α) : Prop :=
  𝒮.runtime.CanEnd (steady P awake) t w p w' (.ok a)

theorem can_reserve (𝒮 : Deployment) (awake : String → Bool)
    {w : World P} (hid : (w.acceptors t.node).nodeId = t.node)
    (hnamed : t.node ≠ "") (observedRound : Nat) :
    ∃ w' ballot, Comes 𝒮 awake t w (wait (.reserveBallot observedRound)) w' ballot ∧
      observedRound < ballot.round ∧ ballot.nodeId = t.node ∧
      (w.acceptors t.node).state.localRound < ballot.round ∧
      (w'.acceptors t.node).state.localRound = ballot.round ∧
      (w'.acceptors t.node).nodeId = t.node ∧
      ∀ node n, w'.slotAt node n = w.slotAt node n := by
  have hnamed' : (w.acceptors t.node).nodeId ≠ "" := by rwa [hid]
  obtain ⟨ballot, hballot, hround⟩ : ∃ ballot, w.Reserves t observedRound ballot ∧
      observedRound < ballot.round := by
    refine ⟨⟨max ((w.acceptors t.node).state.localRound + 1) (observedRound + 1),
      (w.acceptors t.node).nodeId, by omega, hnamed'⟩, ?_, by simp only; omega⟩
    rw [World.Reserves, PaxosAcceptor.reserveBallot]
    simp only [if_true, dif_pos hnamed']
  obtain ⟨hnode, hlt, hlocal⟩ := PaxosAcceptor.reserveBallot_ok hballot
  have hacceptors : (w.reserve t observedRound ballot).acceptors t.node =
      ((w.acceptors t.node).reserveBallot observedRound true).1 :=
    World.setAcceptor_acceptors w t.node _
  refine ⟨w.reserve t observedRound ballot, ballot, ?_, hround, hnode.trans hid, hlt, ?_, ?_,
    fun node n => ?_⟩
  · refine .await (x := .saved) .refl ⟨by rintro ⟨⟩, by rintro ⟨⟩⟩ ?_
    have hpair : (w.acceptors t.node).reserveBallot observedRound true =
        (((w.acceptors t.node).reserveBallot observedRound true).1, .ok ballot) :=
      Prod.ext rfl hballot
    show 𝒮.resume w t (.reserveBallot observedRound) .saved = _
    rw [Deployment.resume, hpair]
    rfl
  · rw [hacceptors, hlocal]
  · rw [hacceptors]
    exact ((w.acceptors t.node).advances_reserveBallot observedRound true).nodeId.trans hid
  · show ((w.advanceRound t.node observedRound).acceptors node).state.slot n = _
    rw [World.advanceRound]
    by_cases hn : node = t.node
    · rw [hn, World.setAcceptor_acceptors]
      rfl
    · rw [w.setAcceptor_acceptors_of_ne hn]
      rfl

/-- A request is sent, the awake members handle it and their answers are there. -/
theorem can_send (𝒮 : Deployment) (awake : String → Bool)
    (w : World P) (request : Request P) {R : Type} {response : R → Response P}
    {f : String → R}
    (h : ∀ m ∈ 𝒮.live awake, ((w.acceptors m).serve request).2 = some (response (f m))) :
    ∃ w₁ w₂, Comes 𝒮 awake t w (act (.send 𝒮.members.members request)) w₁ () ∧
      𝒮.runtime.Shaken (steady P awake) w₁ w₂ ∧
      (∀ m ∈ 𝒮.live awake, w₂.acceptors m = ((w.acceptors m).serve request).1) ∧
      (∀ m ∉ 𝒮.live awake, w₂.acceptors m = w.acceptors m) ∧
      w₂.answered request response 𝒮.members.members
        (answers awake 𝒮.members.members f) = true := by
  let m : Message P := ⟨𝒮.members.members, request⟩
  let w₁ : World P := { w with messages := m :: w.messages }
  have hawake : ∀ n ∈ 𝒮.live awake, awake n = true := fun n hn => (List.mem_filter.mp hn).2
  have hsend : m ∈ w₁.messages := List.mem_cons_self
  obtain ⟨w₂, hshaken, hserved⟩ : ∃ w₂, 𝒮.runtime.Shaken (steady P awake) w₁ w₂ ∧
      w₁.AllServed w₂ (𝒮.live awake) request :=
    World.exists_allServed (m := m) (𝒮.members.nodup.filter awake)
      (List.filter_subset_self _) hawake w₁ hsend
  refine ⟨w₁, w₂, .perform w _, hshaken, hserved.inside, hserved.outside, ?_⟩
  exact World.answered_answers fun n hn => hserved.answered n hn _ (h n hn)

theorem can_prepare (𝒮 : Deployment) (awake : String → Bool)
    (w : World P) (slot : Nat) (ballot : Ballot) :
    ∃ w₁ w₂, Comes 𝒮 awake t w
        (act (.send 𝒮.members.members (.prepare ⟨slot, ballot⟩))) w₁ () ∧
      Comes 𝒮 awake t w₁ (wait (.gatherPrepare ⟨slot, ballot⟩)) w₂
        (answers awake 𝒮.members.members fun m => (w.slotAt m slot).promiseTo ballot) ∧
      (∀ m ∈ 𝒮.live awake, w₂.slotAt m slot = (w.slotAt m slot).afterPrepare ballot) ∧
      w.Beside w₂ slot ∧
      ∀ m, (w₂.acceptors m).state.localRound = (w.acceptors m).state.localRound ∧
        (w₂.acceptors m).nodeId = (w.acceptors m).nodeId := by
  have hanswer : ∀ m ∈ 𝒮.live awake,
      ((w.acceptors m).serve (.prepare ⟨slot, ballot⟩)).2 =
        some (.prepare ((w.slotAt m slot).promiseTo ballot)) := by
    intro m _
    rw [PaxosAcceptor.serve, PaxosAcceptor.prepare_saved]
    rfl
  obtain ⟨w₁, w₂, hsend, hshaken, hin, hout, hanswered⟩ :=
    can_send (t := t) 𝒮 awake w (.prepare ⟨slot, ballot⟩) hanswer
  refine ⟨w₁, w₂, hsend, .await hshaken (steady_prepared awake _) (if_pos hanswered),
    fun m hm => ?_, fun m n hn => ?_, fun m => ?_⟩
  · rw [World.slotAt, hin m hm]
    exact ((w.acceptors m).slot_prepare ⟨slot, ballot⟩ slot).trans (if_pos rfl)
  · by_cases hm : m ∈ 𝒮.live awake
    · rw [World.slotAt, hin m hm]
      exact ((w.acceptors m).slot_prepare ⟨slot, ballot⟩ n).trans (if_neg hn)
    · rw [World.slotAt, hout m hm]
      rfl
  · by_cases hm : m ∈ 𝒮.live awake
    · rw [hin m hm]
      exact ⟨(w.acceptors m).localRound_prepare _, (w.acceptors m).nodeId_prepare _⟩
    · rw [hout m hm]
      exact ⟨rfl, rfl⟩

theorem can_accept (𝒮 : Deployment) (awake : String → Bool)
    (w : World P) (slot : Nat) (ballot : Ballot) (value : PaxosValue P)
    (hnew : ∀ m ∈ 𝒮.live awake, (w.slotAt m slot).acceptedBallot ≠ some ballot ∧
      (w.slotAt m slot).decidedValue = none) :
    ∃ w₁ w₂, Comes 𝒮 awake t w
        (act (.send 𝒮.members.members (.accept ⟨slot, ballot, value⟩))) w₁ () ∧
      Comes 𝒮 awake t w₁ (wait (.gatherAccept ⟨slot, ballot, value⟩)) w₂
        (answers awake 𝒮.members.members fun m => (w.slotAt m slot).voteOn ballot) ∧
      (∀ m n, (w₂.slotAt m n).decidedValue = (w.slotAt m n).decidedValue) ∧
      w.Beside w₂ slot := by
  have hanswer : ∀ m ∈ 𝒮.live awake,
      ((w.acceptors m).serve (.accept ⟨slot, ballot, value⟩)).2 =
        some (.accept ((w.slotAt m slot).voteOn ballot)) := by
    intro m hm
    obtain ⟨hballot, hopen⟩ := hnew m hm
    have hsaved : ((w.acceptors m).accept ⟨slot, ballot, value⟩ true).2 =
        .ok ((w.slotAt m slot).voteOn ballot) := PaxosAcceptor.accept_saved hballot hopen
    rw [PaxosAcceptor.serve, hsaved]
    rfl
  obtain ⟨w₁, w₂, hsend, hshaken, hin, hout, hanswered⟩ :=
    can_send (t := t) 𝒮 awake w (.accept ⟨slot, ballot, value⟩) hanswer
  refine ⟨w₁, w₂, hsend, .await hshaken (steady_accepted awake _) (if_pos hanswered),
    fun m n => ?_, fun m n hn => ?_⟩
  · by_cases hm : m ∈ 𝒮.live awake
    · rw [World.slotAt, hin m hm]
      exact (w.acceptors m).decided_accept _ n
    · rw [World.slotAt, hout m hm]
      rfl
  · by_cases hm : m ∈ 𝒮.live awake
    · rw [World.slotAt, hin m hm]
      exact (w.acceptors m).slot_accept_of_ne _ hn
    · rw [World.slotAt, hout m hm]
      rfl

theorem can_learn (𝒮 : Deployment) (awake : String → Bool)
    {w : World P} (self : PaxosProposer) {slot : Nat} {value : PaxosValue P}
    (h : ∀ v, (w.slotAt t.node slot).decidedValue = some v → v = value) :
    ∃ w', Comes 𝒮 awake t w (self.learn slot value) w' () ∧ w.Beside w' slot := by
  let request : DecideRequest P := ⟨slot, value⟩
  let w₁ := w.setAcceptor t.node ((w.acceptors t.node).decide request true).1
  have hdecide : Comes 𝒮 awake t w (wait (.decide request)) w₁ () := by
    refine .await (x := .saved) .refl ⟨by rintro ⟨⟩, by rintro ⟨⟩⟩ ?_
    have hok : ((w.acceptors t.node).decide request true).2 = .ok () :=
      PaxosAcceptor.decide_saved h
    show some (w₁, ((w.acceptors t.node).decide request true).2) = _
    rw [hok]
  let w₂ : World P := { w₁ with messages := ⟨self.peers, .decide request⟩ :: w₁.messages }
  have hsend : Comes 𝒮 awake t w₁ (act (.send self.peers (.decide request))) w₂ () :=
    .perform w₁ _
  have hgather : Comes 𝒮 awake t w₂ (wait (.gatherDecide request)) w₂ () :=
    .await (x := .done) .refl ⟨by rintro ⟨⟩, by rintro ⟨⟩⟩ rfl
  refine ⟨w₂, hdecide.bind (hsend.bind hgather), fun node n hn => ?_⟩
  show (w₁.acceptors node).state.slot n = _
  by_cases hnode : node = t.node
  · rw [hnode, World.setAcceptor_acceptors]
    exact (w.acceptors t.node).slot_decide_of_ne request hn
  · rw [w.setAcceptor_acceptors_of_ne hnode]
    rfl

/-! ## Deciding a slot -/

/-- Decisions that agree are one decision. -/
theorem singleDecision_agreed {responses : List (PrepareResponse P)}
    (h : ∀ r ∈ responses, ∀ r' ∈ responses, ∀ v u,
      r.decidedValue = some v → r'.decidedValue = some u → v = u) :
    (PaxosProposer.singleDecision responses = .ok none ∧
        ∀ r ∈ responses, r.decidedValue = none) ∨
      ∃ v, PaxosProposer.singleDecision responses = .ok (some v) ∧
        ∃ r ∈ responses, r.decidedValue = some v := by
  rw [PaxosProposer.singleDecision]
  split
  · next hnil =>
      refine .inl ⟨rfl, fun r hr => ?_⟩
      rw [List.filterMap_eq_nil_iff] at hnil
      exact hnil r hr
  · next first rest hcons =>
      have hmem : ∀ v ∈ first :: rest, ∃ r ∈ responses, r.decidedValue = some v := by
        intro v hv
        rw [← hcons] at hv
        exact List.mem_filterMap.mp hv
      obtain ⟨r, hr, hfirst⟩ := hmem first List.mem_cons_self
      refine .inr ⟨first, ?_, r, hr, hfirst⟩
      rw [if_neg]
      intro hany
      obtain ⟨other, hother, hne⟩ := List.any_eq_true.mp hany
      obtain ⟨r', hr', hother⟩ := hmem other (List.mem_cons_of_mem _ hother)
      exact of_decide_eq_true hne (h r' hr' r hr other first hother hfirst)

/-- A turn of the loop from the gathered Accept responses on. -/
def PaxosProposer.onAccepted (self : PaxosProposer) (slot : Nat) (proposed selected : PaxosValue P)
    (attempts preparedRound : Nat) (acceptReplies : List (Option AcceptResponse)) :
    Co P (PaxosValue P) := do
  let acceptResponses := acceptReplies.filterMap id
  require (S := signature P) (self.quorum ≤ acceptResponses.length)
    (.noQuorum ("slot " ++ toString slot ++ " Accept did not reach a quorum"))
  let acceptedRound :=
    observed preparedRound (acceptResponses.map AcceptResponse.promisedBallot)
  if (acceptResponses.filter AcceptResponse.accepted).length < self.quorum then
    self.decideSlotLoop slot proposed attempts acceptedRound
  else do
    self.learn slot selected
    ret selected

/-- A turn of the loop from the gathered Prepare responses on. -/
def PaxosProposer.onPrepared (self : PaxosProposer) (slot : Nat) (proposed : PaxosValue P)
    (attempts observedRound : Nat) (ballot : Ballot)
    (prepareReplies : List (Option (PrepareResponse P))) : Co P (PaxosValue P) := do
  let responses := prepareReplies.filterMap id
  require (S := signature P) (self.quorum ≤ responses.length)
    (.noQuorum ("slot " ++ toString slot ++ " Prepare did not reach a quorum"))
  let preparedRound := observed observedRound (responses.map PrepareResponse.promisedBallot)
  match ← ofExcept (S := signature P) (singleDecision responses) with
  | some decided => do
      self.learn slot decided
      ret decided
  | none =>
      let promised := responses.filter PrepareResponse.promised
      if promised.length < self.quorum then
        self.decideSlotLoop slot proposed attempts preparedRound
      else do
        let selected := adoptedValue promised proposed
        act (.send self.members.members (.accept ⟨slot, ballot, selected⟩))
        let acceptReplies ← wait (.gatherAccept ⟨slot, ballot, selected⟩)
        self.onAccepted slot proposed selected attempts preparedRound acceptReplies

theorem decideSlotLoop_succ (self : PaxosProposer) (slot : Nat) (proposed : PaxosValue P)
    (attempts observedRound : Nat) :
    self.decideSlotLoop slot proposed (attempts + 1) observedRound = (do
      let ballot ← wait (.reserveBallot observedRound)
      act (.send self.members.members (.prepare ⟨slot, ballot⟩))
      let prepareReplies ← wait (.gatherPrepare ⟨slot, ballot⟩)
      self.onPrepared slot proposed attempts observedRound ballot prepareReplies) :=
  rfl

theorem can_poll (𝒮 : Deployment) (awake : String → Bool)
    (hnamed : t.node ≠ "") {slot : Nat} {w : World P}
    (hready : w.Ready 𝒮 awake t.node slot) (r : Nat) :
    ∃ ballot w₁ w₂ w₃, Comes 𝒮 awake t w (wait (.reserveBallot r)) w₁ ballot ∧
      Comes 𝒮 awake t w₁ (act (.send 𝒮.members.members (.prepare ⟨slot, ballot⟩))) w₂ () ∧
      Comes 𝒮 awake t w₂ (wait (.gatherPrepare ⟨slot, ballot⟩)) w₃
        (answers awake 𝒮.members.members fun m => (w.slotAt m slot).promiseTo ballot) ∧
      r < ballot.round ∧ w.Polled w₃ 𝒮 awake t.node slot ballot := by
  obtain ⟨w₁, ballot, hreserve, hround, hown, habove, hlocal, hid, hslots⟩ :=
    can_reserve 𝒮 awake hready.nodeId hnamed r
  obtain ⟨w₂, w₃, hsend, hgather, hlive, hbeside, hkept⟩ :=
    can_prepare (t := t) 𝒮 awake w₁ slot ballot
  simp only [hslots] at hgather hlive
  refine ⟨ballot, w₁, w₂, w₃, hreserve, hsend, hgather, hround, ?_, hlive, ?_, hown, habove, ?_⟩
  · exact fun node n hn => (hbeside node n hn).trans (hslots node n)
  · rw [(hkept t.node).2, hid]
  · rw [(hkept t.node).1, hlocal]

omit [DecidableEq P] in
theorem length_filter_map {R : Type} (l : List String) (f : String → R) (test : R → Bool) :
    ((l.map f).filter test).length = l.countP fun m => test (f m) := by
  rw [List.filter_map, List.length_map, ← List.countP_eq_length_filter]
  rfl

/-- The acceptances of those who promised make a quorum. -/
theorem can_onAccepted (self : PaxosProposer) (hself : self.members = 𝒮.members)
    {slot : Nat} {proposed selected : PaxosValue P} {attempts r : Nat} {w : World P}
    {f : String → AcceptResponse}
    (hquorum : 𝒮.members.quorum ≤ (𝒮.live awake).countP fun m => (f m).accepted)
    (hopen : (w.slotAt t.node slot).decidedValue = none) :
    ∃ w', Comes 𝒮 awake t w (self.onAccepted slot proposed selected attempts r
      (answers awake 𝒮.members.members f)) w' selected ∧ w.Beside w' slot := by
  have hfree : ∀ v, (w.slotAt t.node slot).decidedValue = some v → v = selected := by
    intro v hv
    rw [hopen] at hv
    cases hv
  obtain ⟨w', hlearn, hbeside⟩ := can_learn 𝒮 awake self hfree
  refine ⟨w', ?_, hbeside⟩
  have hsize : self.quorum ≤ ((𝒮.live awake).map f).length := by
    rw [List.length_map, PaxosProposer.quorum, hself]
    exact Nat.le_trans hquorum List.countP_le_length
  have hnot : ¬(((𝒮.live awake).map f).filter AcceptResponse.accepted).length < self.quorum := by
    rw [length_filter_map, PaxosProposer.quorum, hself]
    exact Nat.not_lt.mpr hquorum
  rw [PaxosProposer.onAccepted, filterMap_answers]
  simp only
  refine (CanEnd.require hsize).bind ?_
  rw [if_neg hnot]
  exact hlearn.bind (.ret _ _)

/-- One turn of the loop: it decides, or it is outbid and knows every promise. -/
theorem decideSlotLoop_turn (self : PaxosProposer) (hself : self.members = 𝒮.members)
    (hquorum : 𝒮.members.quorum ≤ (𝒮.live awake).length) (howner : t.node ∈ 𝒮.live awake)
    {slot : Nat} {proposed : PaxosValue P} {attempts r : Nat} {w : World P}
    (hready : w.Ready 𝒮 awake t.node slot)
    (hnext : w.PromisedBelow 𝒮 awake slot r ∨ ∀ w₁ r₁, w₁.Ready 𝒮 awake t.node slot →
      w₁.PromisedBelow 𝒮 awake slot r₁ →
      ∃ w' v, Comes 𝒮 awake t w₁ (self.decideSlotLoop slot proposed attempts r₁) w' v ∧
        w₁.Settled w' 𝒮 awake slot proposed v) :
    ∃ w' v, Comes 𝒮 awake t w (self.decideSlotLoop slot proposed (attempts + 1) r) w' v ∧
      w.Settled w' 𝒮 awake slot proposed v := by
  have hnamed : t.node ≠ "" := 𝒮.members.named _ (List.mem_filter.mp howner).1
  obtain ⟨ballot, w₁, w₂, w₃, hreserve, hsend, hgather, hround, hpolled⟩ :=
    can_poll 𝒮 awake hnamed hready r
  let f := fun m => (w.slotAt m slot).promiseTo ballot
  -- What remains is the part of the turn after the Prepare responses.
  suffices hrest : ∃ w' v, Comes 𝒮 awake t w₃ (self.onPrepared slot proposed attempts r ballot
      (answers awake 𝒮.members.members f)) w' v ∧ w.Settled w' 𝒮 awake slot proposed v by
    obtain ⟨w', v, hend, hsettled⟩ := hrest
    refine ⟨w', v, ?_, hsettled⟩
    rw [decideSlotLoop_succ, hself]
    exact hreserve.bind (hsend.bind (hgather.bind hend))
  have hsize : self.quorum ≤ ((𝒮.live awake).map f).length := by
    rw [List.length_map, PaxosProposer.quorum, hself]
    exact hquorum
  have hagreed : ∀ x ∈ (𝒮.live awake).map f, ∀ y ∈ (𝒮.live awake).map f, ∀ v u,
      x.decidedValue = some v → y.decidedValue = some u → v = u := by
    intro x hx y hy v u hv hu
    obtain ⟨a, ha, rfl⟩ := List.mem_map.mp hx
    obtain ⟨b, hb, rfl⟩ := List.mem_map.mp hy
    exact hready.agreed a ha b hb v u hv hu
  rw [PaxosProposer.onPrepared, filterMap_answers]
  simp only
  rcases singleDecision_agreed hagreed with ⟨hnone, hopen⟩ | ⟨v, hsome, x, hx, hv⟩
  · rw [hnone]
    have hopen' : ∀ a ∈ 𝒮.live awake, (w.slotAt a slot).decidedValue = none :=
      fun a ha => hopen _ (List.mem_map.mpr ⟨a, ha, rfl⟩)
    by_cases hshort : (((𝒮.live awake).map f).filter PrepareResponse.promised).length < self.quorum
    · -- The ballot was outbid.
      rcases hnext with hbelow | hnext
      · refine absurd hshort (Nat.not_lt.mpr ?_)
        have hall : ((𝒮.live awake).map f).filter PrepareResponse.promised =
            (𝒮.live awake).map f := by
          refine List.filter_eq_self.mpr fun x hx => ?_
          obtain ⟨a, ha, rfl⟩ := List.mem_map.mp hx
          have hfree : (w.slotAt a slot).outbid ballot = none :=
            AcceptorSlotState.outbid_eq_none fun p hp =>
              Nat.lt_of_le_of_lt (hbelow a ha p hp) hround
          show ((w.slotAt a slot).outbid ballot).isNone = true
          rw [hfree]
          rfl
        rw [hall]
        exact hsize
      · obtain ⟨w', v, hend, hsettled⟩ :=
          hnext w₃ _ (hpolled.ready hready) (hpolled.promisedBelow r)
        refine ⟨w', v, (CanEnd.require hsize).bind ?_, hpolled.beside.trans hsettled.beside,
          fun hunused => hsettled.own fun a ha => ?_⟩
        · show 𝒮.runtime.CanEnd _ t w₃ (if _ then _ else _) w' _
          rw [if_pos hshort]
          exact hend
        · rw [hpolled.slots a ha]
          exact ⟨((w.slotAt a slot).acceptedBallot_afterPrepare ballot).trans (hunused a ha).1,
            ((w.slotAt a slot).decidedValue_afterPrepare ballot).trans (hunused a ha).2⟩
    · -- A quorum has promised, and it accepts.
      let promised := ((𝒮.live awake).map f).filter PrepareResponse.promised
      let selected := PaxosProposer.adoptedValue promised proposed
      have hdecided : ∀ a ∈ 𝒮.live awake, (w₃.slotAt a slot).decidedValue = none := by
        intro a ha
        rw [hpolled.slots a ha, AcceptorSlotState.decidedValue_afterPrepare]
        exact hopen' a ha
      obtain ⟨w₄, w₅, hsend', hgather', hkept, hbeside⟩ := can_accept (t := t) 𝒮 awake w₃ slot
        ballot selected fun a ha => ⟨hpolled.unaccepted hready ha, hdecided a ha⟩
      have hvotes : 𝒮.members.quorum ≤
          (𝒮.live awake).countP fun m => ((w₃.slotAt m slot).voteOn ballot).accepted := by
        rw [length_filter_map, PaxosProposer.quorum, hself] at hshort
        refine Nat.le_trans (Nat.le_of_not_lt hshort) (List.countP_mono_left fun a ha hp => ?_)
        rw [hpolled.slots a ha]
        show (((w.slotAt a slot).afterPrepare ballot).outbid ballot).isNone = true
        rw [AcceptorSlotState.outbid_afterPrepare]
        exact hp
      obtain ⟨w', hend, hbeside'⟩ := can_onAccepted (t := t) self hself hvotes
        ((hkept t.node slot).trans (hdecided t.node howner))
      refine ⟨w', selected, (CanEnd.require hsize).bind ?_,
        hpolled.beside.trans (hbeside.trans hbeside'), fun hunused => ?_⟩
      · show 𝒮.runtime.CanEnd _ t w₃ (if _ then _ else _) w' _
        rw [if_neg hshort, hself]
        exact hsend'.bind (hgather'.bind hend)
      · refine adoptedValue_unused fun x hx => ?_
        obtain ⟨a, ha, rfl⟩ := List.mem_map.mp (List.mem_filter.mp hx).1
        exact (hunused a ha).1
  · -- The slot is decided already.
    rw [hsome]
    obtain ⟨a, ha, rfl⟩ := List.mem_map.mp hx
    have hown : ∀ u, (w₃.slotAt t.node slot).decidedValue = some u → u = v := by
      intro u hu
      rw [hpolled.slots t.node howner, AcceptorSlotState.decidedValue_afterPrepare] at hu
      exact hready.agreed t.node howner a ha u v hu hv
    obtain ⟨w', hlearn, hbeside⟩ := can_learn 𝒮 awake self hown
    refine ⟨w', v, (CanEnd.require hsize).bind (hlearn.bind (.ret _ _)),
      hpolled.beside.trans hbeside, fun hunused => ?_⟩
    have hnone : (w.slotAt a slot).decidedValue = none := (hunused a ha).2
    rw [show (w.slotAt a slot).decidedValue = some v from hv] at hnone
    cases hnone

/-- **Two ballots are enough.** -/
theorem decideSlotLoop_settles (self : PaxosProposer) (hself : self.members = 𝒮.members)
    (hquorum : 𝒮.members.quorum ≤ (𝒮.live awake).length) (howner : t.node ∈ 𝒮.live awake)
    {slot : Nat} (proposed : PaxosValue P) {attempts : Nat} (hattempts : 2 ≤ attempts) (r : Nat)
    {w : World P} (hready : w.Ready 𝒮 awake t.node slot) :
    ∃ w' v, Comes 𝒮 awake t w (self.decideSlotLoop slot proposed attempts r) w' v ∧
      w.Settled w' 𝒮 awake slot proposed v := by
  obtain ⟨rest, rfl⟩ := Nat.exists_eq_add_of_le' hattempts
  refine decideSlotLoop_turn self hself hquorum howner hready (.inr fun w₁ r₁ hready₁ hbelow => ?_)
  exact decideSlotLoop_turn self hself hquorum howner hready₁ (.inl hbelow)

end Handle

end DelosLab.Paxos
