import DelosLab.Async.RelyGuarantee
import DelosLab.Consensus.Voting
import DelosLab.Paxos.Register
import DelosLab.Paxos.System

/-!
# What the peers keep

Seen from one slot, the acceptors are voters and the sent Accept requests are the
proposals, so the discipline of the peers is the one of voting by ballots. A task
relies on the others for one thing: nobody proposes at a ballot that it reserved.
-/

namespace DelosLab.Paxos

open Async Consensus

variable {P : Type}

namespace World

/-- The votes of one slot, and the ballots that promises have closed. -/
def record (w : World P) (slot : Nat) : Votes String Ballot (PaxosValue P) where
  voted := fun a b v => ⟨a, slot, b, v⟩ ∈ w.votes
  closed := fun a b =>
    ∃ p, ((w.acceptors a).state.slot slot).promisedBallot = some p ∧ b < p

/-- An Accept request for `v` at `b` was sent. -/
def Proposed (w : World P) (slot : Nat) (b : Ballot) (v : PaxosValue P) : Prop :=
  ∃ m ∈ w.messages, m.request = .accept ⟨slot, b, v⟩

def decided (w : World P) (node : String) (slot : Nat) : Option (PaxosValue P) :=
  (w.acceptors node).state.decided slot

/-- At one ballot a majority accepted `v` in `slot`. -/
def ChosenIn (w : World P) (members : List String) (slot : Nat) (v : PaxosValue P) : Prop :=
  ∃ b, Chosen members (w.record slot) b v

end World

/-- A slot's state agrees with the votes that its acceptor has cast there. -/
structure SlotInv (w : World P) (members : List String) (node : String) (slot : Nat)
    (s : AcceptorSlotState P) : Prop where
  silent : s.acceptedBallot = none →
    s.acceptedValue = none ∧ ∀ b v, ¬(w.record slot).voted node b v
  accepted : ∀ b, s.acceptedBallot = some b → ∃ v p, s.acceptedValue = some v ∧
    s.promisedBallot = some p ∧ b ≤ p ∧ (w.record slot).voted node b v ∧
    ∀ c u, (w.record slot).voted node c u → c ≤ b
  decided : ∀ v, s.decidedValue = some v → w.ChosenIn members slot v

/-- What a Prepare response says about the acceptor that gave it. -/
structure Prepared (w : World P) (members : List String) (node : String)
    (request : PrepareRequest) (response : PrepareResponse P) : Prop where
  reports : response.promised = true →
    Reports (w.record request.slot) request.ballot node (PaxosProposer.acceptedPair response)
  below : response.promised = true → ∀ c v,
    PaxosProposer.acceptedPair response = some (c, v) → c ≤ request.ballot
  decided : ∀ v, response.decidedValue = some v → w.ChosenIn members request.slot v

structure Inv (𝒮 : Deployment) (w : World P) : Prop where
  nodeId : ∀ node, (w.acceptors node).nodeId = node
  wellFormed : ∀ node, (w.acceptors node).WellFormed
  disciplined : ∀ slot, Disciplined 𝒮.members.members (w.Proposed slot) (w.record slot)
  slots : ∀ node slot, SlotInv w 𝒮.members.members node slot ((w.acceptors node).state.slot slot)
  prepared : ∀ node request response,
    ⟨node, .prepare request, .prepare response⟩ ∈ w.replies →
      Prepared w 𝒮.members.members node request response
  accepted : ∀ node request response,
    ⟨node, .accept request, .accept response⟩ ∈ w.replies → response.accepted = true →
      (w.record request.slot).voted node request.ballot request.value
  learned : ∀ m ∈ w.messages, ∀ request, m.request = .decide request →
    w.ChosenIn 𝒮.members.members request.slot request.value
  reserved : ∀ b t, (b, t) ∈ w.reserved →
    b.nodeId = t.node ∧ b.round ≤ (w.acceptors t.node).state.localRound
  owner : ∀ b t u, (b, t) ∈ w.reserved → (b, u) ∈ w.reserved → t = u
  proposer : ∀ slot b v, w.Proposed slot b v → ∃ t, (b, t) ∈ w.reserved
  safe : w.safetyErrors = []

/-- Votes, messages, decisions and counters only grow. -/
structure Grow (w w' : World P) : Prop where
  record : ∀ slot, (w.record slot).Grow (w'.record slot)
  messages : w.messages ⊆ w'.messages
  reserved : w.reserved ⊆ w'.reserved
  advances : ∀ node, (w.acceptors node).Advances (w'.acceptors node)
  completed : w.completed <+: w'.completed

/-- What the others leave alone: a reserved ballot is proposed at by its owner only. -/
structure Rely (t : TaskId) (w w' : World P) : Prop where
  reserved : ∀ b, (b, t) ∈ w.reserved → (b, t) ∈ w'.reserved
  proposals : ∀ b, (b, t) ∈ w.reserved → ∀ slot v, w'.Proposed slot b v → w.Proposed slot b v
  invoked : w'.invoked t = w.invoked t

/-- `t` has reserved `b` and nobody has proposed at it. -/
def Holds (t : TaskId) (b : Ballot) (w : World P) : Prop :=
  (b, t) ∈ w.reserved ∧ ∀ slot v, ¬w.Proposed slot b v

/-! ## Facts that last -/

theorem Grow.refl (w : World P) : Grow w w :=
  ⟨fun _ => .refl _, List.Subset.refl _, List.Subset.refl _, fun _ => .refl _,
    List.prefix_refl _⟩

theorem Grow.trans {w₁ w₂ w₃ : World P} (h : Grow w₁ w₂) (h' : Grow w₂ w₃) : Grow w₁ w₃ :=
  ⟨fun slot => (h.record slot).trans (h'.record slot), List.Subset.trans h.messages h'.messages,
    List.Subset.trans h.reserved h'.reserved, fun node => (h.advances node).trans (h'.advances node),
    h.completed.trans h'.completed⟩

theorem Rely.refl (t : TaskId) (w : World P) : Rely t w w :=
  ⟨fun _ h => h, fun _ _ _ _ h => h, rfl⟩

theorem Rely.trans {t : TaskId} {w₁ w₂ w₃ : World P} (h : Rely t w₁ w₂) (h' : Rely t w₂ w₃) :
    Rely t w₁ w₃ :=
  ⟨fun b hb => h'.reserved b (h.reserved b hb),
    fun b hb slot v hv => h.proposals b hb slot v (h'.proposals b (h.reserved b hb) slot v hv),
    h'.invoked.trans h.invoked⟩

theorem Holds.stable {t : TaskId} {b : Ballot} {w w' : World P} (h : Holds t b w)
    (hr : Rely t w w') : Holds t b w' :=
  ⟨hr.reserved b h.1, fun slot v hv => h.2 slot v (hr.proposals b h.1 slot v hv)⟩

theorem World.ChosenIn.mono {w w' : World P} {members : List String} {slot : Nat}
    {v : PaxosValue P} (h : w.ChosenIn members slot v) (hg : Grow w w') :
    w'.ChosenIn members slot v := by
  obtain ⟨b, hb⟩ := h
  exact ⟨b, hb.mono (hg.record slot)⟩

theorem Prepared.mono {w w' : World P} {members : List String} {node : String}
    {request : PrepareRequest} {response : PrepareResponse P}
    (h : Prepared w members node request response) (hg : Grow w w') :
    Prepared w' members node request response :=
  ⟨fun hp => (h.reports hp).mono (hg.record _), h.below,
    fun v hv => (h.decided v hv).mono hg⟩

/-- One value is chosen in one slot. -/
theorem Inv.agreement {𝒮 : Deployment} {w : World P} (h : Inv 𝒮 w) {slot : Nat}
    {v u : PaxosValue P} (hv : w.ChosenIn 𝒮.members.members slot v)
    (hu : w.ChosenIn 𝒮.members.members slot u) : v = u := by
  obtain ⟨b, hb⟩ := hv
  obtain ⟨c, hc⟩ := hu
  exact (h.disciplined slot).agreement hb hc

/-- What an acceptor has decided was chosen. -/
theorem Inv.chosen_of_decided {𝒮 : Deployment} {w : World P} (h : Inv 𝒮 w) {node : String}
    {slot : Nat} {v : PaxosValue P} (hv : w.decided node slot = some v) :
    w.ChosenIn 𝒮.members.members slot v :=
  (h.slots node slot).decided v hv

/-! ## An acceptor moves -/

/-- An acceptor that advances closes ballots and opens none. -/
theorem World.grow_setAcceptor {w : World P} {node : String} {acceptor : PaxosAcceptor P}
    (h : (w.acceptors node).Advances acceptor) : Grow w (w.setAcceptor node acceptor) := by
  have hall : ∀ n, (w.acceptors n).Advances ((w.setAcceptor node acceptor).acceptors n) := by
    intro n
    by_cases hn : n = node
    · subst hn
      simp only [World.setAcceptor, Function.update_self]
      exact h
    · simp only [World.setAcceptor, Function.update_of_ne hn]
      exact .refl _
  refine ⟨fun slot => ⟨fun _ _ _ hv => hv, ?_, fun _ _ _ hv _ => hv⟩, List.Subset.refl _,
    List.Subset.refl _, hall, List.prefix_refl _⟩
  rintro a b ⟨p, hp, hlt⟩
  obtain ⟨p', hp', hle⟩ := (hall a).promised slot p hp
  exact ⟨p', hp', lt_of_lt_of_le hlt hle⟩

theorem SlotInv.mono {w w' : World P} {members : List String} {node : String} {slot : Nat}
    {s : AcceptorSlotState P} (h : SlotInv w members node slot s) (hg : Grow w w')
    (hv : ∀ b v, (w'.record slot).voted node b v → (w.record slot).voted node b v) :
    SlotInv w' members node slot s := by
  refine ⟨fun hs => ⟨(h.silent hs).1, fun b v hb => (h.silent hs).2 b v (hv b v hb)⟩,
    fun b hb => ?_, fun v hd => (h.decided v hd).mono hg⟩
  obtain ⟨v, p, hval, hp, hle, hvoted, hmax⟩ := h.accepted b hb
  exact ⟨v, p, hval, hp, hle, (hg.record slot).voted _ _ _ hvoted,
    fun c u hc => hmax c u (hv c u hc)⟩

/-- A world that differs in one acceptor, and by at most the vote that it cast. -/
structure Moves (w w' : World P) (node : String) : Prop where
  grow : Grow w w'
  others : ∀ n, n ≠ node → w'.acceptors n = w.acceptors n
  silent : ∀ n, n ≠ node → ∀ slot b v,
    (w'.record slot).voted n b v → (w.record slot).voted n b v
  messages : w'.messages = w.messages
  reserved : w'.reserved = w.reserved
  replies : w'.replies = w.replies
  safetyErrors : w'.safetyErrors = w.safetyErrors
  invoked : w'.invoked = w.invoked

theorem World.proposed_congr {w w' : World P} (h : w'.messages = w.messages) (slot : Nat) :
    w'.Proposed slot = w.Proposed slot := by
  funext b v
  unfold World.Proposed
  rw [h]

/-- The invariant after one acceptor moved, when its own slots agree with its votes. -/
theorem Inv.moves {𝒮 : Deployment} {w w' : World P} {node : String} (h : Inv 𝒮 w)
    (hm : Moves w w' node) (hwf : (w'.acceptors node).WellFormed)
    (hslots : ∀ slot, SlotInv w' 𝒮.members.members node slot
      ((w'.acceptors node).state.slot slot))
    (hvoted : ∀ slot b v, (w'.record slot).voted node b v → w.Proposed slot b v) :
    Inv 𝒮 w' where
  nodeId := fun n => (hm.grow.advances n).nodeId.trans (h.nodeId n)
  wellFormed := by
    intro n
    by_cases hn : n = node
    · exact hn ▸ hwf
    · rw [hm.others n hn]
      exact h.wellFormed n
  disciplined := by
    intro slot
    rw [World.proposed_congr hm.messages slot]
    refine ⟨(h.disciplined slot).unique, fun b v hb => ?_, fun a b v hb => ?_⟩
    · exact ((h.disciplined slot).safe b v hb).mono (hm.grow.record slot)
    · by_cases ha : a = node
      · exact hvoted slot b v (ha ▸ hb)
      · exact (h.disciplined slot).voted a b v (hm.silent a ha slot b v hb)
  slots := by
    intro n slot
    by_cases hn : n = node
    · exact hn ▸ hslots slot
    · rw [hm.others n hn]
      exact (h.slots n slot).mono hm.grow (hm.silent n hn slot)
  prepared := fun n request response hr =>
    (h.prepared n request response (hm.replies ▸ hr)).mono hm.grow
  accepted := fun n request response hr ha =>
    (hm.grow.record _).voted _ _ _ (h.accepted n request response (hm.replies ▸ hr) ha)
  learned := fun m hmem request hreq =>
    (h.learned m (hm.messages ▸ hmem) request hreq).mono hm.grow
  reserved := by
    intro b t hb
    obtain ⟨hnode, hround⟩ := h.reserved b t (hm.reserved ▸ hb)
    exact ⟨hnode, Nat.le_trans hround (hm.grow.advances t.node).localRound⟩
  owner := by
    rw [hm.reserved]
    exact h.owner
  proposer := by
    intro slot b v hb
    rw [World.proposed_congr hm.messages slot] at hb
    rw [hm.reserved]
    exact h.proposer slot b v hb
  safe := hm.safetyErrors.trans h.safe

theorem Moves.rely {w w' : World P} {node : String} (h : Moves w w' node) (t : TaskId) :
    Rely t w w' := by
  refine ⟨fun b hb => h.reserved ▸ hb, fun b _ slot v hv => ?_, congrFun h.invoked t⟩
  rwa [World.proposed_congr h.messages slot] at hv

theorem World.moves_setAcceptor {w : World P} {node : String} {acceptor : PaxosAcceptor P}
    (h : (w.acceptors node).Advances acceptor) :
    Moves w (w.setAcceptor node acceptor) node where
  grow := World.grow_setAcceptor h
  others := fun _ hn => Function.update_of_ne hn _ _
  silent := fun _ _ _ _ _ hv => hv
  messages := rfl
  reserved := rfl
  replies := rfl
  safetyErrors := rfl
  invoked := rfl

@[simp] theorem World.setAcceptor_self (w : World P) (node : String) :
    w.setAcceptor node (w.acceptors node) = w := by
  rw [World.setAcceptor, Function.update_eq_self]

@[simp] theorem World.setAcceptor_acceptors (w : World P) (node : String)
    (acceptor : PaxosAcceptor P) : (w.setAcceptor node acceptor).acceptors node = acceptor :=
  Function.update_self _ _ _

/-! ## Replies -/

theorem World.grow_reply (w : World P) (r : Reply P) :
    Grow w { w with replies := r :: w.replies } :=
  ⟨fun _ => .refl _, List.Subset.refl _, List.Subset.refl _, fun _ => .refl _,
    List.prefix_refl _⟩

/-- A reply that says the truth about its acceptor. -/
theorem Inv.reply {𝒮 : Deployment} {w : World P} {r : Reply P} (h : Inv 𝒮 w)
    (hp : ∀ request response, r.request = .prepare request → r.response = .prepare response →
      Prepared w 𝒮.members.members r.source request response)
    (ha : ∀ request response, r.request = .accept request → r.response = .accept response →
      response.accepted = true → (w.record request.slot).voted r.source request.ballot request.value) :
    Inv 𝒮 { w with replies := r :: w.replies } :=
  { h with
    slots := fun n slot => (h.slots n slot).mono (w.grow_reply r) fun _ _ hv => hv
    prepared := by
      intro n request response hr
      rcases List.mem_cons.mp hr with heq | hr
      · subst heq
        exact (hp request response rfl rfl).mono (w.grow_reply _)
      · exact (h.prepared n request response hr).mono (w.grow_reply r)
    accepted := by
      intro n request response hr hacc
      rcases List.mem_cons.mp hr with heq | hr
      · subst heq
        exact ha request response rfl rfl hacc
      · exact h.accepted n request response hr hacc }

theorem World.rely_reply (w : World P) (r : Reply P) (t : TaskId) :
    Rely t w { w with replies := r :: w.replies } :=
  ⟨fun _ h => h, fun _ _ _ _ h => h, rfl⟩

/-! ## Handling a request -/

/-- A new promise agrees with the votes. -/
theorem SlotInv.withPromise {w w' : World P} {members : List String} {node : String} {slot : Nat}
    {s : AcceptorSlotState P} {ballot : Ballot} (h : SlotInv w members node slot s)
    (hb : s.outbid ballot = none) (hg : Grow w w')
    (hv : ∀ b v, (w'.record slot).voted node b v → (w.record slot).voted node b v) :
    SlotInv w' members node slot (s.withPromise ballot) := by
  have h' := h.mono hg hv
  refine ⟨h'.silent, fun b hacc => ?_, h'.decided⟩
  obtain ⟨v, p, hval, hp, hle, hvoted, hmax⟩ := h'.accepted b hacc
  exact ⟨v, ballot, hval, rfl, le_trans hle (AcceptorSlotState.le_of_outbid hb hp), hvoted, hmax⟩

/-- What an acceptor reports when it promises. -/
theorem SlotInv.prepared {w w' : World P} {members : List String} {node : String}
    {request : PrepareRequest} {s : AcceptorSlotState P}
    (h : SlotInv w members node request.slot s) (hb : s.outbid request.ballot = none)
    (hg : Grow w w')
    (hp : ((w'.acceptors node).state.slot request.slot).promisedBallot = some request.ballot)
    (hv : ∀ b v, (w'.record request.slot).voted node b v → (w.record request.slot).voted node b v) :
    Prepared w' members node request
      ⟨true, request.ballot, s.acceptedBallot, s.acceptedValue, s.decidedValue⟩ := by
  have h' := h.mono hg hv
  have hclosed : ∀ c < request.ballot, (w'.record request.slot).closed node c :=
    fun c hc => ⟨request.ballot, hp, hc⟩
  cases hacc : s.acceptedBallot with
  | none =>
      obtain ⟨-, hnone⟩ := h'.silent hacc
      refine ⟨fun _ c hc => ⟨hclosed c hc, hnone c⟩, fun _ c v hcv => ?_, h'.decided⟩
      cases hcv
  | some b =>
      obtain ⟨v, p, hval, hprom, hle, hvoted, hmax⟩ := h'.accepted b hacc
      rw [hval]
      refine ⟨fun _ => ⟨hclosed, hvoted, fun d _ hbd u hu => ?_⟩, fun _ c u hcu => ?_, h'.decided⟩
      · exact absurd hbd (not_lt.mpr (hmax d u hu))
      · cases hcu
        exact le_trans hle (AcceptorSlotState.le_of_outbid hb hprom)

/-- A new vote agrees with the votes. -/
theorem SlotInv.withVote {w w' : World P} {members : List String} {node : String} {slot : Nat}
    {s : AcceptorSlotState P} {ballot : Ballot} {value : PaxosValue P}
    (h : SlotInv w members node slot s) (hb : s.outbid ballot = none) (hg : Grow w w')
    (hv : ∀ b v, (w'.record slot).voted node b v →
      (b = ballot ∧ v = value) ∨ (w.record slot).voted node b v)
    (hvote : (w'.record slot).voted node ballot value) :
    SlotInv w' members node slot (s.withVote ballot value) := by
  refine ⟨fun hnone => (by cases hnone), fun b hacc => ?_, fun v hd => (h.decided v hd).mono hg⟩
  obtain rfl := Option.some.inj hacc
  refine ⟨value, ballot, rfl, rfl, le_refl _, hvote, fun c u hc => ?_⟩
  rcases hv c u hc with ⟨rfl, -⟩ | hc
  · exact le_refl _
  · -- An earlier vote is at most the accepted ballot, which the promise covers.
    cases hacc' : s.acceptedBallot with
    | none => exact absurd hc ((h.silent hacc').2 c u)
    | some b =>
        obtain ⟨-, p, -, hp, hle, -, hmax⟩ := h.accepted b hacc'
        exact le_trans (hmax c u hc) (le_trans hle (AcceptorSlotState.le_of_outbid hb hp))

/-- The invariant after an acceptor set one slot. -/
theorem Inv.setSlot {𝒮 : Deployment} {w w' : World P} {node : String}
    {changed : AcceptorSlotState P} (h : Inv 𝒮 w) (hm : Moves w w' node)
    (ha : w'.acceptors node = (w.acceptors node).setSlot changed)
    (hd : changed.decidedValue = w.decided node changed.slot)
    (hs : SlotInv w' 𝒮.members.members node changed.slot changed)
    (hv : ∀ slot, slot ≠ changed.slot → ∀ b v,
      (w'.record slot).voted node b v → (w.record slot).voted node b v)
    (hvoted : ∀ slot b v, (w'.record slot).voted node b v → w.Proposed slot b v) :
    Inv 𝒮 w' := by
  refine h.moves hm ?_ (fun slot => ?_) hvoted
  · rw [ha]
    exact (h.wellFormed node).setSlot hd
  · rw [ha]
    by_cases hslot : slot = changed.slot
    · rw [PaxosAcceptor.slot_setSlot_of_eq hslot]
      exact hslot ▸ hs
    · rw [PaxosAcceptor.slot_setSlot_of_ne hslot]
      exact (h.slots node slot).mono hm.grow (hv slot hslot)

section Handle

variable [DecidableEq P] {𝒮 : Deployment} {w : World P}

theorem Inv.handlePrepare (h : Inv 𝒮 w) (target : String) (saves : Bool)
    (request : PrepareRequest) :
    Inv 𝒮 (w.handle target saves (.prepare request)) ∧
      Grow w (w.handle target saves (.prepare request)) ∧
      ∀ t, Rely t w (w.handle target saves (.prepare request)) := by
  rw [World.handle]
  have hslots := h.slots target request.slot
  rcases (w.acceptors target).prepare_cases request saves with
    heq | ⟨promised, -, heq⟩ | ⟨hb, heq⟩
  · rw [heq]
    simp only [World.setAcceptor_self]
    exact ⟨h, Grow.refl w, fun t => Rely.refl t w⟩
  · rw [heq]
    simp only [World.setAcceptor_self]
    refine ⟨h.reply ?_ ?_, w.grow_reply _, w.rely_reply _⟩
    · intro request' response hreq hresp
      cases hreq
      cases hresp
      exact ⟨nofun, nofun, hslots.decided⟩
    · intro request' response hreq
      cases hreq
  · rw [heq]
    simp only
    -- The acceptor promises: its slot closes every ballot below.
    have hslot : (((w.acceptors target).state.slot request.slot).withPromise
        request.ballot).slot = request.slot := slot_slot _ _
    have hd : (((w.acceptors target).state.slot request.slot).withPromise
        request.ballot).decidedValue = w.decided target _ := congrArg (w.decided target) hslot.symm
    have hm := World.moves_setAcceptor (PaxosAcceptor.advances_setSlot (hslot.symm ▸ hb) rfl hd)
    have hi := h.setSlot hm (World.setAcceptor_acceptors _ _ _) hd
      (hslot.symm ▸ hslots.withPromise hb hm.grow fun _ _ hv => hv) (fun _ _ _ _ hv => hv)
      fun slot b v hv => (h.disciplined slot).voted target b v hv
    refine ⟨hi.reply ?_ ?_, hm.grow.trans (World.grow_reply _ _),
      fun t => (hm.rely t).trans (World.rely_reply _ _ t)⟩
    · intro request' response hreq hresp
      cases hreq
      cases hresp
      refine hslots.prepared hb hm.grow ?_ fun _ _ hv => hv
      rw [World.setAcceptor_acceptors, PaxosAcceptor.slot_setSlot_of_eq hslot.symm]
      rfl
    · intro request' response hreq
      cases hreq

/-- The acceptor of `node` has accepted and its vote is on record. -/
def World.castVote (w : World P) (node : String) (request : AcceptRequest P) : World P :=
  { w.setAcceptor node ((w.acceptors node).setSlot
      (((w.acceptors node).state.slot request.slot).withVote request.ballot request.value)) with
    votes := ⟨node, request.slot, request.ballot, request.value⟩ :: w.votes }

omit [DecidableEq P] in
theorem World.voted_castVote {node a : String} {request : AcceptRequest P} {slot : Nat}
    {b : Ballot} {v : PaxosValue P} (h : ((w.castVote node request).record slot).voted a b v) :
    (a = node ∧ slot = request.slot ∧ b = request.ballot ∧ v = request.value) ∨
      (w.record slot).voted a b v := by
  rcases List.mem_cons.mp h with heq | h
  · cases heq
    exact .inl ⟨rfl, rfl, rfl, rfl⟩
  · exact .inr h

omit [DecidableEq P] in
theorem World.moves_castVote (w : World P) (node : String) {request : AcceptRequest P}
    (hb : ((w.acceptors node).state.slot request.slot).outbid request.ballot = none) :
    Moves w (w.castVote node request) node := by
  have hslot : (((w.acceptors node).state.slot request.slot).withVote
      request.ballot request.value).slot = request.slot := slot_slot _ _
  have hadv : (w.acceptors node).Advances ((w.acceptors node).setSlot
      (((w.acceptors node).state.slot request.slot).withVote request.ballot request.value)) :=
    PaxosAcceptor.advances_setSlot (hslot.symm ▸ hb) rfl (congrArg (w.decided node) hslot.symm)
  have hm := World.moves_setAcceptor hadv
  refine { hm with
    grow := ⟨fun slot => ⟨fun a b v hv => List.mem_cons_of_mem _ hv,
      (hm.grow.record slot).closed, fun a b v hv hclosed => ?_⟩,
      hm.grow.messages, hm.grow.reserved, hm.grow.advances, hm.grow.completed⟩
    silent := fun n hn slot b v hv => ?_ }
  · -- A vote is cast only where the promise allows it.
    rcases World.voted_castVote hv with ⟨rfl, rfl, rfl, rfl⟩ | hv
    · obtain ⟨p, hp, hlt⟩ := hclosed
      exact absurd hlt (not_lt.mpr (AcceptorSlotState.le_of_outbid hb hp))
    · exact hv
  · rcases World.voted_castVote hv with ⟨rfl, -⟩ | hv
    · exact absurd rfl hn
    · exact hv

omit [DecidableEq P] in
/-- An acceptor accepts a proposal that nothing outbids. -/
theorem Inv.castVote (h : Inv 𝒮 w) {node : String} {request : AcceptRequest P}
    (hb : ((w.acceptors node).state.slot request.slot).outbid request.ballot = none)
    (hp : w.Proposed request.slot request.ballot request.value) :
    Inv 𝒮 (w.castVote node request) := by
  have hslot : (((w.acceptors node).state.slot request.slot).withVote
      request.ballot request.value).slot = request.slot := slot_slot _ _
  have hm := w.moves_castVote node hb
  refine h.setSlot hm (World.setAcceptor_acceptors _ _ _) (congrArg (w.decided node) hslot.symm)
    (hslot.symm ▸ ?_) (fun slot hs b v hv => ?_) fun slot b v hv => ?_
  · refine (h.slots node request.slot).withVote hb hm.grow (fun b v hv => ?_) List.mem_cons_self
    rcases World.voted_castVote hv with ⟨-, -, hbv⟩ | hv
    · exact .inl hbv
    · exact .inr hv
  · rcases World.voted_castVote hv with ⟨-, rfl, -⟩ | hv
    · exact absurd hslot.symm hs
    · exact hv
  · rcases World.voted_castVote hv with ⟨-, rfl, rfl, rfl⟩ | hv
    · exact hp
    · exact (h.disciplined slot).voted node b v hv

theorem Inv.handleAccept (h : Inv 𝒮 w) (target : String) (saves : Bool)
    (request : AcceptRequest P) (hp : w.Proposed request.slot request.ballot request.value) :
    Inv 𝒮 (w.handle target saves (.accept request)) ∧
      Grow w (w.handle target saves (.accept request)) ∧
      ∀ t, Rely t w (w.handle target saves (.accept request)) := by
  rw [World.handle]
  rcases (w.acceptors target).accept_cases request saves with
    ⟨-, hacc, v, hv, hne⟩ | heq | ⟨promised, heq⟩ | ⟨hb, heq⟩
  · -- Both values would have been proposed at the one ballot.
    obtain ⟨u, p, hu, -, -, hvoted, -⟩ := (h.slots target request.slot).accepted _ hacc
    have hvu : v = u := Option.some.inj (hv.symm.trans hu)
    have hproposed := (h.disciplined request.slot).voted _ _ _ hvoted
    exact absurd (hvu.trans ((h.disciplined request.slot).unique _ _ _ hproposed hp)) hne
  · rw [heq]
    simp only [World.setAcceptor_self]
    exact ⟨h, Grow.refl w, fun t => Rely.refl t w⟩
  · rw [heq]
    simp only [World.setAcceptor_self]
    refine ⟨h.reply ?_ ?_, w.grow_reply _, w.rely_reply _⟩
    · intro request' response hreq
      cases hreq
    · intro request' response hreq hresp hacc
      cases hresp
      cases hacc
  · rw [heq]
    have hm := w.moves_castVote target hb
    have hi := h.castVote hb hp
    refine ⟨hi.reply ?_ ?_, hm.grow.trans (World.grow_reply _ _),
      fun t => (hm.rely t).trans (World.rely_reply _ _ t)⟩
    · intro request' response hreq
      cases hreq
    · intro request' response hreq hresp _
      cases hreq
      exact List.mem_cons_self

/-- An acceptor learns a chosen value. -/
theorem Inv.decide (h : Inv 𝒮 w) (node : String) (saves : Bool) (request : DecideRequest P)
    (hc : w.ChosenIn 𝒮.members.members request.slot request.value) :
    let result := (w.acceptors node).decide request saves
    Inv 𝒮 (w.setAcceptor node result.1) ∧ Moves w (w.setAcceptor node result.1) node ∧
      (∀ message, result.2 ≠ .error (.safety message)) ∧
      (result.2 = .ok () →
        (w.setAcceptor node result.1).decided node request.slot = some request.value) := by
  have hm := World.moves_setAcceptor ((w.acceptors node).advances_decide request saves)
  refine ⟨?_, hm, ?_⟩
  · rcases (w.acceptors node).decide_cases request saves with
      ⟨value, -, ⟨-, heq⟩ | ⟨-, message, heq⟩⟩ | ⟨hnone, heq | ⟨stop, rfl, heq⟩⟩
    · rw [heq, World.setAcceptor_self]
      exact h
    · rw [heq, World.setAcceptor_self]
      exact h
    · rw [heq, World.setAcceptor_self]
      exact h
    · rw [heq] at hm ⊢
      refine h.moves hm ?_ (fun slot => ?_) fun slot b v hv =>
        (h.disciplined slot).voted node b v hv
      · rw [World.setAcceptor_acceptors]
        exact (h.wellFormed node).applied_wellFormed hnone _
      · rw [World.setAcceptor_acceptors]
        have hs := (h.slots node slot).mono hm.grow fun _ _ hv => hv
        refine ⟨?_, ?_, fun v hv => ?_⟩
        · rcases (w.acceptors node).slot_decidedState request slot with hst | hst
          · exact hst ▸ hs.silent
          · exact hst ▸ hs.silent
        · rcases (w.acceptors node).slot_decidedState request slot with hst | hst
          · exact hst ▸ hs.accepted
          · exact hst ▸ hs.accepted
        · have hv' : ((w.acceptors node).decidedState request).decided slot = some v := hv
          rw [PaxosAcceptor.decided_decidedState] at hv'
          split at hv'
          · next hslot =>
              rw [← Option.some.inj hv', hslot]
              exact hc.mono hm.grow
          · exact hs.decided v hv'
  · rcases (w.acceptors node).decide_cases request saves with
      ⟨value, hval, ⟨hv, heq⟩ | ⟨hv, message, heq⟩⟩ | ⟨hnone, heq | ⟨stop, rfl, heq⟩⟩
    · rw [heq]
      refine ⟨fun _ => nofun, fun _ => ?_⟩
      rw [World.setAcceptor_self]
      exact hv ▸ hval
    · -- A different decision would have been chosen as well.
      exact absurd (h.agreement (h.chosen_of_decided hval) hc) hv
    · rw [heq]
      exact ⟨fun _ => nofun, nofun⟩
    · rw [heq]
      refine ⟨fun _ => nofun, fun _ => ?_⟩
      have hdec := (w.acceptors node).decided_decidedState request request.slot
      rw [if_pos rfl] at hdec
      rw [World.decided, World.setAcceptor_acceptors]
      exact hdec

theorem Inv.handleDecide (h : Inv 𝒮 w) (target : String) (saves : Bool)
    (request : DecideRequest P)
    (hc : w.ChosenIn 𝒮.members.members request.slot request.value) :
    Inv 𝒮 (w.handle target saves (.decide request)) ∧
      Grow w (w.handle target saves (.decide request)) ∧
      ∀ t, Rely t w (w.handle target saves (.decide request)) := by
  rw [World.handle]
  obtain ⟨hi, hm, hsafe, -⟩ := h.decide target saves request hc
  split
  · next e he =>
      have hnote : (w.setAcceptor target ((w.acceptors target).decide request saves).1).noteError e =
          w.setAcceptor target ((w.acceptors target).decide request saves).1 := by
        cases e with
        | safety message => exact absurd he (hsafe message)
        | _ => rfl
      rw [hnote]
      exact ⟨hi, hm.grow, hm.rely⟩
  · refine ⟨hi.reply ?_ ?_, hm.grow.trans (World.grow_reply _ _),
      fun t => (hm.rely t).trans (World.rely_reply _ _ t)⟩
    · intro request' response hreq
      cases hreq
    · intro request' response hreq
      cases hreq

/-- **Handling any request that was sent keeps the invariant.** -/
theorem Inv.handle (h : Inv 𝒮 w) {m : Message P} (hm : m ∈ w.messages) (target : String)
    (saves : Bool) :
    Inv 𝒮 (w.handle target saves m.request) ∧ Grow w (w.handle target saves m.request) ∧
      ∀ t, Rely t w (w.handle target saves m.request) := by
  cases hr : m.request with
  | prepare request => exact h.handlePrepare target saves request
  | accept request => exact h.handleAccept target saves request ⟨m, hm, hr⟩
  | decide request => exact h.handleDecide target saves request (h.learned m hm request hr)

end Handle

/-- A node restarts from its storage. -/
theorem Inv.crash {𝒮 : Deployment} {w : World P} (h : Inv 𝒮 w) (node : String) :
    let acceptor := w.acceptors node
    let w' := w.setAcceptor node (.create acceptor.nodeId acceptor.storage)
    Inv 𝒮 w' ∧ Moves w w' node := by
  obtain ⟨hwf, hstate⟩ := (h.wellFormed node).restart
  have hadv : (w.acceptors node).Advances (.create (w.acceptors node).nodeId
      (w.acceptors node).storage) := by
    refine ⟨rfl, fun slot v hv => ?_, ?_, ?_, fun slot p hp => ⟨p, ?_, le_refl p⟩⟩
    · rw [hstate]
      exact hv
    · rw [hstate]
    · rw [hstate]
    · rw [hstate]
      exact hp
  have hm := World.moves_setAcceptor hadv
  refine ⟨h.moves hm ?_ (fun slot => ?_) fun slot b v hv => (h.disciplined slot).voted node b v hv,
    hm⟩
  · rw [World.setAcceptor_acceptors]
    exact hwf
  · rw [World.setAcceptor_acceptors, hstate]
    exact (h.slots node slot).mono hm.grow fun _ _ hv => hv

theorem inv_initial (𝒮 : Deployment) : Inv 𝒮 (World.initial P) := by
  have hnoproposal : ∀ slot b v, ¬(World.initial P).Proposed slot b v :=
    fun slot b v ⟨m, hm, _⟩ => nomatch hm
  exact
    { nodeId := fun _ => rfl
      wellFormed := fun _ => ⟨rfl, rfl, rfl, fun _ hpos hle => absurd hle (Nat.not_le.mpr hpos), nofun⟩
      disciplined := fun slot => ⟨fun b v _ hb => absurd hb (hnoproposal slot b v),
        fun b v hb => absurd hb (hnoproposal slot b v), nofun⟩
      slots := fun _ _ => ⟨fun _ => ⟨rfl, nofun⟩, nofun, nofun⟩
      prepared := nofun
      accepted := nofun
      learned := nofun
      reserved := nofun
      owner := nofun
      proposer := fun slot b v hb => absurd hb (hnoproposal slot b v)
      safe := rfl }

end DelosLab.Paxos
