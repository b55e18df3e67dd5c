import DelosLab.Paxos.Discipline

/-!
# The proposer keeps the discipline

One triple for each function of the proposer and of the MetaStore on top of it,
for any condition on the steps of a run and any further fact about the calls that
have returned.
-/

namespace DelosLab.Paxos

open Async Async.Coroutine Consensus

variable {P : Type}

/-- Not a `PaxosSafetyError`. -/
def Error.Harmless (e : Error) : Prop := ∀ message, e ≠ .safety message

theorem World.noteError_of_harmless {w : World P} {e : Error} (h : e.Harmless) :
    w.noteError e = w := by
  cases e with
  | safety message => exact absurd rfl (h message)
  | _ => rfl

/-! ## Sending -/

/-- A request that may be sent: an Accept request for a safe value at a ballot that
the sender holds, a Decide request for a chosen value, or a Prepare request. -/
structure Sendable (w : World P) (members : List String) (request : Request P) : Prop where
  accept : ∀ r, request = .accept r →
    SafeAt members (w.record r.slot) r.ballot r.value ∧ (∃ t, (r.ballot, t) ∈ w.reserved) ∧
      ∀ slot v, ¬w.Proposed slot r.ballot v
  decide : ∀ r, request = .decide r → w.ChosenIn members r.slot r.value

theorem World.proposed_send {w : World P} {m : Message P} {slot : Nat} {b : Ballot}
    {v : PaxosValue P} (h : World.Proposed { w with messages := m :: w.messages } slot b v) :
    m.request = .accept ⟨slot, b, v⟩ ∨ w.Proposed slot b v := by
  obtain ⟨m', hm', hr⟩ := h
  rcases List.mem_cons.mp hm' with rfl | hm'
  · exact .inl hr
  · exact .inr ⟨m', hm', hr⟩

theorem World.grow_send (w : World P) (m : Message P) :
    Grow w { w with messages := m :: w.messages } :=
  ⟨fun _ => .refl _, List.subset_cons_self _ _, List.Subset.refl _, fun _ => .refl _,
    List.prefix_refl _⟩

theorem Inv.send {𝒮 : Deployment} {w : World P} (h : Inv 𝒮 w) {m : Message P}
    (hm : Sendable w 𝒮.members.members m.request) :
    Inv 𝒮 { w with messages := m :: w.messages } := by
  have hg := w.grow_send m
  refine { h with
    disciplined := fun slot => ⟨fun b v u hv hu => ?_, fun b v hv => ?_, fun a b v hv => ?_⟩
    slots := fun n slot => (h.slots n slot).mono hg fun _ _ hv => hv
    prepared := fun n request response hr => (h.prepared n request response hr).mono hg
    learned := fun m' hm' request hr => ?_
    proposer := fun slot b v hv => ?_ }
  · rcases World.proposed_send hv with hv | hv <;> rcases World.proposed_send hu with hu | hu
    · rw [hv] at hu
      cases hu
      rfl
    · exact absurd hu ((hm.accept _ hv).2.2 slot u)
    · exact absurd hv ((hm.accept _ hu).2.2 slot v)
    · exact (h.disciplined slot).unique b v u hv hu
  · rcases World.proposed_send hv with hv | hv
    · exact (hm.accept _ hv).1
    · exact (h.disciplined slot).safe b v hv
  · obtain ⟨m', hm', hr⟩ := (h.disciplined slot).voted a b v hv
    exact ⟨m', List.mem_cons_of_mem _ hm', hr⟩
  · rcases List.mem_cons.mp hm' with rfl | hm'
    · exact (hm.decide request hr).mono hg
    · exact (h.learned m' hm' request hr).mono hg
  · rcases World.proposed_send hv with hv | hv
    · exact (hm.accept _ hv).2.1
    · exact h.proposer slot b v hv

/-! ## Reserving a ballot -/

/-- The world after the acceptor of `node` counted its rounds up. -/
def World.advanceRound (w : World P) (node : String) (minimumRound : Nat) : World P :=
  w.setAcceptor node ((w.acceptors node).reserveBallot minimumRound true).1

/-- The world after `t` reserved a ballot of its node. -/
def World.reserve (w : World P) (t : TaskId) (minimumRound : Nat) (ballot : Ballot) : World P :=
  { w.advanceRound t.node minimumRound with reserved := (ballot, t) :: w.reserved }

/-- The acceptor of `t` gives out `ballot`. -/
def World.Reserves (w : World P) (t : TaskId) (minimumRound : Nat) (ballot : Ballot) : Prop :=
  ((w.acceptors t.node).reserveBallot minimumRound true).2 = .ok ballot

theorem World.moves_advanceRound (w : World P) (node : String) (minimumRound : Nat) :
    Moves w (w.advanceRound node minimumRound) node :=
  World.moves_setAcceptor ((w.acceptors node).advances_reserveBallot minimumRound true)

theorem Inv.advanceRound {𝒮 : Deployment} {w : World P} (h : Inv 𝒮 w) (node : String)
    (minimumRound : Nat) : Inv 𝒮 (w.advanceRound node minimumRound) := by
  have hm := w.moves_advanceRound node minimumRound
  refine h.moves hm ?_ (fun slot => ?_) fun slot b v hv => (h.disciplined slot).voted _ b v hv
  · rw [World.advanceRound, World.setAcceptor_acceptors]
    exact (h.wellFormed node).reserveBallot minimumRound true
  · rw [World.advanceRound, World.setAcceptor_acceptors]
    exact (h.slots node slot).mono hm.grow fun _ _ hv => hv

theorem World.grow_reserve (w : World P) (t : TaskId) (minimumRound : Nat) (ballot : Ballot) :
    Grow w (w.reserve t minimumRound ballot) :=
  have hg := (w.moves_advanceRound t.node minimumRound).grow
  ⟨hg.record, hg.messages, List.subset_cons_self _ _, hg.advances, hg.completed⟩

/-- A ballot that is reserved now was never reserved before. -/
theorem Inv.reserve_fresh {𝒮 : Deployment} {w : World P} (h : Inv 𝒮 w) {t : TaskId}
    {minimumRound : Nat} {ballot : Ballot} (hb : w.Reserves t minimumRound ballot) (u : TaskId) :
    (ballot, u) ∉ w.reserved := by
  intro hu
  obtain ⟨hnode, hround⟩ := h.reserved _ u hu
  obtain ⟨hid, hlt, -⟩ := PaxosAcceptor.reserveBallot_ok hb
  have hsame : u.node = t.node := hnode.symm.trans (hid.trans (h.nodeId t.node))
  rw [hsame] at hround
  omega

theorem Inv.reserve {𝒮 : Deployment} {w : World P} (h : Inv 𝒮 w) {t : TaskId}
    {minimumRound : Nat} {ballot : Ballot} (hb : w.Reserves t minimumRound ballot) :
    Inv 𝒮 (w.reserve t minimumRound ballot) := by
  have hi := h.advanceRound t.node minimumRound
  have hg : Grow (w.advanceRound t.node minimumRound) (w.reserve t minimumRound ballot) :=
    ⟨fun _ => .refl _, List.Subset.refl _, List.subset_cons_self _ _, fun _ => .refl _,
      List.prefix_refl _⟩
  refine { hi with
    slots := fun n slot => (hi.slots n slot).mono hg fun _ _ hv => hv
    prepared := fun n request response hr => (hi.prepared n request response hr).mono hg
    reserved := fun c u hc => ?_
    owner := fun c u u' hc hc' => ?_
    proposer := fun slot c v hv => ?_ }
  · rcases List.mem_cons.mp hc with heq | hc
    · cases heq
      obtain ⟨hid, -, hround⟩ := PaxosAcceptor.reserveBallot_ok hb
      refine ⟨hid.trans (h.nodeId t.node), Nat.le_of_eq ?_⟩
      show _ = ((w.setAcceptor t.node _).acceptors t.node).state.localRound
      rw [World.setAcceptor_acceptors, hround]
    · exact hi.reserved c u hc
  · rcases List.mem_cons.mp hc with heq | hc <;> rcases List.mem_cons.mp hc' with heq' | hc'
    · cases heq
      cases heq'
      rfl
    · cases heq
      exact absurd hc' (h.reserve_fresh hb u')
    · cases heq'
      exact absurd hc (h.reserve_fresh hb u)
    · exact h.owner c u u' hc hc'
  · obtain ⟨u, hu⟩ := h.proposer slot c v hv
    exact ⟨u, List.mem_cons_of_mem _ hu⟩

theorem World.rely_reserve (w : World P) (t : TaskId) (minimumRound : Nat) (ballot : Ballot)
    (u : TaskId) : Rely u w (w.reserve t minimumRound ballot) :=
  ⟨fun _ hb => List.mem_cons_of_mem _ hb, fun _ _ _ _ hv => hv, rfl⟩

/-- Nobody has proposed at a ballot that is reserved only now. -/
theorem Inv.holds_reserve {𝒮 : Deployment} {w : World P} (h : Inv 𝒮 w) {t : TaskId}
    {minimumRound : Nat} {ballot : Ballot} (hb : w.Reserves t minimumRound ballot) :
    Holds t ballot (w.reserve t minimumRound ballot) := by
  refine ⟨List.mem_cons_self, fun slot v hv => ?_⟩
  obtain ⟨u, hu⟩ := h.proposer slot _ v hv
  exact h.reserve_fresh hb u hu

/-! ## The discipline -/

theorem exec_grow (w : World P) (t : TaskId) (a : Act P) : Grow w (Deployment.exec w t a).1 := by
  cases a with
  | send targets request => exact w.grow_send _
  | lastApplied => exact Grow.refl w
  | result slot => exact Grow.refl w

theorem finish_grow (w : World P) (t : TaskId) (o : Except Error (Outcome P)) :
    Grow w (Deployment.finish w t o) := by
  cases o with
  | ok outcome =>
      exact ⟨fun _ => .refl _, List.Subset.refl _, List.Subset.refl _, fun _ => .refl _,
        List.prefix_append _ _⟩
  | error e =>
      cases e with
      | safety message =>
          exact ⟨fun _ => .refl _, List.Subset.refl _, List.Subset.refl _, fun _ => .refl _,
            List.prefix_refl _⟩
      | _ => exact Grow.refl w

section Discipline

variable [DecidableEq P]

/-- How a wait of task `t` may end, and the world afterwards. -/
inductive Resumed (𝒮 : Deployment) (t : TaskId) (w : World P) :
    (e : Wait P) → World P → Except Error (WaitResult P e) → Prop
  | failed {e : Wait P} {err : Error} (h : err.Harmless) : Resumed 𝒮 t w e w (.error err)
  | reserved {minimumRound : Nat} {ballot : Ballot} (h : w.Reserves t minimumRound ballot) :
      Resumed 𝒮 t w (.reserveBallot minimumRound) (w.reserve t minimumRound ballot) (.ok ballot)
  | refused (minimumRound : Nat) {err : Error} (h : err.Harmless) : Resumed 𝒮 t w
      (.reserveBallot minimumRound) (w.advanceRound t.node minimumRound) (.error err)
  | decided (request : DecideRequest P) (saves : Bool) : Resumed 𝒮 t w (.decide request)
      (w.setAcceptor t.node ((w.acceptors t.node).decide request saves).1)
      ((w.acceptors t.node).decide request saves).2
  | prepared {request : PrepareRequest} {replies : List (Option (PrepareResponse P))}
      (h : w.answered (.prepare request) .prepare 𝒮.members.members replies = true) :
      Resumed 𝒮 t w (.gatherPrepare request) w (.ok replies)
  | accepted {request : AcceptRequest P} {replies : List (Option AcceptResponse)}
      (h : w.answered (.accept request) .accept 𝒮.members.members replies = true) :
      Resumed 𝒮 t w (.gatherAccept request) w (.ok replies)
  | learned (request : DecideRequest P) : Resumed 𝒮 t w (.gatherDecide request) w (.ok ())

theorem resumed_of_resume {𝒮 : Deployment} {t : TaskId} {w w' : World P} {e : Wait P}
    {x : Choice P} {r : Except Error (WaitResult P e)}
    (h : 𝒮.resume w t e x = some (w', r)) : Resumed 𝒮 t w e w' r := by
  unfold Deployment.resume at h
  split at h
  · cases h
    exact .failed nofun
  · cases h
    exact .failed nofun
  · split at h
    · next acceptor ballot heq =>
        cases h
        obtain rfl := congrArg Prod.fst heq
        exact .reserved (congrArg Prod.snd heq)
    · next acceptor e heq =>
        cases h
        obtain rfl := congrArg Prod.fst heq
        rw [PaxosAcceptor.reserveBallot_error (congrArg Prod.snd heq)]
        exact .refused _ nofun
  · cases h
    exact .decided _ false
  · cases h
    exact .decided _ true
  · split at h
    · next hans =>
        cases h
        exact .prepared hans
    · cases h
  · split at h
    · next hans =>
        cases h
        exact .accepted hans
    · cases h
  · cases h
    exact .learned _
  · cases h

theorem Resumed.grow {𝒮 : Deployment} {t : TaskId} {w w' : World P} {e : Wait P}
    {r : Except Error (WaitResult P e)} (h : Resumed 𝒮 t w e w' r) : Grow w w' := by
  cases h with
  | failed h => exact Grow.refl w
  | reserved h => exact w.grow_reserve t _ _
  | refused minimumRound h => exact (w.moves_advanceRound t.node minimumRound).grow
  | decided request saves =>
      exact World.grow_setAcceptor ((w.acceptors t.node).advances_decide request saves)
  | prepared h => exact Grow.refl w
  | accepted h => exact Grow.refl w
  | learned request => exact Grow.refl w

theorem Resumed.completed {𝒮 : Deployment} {t : TaskId} {w w' : World P} {e : Wait P}
    {r : Except Error (WaitResult P e)} (h : Resumed 𝒮 t w e w' r) :
    w'.completed = w.completed := by
  cases h <;> rfl

/-- A further fact about a run that only the end of a call may touch. -/
structure Rider (𝒮 : Deployment) (P : Type) where
  holds : World P → Prop
  stable : ∀ w w', Inv 𝒮 w → Inv 𝒮 w' → Grow w w' → w'.completed = w.completed →
    holds w → holds w'

/-- The rider of a run about whose calls nothing more is claimed. -/
def Rider.none (𝒮 : Deployment) (P : Type) : Rider 𝒮 P :=
  ⟨fun _ => True, fun _ _ _ _ _ _ _ => trivial⟩

/-- What the peers of a deployment keep in every run whose steps meet `C`. -/
def discipline (𝒮 : Deployment)
    (C : Condition (signature P) (World P) TaskId (Call P) (Choice P)) (J : Rider 𝒮 P) :
    Discipline 𝒮.runtime C where
  Inv := fun w => Inv 𝒮 w ∧ J.holds w
  Grow := Grow
  Rely := Rely
  grow_refl := Grow.refl
  grow_trans := Grow.trans
  rely_refl := Rely.refl
  rely_trans := Rely.trans
  exec_grow := exec_grow
  resume_grow := fun h => (resumed_of_resume h).grow
  finish_grow := fun w t _ o => finish_grow w t o

variable {𝒮 : Deployment} {C : Condition (signature P) (World P) TaskId (Call P) (Choice P)}
  {J : Rider 𝒮 P} {t : TaskId} {c : Call P} {α : Type}

/-- The triple of a function that raises no `PaxosSafetyError`. -/
abbrev Ensures (𝒮 : Deployment)
    (C : Condition (signature P) (World P) TaskId (Call P) (Choice P)) (J : Rider 𝒮 P)
    (t : TaskId) (c : Call P) (F : World P → Prop) (p : Co P α) (Q : World P → α → Prop) : Prop :=
  (discipline 𝒮 C J).Triple t c F p Q fun _ e => e.Harmless

theorem kept_of {w w' : World P} (hi : (discipline 𝒮 C J).Inv w) (hi' : Inv 𝒮 w')
    (hg : Grow w w') (hc : w'.completed = w.completed) (hr : ∀ u, u ≠ t → Rely u w w') :
    (discipline 𝒮 C J).Kept t w w' :=
  ⟨⟨hi', J.stable w w' hi.1 hi' hg hc hi.2⟩, hr⟩

theorem persistent_chosen (slot : Nat) (v : PaxosValue P) :
    (discipline 𝒮 C J).Persistent fun w => w.ChosenIn 𝒮.members.members slot v :=
  fun _ _ hg h => h.mono hg

theorem persistent_decided (node : String) (slot : Nat) (v : PaxosValue P) :
    (discipline 𝒮 C J).Persistent fun w => w.decided node slot = some v :=
  fun _ _ hg h => (hg.advances node).decided slot v h

theorem lasting_holds (b : Ballot) :
    (discipline 𝒮 C J).Lasting t fun w : World P => Holds t b w :=
  fun _ _ _ hr h => h.stable hr

/-! ## Acts and waits -/

/-- Sending anything but an Accept request. -/
theorem send_spec {F : World P → Prop} (hF : (discipline 𝒮 C J).Lasting t F)
    (targets : List String) (request : Request P) (hr : ∀ r, request ≠ .accept r)
    (hs : ∀ w, F w → Sendable w 𝒮.members.members request) :
    Ensures 𝒮 C J t c F (act (.send targets request)) fun w _ => F w := by
  refine .act fun w hi hf => ?_
  have hrely : ∀ u, Rely u w (Deployment.exec w t (.send targets request)).1 := by
    refine fun u => ⟨fun _ h => h, fun b _ slot v hv => ?_, rfl⟩
    rcases World.proposed_send hv with hv | hv
    · exact absurd hv (hr _)
    · exact hv
  have hg := exec_grow w t (.send targets request)
  exact ⟨kept_of hi (hi.1.send (hs w hf)) hg rfl fun u _ => hrely u, hF _ _ hg (hrely t) hf⟩

/-- Sending an Accept request uses up the ballot. -/
theorem sendAccept_spec (targets : List String) (slot : Nat) (ballot : Ballot)
    (value : PaxosValue P) :
    Ensures 𝒮 C J t c
      (fun w => Holds t ballot w ∧ SafeAt 𝒮.members.members (w.record slot) ballot value)
      (act (.send targets (.accept ⟨slot, ballot, value⟩))) fun _ _ => True := by
  refine .act fun w hi hf => ⟨kept_of hi (hi.1.send ⟨fun r hr => ?_, nofun⟩)
    (exec_grow w t _) rfl fun u hu => ?_, trivial⟩
  · cases hr
    exact ⟨hf.2, ⟨t, hf.1.1⟩, hf.1.2⟩
  · refine ⟨fun _ h => h, fun b hb slot' v hv => ?_, rfl⟩
    rcases World.proposed_send hv with hv | hv
    · cases hv
      exact absurd (hi.1.owner _ u t hb hf.1.1) hu
    · exact hv

theorem reserveBallot_spec {F : World P → Prop} (hF : (discipline 𝒮 C J).Lasting t F)
    (minimumRound : Nat) :
    Ensures 𝒮 C J t c F (wait (.reserveBallot minimumRound)) fun w b => Holds t b w ∧ F w := by
  refine Discipline.Triple.wait hF.stable fun w x w' r hi hf _ hs => ?_
  cases resumed_of_resume hs with
  | failed h =>
      refine ⟨.refl hi, nofun, fun err he => ?_⟩
      cases he
      exact h
  | reserved h =>
      have hg := w.grow_reserve t minimumRound
      refine ⟨kept_of hi (hi.1.reserve h) (hg _) rfl fun u _ => w.rely_reserve t minimumRound _ u,
        fun b hb => ?_, nofun⟩
      cases hb
      exact ⟨hi.1.holds_reserve h, hF w _ (hg _) (w.rely_reserve t minimumRound _ t) hf⟩
  | refused _ h =>
      have hm := w.moves_advanceRound t.node minimumRound
      refine ⟨kept_of hi (hi.1.advanceRound t.node minimumRound) hm.grow rfl fun u _ => hm.rely u,
        nofun, fun err he => ?_⟩
      cases he
      exact h

/-- `await self._acceptor.decide(request)` for a chosen value. -/
theorem decide_spec (request : DecideRequest P) :
    Ensures 𝒮 C J t c (fun w => w.ChosenIn 𝒮.members.members request.slot request.value)
      (wait (.decide request)) fun w _ =>
        w.ChosenIn 𝒮.members.members request.slot request.value ∧
          w.decided t.node request.slot = some request.value := by
  refine Discipline.Triple.wait (persistent_chosen _ _).lasting.stable
    fun w x w' r hi hf _ hs => ?_
  cases resumed_of_resume hs with
  | failed h =>
      refine ⟨.refl hi, nofun, fun err he => ?_⟩
      cases he
      exact h
  | decided _ saves =>
      obtain ⟨hi', hm, hsafe, hok⟩ := hi.1.decide t.node saves request hf
      refine ⟨kept_of hi hi' hm.grow rfl fun u _ => hm.rely u, fun a ha => ?_, fun e he m => ?_⟩
      · exact ⟨hf.mono hm.grow, hok ha⟩
      · rintro rfl
        exact hsafe m he

theorem World.gathered {w : World P} {request : Request P} {R : Type} {response : R → Response P}
    {members : List String} {replies : List (Option R)}
    (h : w.answered request response members replies = true) :
    Gathered (fun m r => ⟨m, request, response r⟩ ∈ w.replies) members replies := by
  induction members generalizing replies with
  | nil =>
      cases replies with
      | nil => exact .nil
      | cons o replies => cases h
  | cons m members ih =>
      cases replies with
      | nil => cases h
      | cons o replies =>
          cases o with
          | none => exact .cons nofun (ih h)
          | some r =>
              rw [World.answered, Bool.and_eq_true, List.contains_iff_mem] at h
              refine .cons (fun r' hr' => ?_) (ih h.2)
              cases hr'
              exact h.1

theorem gatherPrepare_spec {F : World P → Prop} (hF : (discipline 𝒮 C J).Lasting t F)
    (request : PrepareRequest) :
    Ensures 𝒮 C J t c F (wait (.gatherPrepare request)) fun w replies =>
      Gathered (fun m r => Prepared w 𝒮.members.members m request r) 𝒮.members.members replies ∧
        F w := by
  refine Discipline.Triple.wait hF.stable fun w x w' r hi hf _ hs => ?_
  cases resumed_of_resume hs with
  | failed h =>
      refine ⟨.refl hi, nofun, fun err he => ?_⟩
      cases he
      exact h
  | prepared h =>
      refine ⟨.refl hi, fun replies hr => ?_, nofun⟩
      cases hr
      exact ⟨(World.gathered h).mono fun m r hr => hi.1.prepared m request r hr, hf⟩

theorem gatherAccept_spec (request : AcceptRequest P) :
    Ensures 𝒮 C J t c (fun _ => True) (wait (.gatherAccept request)) fun w replies =>
      Gathered (fun m r => r.accepted = true →
        (w.record request.slot).voted m request.ballot request.value)
        𝒮.members.members replies := by
  refine Discipline.Triple.wait (Discipline.persistent_const True).lasting.stable
    fun w x w' r hi hf _ hs => ?_
  cases resumed_of_resume hs with
  | failed h =>
      refine ⟨.refl hi, nofun, fun err he => ?_⟩
      cases he
      exact h
  | accepted h =>
      refine ⟨.refl hi, fun replies hr => ?_, nofun⟩
      cases hr
      exact (World.gathered h).mono fun m r hr => hi.1.accepted m request r hr

theorem gatherDecide_spec {F : World P → Prop} (hF : (discipline 𝒮 C J).Lasting t F)
    (request : DecideRequest P) :
    Ensures 𝒮 C J t c F (wait (.gatherDecide request)) fun w _ => F w := by
  refine Discipline.Triple.wait hF.stable fun w x w' r hi hf _ hs => ?_
  cases resumed_of_resume hs with
  | failed h =>
      refine ⟨.refl hi, nofun, fun err he => ?_⟩
      cases he
      exact h
  | learned => exact ⟨.refl hi, fun _ _ => hf, nofun⟩

/-! ## Deciding a slot -/

omit [DecidableEq P] in
theorem highest_mem (best : Ballot × PaxosValue P) (rest : List (Ballot × PaxosValue P)) :
    PaxosProposer.highest best rest ∈ best :: rest := by
  induction rest generalizing best with
  | nil => exact List.mem_cons_self
  | cons item rest ih =>
      rw [PaxosProposer.highest]
      split
      · exact List.mem_cons_of_mem _ (ih item)
      · rcases List.mem_cons.mp (ih best) with h | h
        · rw [h]
          exact List.mem_cons_self
        · exact List.mem_cons_of_mem _ (List.mem_cons_of_mem _ h)

omit [DecidableEq P] in
theorem le_highest (best : Ballot × PaxosValue P) (rest : List (Ballot × PaxosValue P)) :
    ∀ item ∈ best :: rest, item.1 ≤ (PaxosProposer.highest best rest).1 := by
  induction rest generalizing best with
  | nil =>
      intro item hitem
      rw [List.mem_singleton.mp hitem]
      exact le_refl _
  | cons next rest ih =>
      intro item hitem
      rw [PaxosProposer.highest]
      split
      · next hlt =>
          rcases List.mem_cons.mp hitem with rfl | hitem
          · exact le_trans (le_of_lt hlt) (ih next next List.mem_cons_self)
          · exact ih next item hitem
      · next hle =>
          rcases List.mem_cons.mp hitem with rfl | hitem
          · exact ih item item List.mem_cons_self
          rcases List.mem_cons.mp hitem with rfl | hitem
          · exact le_trans (not_lt.mp hle) (ih best best List.mem_cons_self)
          · exact ih best item (List.mem_cons_of_mem _ hitem)

omit [DecidableEq P] in
/-- The value that `_adopted_value` picks from the promises of `Q` may be adopted. -/
theorem adopts_adoptedValue {Q : List String} {answer : String → Option (PrepareResponse P)}
    {promised : List (PrepareResponse P)} {ballot : Ballot} (proposed : PaxosValue P)
    (hmap : Q.map answer = promised.map some)
    (hbelow : ∀ r ∈ promised, ∀ c v, PaxosProposer.acceptedPair r = some (c, v) → c < ballot) :
    Adopts Q (fun a => (answer a).bind PaxosProposer.acceptedPair) ballot
      (PaxosProposer.adoptedValue promised proposed) := by
  have hmem : ∀ a ∈ Q, ∃ r ∈ promised, answer a = some r := by
    intro a ha
    have := List.mem_map_of_mem (f := answer) ha
    rw [hmap] at this
    obtain ⟨r, hr, heq⟩ := List.mem_map.mp this
    exact ⟨r, hr, heq.symm⟩
  have hback : ∀ r ∈ promised, ∃ a ∈ Q, answer a = some r := by
    intro r hr
    have := List.mem_map_of_mem (f := some) hr
    rw [← hmap] at this
    exact List.mem_map.mp this
  rw [PaxosProposer.adoptedValue]
  cases hpairs : promised.filterMap PaxosProposer.acceptedPair with
  | nil =>
      refine .free fun a ha => ?_
      obtain ⟨r, hr, heq⟩ := hmem a ha
      rw [heq]
      exact List.filterMap_eq_nil_iff.mp hpairs r hr
  | cons first rest =>
      have hin := highest_mem first rest
      rw [← hpairs] at hin
      obtain ⟨r, hr, hpair⟩ := List.mem_filterMap.mp hin
      obtain ⟨a, ha, heq⟩ := hback r hr
      refine .highest (PaxosProposer.highest first rest).1 a ha ?_ (hbelow r hr _ _ hpair) ?_
      · simp only [heq, Option.bind_some]
        exact hpair
      · intro a' ha' c' v' hc'
        obtain ⟨r', hr', heq'⟩ := hmem a' ha'
        rw [heq', Option.bind_some] at hc'
        refine le_highest first rest (c', v') ?_
        rw [← hpairs]
        exact List.mem_filterMap.mpr ⟨r', hr', hc'⟩

/-- `_single_decision` on responses that report chosen values only. -/
theorem singleDecision_spec {F : World P → Prop} (slot : Nat)
    (responses : List (PrepareResponse P)) :
    Ensures 𝒮 C J t c
      (fun w => (∀ r ∈ responses, ∀ v, r.decidedValue = some v →
        w.ChosenIn 𝒮.members.members slot v) ∧ F w)
      (ofExcept (S := signature P) (PaxosProposer.singleDecision responses)) fun w o =>
        (∀ v, o = some v → w.ChosenIn 𝒮.members.members slot v) ∧ F w := by
  refine .ofExcept (fun w o hi h ho => ?_) fun w e hi h he => ?_
  · refine ⟨fun v hv => ?_, h.2⟩
    rw [PaxosProposer.singleDecision] at ho
    split at ho
    · cases ho
      cases hv
    · next first rest hdec =>
        split at ho
        · cases ho
        · cases ho
          cases hv
          have hmem : v ∈ responses.filterMap PrepareResponse.decidedValue := by
            rw [hdec]
            exact List.mem_cons_self
          obtain ⟨r, hr, hrv⟩ := List.mem_filterMap.mp hmem
          exact h.1 r hr v hrv
  · -- Two different decisions would both have been chosen.
    rw [PaxosProposer.singleDecision] at he
    split at he
    · cases he
    · next first rest hdec =>
        split at he
        · next hany =>
            obtain ⟨other, hother, hne⟩ := List.any_eq_true.mp hany
            have hchosen : ∀ v ∈ first :: rest, w.ChosenIn 𝒮.members.members slot v := by
              intro v hv
              rw [← hdec] at hv
              obtain ⟨r, hr, hrv⟩ := List.mem_filterMap.mp hv
              exact h.1 r hr v hrv
            have := hi.1.agreement (hchosen other (List.mem_cons_of_mem _ hother))
              (hchosen first List.mem_cons_self)
            simp [this] at hne
        · cases he

theorem learn_spec (self : PaxosProposer) (slot : Nat) (value : PaxosValue P) :
    Ensures 𝒮 C J t c (fun w => w.ChosenIn 𝒮.members.members slot value)
      (self.learn slot value) fun w _ =>
        w.ChosenIn 𝒮.members.members slot value ∧ w.decided t.node slot = some value := by
  have hF : (discipline 𝒮 C J).Persistent fun w : World P =>
      w.ChosenIn 𝒮.members.members slot value ∧ w.decided t.node slot = some value :=
    (persistent_chosen slot value).and (persistent_decided t.node slot value)
  refine .bind (decide_spec ⟨slot, value⟩) fun _ => ?_
  refine .bind (send_spec hF.lasting _ _ nofun fun w h => ⟨nofun, fun r hr => ?_⟩) fun _ => ?_
  · cases hr
    exact h.1
  · exact gatherDecide_spec hF.lasting _

/-- A decided slot of a node, whose value was chosen. -/
def Decides (𝒮 : Deployment) (t : TaskId) (slot : Nat) (w : World P) (v : PaxosValue P) : Prop :=
  w.ChosenIn 𝒮.members.members slot v ∧ w.decided t.node slot = some v

omit [DecidableEq P] in
/-- The value adopted from a majority of promises is safe at a ballot that nobody
has proposed at: no reported vote is at the ballot itself. -/
theorem adopted_safe {w : World P} {self : PaxosProposer} (hi : Inv 𝒮 w)
    (hself : self.members = 𝒮.members) {slot : Nat} {ballot : Ballot} {proposed : PaxosValue P}
    {replies : List (Option (PrepareResponse P))} (hholds : Holds t ballot w)
    (h : Gathered (fun m r => Prepared w 𝒮.members.members m ⟨slot, ballot⟩ r)
      𝒮.members.members replies)
    (hlen : self.quorum ≤ ((replies.filterMap id).filter PrepareResponse.promised).length) :
    SafeAt 𝒮.members.members (w.record slot) ballot
      (PaxosProposer.adoptedValue ((replies.filterMap id).filter PrepareResponse.promised)
        proposed) := by
  rw [PaxosProposer.quorum, hself, FixedMembers.quorum] at hlen
  obtain ⟨Q, answer, hQ, hmap, hp⟩ := h.quorum 𝒮.members.nodup hlen
  refine (hi.disciplined slot).safeAt_of_adopts hQ (fun a ha => ?_)
    (adopts_adoptedValue proposed hmap ?_)
  · obtain ⟨r, hr, heq⟩ : ∃ r ∈ (replies.filterMap id).filter PrepareResponse.promised,
        answer a = some r := by
      have := List.mem_map_of_mem (f := answer) ha
      rw [hmap] at this
      obtain ⟨r, hr, heq⟩ := List.mem_map.mp this
      exact ⟨r, hr, heq.symm⟩
    obtain ⟨hprep, hprom⟩ := hp a ha r heq
    rw [heq, Option.bind_some]
    exact hprep.reports hprom
  · intro r hr c v hpair
    obtain ⟨m, -, hprep⟩ := Gathered.mem h (List.mem_filter.mp hr).1
    have hprom := (List.mem_filter.mp hr).2
    have hvoted : (w.record slot).voted m c v := by
      have := hprep.reports hprom
      rw [hpair] at this
      exact this.2.1
    refine lt_of_le_of_ne (hprep.below hprom c v hpair) ?_
    rintro rfl
    exact hholds.2 slot v ((hi.disciplined slot).voted m c v hvoted)

omit [DecidableEq P] in
/-- A majority of acceptances chooses the value. -/
theorem chosen_of_accepted {w : World P} {self : PaxosProposer}
    (hself : self.members = 𝒮.members) {request : AcceptRequest P}
    {replies : List (Option AcceptResponse)}
    (h : Gathered (fun m r => r.accepted = true →
      (w.record request.slot).voted m request.ballot request.value) 𝒮.members.members replies)
    (hlen : self.quorum ≤ ((replies.filterMap id).filter AcceptResponse.accepted).length) :
    Chosen 𝒮.members.members (w.record request.slot) request.ballot request.value := by
  rw [PaxosProposer.quorum, hself, FixedMembers.quorum] at hlen
  obtain ⟨Q, answer, hQ, hmap, hp⟩ := h.quorum 𝒮.members.nodup hlen
  refine ⟨Q, hQ, fun a ha => ?_⟩
  have := List.mem_map_of_mem (f := answer) ha
  rw [hmap] at this
  obtain ⟨r, -, heq⟩ := List.mem_map.mp this
  obtain ⟨hvoted, hacc⟩ := hp a ha r heq.symm
  exact hvoted hacc

theorem decideSlotLoop_spec (self : PaxosProposer) (hself : self.members = 𝒮.members) (slot : Nat)
    (proposed : PaxosValue P) (attempts observedRound : Nat) :
    Ensures 𝒮 C J t c (fun _ => True) (self.decideSlotLoop slot proposed attempts observedRound)
      (Decides 𝒮 t slot) := by
  have hT : (discipline 𝒮 C J).Persistent fun _ : World P => True :=
    Discipline.persistent_const True
  induction attempts generalizing observedRound with
  | zero => exact .raise fun _ _ _ => nofun
  | succ attempts ih =>
      refine .bind (reserveBallot_spec hT.lasting observedRound) fun ballot => ?_
      -- Until it proposes, the task holds the ballot that it reserved.
      have hholds : (discipline 𝒮 C J).Lasting t fun w : World P => Holds t ballot w ∧ True :=
        (lasting_holds ballot).and hT.lasting
      refine .bind (send_spec hholds _ _ nofun fun _ _ => ⟨nofun, nofun⟩) fun _ => ?_
      refine .bind (gatherPrepare_spec hholds ⟨slot, ballot⟩) fun replies => ?_
      refine .bind (.check fun _ _ _ _ => nofun) fun _ => ?_
      refine .bind ((singleDecision_spec slot (replies.filterMap id)).pre fun w _ h => ⟨?_, h.1⟩)
        fun decision => ?_
      · intro r hr v hv
        obtain ⟨m, -, hm⟩ := Gathered.mem h.1.1 hr
        exact hm.decided v hv
      cases decision with
      | some decided =>
          refine .bind ((learn_spec self slot decided).pre fun _ _ h => h.1 decided rfl)
            fun _ => ?_
          exact .ret fun _ _ h => h
      | none =>
          simp only
          split
          · exact (ih _).pre fun _ _ _ => trivial
          · next hpromised =>
              refine .bind ((sendAccept_spec _ slot ballot _).pre fun w hi h => ⟨h.2.2.1, ?_⟩)
                fun _ => ?_
              · exact adopted_safe hi.1 hself h.2.2.1 h.2.1 (Nat.le_of_not_lt hpromised)
              refine .bind (gatherAccept_spec _) fun acceptReplies => ?_
              refine .bind (.check fun _ _ _ _ => nofun) fun _ => ?_
              split
              · exact (ih _).pre fun _ _ _ => trivial
              · next haccepted =>
                  refine .bind ((learn_spec self slot _).pre fun w _ h => ⟨ballot, ?_⟩)
                    fun _ => .ret fun _ _ h => h
                  exact chosen_of_accepted hself h.1 (Nat.le_of_not_lt haccepted)

theorem persistent_lastApplied (node : String) (n : Nat) :
    (discipline 𝒮 C J).Persistent fun w => n ≤ (w.acceptors node).state.lastApplied :=
  fun _ _ hg h => Nat.le_trans h (hg.advances node).lastApplied

/-- `propose` returns a slot that this node had not applied when it began, and that is at
most the one after the last applied. -/
theorem propose_spec (self : PaxosProposer) (hself : self.members = 𝒮.members)
    (value : PaxosValue P) (n turns : Nat) :
    Ensures 𝒮 C J t c (fun w => n ≤ (w.acceptors t.node).state.lastApplied)
      (self.propose value turns) fun w r =>
        n < r.1 ∧ r.2 = value ∧ Decides 𝒮 t r.1 w value ∧
          r.1 ≤ (w.acceptors t.node).state.lastApplied + 1 := by
  have hF : (discipline 𝒮 C J).Persistent fun w => n ≤ (w.acceptors t.node).state.lastApplied :=
    persistent_lastApplied t.node n
  induction turns with
  | zero =>
      refine .bind (Q := fun _ _ => True) ?_ fun never => nomatch never
      refine Discipline.Triple.wait hF.lasting.stable fun w x w' r hi hf _ hs => ?_
      cases resumed_of_resume hs with
      | failed h =>
          refine ⟨.refl hi, nofun, fun err he => ?_⟩
          cases he
          exact h
  | succ turns ih =>
      refine .bind (Q := fun w last => last = (w.acceptors t.node).state.lastApplied ∧
        n ≤ (w.acceptors t.node).state.lastApplied)
        (.act fun w hi hf => ⟨.refl hi, rfl, hf⟩) fun last => ?_
      have hlast : (discipline 𝒮 C J).Persistent
          fun w => n ≤ last ∧ last ≤ (w.acceptors t.node).state.lastApplied :=
        (Discipline.persistent_const (n ≤ last)).and (persistent_lastApplied t.node last)
      refine .bind (((decideSlotLoop_spec self hself (last + 1) value _ 0).frame hlast).mono
        (fun w _ h => ⟨trivial, h.1 ▸ h.2, Nat.le_of_eq h.1⟩) (fun _ _ _ h => h) fun _ _ _ h => h.1)
        fun decided => ?_
      split
      · next heq =>
          exact .ret fun w _ h =>
            ⟨Nat.lt_succ_of_le h.2.1, heq, heq ▸ h.1, Nat.succ_le_succ h.2.2⟩
      · exact ih.pre fun _ _ h => Nat.le_trans h.2.1 h.2.2

/-- A stored result is what the register answers for its slot. -/
theorem result_spec {F : World P → Prop} (slot : Nat) :
    Ensures 𝒮 C J t c F (act (.result slot)) fun w r => F w ∧ ∀ result, r = some result →
      slot ≤ (w.acceptors t.node).state.lastApplied ∧ 1 ≤ slot ∧
        resultAt (w.decided t.node) slot = some result := by
  refine .act fun w hi hf => ⟨.refl hi, hf, fun result hr => ?_⟩
  obtain ⟨l₁, l₂, hl, -⟩ := List.lookup_eq_some_iff.mp hr
  obtain ⟨hpos, hle, hres⟩ := (hi.1.wellFormed t.node).results slot result (by simp [hl])
  exact ⟨hle, hpos, hres⟩

/-- A read returns the register behind a slot that decided a barrier and that this
node had not applied when it began. -/
def ReadsAt (node : String) (n : Nat) (w : World P)
    (snapshot : VirtualLog.VersionedLogChain P) : Prop :=
  ∃ slot, n < slot ∧ slot ≤ (w.acceptors node).state.lastApplied ∧
    w.decided node slot = some ⟨.readBarrier⟩ ∧ registerAt (w.decided node) slot = snapshot

/-- A `compare_and_set` returns what the register answered for a slot that decided it. -/
def SwapsAt (node : String) (expectedVersion : Nat) (newChain : VirtualLog.LogChain P)
    (w : World P) (result : VirtualLog.CompareAndSetResult P) : Prop :=
  ∃ slot, 1 ≤ slot ∧ slot ≤ (w.acceptors node).state.lastApplied ∧
    w.decided node slot = some ⟨.compareAndSet expectedVersion newChain⟩ ∧
    resultAt (w.decided node) slot = some (.swapped result)

theorem read_spec (self : PaxosProposer) (hself : self.members = 𝒮.members) (n turns : Nat) :
    Ensures 𝒮 C J t c (fun w => n ≤ (w.acceptors t.node).state.lastApplied) (self.read turns)
      (ReadsAt t.node n) := by
  refine .bind (propose_spec self hself _ n turns) fun proposed => ?_
  refine .bind (result_spec proposed.1) fun result => ?_
  cases result with
  | none => exact .raise fun _ _ _ => nofun
  | some result =>
      cases result with
      | swapped _ => exact .raise fun _ _ _ => nofun
      | snapshot snapshot =>
          refine .ret fun w _ h => ?_
          obtain ⟨⟨hlt, -, hdec, -⟩, hres⟩ := h
          obtain ⟨hle, hpos, hres⟩ := hres _ rfl
          refine ⟨proposed.1, hlt, hle, hdec.2, ?_⟩
          obtain ⟨m, hm⟩ : ∃ m, proposed.1 = m + 1 := ⟨proposed.1 - 1, by omega⟩
          rw [hm] at hdec hres ⊢
          rw [resultAt, hdec.2] at hres
          rw [registerAt, hdec.2]
          cases hres
          rfl

theorem compareAndSet_spec (self : PaxosProposer) (hself : self.members = 𝒮.members)
    (expectedVersion : Nat) (newChain : VirtualLog.LogChain P) (turns : Nat) :
    Ensures 𝒮 C J t c (fun _ => True) (self.compareAndSet expectedVersion newChain turns)
      (SwapsAt t.node expectedVersion newChain) := by
  refine .bind ((propose_spec self hself _ 0 turns).pre fun _ _ _ => Nat.zero_le _)
    fun proposed => ?_
  refine .bind (result_spec proposed.1) fun result => ?_
  cases result with
  | none => exact .raise fun _ _ _ => nofun
  | some result =>
      cases result with
      | snapshot _ => exact .raise fun _ _ _ => nofun
      | swapped result =>
          refine .ret fun w _ h => ?_
          obtain ⟨hle, hpos, hres⟩ := h.2 _ rfl
          exact ⟨proposed.1, hpos, hle, h.1.2.2.1.2, hres⟩

/-! ## Every call -/

/-- What a call of `t` has done when it returns; its node had applied `n` slots
when it was invoked. -/
def CallPost (𝒮 : Deployment) (t : TaskId) (n : Nat) : Call P → World P → Outcome P → Prop
  | .decideSlot slot _, w, .value v => Decides 𝒮 t slot w v
  | .read _, w, .snapshot snapshot => ReadsAt t.node n w snapshot
  | .compareAndSet expectedVersion newChain _, w, .swapped result =>
      SwapsAt t.node expectedVersion newChain w result
  | _, _, _ => False

theorem program_spec (self : PaxosProposer) (hself : self.members = 𝒮.members) (n : Nat)
    (c' : Call P) :
    Ensures 𝒮 C J t c (fun w => n ≤ (w.acceptors t.node).state.lastApplied)
      (Deployment.program self c') (CallPost 𝒮 t n c') := by
  cases c' with
  | decideSlot slot proposed =>
      refine .bind ((decideSlotLoop_spec self hself slot proposed _ 0).pre fun _ _ _ => trivial)
        fun _ => ?_
      exact .ret fun _ _ h => h
  | read turns => exact .bind (read_spec self hself n turns) fun _ => .ret fun _ _ h => h
  | compareAndSet expectedVersion newChain turns =>
      refine .bind ((compareAndSet_spec self hself expectedVersion newChain turns).pre
        fun _ _ _ => trivial) fun _ => ?_
      exact .ret fun _ _ h => h

omit [DecidableEq P] in
theorem invoked_exec (w : World P) (t : TaskId) (a : Act P) :
    (Deployment.exec w t a).1.invoked t = w.invoked t := by
  cases a <;> rfl

theorem Resumed.invoked {w w' : World P} {e : Wait P} {r : Except Error (WaitResult P e)}
    (h : Resumed 𝒮 t w e w' r) : w'.invoked t = w.invoked t := by
  cases h <;> rfl

theorem completed_handle (w : World P) (target : String) (saves : Bool) (request : Request P) :
    (w.handle target saves request).completed = w.completed := by
  have hnote : ∀ (v : World P) (e : Error), (v.noteError e).completed = v.completed := by
    intro v e
    cases e <;> rfl
  cases request with
  | prepare request =>
      rw [World.handle]
      split
      · exact hnote _ _
      · rfl
  | accept request =>
      rw [World.handle]
      split
      · exact hnote _ _
      · rfl
  | decide request =>
      rw [World.handle]
      split
      · exact hnote _ _
      · rfl

omit [DecidableEq P] in
/-- A call that returned is on record. -/
theorem Inv.finish {w : World P} (h : Inv 𝒮 w) (t : TaskId) (outcome : Outcome P) :
    Inv 𝒮 (Deployment.finish w t (.ok outcome)) :=
  have hg := finish_grow w t (.ok outcome)
  { h with
    slots := fun n slot => (h.slots n slot).mono hg fun _ _ hv => hv
    prepared := fun n request response hr => (h.prepared n request response hr).mono hg }

omit [DecidableEq P] in
theorem World.grow_invoke (w : World P) (t : TaskId) (n : Nat) :
    Grow w { w with invoked := Function.update w.invoked t n } :=
  ⟨fun _ => .refl _, List.Subset.refl _, List.Subset.refl _, fun _ => .refl _,
    List.prefix_refl _⟩

omit [DecidableEq P] in
theorem Inv.invoke {w : World P} (h : Inv 𝒮 w) (t : TaskId) (n : Nat) :
    Inv 𝒮 { w with invoked := Function.update w.invoked t n } :=
  have hg := w.grow_invoke t n
  { h with
    slots := fun m slot => (h.slots m slot).mono hg fun _ _ hv => hv
    prepared := fun m request response hr => (h.prepared m request response hr).mono hg }

theorem kept_invoke {w : World P} (hi : (discipline 𝒮 C J).Inv w) (t : TaskId) (n : Nat) :
    (discipline 𝒮 C J).Kept t w { w with invoked := Function.update w.invoked t n } := by
  refine kept_of hi (hi.1.invoke t n) (w.grow_invoke t n) rfl fun u hu => ?_
  exact ⟨fun _ h => h, fun _ _ _ _ h => h, Function.update_of_ne hu _ _⟩

theorem kept_finish {w : World P} (hi : (discipline 𝒮 C J).Inv w) (t : TaskId) (o : Outcome P)
    (hJ : J.holds (Deployment.finish w t (.ok o))) :
    (discipline 𝒮 C J).Kept t w (Deployment.finish w t (.ok o)) := by
  refine ⟨⟨hi.1.finish t o, hJ⟩, fun u _ => ?_⟩
  exact ⟨fun _ h => h, fun _ _ _ _ h => h, rfl⟩

theorem kept_raise {w : World P} (hi : (discipline 𝒮 C J).Inv w) (t : TaskId) {e : Error}
    (he : e.Harmless) : (discipline 𝒮 C J).Kept t w (Deployment.finish w t (.error e)) := by
  change (discipline 𝒮 C J).Kept t w (w.noteError e)
  rw [World.noteError_of_harmless he]
  exact .refl hi

/-- **Every call of every peer keeps the discipline**, and the rider of a run is
kept when the calls that return keep it. -/
theorem sound (hJ : ∀ w t c, (discipline 𝒮 C J).Inv w → t.node ∈ 𝒮.members.members →
    C.launch w t c →
      ∃ F : World P → Prop, (discipline 𝒮 C J).Persistent F ∧ F w ∧ ∀ w' o, Inv 𝒮 w' →
        J.holds w' → F w' → w'.invoked t = w.completed.length →
        CallPost 𝒮 t (w.acceptors t.node).state.lastApplied c w' o →
          J.holds (Deployment.finish w' t (.ok o))) :
    (discipline 𝒮 C J).Sound where
  start := by
    intro w t c w' p hi hC hst
    change 𝒮.start w t c = some (w', p) at hst
    rw [Deployment.start] at hst
    split at hst
    · next hmem =>
        cases hst
        obtain ⟨F, hF, hFw, hend⟩ := hJ w t c hi hmem hC
        have hg := w.grow_invoke t w.completed.length
        have hk := kept_invoke hi t w.completed.length
        -- The task remembers how many calls had returned, and its own starting facts.
        have hI : (discipline 𝒮 C J).Lasting t
            fun v : World P => v.invoked t = w.completed.length :=
          fun _ _ _ hr h => hr.invoked.trans h
        have hspec := program_spec (C := C) (J := J) (t := t) (c := c) (𝒮.proposer t.node hmem) rfl
          (w.acceptors t.node).state.lastApplied c
        have hp := (hspec.frame hF).frame_own hI.stable
          (fun v a hv => (invoked_exec v t a).trans hv)
          fun hs hv => (resumed_of_resume hs).invoked.trans hv
        refine ⟨hg, hp.safe_finish hk ⟨⟨Nat.le_refl _, hF w _ hg hFw⟩, Function.update_self _ _ _⟩
          (fun v o hi' h => ?_) fun v e hi' h => ?_⟩
        · exact kept_finish hi' t o (hend v o hi'.1 hi'.2 h.1.2 h.2 h.1.1)
        · exact kept_raise hi' t h.1.1
    · cases hst
  disturb := by
    intro w d w' hi hd
    cases d with
    | handle message target saves =>
        change Deployment.disturb w (.handle message target saves) = some w' at hd
        rw [Deployment.disturb] at hd
        split at hd
        · next hmem =>
            cases hd
            obtain ⟨hi', hg, hr⟩ := hi.1.handle hmem.1 target saves
            exact ⟨⟨hi', J.stable w _ hi.1 hi' hg (completed_handle w target saves _) hi.2⟩, hg,
              fun u _ => hr u⟩
        · cases hd
    | crash node =>
        cases hd
        obtain ⟨hi', hm⟩ := hi.1.crash node
        exact ⟨⟨hi', J.stable w _ hi.1 hi' hm.grow rfl hi.2⟩, hm.grow, fun u _ => hm.rely u⟩

end Discipline

end DelosLab.Paxos
