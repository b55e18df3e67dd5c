import DelosLab.Paxos.MetaStoreClient
import DelosLab.VirtualLog.Safety

/-!
# Reported losses

A client that is told of a version mismatch was answered by a task of a peer whose own swap
lost. Its chain is not installed, unless some peer took the same swap up again after it had
applied it: an earlier attempt of the call, which the client took for failed, was decided.
-/

namespace DelosLab.Paxos.Client

open Async Async.Runtime Async.Coroutine
open VirtualLog (LogChain VersionedLogChain CompareAndSetResult RegisterCall)

variable {P : Type}

/-- Some peer has applied a swap of version `v` to `chain` at another version. -/
def World.Lost (w : World P) (v : Nat) (chain : LogChain P) : Prop :=
  ∃ node, w.peers.world.1.Lost node v chain

/-- What a call that returned reports of the chain that it was to install. -/
inductive Return.ReportsLoss : Return P → Nat → LogChain P → Prop
  | compareAndSet {v : Nat} {chain : LogChain P} (current : VersionedLogChain P)
      (proposed : List (Nat × LogChain P)) :
      ReportsLoss ⟨.compareAndSet v chain, .swapped (.versionMismatch current), proposed⟩ v chain
  | reconfigExtend {v : Nat} {chain : LogChain P} {proposed : List (Nat × LogChain P)}
      (loglet : VirtualLog.LogletConfiguration P) (h : (v, chain) ∈ proposed) :
      ReportsLoss ⟨.log (.reconfigExtend loglet), .log (.flag false), proposed⟩ v chain
  | reconfigTruncate {v : Nat} {chain : LogChain P} {proposed : List (Nat × LogChain P)}
      (h : (v, chain) ∈ proposed) :
      ReportsLoss ⟨.log .reconfigTruncate, .log (.flag false), proposed⟩ v chain

/-! ## What the calls keep -/

section Keep

variable [DecidableEq P]

structure Inv (𝒮 : Deployment) (w : World P) : Prop where
  serving : 𝒮.peers.Serving w.peers
  served : ∀ (i : Nat) (r : Request P) t, w.requests[i]? = some r → r.served = some t →
    ∃ turns, w.peers.world.2.calls t = some (peerCall turns r.call)
  reported : ∀ r ∈ w.returned, ∀ v chain, r.ReportsLoss v chain → w.Lost v chain

/-- A request stays what it is. -/
def World.Issued (w : World P) (request : Nat) (call : RegisterCall P) : Prop :=
  ∃ r, w.requests[request]? = some r ∧ r.call = call

structure Grow (w w' : World P) : Prop where
  peers : Paxos.Grow w.peers.world.1 w'.peers.world.1
  issued : ∀ request call, w.Issued request call → w'.Issued request call

omit [DecidableEq P] in
theorem World.Lost.grow {w w' : World P} (hg : Grow w w') {v : Nat} {chain : LogChain P}
    (h : w.Lost v chain) : w'.Lost v chain := by
  obtain ⟨node, hnode⟩ := h
  exact ⟨node, hnode.grow hg.peers⟩

/-- A step that leaves the peers, the requests and what was returned alone. -/
structure Idle (w w' : World P) : Prop where
  peers : w'.peers = w.peers
  requests : w'.requests = w.requests
  returned : w'.returned = w.returned

omit [DecidableEq P] in
theorem Idle.grow {w w' : World P} (h : Idle w w') : Grow w w' := by
  refine ⟨h.peers ▸ .refl _, fun request call hi => ?_⟩
  rw [World.Issued, h.requests]
  exact hi

theorem Idle.inv {𝒮 : Deployment} {w w' : World P} (h : Idle w w') (hi : Inv 𝒮 w) : Inv 𝒮 w' := by
  refine ⟨h.peers ▸ hi.serving, ?_, ?_⟩
  · rw [h.requests, h.peers]
    exact hi.served
  · rw [h.returned]
    exact fun r hr v chain hv => (hi.reported r hr v chain hv).grow h.grow

omit [DecidableEq P] in
theorem World.Issued.append {w w' : World P} {r : Request P} {request : Nat}
    {call : RegisterCall P} (h : w.Issued request call)
    (hw : w'.requests = w.requests ++ [r]) : w'.Issued request call := by
  obtain ⟨r', hr, hcall⟩ := h
  refine ⟨r', ?_, hcall⟩
  rw [hw, List.getElem?_append_left (List.getElem?_eq_some_iff.mp hr).1]
  exact hr

omit [DecidableEq P] in
theorem World.propose_idle (w : World P) (t : TaskId) (call : RegisterCall P) :
    Idle w (w.propose t call) := by
  cases call with
  | read => exact ⟨rfl, rfl, rfl⟩
  | compareAndSet v chain => exact ⟨rfl, rfl, rfl⟩

omit [DecidableEq P] in
/-- Every act but a request leaves the peers alone. -/
theorem exec_idle (𝒮 : Deployment) (w : World P) (t : TaskId) {a : Act P}
    (ha : ∀ node call, a ≠ .send node call) :
    Idle w (𝒮.exec w t a).1 ∧ (𝒮.exec w t a).1.proposed = w.proposed := by
  cases a with
  | send node call => exact absurd rfl (ha node call)
  | preferredPeer => exact ⟨⟨rfl, rfl, rfl⟩, rfl⟩
  | prefer node => exact ⟨⟨rfl, rfl, rfl⟩, rfl⟩
  | invoked call => exact ⟨⟨rfl, rfl, rfl⟩, rfl⟩
  | log a => exact ⟨⟨rfl, rfl, rfl⟩, rfl⟩

omit [DecidableEq P] in
theorem exec_grow (𝒮 : Deployment) (w : World P) (t : TaskId) (a : Act P) :
    Grow w (𝒮.exec w t a).1 := by
  by_cases ha : ∀ node call, a ≠ .send node call
  · exact (exec_idle 𝒮 w t ha).1.grow
  · push Not at ha
    obtain ⟨node, call, rfl⟩ := ha
    have hidle := w.propose_idle t call
    exact ⟨hidle.grow.peers, fun request call' hi => hi.append rfl⟩

omit [DecidableEq P] in
theorem resume_idle {𝒮 : Deployment} {w w' : World P} {t : TaskId} {e : Wait P} {x : Choice P}
    {r : Except Error (WaitResult P e)} (h : 𝒮.resume w t e x = some (w', r)) :
    Idle w w' ∧ w'.proposed = w.proposed := by
  unfold Deployment.resume at h
  split at h
  · cases h
    exact ⟨⟨rfl, rfl, rfl⟩, rfl⟩
  · split at h
    · cases h
      exact ⟨⟨rfl, rfl, rfl⟩, rfl⟩
    · cases h
  · split at h
    · cases h
      exact ⟨⟨rfl, rfl, rfl⟩, rfl⟩
    · cases h
  · obtain ⟨r', -, heq⟩ := Option.map_eq_some_iff.mp h
    cases heq
    exact ⟨⟨rfl, rfl, rfl⟩, rfl⟩
  · cases h

omit [DecidableEq P] in
theorem finish_grow (w : World P) (t : TaskId) (c : Call P) (o : Except Error (Outcome P)) :
    Grow w (Deployment.finish w t c o) := by
  cases o with
  | error e => exact ⟨.refl _, fun _ _ h => h⟩
  | ok outcome => exact ⟨.refl _, fun _ _ h => h⟩

/-- What the calls of the clients keep; a call relies on what it has proposed. -/
def discipline (𝒮 : Deployment) :
    Discipline (𝒮.runtime (P := P)) Condition.any where
  Inv := Inv 𝒮
  Grow := Grow
  Rely := fun t w w' => w'.proposed t = w.proposed t
  grow_refl := fun _ => ⟨.refl _, fun _ _ h => h⟩
  grow_trans := fun h h' =>
    ⟨h.peers.trans h'.peers, fun _ _ hi => h'.issued _ _ (h.issued _ _ hi)⟩
  rely_refl := fun _ _ => rfl
  rely_trans := fun h h' => h'.trans h
  exec_grow := fun w t a => exec_grow 𝒮 w t a
  resume_grow := fun h => (resume_idle h).1.grow
  finish_grow := fun w t c o => finish_grow w t c o

variable {𝒮 : Deployment} {t : TaskId} {c : Call P} {α : Type}

/-- The triple of a piece of a call; what it raises, it raises in a world that satisfies `X`. -/
abbrev Ensures (𝒮 : Deployment) (t : TaskId) (c : Call P) (F : World P → Prop) (p : Co P α)
    (Q : World P → α → Prop) (X : World P → Prop) : Prop :=
  (discipline 𝒮).Triple t c F p Q fun w _ => X w

theorem Ensures.relax {F X : World P → Prop} {p : Co P α} {Q : World P → α → Prop}
    (h : Ensures 𝒮 t c F p Q X) : Ensures 𝒮 t c F p Q fun _ => True :=
  h.mono (fun _ _ hf => hf) (fun _ _ _ hq => hq) fun _ _ _ _ => trivial

/-! ### Acts and waits -/

section Rules

variable {F : World P → Prop} (hF : (discipline 𝒮).Lasting t F)

include hF

theorem act_spec {a : Act P} {X : World P → Prop} (ha : ∀ node call, a ≠ .send node call) :
    Ensures 𝒮 t c F (act a) (fun w _ => F w) X := by
  refine .act fun w hi hf => ?_
  obtain ⟨hidle, hproposed⟩ := exec_idle 𝒮 w t ha
  exact ⟨⟨hidle.inv hi, fun u _ => congrFun hproposed u⟩,
    hF _ _ hidle.grow (congrFun hproposed t) hf⟩

/-- The request is issued, and what it asks for is proposed. -/
theorem send_spec (node : String) (call : RegisterCall P)
    (hp : ∀ w, F w → F (w.propose t call)) :
    Ensures 𝒮 t c F (act (.send node call)) (fun w request => F w ∧ w.Issued request call) F := by
  refine .act fun w hi hf => ?_
  have hidle := w.propose_idle t call
  have hi' := hidle.inv hi
  refine ⟨⟨⟨hi'.serving, fun i r u hr hu => ?_, hi'.reported⟩, fun u hu => ?_⟩, ?_, ?_⟩
  · change (w.requests ++ [⟨node, call, none⟩])[i]? = some r at hr
    rcases Nat.lt_or_ge i w.requests.length with hlt | hge
    · rw [List.getElem?_append_left hlt, ← hidle.requests] at hr
      exact hi'.served i r u hr hu
    · rw [List.getElem?_append_right hge] at hr
      obtain ⟨hzero, heq⟩ := List.getElem?_eq_some_iff.mp hr
      rw [List.getElem_singleton] at heq
      rw [← heq] at hu
      cases hu
  · show (w.propose t call).proposed u = w.proposed u
    cases call with
    | read => rfl
    | compareAndSet v chain => exact Function.update_of_ne hu _ _
  · have hg : Grow (w.propose t call) (𝒮.exec w t (.send node call)).1 := by
      refine ⟨.refl _, fun request call' hi => hi.append (r := ⟨node, call, none⟩) ?_⟩
      rw [hidle.requests]
      rfl
    exact hF _ _ hg rfl (hp w hf)
  · refine ⟨⟨node, call, none⟩, ?_, rfl⟩
    exact List.getElem?_concat_length

theorem wait_spec (e : Wait P) : Ensures 𝒮 t c F (wait e) (fun w _ => F w) F := by
  refine .wait hF.stable fun w x w' r hi hf _ hr => ?_
  obtain ⟨hidle, hproposed⟩ := resume_idle hr
  have hf' := hF _ _ hidle.grow (congrFun hproposed t) hf
  exact ⟨⟨hidle.inv hi, fun u _ => congrFun hproposed u⟩, fun _ _ => hf', fun _ _ => hf'⟩

/-- A mismatch that a peer answers is the loss of the task that served the request. -/
theorem casReply_spec (request : Nat) (v : Nat) (chain : LogChain P) :
    Ensures 𝒮 t c (fun w => F w ∧ w.Issued request (.compareAndSet v chain))
      (wait (.casReply request))
      (fun w r => F w ∧ ∀ x, r = .versionMismatch x → w.Lost v chain) F := by
  have hissued : (discipline 𝒮).Lasting t fun w : World P =>
      F w ∧ w.Issued request (.compareAndSet v chain) :=
    fun w w' hg hr h => ⟨hF w w' hg hr h.1, hg.issued _ _ h.2⟩
  refine .wait hissued.stable fun w x w' r hi hf _ hr => ?_
  obtain ⟨hidle, hproposed⟩ := resume_idle hr
  have hf' := hF _ _ hidle.grow (congrFun hproposed t) hf.1
  refine ⟨⟨hidle.inv hi, fun u _ => congrFun hproposed u⟩,
    fun result hok => ⟨hf', fun current hmis => ?_⟩, fun _ _ => hf'⟩
  subst hok hmis
  cases x with
  | fail e => cases hr
  | log x => cases hr
  | reply =>
      change 𝒮.resume w t (.casReply request) .reply = _ at hr
      rw [Deployment.resume] at hr
      split at hr
      · next result hreply =>
          cases hr
          obtain ⟨r, hreq, hcall⟩ := hf.2
          rw [World.reply, hreq, Option.bind_some] at hreply
          obtain ⟨u, hu, hreply⟩ := Option.bind_eq_some_iff.mp hreply
          obtain ⟨⟨c', outcome⟩, hret, hout⟩ := Option.map_eq_some_iff.mp hreply
          cases hout
          obtain ⟨turns, hturns⟩ := hi.served request r u hreq hu
          have hserved := hi.serving.served
          have hc' := (hserved.origins.returned u _ hret).symm.trans hturns
          rw [hcall] at hc'
          cases Option.some.inj hc'
          exact ⟨u.node, hserved.losses u v chain turns current hret⟩
      · cases hr

/-! ### The client -/

theorem peerRead_spec (node : String) :
    Ensures 𝒮 t c F (PaxosMetaStoreClient.peerRead node) (fun w _ => F w) F := by
  refine .bind (send_spec hF node .read fun _ h => h) fun request => ?_
  exact (wait_spec hF (.readReply request)).pre fun _ _ h => h.1

theorem peerCompareAndSet_spec {v : Nat} {chain : LogChain P}
    (hp : ∀ w, F w → F (w.propose t (.compareAndSet v chain))) (node : String) :
    Ensures 𝒮 t c F (PaxosMetaStoreClient.peerCompareAndSet v chain node)
      (fun w r => F w ∧ ∀ x, r = .versionMismatch x → w.Lost v chain) F := by
  refine .bind (send_spec hF node (.compareAndSet v chain) hp) fun request => ?_
  exact casReply_spec hF request v chain

omit hF in
/-- What every attempt ensures is ensured by the loop over the candidates. -/
theorem tryPeers_spec {attempt : String → Co P α} {Q : World P → α → Prop}
    (hattempt : ∀ node, Ensures 𝒮 t c F (attempt node) Q F)
    (hQ : ∀ a, (discipline 𝒮).Lasting t fun w => Q w a) (exhausted : String)
    (nodes : List String) :
    Ensures 𝒮 t c F (PaxosMetaStoreClient.tryPeers attempt exhausted nodes) Q F := by
  induction nodes with
  | nil => exact .raise fun _ _ h => h
  | cons node rest ih =>
      refine .bind (Q := fun w result =>
        (∀ a, result = some a → Q w a) ∧ (result = none → F w)) ?_ fun result => ?_
      · refine .handle (Y := fun w _ => F w) ?_ fun e => ?_
        · refine .bind (hattempt node) fun a => .ret fun _ _ h => ⟨?_, ?_⟩
          · rintro _ ⟨⟩
            exact h
          · rintro ⟨⟩
        · cases e with
          | connection => exact .ret fun _ _ h => ⟨by rintro _ ⟨⟩, fun _ => h⟩
          | noQuorum message => exact .ret fun _ _ h => ⟨by rintro _ ⟨⟩, fun _ => h⟩
          | other => exact .raise fun _ _ h => h
          | cancelled => exact .raise fun _ _ h => h
          | log e => exact .raise fun _ _ h => h
      · cases result with
        | none => exact ih.pre fun _ _ h => h.2 rfl
        | some a =>
            refine .bind ((act_spec (hQ a) fun _ _ => ?_).pre fun _ _ h => h.1 a rfl) fun _ =>
              .ret fun _ _ h => h
            rintro ⟨⟩

theorem read_spec (self : PaxosMetaStoreClient) :
    Ensures 𝒮 t c F self.read (fun w _ => F w) F := by
  refine .bind (act_spec hF fun _ _ => nofun) fun preferredPeer => ?_
  exact tryPeers_spec (peerRead_spec hF) (fun _ => hF) _ _

theorem compareAndSet_spec (self : PaxosMetaStoreClient) {v : Nat} {chain : LogChain P}
    (hp : ∀ w, F w → F (w.propose t (.compareAndSet v chain))) :
    Ensures 𝒮 t c F (self.compareAndSet v chain)
      (fun w r => F w ∧ ∀ x, r = .versionMismatch x → w.Lost v chain) F := by
  refine .bind (act_spec hF fun _ _ => nofun) fun preferredPeer => ?_
  refine tryPeers_spec (peerCompareAndSet_spec hF hp) (fun r w w' hg hr h => ?_) _ _
  exact ⟨hF w w' hg hr h.1, fun x hx => (h.2 x hx).grow hg⟩

omit hF in
theorem capture_spec {p : Co P α} {Q : World P → α → Prop} {X : World P → Prop}
    (h : Ensures 𝒮 t c F p Q F) :
    Ensures 𝒮 t c F (capture p)
      (fun w r => (∀ a, r = .ok a → Q w a) ∧ ∀ e, r = .error e → F w) X := by
  refine .handle (Y := fun w _ => F w) (.bind h fun a => .ret fun w _ hq => ⟨fun b hb => ?_, nofun⟩)
    fun e => .ret fun _ _ hf => ⟨nofun, fun _ _ => hf⟩
  cases hb
  exact hq

/-! ### The VirtualLog over the client -/

variable (self : PaxosMetaStoreClient)

theorem logAct_spec (a : VirtualLog.Act P) {X : World P → Prop} :
    Ensures 𝒮 t c F ((interpretation self).act a) (fun w _ => F w) X :=
  act_spec hF fun _ _ => nofun

/-- The number of a register call finds the call again. -/
theorem invoke_spec (call : RegisterCall P) {X : World P → Prop} :
    Ensures 𝒮 t c F ((interpretation self).act (.invoke call))
      (fun w n => F w ∧ w.log.pending.lookup n = some call) X := by
  refine .act fun w hi hf => ?_
  obtain ⟨hidle, hproposed⟩ := exec_idle 𝒮 w t (a := .log (.invoke call)) fun _ _ => nofun
  refine ⟨⟨hidle.inv hi, fun u _ => congrFun hproposed u⟩,
    hF _ _ hidle.grow (congrFun hproposed t) hf, ?_⟩
  exact List.lookup_cons_self

omit hF in
theorem invoked_spec (n : Nat) (call : RegisterCall P) {X : World P → Prop} :
    Ensures 𝒮 t c (fun w => F w ∧ w.log.pending.lookup n = some call) (act (.invoked n))
      (fun w r => F w ∧ r = some call) X := by
  refine .act fun w hi hf => ?_
  obtain ⟨hidle, hproposed⟩ := exec_idle 𝒮 w t (a := .invoked n) fun _ _ => nofun
  exact ⟨⟨hidle.inv hi, fun u _ => congrFun hproposed u⟩, hf⟩

theorem casResponse_spec (n : Nat) {v : Nat} {chain : LogChain P} {X : World P → Prop}
    (hp : ∀ w, F w → F (w.propose t (.compareAndSet v chain))) :
    Ensures 𝒮 t c (fun w => F w ∧ w.log.pending.lookup n = some (.compareAndSet v chain))
      ((interpretation self).wait (.casResponse n))
      (fun w r => (∀ a, r = .ok a → F w ∧ ∀ x, a = .versionMismatch x → w.Lost v chain) ∧
        ∀ e, r = .error e → F w) X := by
  refine .bind (invoked_spec n _) fun found => .given fun hfound => ?_
  subst hfound
  exact capture_spec (compareAndSet_spec hF self hp)

/-- A mismatch that the VirtualLog is answered with is a loss. -/
theorem logCompareAndSet_spec {v : Nat} {chain : LogChain P}
    (hp : ∀ w, F w → F (w.propose t (.compareAndSet v chain))) :
    Ensures 𝒮 t c F ((interpretation self).translate (VirtualLog.compareAndSet v chain))
      (fun w r => F w ∧ ∀ x, r = .versionMismatch x → w.Lost v chain) F := by
  refine .translate_bind (.translate_perform (invoke_spec hF self _)) fun n => ?_
  exact .translate_await (Y := fun w _ => F w) (casResponse_spec hF self n hp) fun _ _ _ h => h

/-- A wait for anything but the register. -/
theorem logWait_spec {e : VirtualLog.Wait P}
    (he : (interpretation self).wait e = capture (wait (.log e))) :
    Ensures 𝒮 t c F ((interpretation self).translate (VirtualLog.wait e)) (fun w _ => F w) F := by
  refine .translate_await (Y := fun w _ => F w) ?_ fun _ _ _ h => h
  rw [he]
  exact capture_spec (wait_spec hF _)

theorem cached_spec :
    Ensures 𝒮 t c F ((interpretation self).translate VirtualLog.cached) (fun w _ => F w) F := by
  refine .translate_bind (.translate_perform (logAct_spec hF self .cached)) fun cached => ?_
  cases cached with
  | none => exact .raise fun _ _ h => h
  | some snapshot =>
      simp only
      cases snapshot.chain with
      | none => exact .raise fun _ _ h => h
      | some chain => exact .ret fun _ _ h => h

end Rules

theorem lasting_true : (discipline 𝒮).Lasting t fun _ : World P => True :=
  fun _ _ _ _ _ => trivial

/-- Whatever waits over the client keeps the discipline. -/
theorem anyWait_spec (self : PaxosMetaStoreClient) (e : VirtualLog.Wait P) {X : World P → Prop} :
    Ensures 𝒮 t c (fun _ => True) ((interpretation self).wait e) (fun _ _ => True) X := by
  have other : ∀ e : VirtualLog.Wait P,
      Ensures 𝒮 t c (fun _ => True) (capture (wait (.log e))) (fun _ _ => True) X :=
    fun e => (capture_spec (wait_spec lasting_true _)).post fun _ _ _ _ => trivial
  cases e with
  | readResponse n =>
      refine .bind (act_spec lasting_true fun _ _ => nofun) fun found => ?_
      split
      · exact (capture_spec (read_spec lasting_true self)).post fun _ _ _ _ => trivial
      · exact .ret fun _ _ _ => trivial
  | casResponse n =>
      refine .bind (act_spec lasting_true fun _ _ => nofun) fun found => ?_
      split
      · refine (capture_spec (compareAndSet_spec lasting_true self fun _ h => h)).post ?_
        exact fun _ _ _ _ => trivial
      · exact .ret fun _ _ _ => trivial
  | acquire => exact other _
  | sleep => exact other _
  | append segment commandId payload => exact other _
  | «seal» segment => exact other _
  | checkTail segment => exact other _
  | readNext segment localStart localStop => exact other _
  | prefixTrim segment trimPosition => exact other _
  | successor failed => exact other _

theorem anyLog_spec (self : PaxosMetaStoreClient) (p : VirtualLog.Co P α) :
    Ensures 𝒮 t c (fun _ => True) ((interpretation self).translate p) (fun _ _ => True)
      fun _ => True :=
  .translate (fun a => logAct_spec lasting_true self a) (fun e => anyWait_spec self e)
    (fun _ _ _ _ => trivial) p

/-! ### Reconfigurations -/

/-- What `t` has proposed is at most the swap of version `v` to `chain`. -/
def Proposes (t : TaskId) (v : Nat) (chain : LogChain P) (w : World P) : Prop :=
  ∀ p ∈ w.proposed t, p = (v, chain)

/-- All that `t` has proposed is lost. -/
def Denied (t : TaskId) (w : World P) : Prop := ∀ p ∈ w.proposed t, w.Lost p.1 p.2

theorem proposes_lasting (v : Nat) (chain : LogChain P) :
    (discipline 𝒮).Lasting t (Proposes t v chain) := by
  intro w w' _ hr h p hp
  have hr : w'.proposed t = w.proposed t := hr
  rw [hr] at hp
  exact h p hp

omit [DecidableEq P] in
theorem Proposes.propose {v : Nat} {chain : LogChain P} {w : World P} (h : Proposes t v chain w) :
    Proposes t v chain (w.propose t (.compareAndSet v chain)) := by
  intro p hp
  change p ∈ Function.update w.proposed t ((v, chain) :: w.proposed t) t at hp
  rw [Function.update_self] at hp
  rcases List.mem_cons.mp hp with rfl | hp
  · rfl
  · exact h p hp

/-- `t` has proposed nothing. -/
def Silent (t : TaskId) (w : World P) : Prop := w.proposed t = []

theorem silent_lasting : (discipline 𝒮).Lasting t (Silent (P := P) t) :=
  fun _ _ _ hr h => hr.trans h

omit [DecidableEq P] in
theorem Silent.denied {w : World P} (h : Silent t w) : Denied t w := by
  intro p hp
  rw [h] at hp
  cases hp

/-- An install that answers `False` was denied what it proposed. -/
theorem install_spec (self : PaxosMetaStoreClient) (expected : VirtualLog.Snapshot P)
    (candidate : LogChain P) :
    Ensures 𝒮 t c (Silent t) ((interpretation self).translate
        (VirtualLog.install expected candidate))
      (fun w installed => installed = false → Denied t w) fun _ => True := by
  have hF := proposes_lasting (𝒮 := 𝒮) (t := t) expected.version candidate
  have hlost : ∀ r : CompareAndSetResult P, (discipline 𝒮).Lasting t fun w =>
      Proposes t expected.version candidate w ∧
        ∀ x, r = .versionMismatch x → w.Lost expected.version candidate :=
    fun r w w' hg hr h => ⟨hF w w' hg hr h.1, fun x hx => (h.2 x hx).grow hg⟩
  refine .translate_bind ((logCompareAndSet_spec hF self fun _ h => h.propose).mono
    (fun w _ h p hp => ?_) (fun _ _ _ h => h) fun _ _ _ _ => trivial) fun result => ?_
  · rw [h] at hp
    cases hp
  · simp only
    cases result.current.chain with
    | none => exact .raise fun _ _ _ => trivial
    | some chain =>
        refine .translate_bind (.translate_perform (logAct_spec (hlost result) self _)) fun _ => ?_
        refine .ret fun w _ h hfalse p hp => ?_
        cases result with
        | applied snapshot => cases hfalse
        | versionMismatch current =>
            rw [h.1 p hp]
            exact h.2 current rfl

theorem reconfigExtend_spec (client : PaxosMetaStoreClient) (self : VirtualLog)
    (next : VirtualLog.NewLogletConfiguration P) :
    Ensures 𝒮 t c (Silent t) ((interpretation client).translate (self.reconfigExtend next))
      (fun w installed => installed = false → Denied t w) fun _ => True := by
  have hF := silent_lasting (𝒮 := 𝒮) (P := P) (t := t)
  refine .translate_bind (cached_spec hF client).relax fun snapshot => ?_
  refine .translate_bind (.translate_check fun _ _ _ => trivial) fun _ => ?_
  refine .translate_bind (logWait_spec hF client rfl).relax fun _ => ?_
  refine .translate_bind (logWait_spec hF client rfl).relax fun tailResult => ?_
  refine .translate_bind (.translate_check fun _ _ _ => trivial) fun _ => ?_
  refine .translate_bind (.translate_orRaise fun _ _ _ => trivial) fun candidate => ?_
  exact install_spec client snapshot candidate

theorem reconfigTruncate_spec (client : PaxosMetaStoreClient) (self : VirtualLog) :
    Ensures 𝒮 t c (Silent t) ((interpretation client).translate (self.reconfigTruncate (P := P)))
      (fun w installed => installed = false → Denied t w) fun _ => True := by
  have hF := silent_lasting (𝒮 := 𝒮) (P := P) (t := t)
  refine .translate_bind (cached_spec hF client).relax fun snapshot => ?_
  refine .translate_bind (.translate_check fun _ _ _ => trivial) fun _ => ?_
  split
  · exact .ret fun _ _ h _ => h.denied
  · simp only
    split
    · exact .raise fun _ _ _ => trivial
    · refine .translate_bind (logWait_spec hF client rfl).relax fun trimmed => ?_
      split
      · exact .ret fun _ _ h _ => h.denied
      · refine .translate_bind (.translate_orRaise fun _ _ _ => trivial) fun candidate => ?_
        exact install_spec client snapshot candidate

/-! ### The calls -/

/-- What a call that returns reports is a loss. -/
def Honest (t : TaskId) (c : Call P) (w : World P) (outcome : Outcome P) : Prop :=
  ∀ v chain, Return.ReportsLoss ⟨c, outcome, w.proposed t⟩ v chain → w.Lost v chain

theorem start_spec (w₀ : World P) :
    Ensures 𝒮 t c (Silent t) (𝒮.start w₀ t c).2 (Honest t c) fun _ => True := by
  cases c with
  | read =>
      refine .bind (read_spec silent_lasting _).relax fun snapshot => .ret fun w _ _ v chain h => ?_
      cases h
  | compareAndSet v chain =>
      refine .bind (Q := fun w r => ∀ x, r = .versionMismatch x → w.Lost v chain) ?_
        fun result => .ret fun w _ hq u chain' h => ?_
      · refine (compareAndSet_spec lasting_true _ fun _ h => h).mono (fun _ _ _ => trivial)
          (fun _ _ _ h => h.2) fun _ _ _ _ => trivial
      · cases h with
        | compareAndSet current _ => exact hq current rfl
  | log call =>
      -- Only a reconfiguration reports the loss of its chain.
      have silent : ∀ p : VirtualLog.Co P (VirtualLog.Outcome P),
          (∀ proposed outcome v chain,
            ¬Return.ReportsLoss ⟨.log call, .log outcome, proposed⟩ v chain) →
          Ensures 𝒮 t (.log call) (Silent t) (do
              let outcome ← (interpretation (𝒮.clients t.node)).translate p
              ret (.log outcome))
            (Honest t (.log call)) fun _ => True := by
        intro p hno
        refine .bind ((anyLog_spec _ p).pre fun _ _ _ => trivial) fun outcome => ?_
        exact .ret fun w _ _ v chain h => absurd h (hno _ _ _ _)
      cases call with
      | reconfigExtend loglet =>
          refine .bind (Q := fun w outcome => outcome = .flag false → Denied t w) ?_
            fun outcome => .ret fun w _ hq v chain h => ?_
          · refine .translate_bind
              (.translate_perform (logAct_spec silent_lasting _ _)) fun id => ?_
            refine .translate_bind (reconfigExtend_spec _ _ _) fun installed => ?_
            refine .ret fun w _ hq hflag => hq ?_
            cases hflag
            rfl
          · cases h with
            | reconfigExtend _ hmem => exact hq rfl _ hmem
      | reconfigTruncate =>
          refine .bind (Q := fun w outcome => outcome = .flag false → Denied t w) ?_
            fun outcome => .ret fun w _ hq v chain h => ?_
          · refine .translate_bind (reconfigTruncate_spec _ _) fun installed => ?_
            refine .ret fun w _ hq hflag => hq ?_
            cases hflag
            rfl
          · cases h with
            | reconfigTruncate hmem => exact hq rfl _ hmem
      | bootstrap initialSegment => exact silent _ (by rintro _ _ _ _ ⟨⟩)
      | refresh => exact silent _ (by rintro _ _ _ _ ⟨⟩)
      | append commandId payload => exact silent _ (by rintro _ _ _ _ ⟨⟩)
      | «seal» => exact silent _ (by rintro _ _ _ _ ⟨⟩)
      | checkTail => exact silent _ (by rintro _ _ _ _ ⟨⟩)
      | read position => exact silent _ (by rintro _ _ _ _ ⟨⟩)
      | readNext virtualStart virtualStop => exact silent _ (by rintro _ _ _ _ ⟨⟩)
      | prefixTrim trimPosition => exact silent _ (by rintro _ _ _ _ ⟨⟩)
      | reconfigModify update => exact silent _ (by rintro _ _ _ _ ⟨⟩)

/-! ### The peers move on -/

/-- A step of the peers. -/
theorem Inv.step {w : World P} (h : Inv 𝒮 w) {s : NotedState P}
    {a : Action TaskId (Paxos.Call P) (Paxos.Choice P) (Paxos.Disturbance P)}
    (hC : Meets ownTasks w.peers a) (hs : 𝒮.servers.step w.peers a = some s) :
    Inv 𝒮 { w with peers := s } ∧ Grow w { w with peers := s } := by
  have hlater : 𝒮.servers.Later ownTasks w.peers s := .step .refl hC hs
  have hg : Grow w { w with peers := s } := ⟨h.serving.grow hlater, fun _ _ hi => hi⟩
  refine ⟨⟨.step h.serving hC hs, fun i r t hr ht => ?_, fun r hr v chain hv => ?_⟩, hg⟩
  · obtain ⟨turns, hcall⟩ := h.served i r t hr ht
    exact ⟨turns, (keeps_call t _).later hcall hlater⟩
  · exact (h.reported r hr v chain hv).grow hg

/-- The call of a task that was just launched. -/
theorem call_of_launch {s s' : NotedState P} {t : TaskId} {c : Paxos.Call P}
    (h : 𝒮.servers.step s (.launch t c) = some s') : s'.world.2.calls t = some c := by
  simp only [Runtime.step] at h
  split at h
  · cases h
  · obtain ⟨⟨w, p⟩, hst, rfl⟩ := Option.map_eq_some_iff.mp h
    obtain ⟨r, -, heq⟩ := Option.map_eq_some_iff.mp hst
    obtain ⟨rfl, -⟩ := Prod.mk.inj heq
    exact (keeps_call t c).advance s t c p (Function.update_self _ _ _)

/-- A peer starts to serve a request. -/
theorem Inv.serve {w : World P} (h : Inv 𝒮 w) {request : Nat} {r : Request P} {t : TaskId}
    {turns : Nat} {s : NotedState P} (hr : w.requests[request]? = some r)
    (ht : w.peers.world.2.calls t = none)
    (hs : 𝒮.servers.step w.peers (.launch t (peerCall turns r.call)) = some s) :
    let w' := { w with
      peers := s
      requests := w.requests.set request { r with served := some t } }
    Inv 𝒮 w' ∧ Grow w w' := by
  have hC : Meets ownTasks w.peers
      (Action.launch t (peerCall turns r.call) :
        Action TaskId (Paxos.Call P) (Paxos.Choice P) (Paxos.Disturbance P)) := by
    refine ⟨ht, ?_⟩
    cases r.call <;> exact nofun
  obtain ⟨hi, hg⟩ := h.step hC hs
  have hlen := (List.getElem?_eq_some_iff.mp hr).1
  refine ⟨⟨hi.serving, fun i r' u hr' hu => ?_, fun r' hr' v chain hv => ?_⟩, hg.peers, ?_⟩
  · change (w.requests.set request { r with served := some t })[i]? = some r' at hr'
    by_cases hi' : i = request
    · rw [hi', List.getElem?_set_self hlen] at hr'
      cases hr'
      cases hu
      exact ⟨turns, call_of_launch hs⟩
    · rw [List.getElem?_set_ne (Ne.symm hi')] at hr'
      exact hi.served i r' u hr' hu
  · exact hi.reported r' hr' v chain hv
  · rintro i call ⟨r', hr', hcall⟩
    by_cases hi' : i = request
    · refine ⟨{ r with served := some t }, ?_, ?_⟩
      · show (w.requests.set request { r with served := some t })[i]? = _
        rw [hi', List.getElem?_set_self hlen]
      · rw [hi', hr] at hr'
        cases hr'
        exact hcall
    · refine ⟨r', ?_, hcall⟩
      show (w.requests.set request { r with served := some t })[i]? = _
      rw [List.getElem?_set_ne (Ne.symm hi')]
      exact hr'

theorem sound : (discipline (P := P) 𝒮).Sound where
  start := by
    intro w t c w' p hi _ hst
    obtain rfl := (Prod.mk.inj (Option.some.inj hst)).1
    obtain rfl := (Prod.mk.inj (Option.some.inj hst)).2
    have hidle : Idle w { w with proposed := Function.update w.proposed t [] } :=
      ⟨rfl, rfl, rfl⟩
    refine ⟨hidle.grow, (start_spec w).safe_finish ⟨hidle.inv hi, fun u hu => ?_⟩
      (Function.update_self _ _ _) (fun v o hi' hq => ⟨?_, fun _ _ => rfl⟩)
      fun v e hi' _ => .refl hi'⟩
    · exact Function.update_of_ne hu _ _
    · refine ⟨hi'.serving, hi'.served, fun r hr u chain hloss => ?_⟩
      rcases List.mem_cons.mp hr with rfl | hr
      · exact hq u chain hloss
      · exact hi'.reported r hr u chain hloss
  disturb := by
    intro w d w' hi hd
    cases d with
    | serve request t turns =>
        obtain ⟨r, hr, hd⟩ := Option.bind_eq_some_iff.mp hd
        split at hd
        · next hfree =>
            obtain ⟨s, hs, rfl⟩ := Option.map_eq_some_iff.mp hd
            obtain ⟨hi', hg⟩ := hi.serve hr (Option.isNone_iff_eq_none.mp hfree.2.2) hs
            exact ⟨hi', hg, fun _ _ => rfl⟩
        · cases hd
    | resume t x =>
        obtain ⟨s, hs, rfl⟩ := Option.map_eq_some_iff.mp hd
        obtain ⟨hi', hg⟩ := hi.step (a := .resume t x) (fun _ _ _ _ => trivial) hs
        exact ⟨hi', hg, fun _ _ => rfl⟩
    | peers d =>
        obtain ⟨s, hs, rfl⟩ := Option.map_eq_some_iff.mp hd
        obtain ⟨hi', hg⟩ := hi.step (a := .disturb d) trivial hs
        exact ⟨hi', hg, fun _ _ => rfl⟩
    | crash node =>
        obtain rfl := Option.some.inj hd
        have hidle : Idle w { w with
            preferred := Function.update w.preferred node none
            log := w.log.onInstance node fun _ => ⟨none, none⟩ } := ⟨rfl, rfl, rfl⟩
        exact ⟨hidle.inv hi, hidle.grow, fun _ _ => rfl⟩

theorem inv_initial (𝒮 : Deployment) : Inv 𝒮 (World.initial P) := by
  refine ⟨.init rfl, ?_, nofun⟩
  intro i r t hr
  cases hr

/-- **A reported loss is a real loss when no peer takes the swap up again.** In every run, the
chain of a `compare_and_set` that returned `VersionMismatch`, and every candidate of a
`reconfigExtend` or `reconfigTruncate` that returned `False`, is installed on no peer at the
version that it was to follow, unless a peer took up the same swap for a new slot after it had
applied it. -/
theorem reported_loss {s : SystemState P}
    (h : 𝒮.runtime.Reachable (· = World.initial P) s) {r : Return P}
    (hr : r ∈ s.world.returned) {v : Nat} {chain : LogChain P} (hloss : r.ReportsLoss v chain)
    (honce : s.world.peers.world.2.TakenUpOnce v chain) :
    ¬s.world.peers.world.1.Installed v chain := by
  have hi : Inv 𝒮 s.world := (sound.reachable (fun _ hw => hw ▸ inv_initial 𝒮) h).1
  obtain ⟨node, hlost⟩ := hi.reported r hr v chain hloss
  have hserved := hi.serving.served
  exact hserved.origins.not_installed hserved.inv hlost honce

end Keep

/-! ## Two runs of a client -/

/-- The swap that a call was told to have lost. -/
def Return.swapLost : Return P → Option (Nat × LogChain P)
  | ⟨.compareAndSet v chain, .swapped (.versionMismatch _), _⟩ => some (v, chain)
  | _ => none

theorem Return.reportsLoss_of_swapLost {r : Return P} {v : Nat} {chain : LogChain P}
    (h : r.swapLost = some (v, chain)) : r.ReportsLoss v chain := by
  unfold Return.swapLost at h
  split at h
  · cases h
    exact .compareAndSet _ _
  · cases h

instance [DecidableEq P] (notes : Notes P) (v : Nat) (chain : LogChain P) :
    Decidable (notes.TakenUpOnce v chain) :=
  inferInstanceAs (Decidable (∀ p ∈ notes.picks, _ → _))

/-- Every client knows the peers `a` and `b` of three. -/
def twoKnownPeers : Deployment where
  peers := threeNodes
  clients := fun _ => ⟨["a", "b"], by decide, by decide⟩
  logs := VirtualLog.sealingDeployment

/-- The steps of the peers among those of the clients. -/
def onPeers (as : List (Action TaskId (Paxos.Call Unit) (Paxos.Choice Unit)
    (Paxos.Disturbance Unit))) :
    List (Action TaskId (Call Unit) (Choice Unit) (Disturbance Unit)) :=
  as.filterMap fun
    | .launch _ _ => none
    | .resume t x => some (.disturb (.resume t x))
    | .disturb d => some (.disturb (.peers d))

/-- `a` serves the client and decides its swap in slot 1, but the answer is lost; `b` has learnt
slot 1 when the client asks it, and decides the same swap in slot 2. -/
def retriedRun : List (Action TaskId (Call Unit) (Choice Unit) (Disturbance Unit)) :=
  [.launch ⟨"client", 0⟩ (.compareAndSet 0 singleSegment), .disturb (.serve 0 ⟨"a", 0⟩ 1)] ++
    onPeers (undisturbed ⟨"a", 0⟩ 1 ⟨1, "a", Nat.one_pos, a_named⟩ bootstrapValue ++
      handled ["b", "c"] (.decide ⟨1, bootstrapValue⟩) ["b"]) ++
    [.resume ⟨"client", 0⟩ (.fail .connection), .disturb (.serve 1 ⟨"b", 0⟩ 1)] ++
    onPeers (undisturbed ⟨"b", 0⟩ 2 ⟨1, "b", Nat.one_pos, b_named⟩ bootstrapValue) ++
    [.resume ⟨"client", 0⟩ .reply]

theorem retriedRun_runs :
    ((twoKnownPeers.runtime.run (fresh _ _ _ _ (World.initial Unit)) retriedRun).map fun s =>
      (s.world.returned.map Return.swapLost, (s.world.peers.world.1.chains "b")[0]?)) =
    some ([some (0, singleSegment)], some singleSegment) := by
  decide +kernel

/-- The client was told that its swap lost, and its chain is installed. -/
theorem reported_loss_retried :
    ∃ s : SystemState Unit, twoKnownPeers.runtime.Reachable (· = World.initial Unit) s ∧
      ∃ r ∈ s.world.returned, r.ReportsLoss 0 singleSegment ∧
        s.world.peers.world.1.Installed 0 singleSegment := by
  obtain ⟨s, hs, hpost⟩ := Option.map_eq_some_iff.mp retriedRun_runs
  obtain ⟨hreturned, hchain⟩ := Prod.mk.inj hpost
  obtain ⟨r, hr, hlost⟩ := List.mem_map.mp (hreturned ▸ List.mem_singleton_self _)
  exact ⟨s, .run (.init rfl) hs, r, hr, Return.reportsLoss_of_swapLost hlost, "b", hchain⟩

def otherSegment : LogChain Unit where
  segments := [.first "other" ⟨"memory", 1, ()⟩ (by decide)]
  valid := by decide

/-- One client installs the first chain, and another comes too late with a chain of its own. -/
def contendedRun : List (Action TaskId (Call Unit) (Choice Unit) (Disturbance Unit)) :=
  List.flatten
    [[.launch ⟨"client", 0⟩ (.compareAndSet 0 singleSegment), .disturb (.serve 0 ⟨"a", 0⟩ 1)],
     onPeers (undisturbed ⟨"a", 0⟩ 1 ⟨1, "a", Nat.one_pos, a_named⟩ bootstrapValue),
     [.resume ⟨"client", 0⟩ .reply, .launch ⟨"other", 0⟩ (.compareAndSet 0 otherSegment),
      .disturb (.serve 1 ⟨"a", 1⟩ 1)],
     onPeers (undisturbed ⟨"a", 1⟩ 2 ⟨2, "a", Nat.two_pos, a_named⟩
      ⟨.compareAndSet 0 otherSegment⟩),
     [.resume ⟨"other", 0⟩ .reply]]

theorem contendedRun_runs :
    ((twoKnownPeers.runtime.run (fresh _ _ _ _ (World.initial Unit)) contendedRun).map fun s =>
      (s.world.returned.map Return.swapLost,
        decide (s.world.peers.world.2.TakenUpOnce 0 otherSegment))) =
    some ([some (0, otherSegment), none], true) := by
  decide +kernel

theorem reported_loss_contended :
    ∃ s : SystemState Unit, (∃ r ∈ s.world.returned, r.ReportsLoss 0 otherSegment) ∧
      ¬s.world.peers.world.1.Installed 0 otherSegment := by
  obtain ⟨s, hs, hpost⟩ := Option.map_eq_some_iff.mp contendedRun_runs
  obtain ⟨hreturned, honce⟩ := Prod.mk.inj hpost
  obtain ⟨r, hr, hlost⟩ := List.mem_map.mp (hreturned ▸ List.mem_cons_self)
  have hloss := Return.reportsLoss_of_swapLost hlost
  exact ⟨s, ⟨r, hr, hloss⟩, reported_loss (.run (.init rfl) hs) hr hloss (of_decide_eq_true honce)⟩

end DelosLab.Paxos.Client
