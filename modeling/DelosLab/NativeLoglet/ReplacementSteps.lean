import DelosLab.NativeLoglet.LogletErrors
import DelosLab.NativeLoglet.Replacement
import DelosLab.NativeLoglet.ServerProgress

/-!
# The steps of a replacement

What each part of `prepare` leaves behind, whatever the LogServers are asked for meanwhile: a
watermark that a majority of the source has reached, one copy after the other, the trim and the
seal of the target. Nothing of this is ever taken back.
-/

namespace DelosLab.NativeLoglet

open Async Async.Coroutine Consensus
open VirtualLog (LogletConfiguration LogSegment)

variable {α β : Type}

/-! ## A client of its own -/

theorem onClient_bind (self : NativeLogletClient) (p : Co α) (f : α → Co β) :
    onClient self (p >>= f) = onClient self p >>= fun r => onClient r.2 (f r.1) := by
  induction p generalizing self with
  | ret a => rfl
  | raise e => rfl
  | wait e k ih => exact congrArg (Coroutine.wait (S := signature) e) (funext fun r => ih r self)
  | act a k ih =>
      cases a with
      | client => exact ih self self
      | observeTail tail => exact ih () _
      | observeTrimmed watermark => exact ih () _
      | _ => exact congrArg (Coroutine.act (S := signature) _) (funext fun r => ih r self)

theorem onClient_require (self : NativeLogletClient) (p : Prop) [Decidable p] (e : Error) :
    onClient self (require (S := signature) p e) = require (S := signature) p e >>= fun _ =>
      ret ((), self) := by
  unfold Coroutine.require
  split <;> rfl

theorem onClient_wait (self : NativeLogletClient) (e : Wait) :
    onClient self (wait e) = wait e >>= fun r => ret (r, self) := by
  refine congrArg (Coroutine.wait (S := signature) e) (funext fun r => ?_)
  cases r <;> rfl

/-! ## Answers to one request -/

theorem lookup_members {members : List String} {node : String} (h : node ∈ members)
    (request : Request) : (members.map fun n => (n, request)).lookup node = some request := by
  induction members with
  | nil => cases h
  | cons m members ih =>
      by_cases hm : node = m
      · subst hm
        exact List.lookup_cons_self
      · rw [List.map_cons, List.lookup_cons, beq_false_of_ne hm]
        exact ih ((List.mem_cons.mp h).resolve_left hm)

/-- A reply to a batch is a reply to a request of the batch. -/
theorem Truthful.told {w : World} (h : Truthful w) {batch : Nat} {node : String}
    {requests : List (String × Request)} (hb : w.messages[batch]? = some requests)
    {request : Request} (hl : requests.lookup node = some request) {response : Response}
    (hr : ⟨batch, node, response⟩ ∈ w.replies) : (w.store node).Told request response := by
  obtain ⟨request', hreq, htold⟩ := h.replies _ hr
  have hsent : w.request batch node = some request :=
    Option.bind_eq_some_iff.mpr ⟨requests, hb, hl⟩
  obtain rfl := Option.some.inj (hsent.symm.trans hreq)
  exact htold

/-- What the answers of the members to a request tell; `began` are watermarks from before the
request was sent. -/
def Heard (members : FixedMembers) (began : String → Nat) (request : Request)
    (replies : List (Option Response)) (w : World) : Prop :=
  Gathered (fun node response => (w.store node).Told request response ∧
    ∀ s, response = .state s → began node ≤ s.trimmedPrefix) members.members replies

/-- A quorum of states comes from a majority that has done what it was asked for. -/
theorem Heard.done {members : FixedMembers} {began : String → Nat} {request : Request}
    {replies : List (Option Response)} {w : World} (h : Heard members began request replies w)
    (hq : members.quorum ≤ (replies.filterMap stateOf).length) :
    Majority members.members fun node => (w.store node).Done request := by
  obtain ⟨hsub, hstates, hsnd⟩ := statesOf_spec h
  have hlen : members.members.length / 2 + 1 ≤
      (statesOf members.members replies).countP fun _ => true := by
    rw [List.countP_true, ← List.length_map (f := Prod.snd), hsnd]
    exact hq
  refine (majority_of_countP members.nodup hsub hlen).mono ?_
  rintro node - ⟨s, hs, -⟩
  exact ((hstates _ hs).1.state s rfl).2

/-! ## The watermark -/

/-- The states that `_quorum_trimmed_prefix` has gathered from a quorum of the members, after
the watermarks were `began`. -/
structure Gathering (members : FixedMembers) (began : String → Nat)
    (states : List (String × LogServerState)) (w : World) : Prop where
  senders : (states.map Prod.fst).Sublist members.members
  quorum : members.quorum ≤ states.length
  later : ∀ item ∈ states, began item.1 ≤ item.2.trimmedPrefix
  reached : ∀ item ∈ states, item.2.trimmedPrefix ≤ (w.store item.1).trimmedPrefix

theorem Gathering.mono {members : FixedMembers} {began : String → Nat}
    {states : List (String × LogServerState)} {w w' : World}
    (h : Gathering members began states w) (hw : w.Onward w') :
    Gathering members began states w' :=
  { h with reached := fun item hitem =>
      Nat.le_trans (h.reached item hitem) (hw.stores item.1).upward.trimmedPrefix }

theorem Heard.gathering {members : FixedMembers} {began : String → Nat} {request : Request}
    {replies : List (Option Response)} {w : World} (h : Heard members began request replies w)
    (hq : members.quorum ≤ (statesOf members.members replies).length) :
    Gathering members began (statesOf members.members replies) w := by
  obtain ⟨hsub, hstates, -⟩ := statesOf_spec h
  exact ⟨hsub, hq, fun item hitem => (hstates item hitem).2 _ rfl,
    fun item hitem => ((hstates item hitem).1.state _ rfl).1⟩

open NativeLogletReplacementPreparer in
/-- The watermark is the largest one that a quorum of the gathered states has reached. -/
theorem le_quorumWatermark_iff {members : FixedMembers} {states : List (String × LogServerState)}
    (h : members.quorum ≤ states.length) (m : Nat) :
    m ≤ quorumWatermark members states ↔
      members.quorum ≤ states.countP fun item => decide (m ≤ item.2.trimmedPrefix) := by
  have hpos : 0 < members.quorum := Nat.succ_pos _
  obtain ⟨x, hx⟩ : ∃ x, (Ranking.descending (states.map fun item =>
      item.2.trimmedPrefix))[members.quorum - 1]? = some x := by
    refine ⟨_, List.getElem?_eq_getElem ?_⟩
    rw [Ranking.length_descending, List.length_map]
    omega
  have hv : quorumWatermark members states = x := by
    rw [quorumWatermark, hx]
    rfl
  rw [hv, Ranking.le_iff hx, List.countP_map]
  show members.quorum - 1 < states.countP (fun item => decide (m ≤ item.2.trimmedPrefix)) ↔ _
  constructor <;> intro hlt <;> omega

section Watermark

open NativeLogletReplacementPreparer

variable {members : FixedMembers} {began : String → Nat} {states : List (String × LogServerState)}
  {w : World}

/-- The watermark is not behind what a quorum of the members heard from had reached. -/
theorem Gathering.vouched (h : Gathering members began states w) {m : Nat}
    (hm : members.quorum ≤ states.countP fun item => decide (m ≤ began item.1)) :
    m ≤ quorumWatermark members states := by
  refine (le_quorumWatermark_iff h.quorum m).mpr (Nat.le_trans hm ?_)
  refine List.countP_mono_left fun item hitem hreached => ?_
  have hreached : m ≤ began item.1 := of_decide_eq_true hreached
  exact decide_eq_true (Nat.le_trans hreached (h.later item hitem))

/-- A majority of the members has reached the watermark. -/
theorem Gathering.certified (h : Gathering members began states w) :
    Majority members.members fun node =>
      quorumWatermark members states ≤ (w.store node).trimmedPrefix := by
  have hcount :=
    (le_quorumWatermark_iff h.quorum (quorumWatermark members states)).mp (Nat.le_refl _)
  refine (majority_of_countP members.nodup h.senders hcount).mono ?_
  rintro node - ⟨s, hs, hle⟩
  exact Nat.le_trans (of_decide_eq_true hle) (h.reached _ hs)

end Watermark

theorem majority_all (members : FixedMembers) {p : String → Prop} (h : ∀ node, p node) :
    Majority members.members p := by
  refine ⟨members.members, ⟨members.nodup, List.Subset.refl _, ?_⟩, fun node _ => h node⟩
  have := members.size
  omega

/-! ## Copies -/

/-- `node` has answered a `get` with the entry. -/
def World.Shows (w : World) (node : String) (e : LogEntry) : Prop :=
  ∃ batch knownTail, w.request batch node = some (.get e.position knownTail) ∧
    ⟨batch, node, .entry (some e)⟩ ∈ w.replies

theorem World.Shows.mono {w w' : World} {node : String} {e : LogEntry} (h : w.Shows node e)
    (hw : w.Onward w') : w'.Shows node e := by
  obtain ⟨batch, knownTail, hreq, hr⟩ := h
  exact ⟨batch, knownTail, request_persists hw.messages hreq, hw.answers hr⟩

/-- What a LogServer shows, the sequencer has assigned. -/
theorem World.Shows.assigned {𝒮 : Deployment} {w : World} {node : String} {e : LogEntry}
    (h : w.Shows node e) (hg : Remote.Genuine 𝒮 w) : e ∈ w.assigned := by
  obtain ⟨batch, knownTail, hreq, hr⟩ := h
  obtain ⟨request, hreq', hans⟩ := hg.replies _ hr
  obtain rfl := Option.some.inj (hreq.symm.trans hreq')
  exact (hans.entry _ _ _ rfl rfl).1

/-- A majority of the target keeps an entry that a member of the source has shown. -/
def Copied (source target : FixedMembers) (p : Nat) (w : World) : Prop :=
  ∃ e : LogEntry, e.position = p ∧ (∃ node ∈ source.members, w.Shows node e) ∧
    Majority target.members fun node => (w.store node).Keeps e

theorem Copied.mono {source target : FixedMembers} {p : Nat} {w w' : World}
    (h : Copied source target p w) (hw : w.Onward w') : Copied source target p w' := by
  obtain ⟨e, hp, ⟨node, hnode, hshows⟩, hmajority⟩ := h
  exact ⟨e, hp, ⟨node, hnode, hshows.mono hw⟩, hmajority.mono fun n _ hn => hn.mono (hw.stores n)⟩

open NativeLogletReplacementPreparer in
/-- What a replacement of a segment of `length` positions leaves behind. -/
structure CopyMade (source target : FixedMembers) (length : Nat) (began : String → Nat)
    (states : List (String × LogServerState)) (w : World) : Prop where
  gathered : Gathering source began states w
  copied : ∀ p, quorumWatermark source states ≤ p → p < length → Copied source target p w
  trimmed : Majority target.members fun node =>
    quorumWatermark source states ≤ (w.store node).trimmedPrefix
  sealed : Majority target.members fun node => (w.store node).sealed = true

theorem reached_mono {members : FixedMembers} {v : Nat} {w w' : World}
    (h : Majority members.members fun node => v ≤ (w.store node).trimmedPrefix)
    (hw : w.Onward w') :
    Majority members.members fun node => v ≤ (w'.store node).trimmedPrefix :=
  h.mono fun node _ hn => Nat.le_trans hn (hw.stores node).upward.trimmedPrefix

theorem sealed_mono {members : FixedMembers} {w w' : World}
    (h : Majority members.members fun node => (w.store node).sealed = true)
    (hw : w.Onward w') : Majority members.members fun node => (w'.store node).sealed = true :=
  h.mono fun node _ hn => (hw.stores node).sealed hn

theorem CopyMade.mono {source target : FixedMembers} {length : Nat} {began : String → Nat}
    {states : List (String × LogServerState)} {w w' : World}
    (h : CopyMade source target length began states w) (hw : w.Onward w') :
    CopyMade source target length began states w' :=
  ⟨h.gathered.mono hw, fun p hp hlt => (h.copied p hp hlt).mono hw,
    reached_mono h.trimmed hw, sealed_mono h.sealed hw⟩

namespace Replacement

variable {P : Type} {𝒮 : Deployment} {codec : ParametersCodec P} {w w' : World P} {t : TaskId}
  {c : Call P} {F : World P → Prop}

/-- A `prepare` that has returned has carried its segment over. -/
def Kept (codec : ParametersCodec P) (w : NativeLoglet.World) (r : Prepared P) : Prop :=
  ∃ stop source target, r.segment.virtualStop = some stop ∧
    codec.fromGeneric r.segment.loglet = .ok source ∧
    codec.fromGeneric r.replacement = .ok target ∧
    CopyMade source.storageMembers target.storageMembers (stop - r.segment.virtualStart)
      r.opened.began r.states w

theorem Kept.mono {r : Prepared P} {w w' : NativeLoglet.World} (h : Kept codec w r)
    (hw : w.Onward w') : Kept codec w' r := by
  obtain ⟨stop, source, target, hstop, hsource, htarget, hmade⟩ := h
  exact ⟨stop, source, target, hstop, hsource, htarget, hmade.mono hw⟩

/-! ## The process of the sequencer -/

/-- No `check_tail` is a call of the process of the sequencer here. -/
def appending : Condition Remote.signature Remote.World TaskId Remote.Call Remote.Choice where
  launch := fun _ _ c => ∀ turns, c ≠ .checkTail turns
  resume := fun _ _ c _ _ => ∀ turns, c ≠ .checkTail turns

theorem undenied (turns : Nat) : Remote.Undenied appending (.checkTail turns) :=
  ⟨fun _ _ _ _ _ h => h turns rfl, fun _ _ _ _ _ h => h turns rfl⟩

theorem ne_checkTail {c : Remote.Call} (h : appends c = true) (turns : Nat) :
    c ≠ .checkTail turns := by
  rintro rfl
  cases h

theorem meets_of_serves {s : Remote.SystemState}
    {a : Action TaskId Remote.Call Remote.Choice NativeLoglet.Disturbance}
    (h : serves s a = true) : Runtime.Meets appending s a := by
  cases a with
  | launch t c => exact ne_checkTail h
  | resume t x =>
      intro c e k ht
      rw [serves, ht] at h
      exact ne_checkTail h
  | disturb d => trivial

/-- What the steps of the sequencer's process and of the LogServers do to the stores. -/
theorem onward_keeps (w : NativeLoglet.World) :
    (Remote.runtime 𝒮).Keeps Condition.any fun w' => w.Onward w'.segment ∧ Truthful w'.segment where
  start := by
    rintro w₁ t c w₂ p h - hs
    cases hs
    exact h
  exec := fun w₁ t a h => ⟨h.1.trans (exec_onward w₁.segment t a), h.2.exec t a⟩
  resume := by
    rintro w₁ t c e x w₂ r h - hs
    rcases Remote.resume_cases hs with rfl | ⟨s, -, -, rfl⟩
    · exact h
    · have hstores : ∀ node, (w₁.segment.store node).Onward
          ((w₁.segment.setSequencer t.node s).store node) := by
        intro node
        rw [(w₁.segment.setSequencer_parts t.node s node).1]
        exact .refl _
      have honward : w₁.segment.Onward (w₁.segment.setSequencer t.node s) :=
        .silent hstores (List.prefix_refl _) rfl
      refine ⟨h.1.trans honward, h.2.silent honward (List.Subset.refl _) rfl fun node => ?_⟩
      rw [(w₁.segment.setSequencer_parts t.node s node).1]
      exact List.Subset.refl _
  finish := by
    intro w₁ t c o h
    show w.Onward (Remote.finish w₁ c o).segment ∧ Truthful (Remote.finish w₁ c o).segment
    unfold Remote.finish
    split <;> exact h
  disturb := by
    intro w₁ d w₂ h hs
    obtain ⟨segment, hd, rfl⟩ := Option.map_eq_some_iff.mp hs
    obtain ⟨honward, htruthful⟩ := disturb_onward h.2 hd
    exact ⟨h.1.trans honward, htruthful⟩

/-! ## The discipline -/

structure Inv (𝒮 : Deployment) (codec : ParametersCodec P) (w : World P) : Prop where
  system : (Remote.discipline 𝒮 appending).StateInv w.system
  truthful : Truthful w.servers
  swept : ∀ node, (w.servers.store node).Swept
  prepared : ∀ r ∈ w.prepared, Kept codec w.servers r

structure Grow (w w' : World P) : Prop where
  servers : w.servers.Onward w'.servers
  assigned : w.servers.assigned <+: w'.servers.assigned

theorem Inv.genuine (h : Inv 𝒮 codec w) : Remote.Genuine 𝒮 w.servers := h.system.1.genuine

theorem Inv.onward (h : Inv 𝒮 codec w)
    (hs : (Remote.discipline 𝒮 appending).StateInv w'.system)
    (hw : w.servers.Onward w'.servers) (ht : Truthful w'.servers) (hp : w'.prepared = w.prepared) :
    Inv 𝒮 codec w' :=
  ⟨hs, ht, fun node => (hw.stores node).swept (h.swept node),
    fun r hr => (h.prepared r (hp ▸ hr)).mono hw⟩

theorem onward_send (w : NativeLoglet.World) (requests : List (String × Request)) :
    w.Onward { w with messages := w.messages ++ [requests] } :=
  .silent (fun _ => .refl _) (List.prefix_append _ _) rfl

/-- Requests that write no other entries than those that have been assigned. -/
theorem Inv.send (h : Inv 𝒮 codec w) {requests : List (String × Request)}
    (hr : ∀ item ∈ requests, Remote.Carries w.servers.assigned item.2) :
    Inv 𝒮 codec (w.setServers { w.servers with messages := w.servers.messages ++ [requests] }) := by
  have hgenuine := h.system.1.genuinely (h.genuine.send hr)
  refine h.onward (h.system.moved hgenuine (Remote.grow_send _ requests) ?_)
    (onward_send w.servers requests)
    (h.truthful.silent (onward_send w.servers requests) (List.Subset.refl _) rfl
      fun _ => List.Subset.refl _) rfl
  exact fun _ s hs => ⟨s, hs, fun hk => hk⟩

/-- Only the servers may move on, and what was noted of the open call of `t` stays. -/
def discipline (𝒮 : Deployment) (codec : ParametersCodec P) :
    Discipline (runtime 𝒮 codec) Condition.any where
  Inv := Inv 𝒮 codec
  Grow := Grow
  Rely := fun t w w' => w'.opened t = w.opened t
  grow_refl := fun w => ⟨.refl w.servers, List.prefix_refl _⟩
  grow_trans := fun h h' => ⟨h.servers.trans h'.servers, h.assigned.trans h'.assigned⟩
  rely_refl := fun _ _ => rfl
  rely_trans := fun h h' => h'.trans h
  exec_grow := fun w t a =>
    ⟨exec_onward w.servers t a, (NativeLoglet.exec_grow w.servers t a).assigned⟩
  resume_grow := by
    intro w t e x w' r h
    obtain ⟨⟨servers, r'⟩, hr, heq⟩ := Option.map_eq_some_iff.mp h
    obtain ⟨rfl, -⟩ := Prod.mk.inj heq
    have hresumed := resumed_of_resume hr
    exact ⟨hresumed.onward, hresumed.grow.assigned⟩
  finish_grow := by
    intro w t c o
    show Grow w (finish w t c o)
    unfold finish
    split <;> exact ⟨.refl w.servers, List.prefix_refl _⟩

/-- The triple of a part of `prepare`; its exceptions say nothing. -/
abbrev Ensures (𝒮 : Deployment) (codec : ParametersCodec P) (t : TaskId) (c : Call P)
    (F : World P → Prop) (p : Co α) (Q : World P → α → Prop) : Prop :=
  (discipline 𝒮 codec).Triple t c F p Q fun _ _ => True

/-- The end of a wait changes nothing. -/
theorem wait_spec {e : Wait} (he : e ≠ .acquire) (hF : (discipline 𝒮 codec).Stable t F)
    {Q : World P → WaitResult e → Prop}
    (h : ∀ w x r, Inv 𝒮 codec w → F w → Resumed w.servers t e x w.servers r →
      ∀ a, r = .ok a → Q w a) : Ensures 𝒮 codec t c F (wait e) Q := by
  refine .wait hF fun w x w' r hi hf _ hs => ?_
  obtain ⟨⟨servers, r'⟩, hr, heq⟩ := Option.map_eq_some_iff.mp hs
  obtain ⟨rfl, rfl⟩ := Prod.mk.inj heq
  have hresumed := resumed_of_resume hr
  obtain rfl : servers = w.servers := Remote.Resumed.eq_of_ne hresumed he
  exact ⟨.refl hi, fun a ha => h w x r' hi hf hresumed a ha, fun _ _ => trivial⟩

/-! ## Requests -/

/-- The watermarks are not behind what they were. -/
def Since (began : String → Nat) (w : World P) : Prop := ∀ node, began node ≤ w.watermark node

theorem since_persistent (began : String → Nat) :
    (discipline 𝒮 codec).Persistent (Since began) :=
  fun _ _ hg h node => Nat.le_trans (h node) (hg.servers.stores node).upward.trimmedPrefix

/-- The batch was sent, and states that answer it tell of watermarks from then on. -/
structure Batch (began : String → Nat) (batch : Nat) (requests : List (String × Request))
    (w : World P) : Prop where
  since : Since began w
  sent : w.servers.messages[batch]? = some requests
  later : ∀ r ∈ w.servers.replies, r.batch = batch → ∀ s, r.response = .state s →
    began r.node ≤ s.trimmedPrefix

theorem batch_persistent (began : String → Nat) (batch : Nat)
    (requests : List (String × Request)) :
    (discipline 𝒮 codec).Persistent (Batch began batch requests) := by
  intro w w' hg h
  have hsince : (discipline 𝒮 codec).Persistent (Since began) := since_persistent began
  refine ⟨hsince w w' hg h.since, ?_, fun r hr hb => ?_⟩
  · obtain ⟨rest, hrest⟩ := hg.servers.messages
    have hlt := (List.getElem?_eq_some_iff.mp h.sent).1
    rw [← hrest, List.getElem?_append_left hlt]
    exact h.sent
  · rcases hg.servers.replies r hr with hold | hnew
    · exact h.later r hold hb
    · exact fun s hs => Nat.le_trans (h.since r.node) (hnew s hs)

section Requests

variable {began : String → Nat}

theorem send_spec (hF : (discipline 𝒮 codec).Persistent F) {requests : List (String × Request)}
    (hr : ∀ w, Inv 𝒮 codec w → F w → ∀ item ∈ requests,
      Remote.Carries w.servers.assigned item.2) :
    Ensures 𝒮 codec t c (fun w => Since began w ∧ F w) (act (.send requests))
      fun w batch => Batch began batch requests w ∧ F w := by
  refine .act fun w hi h => ⟨⟨hi.send (hr w hi h.2), fun _ _ => rfl⟩,
    ⟨h.1, ?_, fun r hmem hb => ?_⟩, ?_⟩
  · exact List.getElem?_concat_length
  · -- Nobody has answered a batch that had not been sent.
    obtain ⟨request, hreq, -⟩ := hi.truthful.replies r hmem
    obtain ⟨requests', hsent, -⟩ := Option.bind_eq_some_iff.mp hreq
    have hlt := (List.getElem?_eq_some_iff.mp hsent).1
    exact absurd hlt (by rw [hb]; exact Nat.lt_irrefl _)
  · exact hF w _ ((discipline 𝒮 codec).exec_grow w t (.send requests)) h.2

theorem askMembers_spec (hF : (discipline 𝒮 codec).Persistent F) (members : FixedMembers)
    {request : Request}
    (hr : ∀ w, Inv 𝒮 codec w → F w → Remote.Carries w.servers.assigned request) :
    Ensures 𝒮 codec t c (fun w => Since began w ∧ F w)
      (NativeLogletReplacementPreparer.askMembers members request) fun w replies =>
        (Since began w ∧ F w) ∧ Heard members began request replies w.servers := by
  refine .bind (send_spec hF fun w hi hf item hitem => ?_) fun batch => ?_
  · obtain ⟨node, -, rfl⟩ := List.mem_map.mp hitem
    exact hr w hi hf
  · refine wait_spec (by rintro ⟨⟩) ((batch_persistent began batch _).and hF).lasting.stable
      fun w x r hi h hresumed replies hok => ?_
    cases hresumed with
    | cancelled => cases hok
    | gathered ha =>
        cases hok
        refine ⟨⟨h.1.since, h.2⟩, ?_⟩
        have hg := w.servers.gathered ha
        refine List.forall₂_iff_zip.mpr
          ⟨hg.length_eq, fun {node reply} hmem response hresponse => ?_⟩
        have hin : node ∈ members.members := (List.of_mem_zip hmem).1
        have hr' := (List.forall₂_iff_zip.mp hg).2 hmem response hresponse
        exact ⟨hi.truthful.told h.1.sent (lookup_members hin request) hr',
          fun s hs => h.1.later _ hr' rfl s hs⟩

/-- An answer to a `get` is an entry that the node shows. -/
theorem entry_spec (hF : (discipline 𝒮 codec).Persistent F) {batch position knownTail : Nat}
    {node : String} :
    Ensures 𝒮 codec t c
      (fun w => Batch began batch [(node, .get position knownTail)] w ∧ F w)
      (wait (.entry batch node)) fun w r => (Since began w ∧ F w) ∧
        ∀ e, r = some e → e.position = position ∧ w.servers.Shows node e := by
  refine wait_spec (by rintro ⟨⟩) ((batch_persistent began batch _).and hF).lasting.stable
    fun w x r hi h hresumed entry hok => ?_
  refine ⟨⟨h.1.since, h.2⟩, fun e he => ?_⟩
  subst he
  cases hresumed with
  | cancelled => cases hok
  | noEntry _ => cases hok
  | entry hreply =>
      cases hok
      have htold := hi.truthful.told h.1.sent List.lookup_cons_self hreply
      have hposition := (htold.entry e rfl).2 _ _ rfl
      refine ⟨hposition, batch, knownTail, ?_, hreply⟩
      rw [hposition]
      exact Option.bind_eq_some_iff.mpr ⟨_, h.1.sent, List.lookup_cons_self⟩

end Requests

/-! ## The calls of a client of its own -/

/-- The triple of a part of a client's call, whatever the client knows. -/
abbrev ByClient (𝒮 : Deployment) (codec : ParametersCodec P) (t : TaskId) (c : Call P)
    (F : World P → Prop) (p : Co α) (Q : World P → α → Prop) : Prop :=
  ∀ self, Ensures 𝒮 codec t c F (onClient self p) fun w r => Q w r.1

namespace ByClient

variable {Q : World P → α → Prop}

theorem bind {R : World P → β → Prop} {p : Co α} {f : α → Co β} (h : ByClient 𝒮 codec t c F p Q)
    (hf : ∀ a, ByClient 𝒮 codec t c (fun w => Q w a) (f a) R) :
    ByClient 𝒮 codec t c F (p >>= f) R := by
  intro self
  rw [onClient_bind]
  exact .bind (h self) fun r => hf r.1 r.2

theorem mono {F' : World P → Prop} {Q' : World P → α → Prop} {p : Co α}
    (h : ByClient 𝒮 codec t c F' p Q') (hF : ∀ w, Inv 𝒮 codec w → F w → F' w)
    (hQ : ∀ w a, Q' w a → Q w a) : ByClient 𝒮 codec t c F p Q :=
  fun self => (h self).mono hF (fun w r _ hq => hQ w r.1 hq) fun _ _ _ h => h

theorem ret {a : α} (h : ∀ w, F w → Q w a) : ByClient 𝒮 codec t c F (.ret a) Q :=
  fun _ => .ret fun w _ hf => h w hf

theorem raise {e : Error} : ByClient 𝒮 codec t c F (.raise e : Co α) Q :=
  fun _ => .raise fun _ _ _ => trivial

theorem check {p : Prop} [Decidable p] {e : Error} :
    ByClient 𝒮 codec t c F (require (S := signature) p e) fun w _ => F w ∧ p := by
  intro self
  rw [onClient_require]
  exact .bind (.check fun _ _ _ _ => trivial) fun _ => .ret fun _ _ h => h

theorem wait {e : Wait} {Q : World P → WaitResult e → Prop}
    (h : Ensures 𝒮 codec t c F (wait e) Q) :
    ByClient 𝒮 codec t c F (NativeLoglet.wait e) Q := by
  intro self
  rw [onClient_wait]
  exact .bind h fun _ => .ret fun _ _ hq => hq

theorem send {requests : List (String × Request)} {Q : World P → Nat → Prop}
    (h : Ensures 𝒮 codec t c F (act (.send requests)) Q) :
    ByClient 𝒮 codec t c F (act (.send requests)) Q :=
  fun _ => .bind h fun _ => .ret fun _ _ hq => hq

theorem client : ByClient 𝒮 codec t c F (act .client) fun w _ => F w :=
  fun _ => .ret fun _ _ h => h

theorem observeTail (tail : Nat) :
    ByClient 𝒮 codec t c F (act (.observeTail tail)) fun w _ => F w :=
  fun _ => .ret fun _ _ h => h

theorem observeTrimmed (watermark : Nat) :
    ByClient 𝒮 codec t c F (act (.observeTrimmed watermark)) fun w _ => F w :=
  fun _ => .ret fun _ _ h => h

theorem observeStates (states : List LogServerState) :
    ByClient 𝒮 codec t c F (observeAll observe states) fun w _ => F w := by
  induction states with
  | nil => exact .ret fun _ h => h
  | cons state states ih => exact .bind (observeTail state.knownTail) fun _ => ih

end ByClient

section Clients

variable {began : String → Nat} {self : Segment}

theorem askAll_spec (hF : (discipline 𝒮 codec).Persistent F) {request : Request}
    (hr : ∀ assigned, Remote.Carries assigned request) :
    ByClient 𝒮 codec t c (fun w => Since began w ∧ F w) (self.askAll request) fun w replies =>
      (Since began w ∧ F w) ∧ Heard self.configuration.storageMembers began request replies
        w.servers := by
  intro client
  have hasks : onClient client (self.askAll request) =
      NativeLogletReplacementPreparer.askMembers self.configuration.storageMembers request >>=
        fun replies => .ret (replies, client) :=
    congrArg (Coroutine.act (S := signature) (.send (self.toAll request)))
      (funext fun batch => onClient_wait client (.gather batch self.members))
  rw [hasks]
  exact .bind (askMembers_spec hF _ fun w _ _ => hr _) fun _ => .ret fun _ _ h => h

/-- A `seal` that returns has sealed a majority. -/
theorem seal_spec (hF : (discipline 𝒮 codec).Persistent F) :
    ByClient 𝒮 codec t c (fun w => Since began w ∧ F w) self.seal fun w _ =>
      (Since began w ∧ F w) ∧
        Majority self.members fun node => (w.servers.store node).sealed = true := by
  refine .bind .client fun client => .bind (askAll_spec hF fun _ => trivial) fun replies => ?_
  refine .bind (.observeStates _) fun _ => ?_
  exact ByClient.check.mono (fun _ _ h => h) fun w _ h => ⟨h.1.1, h.1.2.done h.2⟩

/-- A `prefix_trim` that returns has trimmed a majority. -/
theorem prefixTrim_spec (hF : (discipline 𝒮 codec).Persistent F) (trimPosition : Nat) :
    ByClient 𝒮 codec t c (fun w => Since began w ∧ F w) (self.prefixTrim trimPosition) fun w _ =>
      (Since began w ∧ F w) ∧
        Majority self.members fun node => trimPosition ≤ (w.servers.store node).trimmedPrefix := by
  refine .bind (askAll_spec hF fun _ => trivial) fun replies => ?_
  refine .bind (Q := fun w _ => (Since began w ∧ F w) ∧ Majority self.members fun node =>
    trimPosition ≤ (w.servers.store node).trimmedPrefix)
      (ByClient.check.mono (fun _ _ h => h) fun w _ h => ⟨h.1.1, h.1.2.done h.2⟩) fun _ => ?_
  exact .bind (.observeTrimmed _) fun _ => .ret fun _ h => h

theorem readStates_spec (hF : (discipline 𝒮 codec).Persistent F) :
    ByClient 𝒮 codec t c (fun w => Since began w ∧ F w) self.readStates fun w _ =>
      Since began w ∧ F w := by
  refine .bind .client fun client => .bind (askAll_spec hF fun _ => trivial) fun replies => ?_
  refine .bind .check fun _ => .bind (.observeStates _) fun _ => ?_
  exact .ret fun _ h => h.1.1

theorem waitForProgress_spec (hF : (discipline 𝒮 codec).Persistent F)
    (states : List (String × LogServerState)) (observedTail : Nat) :
    ByClient 𝒮 codec t c (fun w => Since began w ∧ F w)
      (self.waitForProgress states observedTail) fun w _ => Since began w ∧ F w := by
  refine .bind .client fun client => .bind (.send (send_spec hF fun w _ _ item hitem => ?_))
    fun batch => .bind (.wait (Q := fun w _ => Since began w ∧ F w)
      (wait_spec (by rintro ⟨⟩) ((batch_persistent began batch _).and hF).lasting.stable
        fun w _ _ _ h _ _ _ => ⟨h.1.since, h.2⟩)) fun first => ?_
  · obtain ⟨node, -, rfl⟩ := List.mem_map.mp hitem
    trivial
  · cases first with
    | none => exact .raise
    | some state => exact .observeTail state.knownTail

/-- Entries that the sequencer has assigned. -/
def Entries (entries : List LogEntry) (w : World P) : Prop :=
  ∀ e ∈ entries, e ∈ w.servers.assigned

theorem entries_persistent (entries : List LogEntry) :
    (discipline 𝒮 codec).Persistent (Entries entries) :=
  fun _ _ hg h e he => hg.assigned.subset (h e he)

theorem getEntry_spec (hF : (discipline 𝒮 codec).Persistent F) (node : String) (position : Nat) :
    ByClient 𝒮 codec t c (fun w => Since began w ∧ F w) (getEntry node position) fun w r =>
      (Since began w ∧ F w) ∧ Entries r.toList w := by
  refine .bind .client fun client => .bind (.send (send_spec hF fun w _ _ item hitem => ?_))
    fun batch => .wait ((entry_spec hF).mono (fun _ _ h => h) (fun w r hi h => ⟨h.1, fun e he => ?_⟩)
      fun _ _ _ h => h)
  · obtain rfl := List.mem_singleton.mp hitem
    trivial
  · exact (h.2 e (Option.mem_toList.mp he)).2.assigned hi.genuine

theorem repairEntry_spec (hF : (discipline 𝒮 codec).Persistent F) {entry : LogEntry}
    (he : ∀ w, F w → entry ∈ w.servers.assigned) (node : String) :
    ByClient 𝒮 codec t c (fun w => Since began w ∧ F w) (repairEntry node entry) fun w _ =>
      Since began w ∧ F w := by
  refine .bind .client fun client => .bind (.send (send_spec hF fun w _ hf item hitem => ?_))
    fun batch => .wait (wait_spec (by rintro ⟨⟩)
      ((batch_persistent began batch _).and hF).lasting.stable fun w _ _ _ h _ _ _ =>
        ⟨h.1.since, h.2⟩)
  obtain rfl := List.mem_singleton.mp hitem
  exact he w hf

theorem collectCopies_spec (hF : (discipline 𝒮 codec).Persistent F) (position : Nat)
    (nodes : List String) :
    ByClient 𝒮 codec t c (fun w => Since began w ∧ F w) (collectCopies position nodes)
      fun w copies => (Since began w ∧ F w) ∧ Entries copies w := by
  induction nodes generalizing F with
  | nil => exact .ret fun _ h => ⟨h, fun e he => absurd he List.not_mem_nil⟩
  | cons node nodes ih =>
      refine .bind (getEntry_spec hF node position) fun entry => ?_
      refine .bind ((ih (hF.and (entries_persistent entry.toList))).mono
        (fun _ _ h => ⟨h.1.1, h.1.2, h.2⟩) fun _ _ h => h) fun copies => ?_
      refine .ret fun w h => ⟨⟨h.1.1, h.1.2.1⟩, fun e he => ?_⟩
      rcases List.mem_append.mp he with he | he
      · exact h.1.2.2 e he
      · exact h.2 e he

theorem spreadCopy_spec (hF : (discipline 𝒮 codec).Persistent F) {canonical : LogEntry}
    (hcanonical : ∀ w, F w → canonical ∈ w.servers.assigned) (position : Nat)
    (nodes : List String) :
    ByClient 𝒮 codec t c (fun w => Since began w ∧ F w) (spreadCopy canonical position nodes)
      fun w _ => Since began w ∧ F w := by
  induction nodes with
  | nil => exact .ret fun _ h => h
  | cons node nodes ih =>
      refine .bind ((getEntry_spec hF node position).mono (fun _ _ h => h) fun _ _ h => h.1)
        fun entry => ?_
      cases entry with
      | some _ => exact ih
      | none => exact .bind (repairEntry_spec hF hcanonical node) fun _ => ih

theorem repairPosition_spec (hF : (discipline 𝒮 codec).Persistent F) (nodes : List String)
    (position : Nat) :
    ByClient 𝒮 codec t c (fun w => Since began w ∧ F w) (repairPosition nodes position)
      fun w _ => Since began w ∧ F w := by
  refine .bind (collectCopies_spec hF position nodes) fun copies => ?_
  cases copies with
  | nil => exact .raise
  | cons canonical rest =>
      refine .bind .check fun _ => ?_
      refine (spreadCopy_spec (hF.and (entries_persistent (canonical :: rest)))
        (fun w h => h.2 canonical List.mem_cons_self) position nodes).mono
          (fun w _ h => ?_) fun w _ h => ⟨h.1, h.2.1⟩
      exact ⟨h.1.1.1, h.1.1.2, h.1.2⟩

theorem repairThrough_spec (hF : (discipline 𝒮 codec).Persistent F) (tail : Nat)
    (nodes : List String) :
    ByClient 𝒮 codec t c (fun w => Since began w ∧ F w) (repairThrough tail nodes) fun w _ =>
      Since began w ∧ F w := by
  have hpositions : ∀ count position, ByClient 𝒮 codec t c (fun w => Since began w ∧ F w)
      (repairPositions nodes position count) fun w _ => Since began w ∧ F w := by
    intro count
    induction count with
    | zero => exact fun _ => .ret fun _ h => h
    | succ count ih =>
        exact fun position => .bind (repairPosition_spec hF nodes position) fun _ => ih _
  exact .bind .client fun client => hpositions _ _

/-- `check_tail` writes nothing that the sequencer has not assigned. -/
theorem checkTail_spec (hF : (discipline 𝒮 codec).Persistent F) (turns : Nat) :
    ByClient 𝒮 codec t c (fun w => Since began w ∧ F w) (self.checkTail turns) fun w _ =>
      Since began w ∧ F w := by
  induction turns with
  | zero =>
      refine .bind (.wait (Q := fun _ _ => True) (wait_spec (by rintro ⟨⟩)
        ((since_persistent began).and hF).lasting.stable fun _ _ _ _ _ _ _ _ => trivial))
          fun never => ?_
      exact never.elim
  | succ turns ih =>
      refine .bind (readStates_spec hF) fun states => .bind (.observeTrimmed _) fun _ => ?_
      dsimp only
      split
      · exact .bind ((seal_spec hF).mono (fun _ _ h => h) fun _ _ h => h.1) fun _ => ih
      · split
        · exact .bind (repairThrough_spec hF _ _) fun _ => .bind (.observeTail _) fun _ =>
            .ret fun _ h => h
        · refine .bind .client fun client => ?_
          split
          · exact .bind (.observeTail _) fun _ => .ret fun _ h => h
          · exact .bind (waitForProgress_spec hF states _) fun _ => ih

end Clients

/-! ## The parts of `prepare` -/

section Parts

open NativeLogletReplacementPreparer

variable {began : String → Nat} {source target : FixedMembers}

theorem quorumTrimmedPrefix_spec (hF : (discipline 𝒮 codec).Persistent F) (segmentId : String) :
    Ensures 𝒮 codec t c (fun w => Since began w ∧ F w) (quorumTrimmedPrefix segmentId source)
      fun w r => (Since began w ∧ F w) ∧ r.1 = quorumWatermark source r.2 ∧
        Gathering source began r.2 w.servers := by
  refine .bind (askMembers_spec hF source fun _ _ _ => trivial) fun replies => ?_
  refine .bind (.check fun _ _ _ _ => trivial) fun _ => .ret fun w _ h => ?_
  exact ⟨h.1.1, rfl, h.1.2.gathering h.2⟩

/-- `_read_entry` returns an entry that a member of the source shows. -/
theorem readEntry_spec (hF : (discipline 𝒮 codec).Persistent F) (segmentId : String)
    (position knownTail : Nat) {nodes : List String} (hnodes : nodes ⊆ source.members) :
    Ensures 𝒮 codec t c (fun w => Since began w ∧ F w)
      (readEntry segmentId position knownTail nodes) fun w e =>
        (Since began w ∧ F w) ∧ e.position = position ∧
          ∃ node ∈ source.members, w.servers.Shows node e := by
  induction nodes with
  | nil => exact .raise fun _ _ _ => trivial
  | cons node nodes ih =>
      have hlasting : ∀ batch requests, (discipline 𝒮 codec).Persistent fun w =>
          Batch began batch requests w ∧ F w :=
        fun batch requests => (batch_persistent began batch requests).and hF
      refine .bind (send_spec hF fun w _ _ item hitem => ?_) fun batch => ?_
      · obtain rfl := List.mem_singleton.mp hitem
        trivial
      -- An exception leaves what was known before the wait.
      refine .bind (Q := fun w answer => (Since began w ∧ F w) ∧ ∀ e, answer = some e →
        e.position = position ∧ w.servers.Shows node e)
          (.handle (((entry_spec hF).frame (hlasting batch
            [(node, .get position knownTail)])).mono (fun _ _ h => ⟨h, h⟩)
              (fun _ _ _ h => h.1) fun _ _ _ h => h.2) fun e => ?_) fun answer => ?_
      · dsimp only
        split
        · exact .ret fun w _ h => ⟨⟨h.1.since, h.2⟩, by rintro _ ⟨⟩⟩
        · exact .raise fun _ _ _ => trivial
      · cases answer with
        | none =>
            exact (ih fun n hn => hnodes (List.mem_cons_of_mem _ hn)).pre fun w _ h => h.1
        | some entry =>
            refine .ret fun w _ h => ⟨h.1, (h.2 entry rfl).1, node, hnodes List.mem_cons_self, ?_⟩
            exact (h.2 entry rfl).2

theorem repairQuorum_spec (hF : (discipline 𝒮 codec).Persistent F) {entry : LogEntry}
    (he : ∀ w, Inv 𝒮 codec w → F w → entry ∈ w.servers.assigned) (knownTail : Nat) :
    Ensures 𝒮 codec t c (fun w => Since began w ∧ F w) (repairQuorum entry target knownTail)
      fun w _ => (Since began w ∧ F w) ∧
        Majority target.members fun node => (w.servers.store node).Keeps entry := by
  refine .bind (askMembers_spec hF target he) fun replies => ?_
  refine .require (fun w _ h hq => ⟨h.1, ?_⟩) fun _ _ _ _ => trivial
  exact h.2.done hq

theorem copied_persistent (source target : FixedMembers) (p : Nat) :
    (discipline 𝒮 codec).Persistent fun w => Copied source target p w.servers :=
  fun _ _ hg h => h.mono hg.servers

/-- **The loop of `prepare`** copies one position after the other. -/
theorem copyPositions_spec (hF : (discipline 𝒮 codec).Persistent F) (segmentId : String)
    (knownTail position count : Nat) :
    Ensures 𝒮 codec t c (fun w => Since began w ∧ F w)
      (copyPositions segmentId source target knownTail position count) fun w _ =>
        (Since began w ∧ F w) ∧
          ∀ p, position ≤ p → p < position + count → Copied source target p w.servers := by
  induction count generalizing position F with
  | zero => exact .ret fun w _ h => ⟨h, fun p hp hlt => absurd hlt (by omega)⟩
  | succ count ih =>
      refine .bind (readEntry_spec hF segmentId position knownTail (List.Subset.refl _))
        fun entry => ?_
      have hshown : (discipline 𝒮 codec).Persistent fun w => entry.position = position ∧
          ∃ node ∈ source.members, w.servers.Shows node entry := by
        rintro w w' hg ⟨hp, node, hnode, hs⟩
        exact ⟨hp, node, hnode, hs.mono hg.servers⟩
      refine .bind ((repairQuorum_spec (hF.and hshown) (fun w hi h => ?_) knownTail).pre
        fun w _ h => ⟨h.1.1, h.1.2, h.2⟩) fun _ => ?_
      · obtain ⟨-, -, node, -, hs⟩ := h
        exact hs.assigned hi.genuine
      refine (ih (hF.and (copied_persistent source target position)) (position + 1)).mono
        (fun w _ h => ?_) (fun w _ _ h => ⟨⟨h.1.1, h.1.2.1⟩, fun p hp hlt => ?_⟩) fun _ _ _ h => h
      · obtain ⟨⟨hsince, hf, hposition, hsource⟩, hmajority⟩ := h
        exact ⟨hsince, hf, entry, hposition, hsource, hmajority⟩
      · rcases Nat.eq_or_lt_of_le hp with rfl | hp
        · exact h.1.2.2
        · exact h.2 p hp (by omega)

theorem confirmTrim_spec (hF : (discipline 𝒮 codec).Persistent F) (segment : Segment) (v : Nat)
    (client : NativeLogletClient) :
    Ensures 𝒮 codec t c (fun w => Since began w ∧ F w) (confirmTrim segment v client) fun w _ =>
      (Since began w ∧ F w) ∧
        Majority segment.members fun node => v ≤ (w.servers.store node).trimmedPrefix := by
  unfold confirmTrim
  by_cases hv : v = 0
  · rw [if_pos hv]
    refine .ret fun w _ h => ⟨h, majority_all _ fun node => ?_⟩
    rw [hv]
    exact Nat.zero_le _
  · rw [if_neg hv]
    refine .bind (prefixTrim_spec hF v client) fun r => ?_
    exact .bind (.check fun _ _ _ _ => trivial) fun _ => .ret fun w _ h => h.1

end Parts

end Replacement

end DelosLab.NativeLoglet
