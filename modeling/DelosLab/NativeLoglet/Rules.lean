import DelosLab.NativeLoglet.Servers

/-!
# The discipline, and its rules for acts and waits

One rule for each thing that a coroutine may do. Requests carry known tails only,
and what comes back is what the LogServers keep about their answers.
-/

namespace DelosLab.NativeLoglet

open Async Async.Coroutine Consensus

/-! ## How a step changes the world -/

/-- How a wait of task `t` may end, and the world afterwards. -/
inductive Resumed (w : World) (t : TaskId) :
    (e : Wait) → Choice → World → Except Error (WaitResult e) → Prop
  | cancelled {e : Wait} : Resumed w t e .cancel w (.error .cancelled)
  | acquired (h : (w.sequencer t.node).holder = none) : Resumed w t .acquire .done
      (w.setSequencer t.node { w.sequencer t.node with holder := some t }) (.ok ())
  | slept : Resumed w t .sleep .done w (.ok ())
  | gathered {batch : Nat} {members : List String} {replies : List (Option Response)}
      (h : w.answered batch members replies = true) :
      Resumed w t (.gather batch members) (.gathered replies) w (.ok replies)
  | entry {batch : Nat} {node : String} {entry : Option LogEntry}
      (h : ⟨batch, node, .entry entry⟩ ∈ w.replies) :
      Resumed w t (.entry batch node) (.entry entry) w (.ok entry)
  | state {batch : Nat} {node : String} {state : LogServerState}
      (h : ⟨batch, node, .state state⟩ ∈ w.replies) :
      Resumed w t (.state batch node) (.state state) w (.ok state)
  | noEntry {batch : Nat} {node : String} {e : Error}
      (h : e = .connection ∨ ⟨batch, node, .error e⟩ ∈ w.replies) :
      Resumed w t (.entry batch node) (.fail e) w (.error e)
  | unstated {batch : Nat} {node : String} {e : Error}
      (h : e = .connection ∨ ⟨batch, node, .error e⟩ ∈ w.replies) :
      Resumed w t (.state batch node) (.fail e) w (.error e)
  | first {batch : Nat} {node : String} {state : LogServerState}
      (h : ⟨batch, node, .state state⟩ ∈ w.replies) :
      Resumed w t (.firstState batch) (.first node state) w (.ok (some state))
  | noState {batch : Nat} : Resumed w t (.firstState batch) .noState w (.ok none)

theorem resumed_of_resume {w w' : World} {t : TaskId} {e : Wait} {x : Choice}
    {r : Except Error (WaitResult e)} (h : Deployment.resume w t e x = some (w', r)) :
    Resumed w t e x w' r := by
  unfold Deployment.resume at h
  split at h
  · cases h
    exact .cancelled
  · split at h
    · next hfree =>
        cases h
        exact .acquired hfree
    · cases h
  · cases h
    exact .slept
  · split at h
    · next hans =>
        cases h
        exact .gathered hans
    · cases h
  · split at h
    · next hmem =>
        cases h
        exact .entry (List.contains_iff_mem.mp hmem)
    · cases h
  · split at h
    · next hmem =>
        cases h
        exact .state (List.contains_iff_mem.mp hmem)
    · cases h
  · split at h
    · next hmem =>
        cases h
        exact .noEntry (hmem.imp_right List.contains_iff_mem.mp)
    · cases h
  · split at h
    · next hmem =>
        cases h
        exact .unstated (hmem.imp_right List.contains_iff_mem.mp)
    · cases h
  · split at h
    · next hmem =>
        cases h
        exact .first (List.contains_iff_mem.mp hmem)
    · cases h
  · cases h
    exact .noState
  · cases h

theorem Resumed.grow {w w' : World} {t : TaskId} {e : Wait} {x : Choice}
    {r : Except Error (WaitResult e)} (h : Resumed w t e x w' r) : Grow w w' := by
  cases h with
  | acquired h => exact w.grow_setSequencer t.node _
  | _ => exact .refl w

theorem World.grow_send (w : World) (requests : List (String × Request)) :
    Grow w { w with messages := w.messages ++ [requests] } :=
  ⟨fun _ => .refl _, List.prefix_append _ _, List.Subset.refl _, fun _ hr => .inl hr,
    List.prefix_refl _, List.Subset.refl _, fun _ _ h => .inl h, List.prefix_refl _⟩

variable {𝒮 : Deployment}

theorem exec_grow (w : World) (t : TaskId) (a : Act) : Grow w (𝒮.exec w t a).1 := by
  cases a with
  | sequencerFor =>
      rw [Deployment.exec, Deployment.sequencerFor]
      split
      · exact .refl w
      · split
        · exact .refl w
        · exact w.grow_setSequencer _ _
  | assign commandId payload =>
      exact World.grow_of_store (fun n => (w.setSequencer_parts t.node _ n).1) rfl rfl
        (List.prefix_append _ _) rfl rfl
  | observeKnownTail tail => exact w.grow_setSequencer _ _
  | setPending entry => exact w.grow_setSequencer _ _
  | setKnownTail tail => exact w.grow_setSequencer _ _
  | release => exact w.grow_setSequencer _ _
  | observeTail tail => exact w.grow_setClient _ _
  | observeTrimmed watermark => exact w.grow_setClient _ _
  | send requests => exact w.grow_send requests
  | sequencer => exact .refl w
  | client => exact .refl w

theorem finish_grow (w : World) (t : TaskId) (c : Call) (o : Except Error Outcome) :
    Grow w (Deployment.finish w t c o) := by
  cases o with
  | ok outcome =>
      exact ⟨fun _ => .refl _, List.prefix_refl _, List.Subset.refl _, fun _ hr => .inl hr,
        List.prefix_refl _, List.Subset.refl _, fun _ _ h => .inl h, List.prefix_append _ _⟩
  | error e =>
      exact ⟨fun _ => .refl _, List.prefix_refl _, List.Subset.refl _, fun _ hr => .inl hr,
        List.prefix_refl _, List.Subset.refl _, fun _ _ h => .inl h, List.prefix_refl _⟩

/-! ## The discipline -/

/-- A further fact about a run that only the end of a call may touch. -/
structure Rider (𝒮 : Deployment) where
  holds : World → Prop
  stable : ∀ w w', Inv 𝒮 w → Inv 𝒮 w' → Grow w w' → w'.completed = w.completed →
    w'.failed = w.failed → holds w → holds w'

/-- The rider of a run about whose calls nothing more is claimed. -/
def Rider.none (𝒮 : Deployment) : Rider 𝒮 := ⟨fun _ => True, fun _ _ _ _ _ _ _ _ => trivial⟩

/-- What the processes keep in every run whose steps meet `C`. -/
def discipline (𝒮 : Deployment) (C : Condition signature World TaskId Call Choice)
    (J : Rider 𝒮) : Discipline 𝒮.runtime C where
  Inv := fun w => Inv 𝒮 w ∧ J.holds w
  Grow := Grow
  Rely := Rely
  grow_refl := Grow.refl
  grow_trans := Grow.trans
  rely_refl := Rely.refl
  rely_trans := Rely.trans
  exec_grow := exec_grow
  resume_grow := fun h => (resumed_of_resume h).grow
  finish_grow := finish_grow

variable {C : Condition signature World TaskId Call Choice} {J : Rider 𝒮} {t : TaskId} {c : Call}
  {α : Type}

theorem kept_of {w w' : World} (hi : (discipline 𝒮 C J).Inv w) (hi' : Inv 𝒮 w') (hg : Grow w w')
    (hc : w'.completed = w.completed) (hf : w'.failed = w.failed)
    (hr : ∀ u, u ≠ t → Rely u w w') : (discipline 𝒮 C J).Kept t w w' :=
  ⟨⟨hi', J.stable w w' hi.1 hi' hg hc hf hi.2⟩, hr⟩

/-- The triple of a client's function. -/
abbrev Ensures (𝒮 : Deployment) (C : Condition signature World TaskId Call Choice) (J : Rider 𝒮)
    (t : TaskId) (c : Call) (F : World → Prop) (p : Co α) (Q : World → α → Prop) : Prop :=
  (discipline 𝒮 C J).Triple t c F p Q fun _ e => e.Tame

theorem persistent_grow (w₀ : World) : (discipline 𝒮 C J).Persistent fun w => Grow w₀ w :=
  fun _ _ hg h => h.trans hg

theorem persistent_known (tail : Nat) : (discipline 𝒮 C J).Persistent fun w => w.Known 𝒮 tail :=
  fun _ _ hg h => World.Known.mono h hg

/-! ## Acts -/

section Acts

variable {F : World → Prop}

theorem client_spec :
    Ensures 𝒮 C J t c F (act .client) fun w client => F w ∧ ClientInv 𝒮 w client :=
  .act fun _ hi hf => ⟨.refl hi, hf, hi.1.client t.node⟩

theorem observeTail_spec (hF : (discipline 𝒮 C J).Persistent F) {tail : Nat}
    (hk : ∀ w, F w → w.Known 𝒮 tail) :
    Ensures 𝒮 C J t c F (act (.observeTail tail)) fun w _ => F w := by
  refine .act fun w hi hf => ?_
  have hg : Grow w (𝒮.exec w t (.observeTail tail)).1 := exec_grow w t _
  have hc := hi.1.client t.node
  refine ⟨kept_of hi (hi.1.setClient ⟨?_, hc.2⟩) hg rfl rfl fun u _ => w.rely_setClient _ _ u,
    hF w _ hg hf⟩
  exact hc.1.max (hk w hf)

theorem observeTrimmed_spec (hF : (discipline 𝒮 C J).Persistent F) {watermark : Nat}
    (hk : ∀ w, F w → w.Known 𝒮 watermark) :
    Ensures 𝒮 C J t c F (act (.observeTrimmed watermark)) fun w _ => F w := by
  refine .act fun w hi hf => ?_
  have hg : Grow w (𝒮.exec w t (.observeTrimmed watermark)).1 := exec_grow w t _
  have hc := hi.1.client t.node
  refine ⟨kept_of hi (hi.1.setClient ⟨hc.1, ?_⟩) hg rfl rfl fun u _ => w.rely_setClient _ _ u,
    hF w _ hg hf⟩
  exact hc.2.max (hk w hf)

/-- A client observes the known tails of a list of states. -/
theorem observeAll_spec (hF : (discipline 𝒮 C J).Persistent F) {states : List LogServerState}
    (hk : ∀ w, F w → ∀ s ∈ states, w.Known 𝒮 s.knownTail) :
    Ensures 𝒮 C J t c F (observeAll observe states) fun w _ => F w := by
  induction states with
  | nil => exact .ret fun _ _ h => h
  | cons s states ih =>
      refine .bind (observeTail_spec hF fun w hf => hk w hf s List.mem_cons_self) fun _ => ?_
      exact ih fun w hf s hs => hk w hf s (List.mem_cons_of_mem _ hs)

end Acts

/-! ## Sending requests -/

/-- A batch that was sent after `w₀`: its answers tell of later states. -/
structure Batch (w₀ : World) (batch : Nat) (requests : List (String × Request)) (w : World) :
    Prop where
  grow : Grow w₀ w
  sent : w.messages[batch]? = some requests
  since : ∀ r ∈ w.replies, r.batch = batch → ∀ s, r.response = .state s → Since w₀ r.node s

theorem persistent_batch (w₀ : World) (batch : Nat) (requests : List (String × Request)) :
    (discipline 𝒮 C J).Persistent (Batch w₀ batch requests) := by
  intro w w' hg h
  refine ⟨h.grow.trans hg, ?_, fun r hr hb s hs => ?_⟩
  · obtain ⟨rest, hrest⟩ := hg.messages
    rw [← hrest, List.getElem?_append_left (List.getElem?_eq_some_iff.mp h.sent).1, h.sent]
  · rcases hg.since r hr with hold | hnew
    · exact h.since r hold hb s hs
    · exact (hnew s hs).earlier h.grow

theorem Inv.send {w : World} (h : Inv 𝒮 w) {requests : List (String × Request)}
    (hr : ∀ item ∈ requests, RequestInv 𝒮 w item.2) :
    Inv 𝒮 { w with messages := w.messages ++ [requests] } :=
  have hg := w.grow_send requests
  { h with
    store := fun n => (h.store n).mono hg
    fenced := h.fenced.mono hg rfl fun n => ⟨_, _, rfl⟩
    requests := fun requests' hmem item hi => by
      rcases List.mem_append.mp hmem with hmem | hmem
      · exact (h.requests requests' hmem item hi).mono hg
      · obtain rfl := List.mem_singleton.mp hmem
        exact (hr item hi).mono hg
    handling := fun batch n hb => by
      obtain ⟨request, hreq, hw⟩ := h.handling batch n hb
      exact ⟨request, hg.request hreq, hw.mono hg⟩
    replies := fun r hmem => by
      obtain ⟨request, hreq, hinv⟩ := h.replies r hmem
      exact ⟨request, hg.request hreq, hinv.mono hg⟩
    returned := fun r hmem => (h.returned r hmem).mono hg }

/-- Nobody has answered a batch that is sent only now. -/
theorem Inv.batch {w : World} (h : Inv 𝒮 w) {w₀ : World} (hg : Grow w₀ w)
    (requests : List (String × Request)) :
    Batch w₀ w.messages.length requests { w with messages := w.messages ++ [requests] } := by
  refine ⟨hg.trans (w.grow_send requests), List.getElem?_concat_length, fun r hr hb => ?_⟩
  obtain ⟨request, hreq, -⟩ := h.replies r hr
  obtain ⟨requests', hb', -⟩ := Option.bind_eq_some_iff.mp hreq
  have hlt := (List.getElem?_eq_some_iff.mp hb').1
  omega

section Send

variable {F : World → Prop} {w₀ : World}

theorem send_spec (hF : (discipline 𝒮 C J).Lasting t F) {requests : List (String × Request)}
    (hg : ∀ w, F w → Grow w₀ w)
    (hr : ∀ w, Inv 𝒮 w → F w → ∀ item ∈ requests, RequestInv 𝒮 w item.2)
    {X : World → Error → Prop} :
    (discipline 𝒮 C J).Triple t c F (act (.send requests))
      (fun w batch => F w ∧ Batch w₀ batch requests w) X := by
  refine .act fun w hi hf => ?_
  have hrely : ∀ u, Rely u w { w with messages := w.messages ++ [requests] } :=
    World.rely_of_processes rfl rfl rfl
  exact ⟨kept_of hi (hi.1.send (hr w hi.1 hf)) (w.grow_send requests) rfl rfl fun u _ => hrely u,
    hF w _ (w.grow_send requests) (hrely t) hf, hi.1.batch (hg w hf) requests⟩

/-! ## Gathering answers -/

theorem World.gathered {w : World} {batch : Nat} {members : List String}
    {replies : List (Option Response)} (h : w.answered batch members replies = true) :
    Gathered (fun node response => ⟨batch, node, response⟩ ∈ w.replies) members replies := by
  induction members generalizing replies with
  | nil =>
      cases replies with
      | nil => exact .nil
      | cons _ _ => cases h
  | cons node members ih =>
      cases replies with
      | nil => cases h
      | cons reply replies =>
          cases reply with
          | none => exact .cons nofun (ih h)
          | some response =>
              rw [World.answered, Bool.and_eq_true] at h
              refine .cons (fun r hr => ?_) (ih h.2)
              obtain rfl := Option.some.inj hr
              exact List.contains_iff_mem.mp h.1

/-- What the members answered to one request of all of them. -/
def Answered (𝒮 : Deployment) (w₀ : World) (request : Request) (w : World)
    (replies : List (Option Response)) : Prop :=
  Gathered (fun node response => ReplyInv 𝒮 w node request response ∧
    ∀ s, response = .state s → Since w₀ node s) 𝒮.segment.members replies

theorem Answered.mono {request : Request} {w w' : World} {replies : List (Option Response)}
    (h : Answered 𝒮 w₀ request w replies) (hg : Grow w w') :
    Answered 𝒮 w₀ request w' replies :=
  Gathered.mono h fun _ _ hr => ⟨hr.1.mono hg, hr.2⟩

theorem lookup_toAll {segment : Segment} {node : String} (h : node ∈ segment.members)
    (request : Request) : (segment.toAll request).lookup node = some request := by
  rw [Segment.toAll]
  generalize segment.members = members at h
  induction members with
  | nil => cases h
  | cons m members ih =>
      by_cases hm : node = m
      · subst hm
        exact List.lookup_cons_self
      · rw [List.map_cons, List.lookup_cons, beq_false_of_ne hm]
        exact ih ((List.mem_cons.mp h).resolve_left hm)

/-- An answer to a batch is an answer to what was asked. -/
theorem Inv.reply_of_batch {w : World} (h : Inv 𝒮 w) {batch : Nat} {node : String}
    {requests : List (String × Request)} (hb : Batch w₀ batch requests w) {request : Request}
    (hl : requests.lookup node = some request) {response : Response}
    (hr : ⟨batch, node, response⟩ ∈ w.replies) :
    ReplyInv 𝒮 w node request response ∧ ∀ s, response = .state s → Since w₀ node s := by
  obtain ⟨request', hreq, hinv⟩ := h.replies _ hr
  have hsent : w.request batch node = some request :=
    Option.bind_eq_some_iff.mpr ⟨requests, hb.sent, hl⟩
  obtain rfl := Option.some.inj (hsent.symm.trans hreq)
  exact ⟨hinv, hb.since _ hr rfl⟩

theorem Inv.answered {w : World} (h : Inv 𝒮 w) {batch : Nat} {request : Request}
    (hb : Batch w₀ batch (𝒮.segment.toAll request) w) {replies : List (Option Response)}
    (ha : w.answered batch 𝒮.segment.members replies = true) :
    Answered 𝒮 w₀ request w replies := by
  have hg := w.gathered ha
  refine (List.forall₂_iff_zip.mpr ⟨hg.length_eq, fun {node reply} hmem response hr => ?_⟩)
  have hin : node ∈ 𝒮.segment.members := (List.of_mem_zip hmem).1
  exact h.reply_of_batch hb (lookup_toAll hin request)
    ((List.forall₂_iff_zip.mp hg).2 hmem response hr)

theorem askAll_spec (hF : (discipline 𝒮 C J).Persistent F) {request : Request}
    (hg : ∀ w, F w → Grow w₀ w) (hr : ∀ w, Inv 𝒮 w → F w → RequestInv 𝒮 w request) :
    Ensures 𝒮 C J t c F (𝒮.segment.askAll request) fun w replies =>
      F w ∧ Answered 𝒮 w₀ request w replies := by
  refine .bind (send_spec hF.lasting hg fun w hi hf item hitem => ?_) fun batch => ?_
  · obtain ⟨node, -, rfl⟩ := List.mem_map.mp hitem
    exact hr w hi hf
  refine Discipline.Triple.wait (hF.and (persistent_batch w₀ batch _)).lasting.stable
    fun w x w' r hi hf _ hs => ?_
  cases resumed_of_resume hs with
  | cancelled => exact ⟨.refl hi, nofun, fun e he => by cases he; exact ⟨nofun, nofun⟩⟩
  | gathered ha =>
      refine ⟨.refl hi, fun replies hok => ?_, nofun⟩
      cases hok
      exact ⟨hf.1, hi.1.answered hf.2 ha⟩

end Send

/-! ## The states among the answers -/

/-- The nodes of `statesOf` are members, each once, and the states are theirs. -/
theorem statesOf_spec {p : String → Response → Prop} {members : List String}
    {replies : List (Option Response)} (h : Gathered p members replies) :
    ((statesOf members replies).map Prod.fst).Sublist members ∧
      (∀ item ∈ statesOf members replies, p item.1 (.state item.2)) ∧
        (statesOf members replies).map Prod.snd = replies.filterMap stateOf := by
  induction h with
  | nil => exact ⟨.slnil, nofun, rfl⟩
  | @cons node reply members replies ha _ ih =>
      obtain ⟨hsub, hp, hsnd⟩ := ih
      cases hstate : stateOf reply with
      | none =>
          have hs : statesOf (node :: members) (reply :: replies) = statesOf members replies := by
            simp [statesOf, hstate]
          rw [hs]
          refine ⟨hsub.cons node, hp, ?_⟩
          rw [List.filterMap_cons_none hstate]
          exact hsnd
      | some s =>
          have hs : statesOf (node :: members) (reply :: replies) =
              (node, s) :: statesOf members replies := by
            simp [statesOf, hstate]
          have hreply : reply = some (.state s) := by
            unfold stateOf at hstate
            split at hstate
            · cases hstate
              rfl
            · cases hstate
          rw [hs]
          refine ⟨hsub.cons_cons node, fun item hitem => ?_, ?_⟩
          · rcases List.mem_cons.mp hitem with rfl | hitem
            · exact ha _ hreply
            · exact hp item hitem
          · rw [List.filterMap_cons_some hstate, List.map_cons, hsnd]

/-- Enough of the items that members gave once each come from a majority. -/
theorem majority_of_countP {members : List String} (hnodup : members.Nodup)
    {items : List (String × LogServerState)} (hsub : (items.map Prod.fst).Sublist members)
    {test : String × LogServerState → Bool} (hlen : members.length / 2 + 1 ≤ items.countP test) :
    Majority members fun node => ∃ s, (node, s) ∈ items ∧ test (node, s) = true := by
  have hsub' : ((items.filter test).map Prod.fst).Sublist members :=
    (List.filter_sublist.map Prod.fst).trans hsub
  refine ⟨(items.filter test).map Prod.fst, ⟨hsub'.nodup hnodup, hsub'.subset, ?_⟩, ?_⟩
  · rw [List.length_map, ← List.countP_eq_length_filter]
    omega
  · intro node hnode
    obtain ⟨item, hitem, rfl⟩ := List.mem_map.mp hnode
    exact ⟨item.2, (List.mem_filter.mp hitem).1, (List.mem_filter.mp hitem).2⟩

section Answers

variable {w₀ w : World}

/-- The states among the answers to a request, with what they tell. -/
theorem Answered.state {request : Request} {replies : List (Option Response)}
    (h : Answered 𝒮 w₀ request w replies) {state : LogServerState}
    (hmem : state ∈ replies.filterMap stateOf) :
    ∃ node, StateFacts 𝒮 w node state ∧ Wrote w node request ∧ Since w₀ node state := by
  obtain ⟨-, hstates, hsnd⟩ := statesOf_spec h
  rw [← hsnd] at hmem
  obtain ⟨item, hitem, rfl⟩ := List.mem_map.mp hmem
  obtain ⟨hinv, hsince⟩ := hstates item hitem
  exact ⟨item.1, (hinv.state _ rfl).1, (hinv.state _ rfl).2, hsince _ rfl⟩

theorem Answered.known {request : Request} {replies : List (Option Response)}
    (h : Answered 𝒮 w₀ request w replies) :
    ∀ state ∈ replies.filterMap stateOf, w.Known 𝒮 state.knownTail := by
  intro state hmem
  obtain ⟨_, hfacts, -⟩ := h.state hmem
  exact hfacts.known

/-- A quorum of states is the answer of a majority. -/
theorem Answered.majority {request : Request} {replies : List (Option Response)}
    (h : Answered 𝒮 w₀ request w replies)
    (hq : 𝒮.segment.quorum ≤ (replies.filterMap stateOf).length) :
    Majority 𝒮.segment.members fun node => ∃ s, StateFacts 𝒮 w node s ∧ Wrote w node request ∧
      Since w₀ node s := by
  obtain ⟨hsub, hstates, hsnd⟩ := statesOf_spec h
  have hlen : 𝒮.segment.members.length / 2 + 1 ≤
      (statesOf 𝒮.segment.members replies).countP fun _ => true := by
    rw [List.countP_true, ← List.length_map (f := Prod.snd), hsnd]
    exact hq
  refine (majority_of_countP 𝒮.segment.configuration.storageMembers.nodup hsub hlen).mono ?_
  rintro node - ⟨s, hs, -⟩
  obtain ⟨hinv, hsince⟩ := hstates _ hs
  exact ⟨s, (hinv.state s rfl).1, (hinv.state s rfl).2, hsince s rfl⟩

end Answers

end DelosLab.NativeLoglet
