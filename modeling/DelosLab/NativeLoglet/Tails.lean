import DelosLab.NativeLoglet.Rules

/-!
# What a client concludes from a majority

A client asks every member and goes on when a majority has answered. The members of
a later majority meet the members of an earlier one, so what was covered or sealed on
a majority when a call began shows in the answers that the call gathers.
-/

namespace DelosLab.NativeLoglet

open Async Async.Coroutine Consensus

variable {𝒮 : Deployment} {C : Condition signature World TaskId Call Choice} {J : Rider 𝒮}
  {t : TaskId} {c : Call} {w₀ w : World}

/-! ## Sealing and trimming -/

theorem seal_spec :
    Ensures 𝒮 C J t c (fun w => Grow w₀ w) 𝒮.segment.seal fun w _ => Grow w₀ w := by
  refine .bind client_spec fun client => ?_
  have hF : (discipline 𝒮 C J).Persistent fun w => Grow w₀ w ∧ w.Known 𝒮 client.knownTail :=
    (persistent_grow w₀).and (persistent_known _)
  refine .bind ((askAll_spec hF (fun w h => h.1) fun w _ h =>
    show RequestInv 𝒮 w (.seal client.knownTail) from h.2).pre fun w _ h => ⟨h.1, h.2.1⟩)
    fun replies => ?_
  refine .bind ((observeAll_spec (F := fun w => Grow w₀ w ∧ Answered 𝒮 w₀
    (.seal client.knownTail) w replies) (fun w w' hg h => ⟨h.1.trans hg, h.2.mono hg⟩)
    fun w h => h.2.known).pre fun w _ h => ⟨h.1.1, h.2⟩) fun _ => ?_
  exact .require (fun w _ h _ => h.1) fun _ _ _ _ => ⟨nofun, nofun⟩

theorem minWatermark_le {states : List LogServerState} {state : LogServerState}
    (h : state ∈ states) : minWatermark states ≤ state.trimmedPrefix := by
  induction states with
  | nil => cases h
  | cons s states ih =>
      cases states with
      | nil =>
          obtain rfl := List.mem_singleton.mp h
          exact Nat.le_refl _
      | cons s' states =>
          rw [minWatermark]
          rcases List.mem_cons.mp h with rfl | h
          · exact Nat.min_le_left _ _
          · exact Nat.le_trans (Nat.min_le_right _ _) (ih h)
          · exact nofun

theorem prefixTrim_spec {trimPosition : Nat} :
    Ensures 𝒮 C J t c (fun w => Grow w₀ w ∧ w.Known 𝒮 trimPosition)
      (𝒮.segment.prefixTrim trimPosition) fun w _ => Grow w₀ w := by
  refine .bind (askAll_spec ((persistent_grow w₀).and (persistent_known _)) (fun w h => h.1)
    fun w _ h => h.2) fun replies => ?_
  refine .bind (.check fun _ _ _ _ => ⟨nofun, nofun⟩) fun _ => ?_
  refine .bind ((observeTrimmed_spec (F := fun w => Grow w₀ w ∧
    w.Known 𝒮 (minWatermark (replies.filterMap stateOf))) ((persistent_grow w₀).and
    (persistent_known _)) fun w h => h.2).pre fun w _ h => ⟨h.1.1.1, ?_⟩) fun _ =>
      .ret fun w _ h => h.1
  obtain ⟨⟨-, ha⟩, hq⟩ := h
  have hpos : 0 < (replies.filterMap stateOf).length :=
    Nat.lt_of_lt_of_le (Nat.succ_pos _) hq
  obtain ⟨state, hmem⟩ := List.exists_mem_of_length_pos hpos
  obtain ⟨_, hfacts, -⟩ := ha.state hmem
  exact hfacts.trimmed.le (minWatermark_le hmem)

/-! ## Repairing -/

section Repair

variable {F : World → Prop}

theorem lookup_singleton (node : String) (request : Request) :
    [(node, request)].lookup node = some request := List.lookup_cons_self

/-- An error that answers anything but a put may end the call. -/
theorem ReplyInv.tame_of {node : String} {request : Request} {e : Error}
    (h : ReplyInv 𝒮 w node request (.error e)) (hput : ∀ entry k, request ≠ .put entry k) :
    e.Tame := by
  rcases h.tame e rfl with htame | ⟨entry, k, hr⟩
  · exact htame
  · exact absurd hr (hput entry k)

/-- The answer to a `get` that was asked of one LogServer. -/
theorem entry_spec (hF : (discipline 𝒮 C J).Persistent F) {node : String}
    {batch position knownTail : Nat} :
    (discipline 𝒮 C J).Triple t c
      (fun w => F w ∧ Batch w₀ batch [(node, .get position knownTail)] w) (wait (.entry batch node))
      (fun w r => F w ∧ ∀ e, r = some e →
        e ∈ w.assigned ∧ e.position = position ∧ w.Covers node position)
      fun w e => F w ∧ e.Tame := by
  refine .wait (hF.and (persistent_batch w₀ batch _)).lasting.stable fun w x w' r hi hf _ hs => ?_
  have hl := lookup_singleton node (.get position knownTail)
  cases resumed_of_resume hs with
  | cancelled => exact ⟨.refl hi, nofun, fun e he => by cases he; exact ⟨hf.1, nofun, nofun⟩⟩
  | entry hmem =>
      refine ⟨.refl hi, fun r' hok => ⟨hf.1, fun e he => ?_⟩, nofun⟩
      cases hok
      subst he
      exact (hi.1.reply_of_batch hf.2 hl hmem).1.entry position _ e rfl rfl
  | noEntry hmem =>
      refine ⟨.refl hi, nofun, fun e he => ⟨hf.1, ?_⟩⟩
      cases he
      rcases hmem with rfl | hmem
      · exact ⟨nofun, nofun⟩
      · exact (hi.1.reply_of_batch hf.2 hl hmem).1.tame_of nofun

theorem getEntry_spec (hF : (discipline 𝒮 C J).Persistent F) (hg : ∀ w, F w → Grow w₀ w)
    (node : String) (position : Nat) :
    Ensures 𝒮 C J t c F (getEntry node position) fun w r =>
      F w ∧ ∀ e, r = some e → e ∈ w.assigned ∧ e.position = position ∧ w.Covers node position := by
  refine .bind client_spec fun client => ?_
  have hF' : (discipline 𝒮 C J).Persistent fun w => F w ∧ w.Known 𝒮 client.knownTail :=
    hF.and (persistent_known _)
  refine .bind ((send_spec hF'.lasting (fun w h => hg w h.1) fun w _ h item hitem => ?_).pre
    fun w _ h => ⟨h.1, h.2.1⟩) fun batch => ?_
  · obtain rfl := List.mem_singleton.mp hitem
    exact h.2
  · exact (entry_spec hF').mono (fun _ _ h => h) (fun w _ _ h => ⟨h.1.1, h.2⟩) fun _ _ _ h => h.2

theorem repairEntry_spec (hF : (discipline 𝒮 C J).Persistent F) (hg : ∀ w, F w → Grow w₀ w)
    (node : String) (entry : LogEntry)
    (hentry : ∀ w, F w → entry ∈ w.assigned ∧ w.Known 𝒮 entry.position) :
    Ensures 𝒮 C J t c F (repairEntry node entry) fun w _ =>
      F w ∧ w.Covers node entry.position := by
  refine .bind client_spec fun client => ?_
  have hF' : (discipline 𝒮 C J).Persistent fun w => F w ∧ w.Known 𝒮 client.knownTail :=
    hF.and (persistent_known _)
  refine .bind ((send_spec hF'.lasting (fun w h => hg w h.1) fun w _ h item hitem => ?_).pre
    fun w _ h => ⟨h.1, h.2.1⟩) fun batch => ?_
  · obtain rfl := List.mem_singleton.mp hitem
    exact ⟨(hentry w h.1).1, (hentry w h.1).2, h.2⟩
  refine .wait (hF'.and (persistent_batch w₀ batch _)).lasting.stable fun w x w' r hi hf _ hs => ?_
  have hl := lookup_singleton node (.repair entry client.knownTail)
  cases resumed_of_resume hs with
  | cancelled => exact ⟨.refl hi, nofun, fun e he => by cases he; exact ⟨nofun, nofun⟩⟩
  | state hmem =>
      refine ⟨.refl hi, fun _ _ => ⟨hf.1.1, ?_⟩, nofun⟩
      exact ((hi.1.reply_of_batch hf.2 hl hmem).1.state _ rfl).2
  | unstated hmem =>
      refine ⟨.refl hi, nofun, fun e he => ?_⟩
      cases he
      rcases hmem with rfl | hmem
      · exact ⟨nofun, nofun⟩
      · exact (hi.1.reply_of_batch hf.2 hl hmem).1.tame_of nofun

theorem persistent_copies (copies : List LogEntry) (position : Nat) :
    (discipline 𝒮 C J).Persistent fun w =>
      ∀ copy ∈ copies, copy ∈ w.assigned ∧ copy.position = position :=
  fun _ _ hg h copy hc => ⟨hg.assigned.subset (h copy hc).1, (h copy hc).2⟩

theorem persistent_covers (nodes : List String) (position : Nat) :
    (discipline 𝒮 C J).Persistent fun w => ∀ node ∈ nodes, w.Covers node position :=
  fun _ _ hg h node hn => hg.covers node position (h node hn)

theorem collectCopies_spec (hF : (discipline 𝒮 C J).Persistent F) (hg : ∀ w, F w → Grow w₀ w)
    (position : Nat) (nodes : List String) :
    Ensures 𝒮 C J t c F (collectCopies position nodes) fun w copies =>
      F w ∧ ∀ copy ∈ copies, copy ∈ w.assigned ∧ copy.position = position := by
  induction nodes with
  | nil => exact .ret fun w _ h => ⟨h, nofun⟩
  | cons node nodes ih =>
      refine .bind (getEntry_spec hF hg node position) fun entry => ?_
      have hentry : (discipline 𝒮 C J).Persistent fun w =>
          ∀ copy ∈ entry.toList, copy ∈ w.assigned ∧ copy.position = position :=
        persistent_copies _ position
      refine .bind ((ih.frame hentry).mono (fun w _ h => ⟨h.1, fun copy hc => ?_⟩)
        (fun _ _ _ h => h) fun _ _ _ h => h.1) fun copies => .ret fun w _ h => ?_
      · obtain ⟨ha, hp, -⟩ := h.2 copy (Option.mem_toList.mp hc)
        exact ⟨ha, hp⟩
      · refine ⟨h.1.1, fun copy hc => ?_⟩
        rcases List.mem_append.mp hc with hc | hc
        · exact h.2 copy hc
        · exact h.1.2 copy hc

theorem spreadCopy_spec (hF : (discipline 𝒮 C J).Persistent F) (hg : ∀ w, F w → Grow w₀ w)
    {canonical : LogEntry} {position : Nat} (hp : canonical.position = position)
    (hentry : ∀ w, F w → canonical ∈ w.assigned ∧ w.Known 𝒮 position) (nodes : List String) :
    Ensures 𝒮 C J t c F (spreadCopy canonical position nodes) fun w _ =>
      F w ∧ ∀ node ∈ nodes, w.Covers node position := by
  induction nodes with
  | nil => exact .ret fun w _ h => ⟨h, nofun⟩
  | cons node nodes ih =>
      have hrest : Ensures 𝒮 C J t c (fun w => F w ∧ ∀ n ∈ [node], w.Covers n position)
          (spreadCopy canonical position nodes) fun w _ =>
            F w ∧ ∀ n ∈ node :: nodes, w.Covers n position := by
        refine (ih.frame (persistent_covers [node] position)).mono (fun _ _ h => h)
          (fun w _ _ h => ⟨h.1.1, fun n hn => ?_⟩) fun _ _ _ h => h.1
        rcases List.mem_cons.mp hn with rfl | hn
        · exact h.2 n (List.mem_singleton_self n)
        · exact h.1.2 n hn
      refine .bind (getEntry_spec hF hg node position) fun entry => ?_
      cases entry with
      | some e =>
          refine hrest.pre fun w _ h => ⟨h.1, fun n hn => ?_⟩
          obtain rfl := List.mem_singleton.mp hn
          exact (h.2 e rfl).2.2
      | none =>
          refine .bind ((repairEntry_spec hF hg node canonical fun w h => ?_).pre
            fun w _ h => h.1) fun _ => hrest.pre fun w _ h => ⟨h.1, fun n hn => ?_⟩
          · rw [hp]
            exact hentry w h
          · obtain rfl := List.mem_singleton.mp hn
            rw [← hp]
            exact h.2

/-- The copies of one position never conflict: they are one assigned entry. -/
theorem repairPosition_spec (hF : (discipline 𝒮 C J).Persistent F) (hg : ∀ w, F w → Grow w₀ w)
    {position : Nat} (hk : ∀ w, F w → w.Known 𝒮 position) (nodes : List String) :
    Ensures 𝒮 C J t c F (repairPosition nodes position) fun w _ =>
      F w ∧ ∀ node ∈ nodes, w.Covers node position := by
  refine .bind (collectCopies_spec hF hg position nodes) fun copies => ?_
  cases copies with
  | nil => exact .raise fun _ _ _ => ⟨nofun, nofun⟩
  | cons canonical rest =>
      refine .bind (.check fun w hi h hne => absurd (fun copy hc => ?_) hne) fun _ => ?_
      · obtain ⟨hcopy, hpos⟩ := h.2 copy (List.mem_cons_of_mem _ hc)
        obtain ⟨hcanonical, hpos'⟩ := h.2 canonical List.mem_cons_self
        exact hi.1.eq_of_position hcopy hcanonical (hpos.trans hpos'.symm)
      intro w' w hk' h
      have hp : canonical.position = position := (h.1.2 canonical List.mem_cons_self).2
      refine (spreadCopy_spec (hF.and (persistent_copies [canonical] position))
        (fun w h => hg w h.1) hp (fun w h => ⟨(h.2 canonical (List.mem_singleton_self _)).1,
          hk w h.1⟩) nodes).post (fun w _ _ h => ⟨h.1.1, h.2⟩) w' w hk' ⟨h.1.1, fun copy hc => ?_⟩
      obtain rfl := List.mem_singleton.mp hc
      exact h.1.2 copy List.mem_cons_self

theorem repairPositions_spec (hF : (discipline 𝒮 C J).Persistent F) (hg : ∀ w, F w → Grow w₀ w)
    {nodes : List String} (hnodes : IsQuorum 𝒮.segment.members nodes) {position : Nat}
    (count : Nat) :
    Ensures 𝒮 C J t c (fun w => F w ∧ w.Known 𝒮 position)
      (repairPositions nodes position count) fun w _ =>
        F w ∧ w.Known 𝒮 (position + count) := by
  induction count generalizing position with
  | zero => exact .ret fun _ _ h => h
  | succ count ih =>
      refine .bind (repairPosition_spec (hF.and (persistent_known position))
        (fun w h => hg w h.1) (fun w h => h.2) nodes) fun _ => ?_
      refine (ih.pre fun w _ h => ⟨h.1.1, ?_⟩).post fun w _ _ h => ⟨h.1, ?_⟩
      · exact KnownTail.succ h.1.2 ⟨nodes, hnodes, h.2⟩
      · rw [← Nat.add_assoc, Nat.add_right_comm]
        exact h.2

/-- A repair leaves a known tail. -/
theorem repairThrough_spec (hF : (discipline 𝒮 C J).Persistent F) (hg : ∀ w, F w → Grow w₀ w)
    {nodes : List String} (hnodes : IsQuorum 𝒮.segment.members nodes) (tail : Nat) :
    Ensures 𝒮 C J t c F (repairThrough tail nodes) fun w _ => F w ∧ w.Known 𝒮 tail := by
  refine .bind client_spec fun client => ?_
  refine ((repairPositions_spec hF hg hnodes (tail - client.trimmedPrefix)).pre
    fun w _ h => ⟨h.1, h.2.2⟩).post fun w _ _ h => ⟨h.1, h.2.le ?_⟩
  omega

end Repair

/-! ## Checking the tail -/

/-- The states of a majority: each tells of its LogServer since `w₀`. -/
structure ReadStates (𝒮 : Deployment) (w₀ w : World) (states : List (String × LogServerState)) :
    Prop where
  members : (states.map Prod.fst).Sublist 𝒮.segment.members
  quorum : 𝒮.segment.quorum ≤ states.length
  facts : ∀ item ∈ states, StateFacts 𝒮 w item.1 item.2 ∧ Since w₀ item.1 item.2

theorem persistent_readStates (states : List (String × LogServerState)) :
    (discipline 𝒮 C J).Persistent fun w => ReadStates 𝒮 w₀ w states :=
  fun _ _ hg h => ⟨h.members, h.quorum, fun item hi => ⟨(h.facts item hi).1.mono hg,
    (h.facts item hi).2⟩⟩

theorem ReadStates.majority {states : List (String × LogServerState)}
    (h : ReadStates 𝒮 w₀ w states) {test : String × LogServerState → Bool}
    (hq : 𝒮.segment.quorum ≤ states.countP test) :
    Majority 𝒮.segment.members fun node => ∃ s, (node, s) ∈ states ∧ test (node, s) = true :=
  majority_of_countP 𝒮.segment.configuration.storageMembers.nodup h.members hq

/-- What held on a majority since `w₀` shows in one of the states. -/
theorem ReadStates.inter {states : List (String × LogServerState)}
    (h : ReadStates 𝒮 w₀ w states) {p : String → Prop} (hp : Majority 𝒮.segment.members p) :
    ∃ item ∈ states, p item.1 := by
  have hall : 𝒮.segment.quorum ≤ states.countP fun _ => true := by
    rw [List.countP_true]
    exact h.quorum
  obtain ⟨node, -, hnode, s, hs, -⟩ := hp.inter (h.majority hall)
  exact ⟨(node, s), hs, hnode⟩

theorem ReadStates.nodes_quorum {states : List (String × LogServerState)}
    (h : ReadStates 𝒮 w₀ w states) : IsQuorum 𝒮.segment.members (states.map Prod.fst) := by
  refine ⟨h.members.nodup 𝒮.segment.configuration.storageMembers.nodup, h.members.subset, ?_⟩
  have hq : 𝒮.segment.members.length / 2 + 1 ≤ states.length := h.quorum
  rw [List.length_map]
  omega

theorem le_maxOf (value : LogServerState → Nat) {states : List (String × LogServerState)}
    {item : String × LogServerState} (h : item ∈ states) : value item.2 ≤ maxOf value states := by
  induction states with
  | nil => cases h
  | cons other states ih =>
      rcases List.mem_cons.mp h with rfl | h
      · exact Nat.le_max_left _ _
      · exact Nat.le_trans (ih h) (Nat.le_max_right _ _)

/-- The greatest of known values is known. -/
theorem known_maxOf (value : LogServerState → Nat) {states : List (String × LogServerState)}
    (h : ∀ item ∈ states, w.Known 𝒮 (value item.2)) : w.Known 𝒮 (maxOf value states) := by
  induction states with
  | nil => exact knownTail_zero
  | cons item states ih =>
      refine KnownTail.max (h item List.mem_cons_self) (ih fun other ho => ?_)
      exact h other (List.mem_cons_of_mem _ ho)

theorem readStates_spec :
    Ensures 𝒮 C J t c (fun w => Grow w₀ w) 𝒮.segment.readStates fun w states =>
      Grow w₀ w ∧ ReadStates 𝒮 w₀ w states := by
  refine .bind client_spec fun client => ?_
  refine .bind ((askAll_spec (F := fun w => Grow w₀ w ∧ w.Known 𝒮 client.knownTail)
    ((persistent_grow w₀).and (persistent_known _)) (fun w h => h.1) fun w _ h =>
      show RequestInv 𝒮 w (.state client.knownTail) from h.2).pre fun w _ h => ⟨h.1, h.2.1⟩)
    fun replies => ?_
  refine .bind (.check fun _ _ _ _ => ⟨nofun, nofun⟩) fun _ => ?_
  have hF : (discipline 𝒮 C J).Persistent fun w =>
      Grow w₀ w ∧ ReadStates 𝒮 w₀ w (statesOf 𝒮.segment.members replies) :=
    (persistent_grow w₀).and (persistent_readStates _)
  refine .bind ((observeAll_spec hF fun w h state hmem => ?_).pre fun w _ h => ?_) fun _ =>
    .ret fun _ _ h => h
  · obtain ⟨item, hitem, rfl⟩ := List.mem_map.mp hmem
    exact (h.2.facts item hitem).1.known
  · obtain ⟨⟨hf, ha⟩, hq⟩ := h
    obtain ⟨hsub, hstates, -⟩ := statesOf_spec ha
    refine ⟨hf.1, hsub, hq, fun item hitem => ?_⟩
    obtain ⟨hinv, hsince⟩ := hstates item hitem
    exact ⟨(hinv.state _ rfl).1, hsince _ rfl⟩

theorem waitForProgress_spec (states : List (String × LogServerState)) (observedTail : Nat) :
    Ensures 𝒮 C J t c (fun w => Grow w₀ w) (𝒮.segment.waitForProgress states observedTail)
      fun w _ => Grow w₀ w := by
  refine .bind client_spec fun client => ?_
  have hF : (discipline 𝒮 C J).Persistent fun w => Grow w₀ w ∧ w.Known 𝒮 client.knownTail :=
    (persistent_grow w₀).and (persistent_known _)
  refine .bind ((send_spec hF.lasting (fun w h => h.1) fun w _ h item hitem => ?_).pre
    fun w _ h => ⟨h.1, h.2.1⟩) fun batch => ?_
  · obtain ⟨node, -, rfl⟩ := List.mem_map.mp hitem
    exact h.2
  refine .bind (Q := fun w first => Grow w₀ w ∧ ∀ s, first = some s → w.Known 𝒮 s.knownTail)
    (.wait (hF.and (persistent_batch w₀ batch _)).lasting.stable
      fun w x w' r hi hf _ hs => ?_) fun first => ?_
  · cases resumed_of_resume hs with
    | cancelled => exact ⟨.refl hi, nofun, fun e he => by cases he; exact ⟨nofun, nofun⟩⟩
    | first hmem =>
        refine ⟨.refl hi, fun first hok => ⟨hf.1.1, fun s hs' => ?_⟩, nofun⟩
        cases hok
        cases hs'
        obtain ⟨request, -, hinv⟩ := hi.1.replies _ hmem
        exact (hinv.state _ rfl).1.known
    | noState =>
        refine ⟨.refl hi, fun first hok => ⟨hf.1.1, fun s hs' => ?_⟩, nofun⟩
        cases hok
        cases hs'
  · cases first with
    | none => exact .raise fun _ _ _ => ⟨nofun, nofun⟩
    | some s =>
        exact ((observeTail_spec (F := fun w => Grow w₀ w ∧ w.Known 𝒮 s.knownTail)
          ((persistent_grow w₀).and (persistent_known _)) fun w h => h.2).pre
            fun w _ h => ⟨h.1, h.2 s rfl⟩).post fun w _ _ h => h.1

/-- What a tail that was returned tells about the world `w₀` where its call began and
about the world `w` where it ended. -/
structure TailRead (𝒮 : Deployment) (w₀ w : World) (r : CheckTailResult) : Prop where
  known : w.Known 𝒮 r.tail
  covered : ∀ p, (Majority 𝒮.segment.members fun node => w₀.Covers node p) → p < r.tail
  closed : (Majority 𝒮.segment.members fun node => (w₀.store node).sealed = true) →
    r.sealed = true
  bound : r.sealed = true → w.SealedBelow 𝒮 r.tail

/-- The greatest local tail is behind all that a majority covered. -/
theorem ReadStates.covered {states : List (String × LogServerState)}
    (h : ReadStates 𝒮 w₀ w states) {p : Nat}
    (hp : Majority 𝒮.segment.members fun node => w₀.Covers node p) :
    p < maxOf LogServerState.localTail states := by
  obtain ⟨item, hitem, hcovers⟩ := h.inter hp
  have hsince := (h.facts item hitem).2.1
  have hmax := le_maxOf LogServerState.localTail hitem
  have hlt : p < (w₀.store item.1).localTail := LogletStore.Covers.lt_localTail hcovers
  omega

/-- Sealed states bound what their LogServers accepted. -/
theorem ReadStates.sealedBelow {states : List (String × LogServerState)}
    (h : ReadStates 𝒮 w₀ w states) (hs : ∀ item ∈ states, item.2.sealed = true) :
    w.SealedBelow 𝒮 (maxOf LogServerState.localTail states) := by
  refine ⟨_, h.nodes_quorum, fun node hnode => ?_⟩
  obtain ⟨item, hitem, rfl⟩ := List.mem_map.mp hnode
  have hfacts := (h.facts item hitem).1
  refine ⟨hfacts.closed (hs item hitem), fun p hp => ?_⟩
  exact Nat.lt_of_lt_of_le (hfacts.bound (hs item hitem) p hp)
    (le_maxOf LogServerState.localTail hitem)

/-- A quorum of copies makes a tail known. -/
theorem ReadStates.known_of_copies {states : List (String × LogServerState)}
    (h : ReadStates 𝒮 w₀ w states) {tail : Nat}
    (hq : 𝒮.segment.quorum ≤ states.countP fun item => tail ≤ item.2.localTail) :
    w.Known 𝒮 tail := by
  refine knownTail_of_denseTo ((h.majority hq).mono ?_)
  rintro node - ⟨s, hs, hle⟩
  exact (h.facts _ hs).1.dense.le (of_decide_eq_true hle)

/-- A state that is not sealed shows that no majority was sealed before the call. -/
theorem ReadStates.not_closed {states : List (String × LogServerState)}
    (h : ReadStates 𝒮 w₀ w states) (hs : ∀ item ∈ states, item.2.sealed = false) :
    ¬ Majority 𝒮.segment.members fun node => (w₀.store node).sealed = true := by
  intro hclosed
  obtain ⟨item, hitem, hsealed⟩ := h.inter hclosed
  have := (h.facts item hitem).2.2 hsealed
  rw [hs item hitem] at this
  cases this

theorem checkTail_spec (turns : Nat) :
    Ensures 𝒮 C J t c (fun w => Grow w₀ w) (𝒮.segment.checkTail turns) fun w r =>
      TailRead 𝒮 w₀ w r := by
  induction turns with
  | zero =>
      refine .bind (Q := fun _ _ => False) (.wait (persistent_grow w₀).lasting.stable
        fun w x w' r hi hf _ hs => ?_) fun never => nomatch never
      cases resumed_of_resume hs with
      | cancelled => exact ⟨.refl hi, nofun, fun e he => by cases he; exact ⟨nofun, nofun⟩⟩
  | succ turns ih =>
      refine .bind readStates_spec fun states => ?_
      have hF : (discipline 𝒮 C J).Persistent fun w => Grow w₀ w ∧ ReadStates 𝒮 w₀ w states :=
        (persistent_grow w₀).and (persistent_readStates states)
      refine .bind (observeTrimmed_spec hF fun w h => known_maxOf _ fun item hitem =>
        (h.2.facts item hitem).1.trimmed) fun _ => ?_
      simp only
      split
      · -- Mixed seals: seal the rest and start again.
        exact .bind (seal_spec.pre fun w _ h => h.1) fun _ => ih
      next hmixed =>
      split
      · next hall =>
          have hsealed : ∀ item ∈ states, item.2.sealed = true := List.countP_eq_length.mp hall
          intro w' w hk h
          refine (Discipline.Triple.bind ((repairThrough_spec hF (fun w h => h.1)
            h.2.nodes_quorum (maxOf LogServerState.localTail states)))
            fun _ => ?_) w' w hk h
          have hF' := hF.and (persistent_known (C := C) (J := J)
            (maxOf LogServerState.localTail states))
          refine .bind (observeTail_spec hF' fun w h => h.2) fun _ => .ret fun w _ h => ?_
          exact ⟨h.2, fun p hp => h.1.2.covered hp, fun _ => rfl,
            fun _ => h.1.2.sealedBelow hsealed⟩
      · next hnone =>
          have hopen : ∀ item ∈ states, item.2.sealed = false := by
            have hzero : states.countP (fun item => item.2.sealed) = 0 := by
              have hle := List.countP_le_length (p := fun item : String × LogServerState =>
                item.2.sealed) (l := states)
              omega
            intro item hitem
            exact Bool.eq_false_iff.mpr (List.countP_eq_zero.mp hzero item hitem)
          refine .bind client_spec fun client => ?_
          split
          · next hevidence =>
              have hF' := hF.and (persistent_known (C := C) (J := J)
                (maxOf LogServerState.localTail states))
              refine .bind ((observeTail_spec hF' fun w h => h.2).pre fun w _ h =>
                ⟨h.1, ?_⟩) fun _ => .ret fun w _ h => ?_
              · rcases hevidence with hzero | hclient | hcopies
                · rw [hzero]
                  exact knownTail_zero
                · exact h.2.1.le hclient
                · exact h.1.2.known_of_copies hcopies
              · exact ⟨h.2, fun p hp => h.1.2.covered hp,
                  fun hclosed => absurd hclosed (h.1.2.not_closed hopen), nofun⟩
          · refine .bind ((waitForProgress_spec states _).pre fun w _ h => h.1.1) fun _ => ih

/-! ## Reading -/

/-- An entry that was read is assigned. -/
def Read (w : World) (entry : Option LogEntry) : Prop := ∀ e, entry = some e → e ∈ w.assigned

theorem readPosition_spec {knownTail : Nat} (position : Nat) (members : List String)
    (responses : Nat) :
    Ensures 𝒮 C J t c (fun w => Grow w₀ w ∧ w.Known 𝒮 knownTail)
      (readPosition position knownTail members responses) fun w r =>
        (Grow w₀ w ∧ w.Known 𝒮 knownTail) ∧ Read w r.1 := by
  induction members generalizing responses with
  | nil => exact .ret fun _ _ h => ⟨h, nofun⟩
  | cons member members ih =>
      have hF : (discipline 𝒮 C J).Persistent fun w => Grow w₀ w ∧ w.Known 𝒮 knownTail :=
        (persistent_grow w₀).and (persistent_known _)
      refine .bind (send_spec hF.lasting (fun w h => h.1) fun w _ h item hitem => ?_) fun batch => ?_
      · obtain rfl := List.mem_singleton.mp hitem
        exact h.2
      refine .bind (Q := fun w answer => (Grow w₀ w ∧ w.Known 𝒮 knownTail) ∧
        ∀ entry, answer = some entry → Read w entry)
        (.handle (.bind (entry_spec hF) fun entry => .ret fun w _ h => ⟨h.1, fun r hr e he => ?_⟩)
          fun e => ?_) fun answer => ?_
      · cases hr
        exact (h.2 e he).1
      · split
        · exact .ret fun w _ h => ⟨h.1, nofun⟩
        · exact .raise fun w _ h => h.2
      · cases answer with
        | none => exact (ih responses).pre fun w _ h => h.1
        | some entry =>
            cases entry with
            | none => exact (ih (responses + 1)).pre fun w _ h => h.1
            | some e => exact .ret fun w _ h => ⟨h.1, h.2 _ rfl⟩

theorem readPositions_spec {knownTail : Nat} (members : List String) (position count : Nat) :
    Ensures 𝒮 C J t c (fun w => Grow w₀ w ∧ w.Known 𝒮 knownTail)
      (𝒮.segment.readPositions members knownTail position count) fun w entry =>
        Read w entry := by
  induction count generalizing position with
  | zero => exact .ret fun _ _ _ => nofun
  | succ count ih =>
      refine .bind (readPosition_spec position members 0) fun found => ?_
      obtain ⟨entry, responses⟩ := found
      cases entry with
      | some e => exact .ret fun w _ h => h.2
      | none =>
          exact .bind (.check fun _ _ _ _ => ⟨nofun, nofun⟩) fun _ =>
            (ih (position + 1)).pre fun w _ h => h.1.1

theorem readNext_spec (localNode : String) (localStart localStop : Nat) :
    Ensures 𝒮 C J t c (fun w => Grow w₀ w) (𝒮.segment.readNext localNode localStart localStop)
      fun w entry => Read w entry := by
  refine .bind client_spec fun client => ?_
  simp only
  split
  · exact .ret fun _ _ _ => nofun
  · exact (readPositions_spec _ _ _).pre fun w _ h => ⟨h.1, h.2.1⟩

end DelosLab.NativeLoglet
