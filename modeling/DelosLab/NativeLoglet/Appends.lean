import DelosLab.NativeLoglet.Rules

/-!
# The sequencer keeps its books

Everything that an append does happens inside the lock, where nobody else touches
the sequencer, so each step is about the state that the task itself has left.
-/

namespace DelosLab.NativeLoglet

open Async Async.Coroutine Consensus
open VirtualLog (Bytes)

variable {𝒮 : Deployment} {C : Condition signature World TaskId Call Choice} {J : Rider 𝒮}
  {t : TaskId} {c : Call} {α : Type} {w : World}

/-- `t` is inside the lock, and the sequencer is as `P` says. -/
def Inside (t : TaskId) (P : World → NativeSequencer → Prop) (w : World) : Prop :=
  ∃ s, w.Locked t s ∧ P w s

/-- `P` lasts while nothing is assigned. -/
def Steady (P : World → NativeSequencer → Prop) : Prop :=
  ∀ w w' s, Grow w w' → w'.assigned = w.assigned → P w s → P w' s

/-- The sequencer's books are in order. -/
def Books (𝒮 : Deployment) (w : World) (s : NativeSequencer) : Prop :=
  SequencerInv 𝒮 w s s.pending

/-- The sequencer is committing `e`; `K` is about what it has assigned. -/
structure Committing (𝒮 : Deployment) (w₀ : World) (K : List LogEntry → Prop) (e : LogEntry)
    (w : World) (s : NativeSequencer) : Prop where
  grow : Grow w₀ w
  pending : s.pending = some e
  entries : K s.entriesByCommand
  books : SequencerInv 𝒮 w s (some e)

/-- The lock was entered by a step that meets `C`. -/
def Entered (C : Condition signature World TaskId Call Choice) (t : TaskId) (c : Call) (w : World)
    (s : NativeSequencer) : Prop :=
  ∃ w₀ s₀, Grow w₀ w ∧ C.resume w₀ t c .acquire .done ∧
    (w₀.processes t.node).sequencer = some s₀ ∧ s = { s₀ with holder := some t }

/-- In a step that meets `C`, a commit round got its quorum while the sequencer, or a
LogServer of the round, knew a tail behind the pending entry. -/
def Blamed (𝒮 : Deployment) (C : Condition signature World TaskId Call Choice) (t : TaskId)
    (c : Call) : Prop :=
  ∃ w s e batch replies,
    C.resume w t c (.gather batch 𝒮.segment.members) (.gathered replies) ∧
      w.Locked t s ∧ s.pending = some e ∧
        𝒮.segment.quorum ≤ (replies.filterMap stateOf).length ∧
          (e.position < s.knownTail ∨
            ∃ state ∈ replies.filterMap stateOf, e.position < state.knownTail)

/-- What an error of an append tells. -/
def Excused (𝒮 : Deployment) (C : Condition signature World TaskId Call Choice) (t : TaskId)
    (c : Call) (e : Error) : Prop :=
  ∀ message, e = .runtimeError message → Blamed 𝒮 C t c

/-- The triple of a function that runs inside the lock. -/
abbrev Guarded (𝒮 : Deployment) (C : Condition signature World TaskId Call Choice) (J : Rider 𝒮)
    (t : TaskId) (c : Call) (F : World → Prop) (p : Co α) (Q : World → α → Prop) : Prop :=
  (discipline 𝒮 C J).Triple t c F p Q fun w e => Inside t (Books 𝒮) w ∧ Excused 𝒮 C t c e

theorem lasting_inside {P : World → NativeSequencer → Prop} (hP : Steady P) :
    (discipline 𝒮 C J).Lasting t (Inside t P) := by
  rintro w w' hg hr ⟨s, hl, hp⟩
  obtain ⟨hl', ha⟩ := hr.locked s hl
  exact ⟨s, hl', hP w w' s hg ha hp⟩

theorem Inside.mono {P Q : World → NativeSequencer → Prop} (h : Inside t P w)
    (hPQ : ∀ s, P w s → Q w s) : Inside t Q w := by
  obtain ⟨s, hl, hp⟩ := h
  exact ⟨s, hl, hPQ s hp⟩

theorem steady_committing (w₀ : World) (K : List LogEntry → Prop) (e : LogEntry) :
    Steady (Committing 𝒮 w₀ K e) :=
  fun _ _ _ hg ha h => ⟨h.grow.trans hg, h.pending, h.entries, h.books.mono hg ha⟩

theorem Steady.and {P Q : World → NativeSequencer → Prop} (hP : Steady P) (hQ : Steady Q) :
    Steady fun w s => P w s ∧ Q w s :=
  fun w w' s hg ha h => ⟨hP w w' s hg ha h.1, hQ w w' s hg ha h.2⟩

theorem steady_const (p : NativeSequencer → Prop) : Steady fun _ s => p s := fun _ _ _ _ _ h => h

theorem Committing.inOrder {w₀ : World} {K : List LogEntry → Prop} {e : LogEntry}
    {s : NativeSequencer} (h : Committing 𝒮 w₀ K e w s) : Books 𝒮 w s := by
  rw [Books, h.pending]
  exact h.books

/-- A task inside the lock knows the state of the sequencer exactly. -/
theorem lasting_locked {P : World → NativeSequencer → Prop} (hP : Steady P) (s : NativeSequencer) :
    (discipline 𝒮 C J).Lasting t fun w => w.Locked t s ∧ P w s := by
  rintro w w' hg hr ⟨hl, hp⟩
  obtain ⟨hl', ha⟩ := hr.locked s hl
  exact ⟨hl', hP w w' s hg ha hp⟩

/-! ## Acts of the sequencer -/

theorem World.Locked.sequencer_eq {s : NativeSequencer} (h : w.Locked t s) :
    w.sequencer t.node = s := by
  rw [World.sequencer, h.1]
  rfl

/-- The task inside the lock changes the sequencer. -/
theorem kept_setSequencer (hi : (discipline 𝒮 C J).Inv w) {s s' : NativeSequencer}
    (hl : w.Locked t s) (hready : s'.holder = none → SequencerInv 𝒮 w s' s'.pending) :
    (discipline 𝒮 C J).Kept t w (w.setSequencer t.node s') := by
  have hnode := hi.1.fenced.fence t.node (hl.1 ▸ nofun)
  refine kept_of hi (hi.1.setSequencer hnode hready) (w.grow_setSequencer _ _) rfl rfl
    fun u hu => World.rely_setSequencer fun s₁ hs₁ _ => ?_
  obtain ⟨rfl, -⟩ := hi.1.locked_unique hl.1 hs₁
  exact hu (Option.some.inj (hs₁.2.symm.trans hl.2))

theorem sequencer_spec {P : World → NativeSequencer → Prop} {X : World → Error → Prop} :
    (discipline 𝒮 C J).Triple t c (Inside t P) (act .sequencer)
      (fun w s => w.Locked t s ∧ P w s) X := by
  refine .act fun w hi ⟨s, hl, hp⟩ => ⟨.refl hi, ?_⟩
  show w.Locked t (w.sequencer t.node) ∧ P w (w.sequencer t.node)
  rw [hl.sequencer_eq]
  exact ⟨hl, hp⟩

/-- An act that changes the sequencer by `f`. -/
theorem modify_spec {P Q : World → NativeSequencer → Prop} {a : Act}
    {f : NativeSequencer → NativeSequencer}
    (hexec : ∀ w, (𝒮.exec w t a).1 = w.setSequencer t.node (f (w.sequencer t.node)))
    (hholder : ∀ s, (f s).holder = s.holder) (hQ : Steady Q)
    (hPQ : ∀ w s, Inv 𝒮 w → P w s → Q w (f s)) {X : World → Error → Prop} :
    (discipline 𝒮 C J).Triple t c (Inside t P) (act a) (fun w _ => Inside t Q w) X := by
  refine .act fun w hi ⟨s, hl, hp⟩ => ?_
  change (discipline 𝒮 C J).Kept t w (𝒮.exec w t a).1 ∧ Inside t Q (𝒮.exec w t a).1
  rw [hexec, hl.sequencer_eq]
  have hheld : (f s).holder = some t := (hholder s).trans hl.2
  refine ⟨kept_setSequencer hi hl (fun hn => nomatch hheld.symm.trans hn), f s, ⟨?_, hheld⟩, ?_⟩
  · rw [World.processes_setSequencer_self]
  · exact hQ w _ _ (w.grow_setSequencer _ _) rfl (hPQ w s hi.1 hp)

theorem release_spec {Q : World → Prop} (hQ : (discipline 𝒮 C J).Persistent Q)
    {X : World → Error → Prop} :
    (discipline 𝒮 C J).Triple t c (fun w => Inside t (Books 𝒮) w ∧ Q w) (act .release)
      (fun w _ => Q w) X := by
  refine .act fun w hi hf => ?_
  obtain ⟨⟨s, hl, hb⟩, hq⟩ := hf
  show (discipline 𝒮 C J).Kept t w (w.setSequencer t.node _) ∧ Q (w.setSequencer t.node _)
  rw [hl.sequencer_eq]
  refine ⟨kept_setSequencer hi hl fun _ => ?_, hQ w _ (w.grow_setSequencer _ _) hq⟩
  exact ⟨hb.entries, hb.next, hb.known, hb.committed, hb.last⟩

/-! ## Entering the lock -/

/-- The process of `t` has a sequencer. -/
def Present (t : TaskId) (w : World) : Prop := (w.processes t.node).sequencer ≠ none

theorem lasting_present : (discipline 𝒮 C J).Lasting t (Present t) :=
  fun _ _ _ hr h => hr.present h

theorem setSequencer_of_eq {node : String} {s : NativeSequencer}
    (h : (w.processes node).sequencer = some s) : w.setSequencer node s = w := by
  have hsame : { w.processes node with sequencer := some s } = w.processes node := by rw [← h]
  rw [World.setSequencer, hsame, World.setProcess, Function.update_eq_self]

/-- The first sequencer of the segment has nothing assigned before it. -/
theorem Inv.assigned_nil (h : Inv 𝒮 w)
    (hnone : (w.processes 𝒮.segment.configuration.sequencerNode).sequencer = none)
    (hinc : (w.processes 𝒮.segment.configuration.sequencerNode).incarnation =
      𝒮.segment.configuration.sequencerIncarnation) : w.assigned = [] := by
  by_contra hne
  rcases h.fenced.once hne with hpresent | hpast
  · exact hpresent hnone
  · rw [← hinc] at hpast
    exact h.fenced.fresh _ hpast

theorem sequencerFor_spec :
    Guarded 𝒮 C J t c (fun _ => True) (act .sequencerFor) fun w r =>
      (∀ e, r = .error e → e.Tame) ∧ (r = .ok () → Present t w) := by
  refine .act fun w hi _ => ?_
  change (discipline 𝒮 C J).Kept t w (𝒮.sequencerFor w t.node).1 ∧
    (∀ e, (𝒮.sequencerFor w t.node).2 = .error e → e.Tame) ∧
      ((𝒮.sequencerFor w t.node).2 = .ok () → Present t (𝒮.sequencerFor w t.node).1)
  rw [Deployment.sequencerFor]
  split
  · refine ⟨.refl hi, fun e he => ?_, by rintro ⟨⟩⟩
    cases he
    exact ⟨by rintro _ ⟨⟩, by rintro _ ⟨⟩⟩
  · next hnode =>
      split
      · refine ⟨.refl hi, fun e he => ?_, by rintro ⟨⟩⟩
        cases he
        exact ⟨by rintro _ ⟨⟩, by rintro _ ⟨⟩⟩
      · next hinc =>
          have hnode := not_not.mp hnode
          have hinc := not_not.mp hinc
          cases hs : (w.processes t.node).sequencer with
          | some s =>
              have hseq : w.sequencer t.node = s := by rw [World.sequencer, hs]; rfl
              simp only
              rw [hseq, setSequencer_of_eq hs]
              refine ⟨.refl hi, by rintro _ ⟨⟩, fun _ hnone => ?_⟩
              rw [hs] at hnone
              cases hnone
          | none =>
              have hseq : w.sequencer t.node = .new := by rw [World.sequencer, hs]; rfl
              have hnil : w.assigned = [] := by
                refine hi.1.assigned_nil ?_ ?_
                · rw [hnode, hs]
                · rw [hnode, hinc]
              simp only
              rw [hseq]
              refine ⟨kept_of hi (hi.1.setSequencer ⟨hnode.symm, hinc.symm⟩ fun _ => ?_)
                (w.grow_setSequencer _ _) rfl rfl fun u _ => ?_, by rintro _ ⟨⟩, fun _ => ?_⟩
              · refine ⟨hnil.symm, by rw [hnil]; rfl, knownTail_zero, fun e he => ?_, by rintro _ ⟨⟩⟩
                rw [hnil] at he
                cases he
              · refine World.rely_setSequencer fun s' hs' hn => ?_
                rw [← hn, hs'.1] at hs
                cases hs
              · rw [Present, World.processes_setSequencer_self]
                rintro ⟨⟩

theorem acquire_spec {X : World → Error → Prop} (hX : ∀ w e, e.Tame → X w e) :
    (discipline 𝒮 C J).Triple t c (Present t) (wait .acquire)
      (fun w _ => Inside t (fun w s => Books 𝒮 w s ∧ Entered C t c w s) w) X := by
  refine Discipline.Triple.wait lasting_present.stable fun w x w' r hi hp hC hs => ?_
  obtain ⟨s, hs₀⟩ := Option.ne_none_iff_exists'.mp hp
  have hseq : w.sequencer t.node = s := by rw [World.sequencer, hs₀]; rfl
  cases resumed_of_resume hs with
  | cancelled => exact ⟨.refl hi, nofun, fun e he => by cases he; exact hX _ _ ⟨nofun, nofun⟩⟩
  | acquired hfree =>
      rw [hseq] at hfree ⊢
      have hb := hi.1.fenced.ready t.node s hs₀ hfree
      have hg := w.grow_setSequencer t.node { s with holder := some t }
      refine ⟨kept_of hi (hi.1.setSequencer (hi.1.fenced.fence t.node hp) nofun) hg rfl rfl
        fun u _ => World.rely_setSequencer fun s' hs' _ => ?_, fun _ _ => ?_, nofun⟩
      · obtain ⟨rfl, -⟩ := hi.1.locked_unique hs₀ hs'
        exact nomatch hfree.symm.trans hs'.2
      · refine ⟨{ s with holder := some t }, ⟨?_, rfl⟩, ?_, w, s, hg, hC, hs₀, rfl⟩
        · rw [World.processes_setSequencer_self]
        · refine SequencerInv.mono ?_ hg rfl
          exact ⟨hb.entries, hb.next, hb.known, hb.committed, hb.last⟩

/-- `async with self._lock`: the books are in order when the body begins, and must be
when it ends. -/
theorem withLock_spec {body : Co α} {Q : World → α → Prop}
    (hQ : ∀ a, (discipline 𝒮 C J).Persistent fun w => Q w a)
    (h : Guarded 𝒮 C J t c (Inside t fun w s => Books 𝒮 w s ∧ Entered C t c w s) body
      fun w a => Inside t (Books 𝒮) w ∧ Q w a) :
    (discipline 𝒮 C J).Triple t c (Present t) (withLock body) Q
      fun _ e => Excused 𝒮 C t c e := by
  have htame : ∀ e : Error, e.Tame → Excused 𝒮 C t c e :=
    fun e he message hm => absurd hm (he.2 message)
  refine .bind (acquire_spec fun _ e he => htame e he) fun _ => ?_
  have hend : ∀ r : Except Error α, (discipline 𝒮 C J).Persistent fun w =>
      (∀ a, r = .ok a → Q w a) ∧ ∀ e, r = .error e → Excused 𝒮 C t c e :=
    fun r w w' hg hr => ⟨fun a ha => hQ a w w' hg (hr.1 a ha), hr.2⟩
  refine .bind (Q := fun w r => Inside t (Books 𝒮) w ∧
    (∀ a, r = .ok a → Q w a) ∧ ∀ e, r = .error e → Excused 𝒮 C t c e)
    (.handle (.bind h fun a => ?_) fun e => ?_) fun r => ?_
  · refine .ret fun w _ hq => ⟨hq.1, fun a' ha => ?_, nofun⟩
    cases ha
    exact hq.2
  · refine .ret fun w _ hx => ⟨hx.1, nofun, fun e' he => ?_⟩
    cases he
    exact hx.2
  · refine .bind (release_spec (hend r)) fun _ => ?_
    exact .ofExcept (fun _ a _ hr ha => hr.1 a ha) fun _ e _ hr he => hr.2 e he

/-! ## Committing an entry -/

theorem SequencerInv.observe {s : NativeSequencer} {pending : Option LogEntry}
    (h : SequencerInv 𝒮 w s pending) {tail : Nat} (hk : w.Known 𝒮 tail) :
    SequencerInv 𝒮 w { s with knownTail := max s.knownTail tail } pending where
  entries := h.entries
  next := h.next
  known := h.known.max hk
  committed := fun e he hne =>
    ⟨(h.committed e he hne).1, Nat.lt_of_lt_of_le (h.committed e he hne).2 (Nat.le_max_left _ _)⟩
  last := fun e he =>
    ⟨(h.last e he).1, (h.last e he).2.1, Nat.le_trans (h.last e he).2.2 (Nat.le_max_left _ _)⟩

/-- What stays true while a round's known tails are observed: either none of them lies
behind `e`, or `B` holds. -/
def Within (e : LogEntry) (states : List LogServerState) (B : Prop) (s : NativeSequencer) : Prop :=
  (s.knownTail ≤ e.position ∧ ∀ state ∈ states, state.knownTail ≤ e.position) ∨ B

theorem observeRound_spec {w₀ : World} {K : List LogEntry → Prop} {e : LogEntry} {q B : Prop}
    {states : List LogServerState} :
    Guarded 𝒮 C J t c
      (fun w => Inside t (fun w s => Committing 𝒮 w₀ K e w s ∧ (q → Within e states B s)) w ∧
        ∀ state ∈ states, w.Known 𝒮 state.knownTail)
      (observeAll (fun tail => act (.observeKnownTail tail)) states)
      fun w _ => Inside t (fun w s => Committing 𝒮 w₀ K e w s ∧ (q → Within e [] B s)) w := by
  induction states with
  | nil => exact .ret fun _ _ h => h.1
  | cons state states ih =>
      have hsteady : ∀ l, Steady fun w s =>
          Committing 𝒮 w₀ K e w s ∧ (q → Within e l B s) :=
        fun l => (steady_committing w₀ K e).and (steady_const _)
      have hknown : (discipline 𝒮 C J).Persistent fun w =>
          ∀ st ∈ state :: states, w.Known 𝒮 st.knownTail :=
        fun w w' hg h st hst => World.Known.mono (h st hst) hg
      -- The known tail is inside the assertion while the act that observes it runs.
      refine .bind (Discipline.Triple.mono (Discipline.Triple.frame (modify_spec
        (P := fun w s => (Committing 𝒮 w₀ K e w s ∧ (q → Within e (state :: states) B s)) ∧
          w.Known 𝒮 state.knownTail)
        (f := fun s => { s with knownTail := max s.knownTail state.knownTail })
        (fun _ => rfl) (fun _ => rfl) (hsteady states) fun w s _ hp => ?_) hknown)
        (fun w _ h => ⟨?_, h.2⟩) (fun _ _ _ h => h) fun _ _ _ h => h.1) fun _ => ?_
      · obtain ⟨⟨hc, hw⟩, hk⟩ := hp
        refine ⟨⟨hc.grow, hc.pending, hc.entries, hc.books.observe hk⟩, fun hq => ?_⟩
        refine (hw hq).imp_left fun h => ⟨?_, fun st hst => h.2 st (List.mem_cons_of_mem _ hst)⟩
        exact Nat.max_le.mpr ⟨h.1, h.2 state List.mem_cons_self⟩
      · exact h.1.mono fun s hs => ⟨hs, h.2 state List.mem_cons_self⟩
      · exact ih.pre fun w _ h => ⟨h.1, fun st hst => h.2 st (List.mem_cons_of_mem _ hst)⟩

/-- Either a round of puts reaches a quorum, or the commit is given up. -/
theorem commitRounds_spec {w₀ : World} {K : List LogEntry → Prop} {e : LogEntry} (turns : Nat) :
    Guarded 𝒮 C J t c (Inside t (Committing 𝒮 w₀ K e)) (𝒮.segment.commitRounds e turns)
      fun w _ => Inside t (fun w s => Committing 𝒮 w₀ K e w s ∧
        (s.knownTail ≤ e.position ∨ Blamed 𝒮 C t c) ∧ w.StoredByMajority 𝒮 e.position) w := by
  induction turns with
  | zero =>
      refine .bind (Q := fun _ _ => False) (.wait (lasting_inside (steady_committing w₀ K e)).stable
        fun w x w' r hi hf _ hs => ?_) fun never => nomatch never
      cases resumed_of_resume hs with
      | cancelled =>
          refine ⟨.refl hi, nofun, fun err he => ?_⟩
          cases he
          exact ⟨hf.mono fun s hs => hs.inOrder, nofun⟩
  | succ turns ih =>
      refine .bind sequencer_spec fun s => ?_
      have hlocked : (discipline 𝒮 C J).Lasting t fun w => w.Locked t s ∧ Committing 𝒮 w₀ K e w s :=
        lasting_locked (steady_committing w₀ K e) s
      refine .bind (send_spec hlocked (fun w hf => hf.2.grow) fun w hi hf item hitem => ?_)
        fun batch => ?_
      · obtain ⟨node, -, rfl⟩ := List.mem_map.mp hitem
        exact ⟨(hf.2.books.last e rfl).1, (hf.2.books.last e rfl).2.2, hf.2.books.known⟩
      refine .bind (Q := fun w replies => Inside t (fun w s => Committing 𝒮 w₀ K e w s ∧
          (𝒮.segment.quorum ≤ (replies.filterMap stateOf).length →
            Within e (replies.filterMap stateOf) (Blamed 𝒮 C t c) s)) w ∧
          Answered 𝒮 w₀ (.put e s.knownTail) w replies)
        (.wait (hlocked.and (persistent_batch w₀ batch _).lasting).stable
          fun w x w' r hi hf hC hs => ?_) fun replies => ?_
      · obtain ⟨⟨hl, hc⟩, hb⟩ := hf
        cases resumed_of_resume hs with
        | cancelled =>
            refine ⟨.refl hi, nofun, fun err he => ?_⟩
            cases he
            exact ⟨⟨s, hl, hc.inOrder⟩, nofun⟩
        | @gathered _ _ replies ha =>
            refine ⟨.refl hi, fun replies' hok => ?_, nofun⟩
            cases hok
            refine ⟨⟨s, hl, hc, fun hq => ?_⟩, hi.1.answered hb ha⟩
            -- A tail behind the entry in this round is what `Blamed` is about.
            by_cases hwithin : s.knownTail ≤ e.position ∧
                ∀ state ∈ replies.filterMap stateOf, state.knownTail ≤ e.position
            · exact .inl hwithin
            · refine .inr ⟨w, s, e, batch, replies, hC, hl, hc.pending, hq, ?_⟩
              by_contra hnone
              simp only [not_or, not_exists, not_and, Nat.not_lt] at hnone
              exact hwithin hnone
      have hanswered : (discipline 𝒮 C J).Persistent fun w =>
          Answered 𝒮 w₀ (.put e s.knownTail) w replies := fun w w' hg h => h.mono hg
      refine .bind (Discipline.Triple.mono (Discipline.Triple.frame observeRound_spec hanswered)
        (fun w _ h => ⟨⟨h.1, h.2.known⟩, h.2⟩) (fun _ _ _ h => h) fun _ _ _ h => h.1) fun _ => ?_
      split
      · next hq =>
          refine .ret fun w hi h => ?_
          obtain ⟨hinside, ha⟩ := h
          refine hinside.mono fun s' hs' => ⟨hs'.1, ?_, ?_⟩
          · exact (hs'.2 hq).imp_left And.left
          · exact (ha.majority hq).mono fun node _ ⟨_, _, hwrote, _⟩ => hwrote
      · refine .bind (Q := fun w _ => Inside t (Committing 𝒮 w₀ K e) w)
          (.require (fun w _ h _ => h.1.mono fun s' hs' => hs'.1) fun w _ h _ => ?_) fun _ => ?_
        · exact ⟨h.1.mono fun s' hs' => hs'.1.inOrder, nofun⟩
        refine .bind (Q := fun w _ => Inside t (Committing 𝒮 w₀ K e) w)
          (.wait (lasting_inside (steady_committing w₀ K e)).stable
            fun w x w' r hi hf _ hs => ?_) fun _ => ih
        cases resumed_of_resume hs with
        | cancelled =>
            refine ⟨.refl hi, nofun, fun err he => ?_⟩
            cases he
            exact ⟨hf.mono fun s' hs' => hs'.inOrder, nofun⟩
        | slept => exact ⟨.refl hi, fun _ _ => hf, nofun⟩

/-- The pending entry `e` is committed; it only has to be taken off the books. -/
structure Committed (𝒮 : Deployment) (w₀ : World) (K : List LogEntry → Prop) (e : LogEntry)
    (w : World) (s : NativeSequencer) : Prop where
  grow : Grow w₀ w
  entries : K s.entriesByCommand
  books : SequencerInv 𝒮 w s none
  assigned : e ∈ w.assigned
  next : s.knownTail = e.position + 1

theorem steady_committed (w₀ : World) (K : List LogEntry → Prop) (e : LogEntry) :
    Steady (Committed 𝒮 w₀ K e) :=
  fun _ _ _ hg ha h =>
    ⟨h.grow.trans hg, h.entries, h.books.mono hg ha, hg.assigned.subset h.assigned, h.next⟩

/-- The known tail moves behind the pending entry. -/
theorem Committing.commit {w₀ : World} {K : List LogEntry → Prop} {e : LogEntry}
    {s : NativeSequencer} (h : Committing 𝒮 w₀ K e w s) (hi : Inv 𝒮 w)
    (hp : e.position = s.knownTail) (hstored : w.StoredByMajority 𝒮 e.position) :
    Committed 𝒮 w₀ K e w { s with knownTail := e.position + 1 } := by
  refine ⟨h.grow, h.entries, ⟨h.books.entries, h.books.next, ?_, fun e' he' _ => ?_, nofun⟩,
    (h.books.last e rfl).1, rfl⟩
  · refine KnownTail.succ ?_ (Majority.mono hstored fun node _ hn => hi.stored node _ hn)
    rw [hp]
    exact h.books.known
  · by_cases heq : e' = e
    · subst heq
      exact ⟨hstored, Nat.lt_succ_self _⟩
    · have hcommitted := h.books.committed e' he' fun hs => heq (Option.some.inj hs).symm
      refine ⟨hcommitted.1, ?_⟩
      have hlt := hcommitted.2
      show e'.position < e.position + 1
      omega

theorem commit_spec {w₀ : World} {K : List LogEntry → Prop} {e : LogEntry} (turns : Nat) :
    Guarded 𝒮 C J t c (Inside t (Committing 𝒮 w₀ K e)) (𝒮.segment.commit e turns)
      fun w _ => Inside t (Committed 𝒮 w₀ K e) w := by
  refine .bind (commitRounds_spec turns) fun _ => ?_
  refine .bind sequencer_spec fun s => ?_
  refine .bind (Q := fun w _ => Inside t (fun w s => Committing 𝒮 w₀ K e w s ∧
      e.position = s.knownTail ∧ w.StoredByMajority 𝒮 e.position) w)
    (.require (fun w _ h hp => ?_) fun w _ h hp => ?_) fun _ => ?_
  · exact ⟨s, h.1, h.2.1, hp, h.2.2.2⟩
  · obtain ⟨hl, hc, hbehind, -⟩ := h
    refine ⟨⟨s, hl, hc.inOrder⟩, fun _ _ => hbehind.resolve_left fun hle => hp ?_⟩
    exact Nat.le_antisymm (hc.books.last e rfl).2.2 hle
  · exact modify_spec (f := fun s => { s with knownTail := e.position + 1 }) (fun _ => rfl)
      (fun _ => rfl) (steady_committed w₀ K e) fun w s hi h => h.1.commit hi h.2.1 h.2.2

/-- The committed entry is taken off the books. -/
theorem setPending_none_spec {w₀ : World} {K : List LogEntry → Prop} {e : LogEntry}
    {X : World → Error → Prop} :
    (discipline 𝒮 C J).Triple t c (Inside t (Committed 𝒮 w₀ K e)) (act (.setPending none))
      (fun w _ => Inside t (fun w s => Committed 𝒮 w₀ K e w s ∧ s.pending = none) w) X :=
  modify_spec (f := fun s => { s with pending := none }) (fun _ => rfl) (fun _ => rfl)
    ((steady_committed w₀ K e).and (steady_const _)) fun _ _ _ h =>
      ⟨⟨h.grow, h.entries, ⟨h.books.entries, h.books.next, h.books.known, h.books.committed, nofun⟩,
        h.assigned, h.next⟩, rfl⟩

/-! ## Appending a command -/

/-- The pending entry of another command is committed first, and then nothing is
pending. -/
theorem commitPending_spec {w₀ : World} {commandId : String} (turns : Nat) :
    Guarded 𝒮 C J t c
      (Inside t fun w s => Grow w₀ w ∧ Books 𝒮 w s ∧ Unassigned commandId s.entriesByCommand)
      (𝒮.segment.commitPending commandId turns)
      fun w _ => Inside t (fun w s =>
        Grow w₀ w ∧ SequencerInv 𝒮 w s none ∧ Unassigned commandId s.entriesByCommand) w := by
  refine .bind sequencer_spec fun s => ?_
  cases hpending : s.pending with
  | none =>
      refine .ret fun w _ ⟨hl, hg, hb, hu⟩ => ⟨s, hl, hg, ?_, hu⟩
      rw [Books, hpending] at hb
      exact hb
  | some e =>
      simp only
      split
      · refine .bind (Q := fun w _ => Inside t (Committed 𝒮 w₀ (Unassigned commandId) e) w)
          ((commit_spec turns).pre fun w _ h => ?_)
          fun _ => setPending_none_spec.post fun w _ _ h => ?_
        · obtain ⟨hl, hg, hb, hu⟩ := h
          rw [Books, hpending] at hb
          exact ⟨s, hl, hg, hpending, hu, hb⟩
        · exact h.mono fun s' hs' => ⟨hs'.1.grow, hs'.1.books, hs'.1.entries⟩
      · next hsame =>
          refine .ret fun w _ ⟨_, _, hb, hu⟩ => absurd (not_not.mp hsame) (hu e ?_)
          rw [hb.entries]
          exact (hb.last e hpending).1

/-- The pending entry of the command itself stays pending. -/
theorem commitPending_own {e : LogEntry} (turns : Nat) :
    Guarded 𝒮 C J t c (Inside t fun w s => Books 𝒮 w s ∧ s.pending = some e)
      (𝒮.segment.commitPending e.commandId turns)
      fun w _ => Inside t (fun w s => Books 𝒮 w s ∧ s.pending = some e) w := by
  refine .bind sequencer_spec fun s => ?_
  intro w₀ w hk h
  obtain ⟨hl, hb, hs⟩ := h
  simp only [hs, ne_eq, not_true, if_false]
  exact ⟨hk, s, hl, hb, hs⟩

/-- What was assigned while nothing is pending lies below the known tail. -/
theorem SequencerInv.next_le {s : NativeSequencer} (h : SequencerInv 𝒮 w s none)
    (hi : Inv 𝒮 w) : s.nextPosition ≤ s.knownTail := by
  rw [h.next]
  cases hlen : w.assigned.length with
  | zero => exact Nat.zero_le _
  | succ n =>
      have hlast : n < w.assigned.length := by omega
      have hpos := hi.positions n _ (List.getElem?_eq_getElem hlast)
      have hlt := (h.committed _ (List.getElem_mem hlast) nofun).2
      rw [hpos] at hlt
      exact hlt

/-- The sequencer's next position goes to a new command. -/
theorem Inv.assign (h : Inv 𝒮 w) {s : NativeSequencer} {t : TaskId} (hl : w.Locked t s)
    (hb : SequencerInv 𝒮 w s none) {e : LogEntry} (hp : e.position = s.nextPosition)
    (hu : Unassigned e.commandId s.entriesByCommand) :
    let s' := { s with
      nextPosition := s.nextPosition + 1
      entriesByCommand := s.entriesByCommand ++ [e] }
    let w' := { w.setSequencer t.node s' with assigned := w.assigned ++ [e] }
    Inv 𝒮 w' ∧ SequencerInv 𝒮 w' s' (some e) := by
  intro s' w'
  have hnode := h.fenced.fence t.node (hl.1 ▸ nofun)
  have hheld : s'.holder = some t := hl.2
  have hs : Inv 𝒮 (w.setSequencer t.node s') :=
    h.setSequencer hnode fun hn => nomatch hheld.symm.trans hn
  have hg : Grow (w.setSequencer t.node s') w' :=
    ⟨fun _ => .refl _, List.prefix_refl _, List.Subset.refl _, fun _ hr => .inl hr,
      List.prefix_append _ _, List.Subset.refl _, fun _ _ h => .inl h, List.prefix_refl _⟩
  have hall := (w.grow_setSequencer t.node s').trans hg
  rw [hb.entries] at hu
  have hlast : ∀ e' ∈ w'.assigned, e' ∈ w.assigned ∨ e' = e := fun e' he' =>
    (List.mem_append.mp he').imp_right List.mem_singleton.mp
  refine ⟨{ hs with
    positions := fun i e' hi => ?_
    commands := ?_
    store := fun n => (hs.store n).mono hg
    requests := fun requests hmem item hi => (hs.requests requests hmem item hi).mono hg
    replies := fun r hr => ?_
    fenced := ?_
    returned := fun r hr => (hs.returned r hr).mono hg }, ?_⟩
  · rcases Nat.lt_or_ge i w.assigned.length with hlt | hge
    · rw [List.getElem?_append_left hlt] at hi
      exact h.positions i e' hi
    · rw [List.getElem?_append_right hge, List.getElem?_singleton] at hi
      split at hi
      · cases hi
        rw [hp, hb.next]
        omega
      · cases hi
  · show ((w.assigned ++ [e]).map LogEntry.commandId).Nodup
    rw [List.map_append, List.map_singleton]
    refine List.Nodup.append h.commands (List.nodup_singleton _) fun id hid hid' => ?_
    obtain ⟨e', he', rfl⟩ := List.mem_map.mp hid
    exact hu e' he' (List.mem_singleton.mp hid')
  · obtain ⟨request, hreq, hinv⟩ := hs.replies r hr
    exact ⟨request, hreq, hinv.mono hg⟩
  · refine ⟨hs.fenced.fence, hs.fenced.fresh, fun _ => .inl ?_, fun n s₁ hn hh => ?_⟩
    · rw [← hnode.1]
      show ((w.setSequencer t.node s').processes t.node).sequencer ≠ none
      rw [World.processes_setSequencer_self]
      exact nofun
    · have hself : (w'.processes t.node).sequencer = some s' := by
        show ((w.setSequencer t.node s').processes t.node).sequencer = some s'
        rw [World.processes_setSequencer_self]
      have hfence := hs.fenced.fence n fun hnone => nomatch hn.symm.trans hnone
      rw [hfence.1.trans hnode.1.symm, hself] at hn
      cases hn
      exact nomatch hheld.symm.trans hh
  · refine ⟨?_, ?_, hb.known.mono hall, fun e' he' hne => ?_, fun e' he' => ?_⟩
    · show s.entriesByCommand ++ [e] = w.assigned ++ [e]
      rw [hb.entries]
    · show s.nextPosition + 1 = (w.assigned ++ [e]).length
      rw [hb.next, List.length_append, List.length_singleton]
    · rcases hlast e' he' with hold | rfl
      · exact ⟨(hb.committed e' hold nofun).1.mono hall, (hb.committed e' hold nofun).2⟩
      · exact absurd rfl hne
    · cases he'
      refine ⟨List.mem_append_right _ (List.mem_singleton_self _), ?_, ?_⟩
      · show e.position + 1 = s.nextPosition + 1
        rw [hp]
      · show e.position ≤ s.knownTail
        rw [hp]
        exact hb.next_le h

/-- Nobody but the task inside the lock relies on the sequencer. -/
theorem World.Locked.rely {s : NativeSequencer} (hl : w.Locked t s) (hi : Inv 𝒮 w) {w' : World}
    (hp : ∀ n, (w.processes n).sequencer ≠ none → (w'.processes n).sequencer ≠ none)
    (hinvoked : w'.invoked = w.invoked) {u : TaskId} (hu : u ≠ t) : Rely u w w' := by
  refine ⟨fun s' hs' => ?_, hp u.node, congrFun hinvoked u⟩
  obtain ⟨rfl, -⟩ := hi.locked_unique hl.1 hs'
  exact absurd (Option.some.inj (hs'.2.symm.trans hl.2)) hu

theorem assign_spec {commandId : String} {payload : Bytes} {X : World → Error → Prop} :
    (discipline 𝒮 C J).Triple t c
      (Inside t fun w s => SequencerInv 𝒮 w s none ∧ Unassigned commandId s.entriesByCommand)
      (act (.assign commandId payload))
      (fun w e => e.commandId = commandId ∧ Inside t (fun w s => SequencerInv 𝒮 w s (some e)) w)
      X := by
  refine .act fun w hi ⟨s, hl, hb, hu⟩ => ?_
  let e : LogEntry := ⟨𝒮.segment.segmentId, s.nextPosition, commandId, payload⟩
  let s' : NativeSequencer := { s with
    nextPosition := s.nextPosition + 1
    entriesByCommand := s.entriesByCommand ++ [e] }
  obtain ⟨hi', hb'⟩ := hi.1.assign hl hb (e := e) rfl hu
  have hexec : 𝒮.runtime.exec w t (.assign commandId payload) =
      ({ w.setSequencer t.node s' with assigned := w.assigned ++ [e] }, e) := by
    show 𝒮.exec w t (.assign commandId payload) = _
    rw [Deployment.exec, hl.sequencer_eq]
  have hg : Grow w (𝒮.runtime.exec w t (.assign commandId payload)).1 := exec_grow w t _
  rw [hexec] at hg ⊢
  have hself : ((w.setSequencer t.node s').processes t.node).sequencer = some s' := by
    rw [World.processes_setSequencer_self]
  refine ⟨kept_of hi hi' hg rfl rfl fun u hu => ?_, rfl, s', ⟨hself, hl.2⟩, hb'⟩
  refine World.Locked.rely hl hi.1 (fun n hn => ?_) ?_ hu
  swap
  · rfl
  by_cases hnode : n = t.node
  · subst hnode
    show ((w.setSequencer t.node s').processes t.node).sequencer ≠ none
    rw [hself]
    rintro ⟨⟩
  · show ((w.setSequencer t.node s').processes n).sequencer ≠ none
    rw [World.processes_setSequencer_of_ne w s' hnode]
    exact hn

/-- In a step that meets `C`, an append entered the lock while its entry was pending at
`p`, and the sequencer knew a tail behind it. -/
def Shortcut (C : Condition signature World TaskId Call Choice) (t : TaskId) (c : Call)
    (commandId : String) (payload : Bytes) (w : World) (p : Nat) : Prop :=
  ∃ w₀ s e, Grow w₀ w ∧ C.resume w₀ t c .acquire .done ∧
    (w₀.processes t.node).sequencer = some s ∧ s.pending = some e ∧ e.commandId = commandId ∧
      e.payload = payload ∧ e.position = p ∧ p < s.knownTail

/-- What an acknowledgement tells. -/
structure Acked (𝒮 : Deployment) (C : Condition signature World TaskId Call Choice) (t : TaskId)
    (c : Call) (commandId : String) (payload : Bytes) (w : World) (r : AppendResult) :
    Prop where
  outcome : OutcomeInv 𝒮 w (.appended commandId r)
  stored : w.StoredByMajority 𝒮 r.position ∨ Shortcut C t c commandId payload w r.position

theorem persistent_acked (commandId : String) (payload : Bytes) (r : AppendResult) :
    (discipline 𝒮 C J).Persistent fun w => Acked 𝒮 C t c commandId payload w r := by
  intro w w' hg h
  refine ⟨h.outcome.mono hg, h.stored.imp (fun hs => World.StoredByMajority.mono hs hg) ?_⟩
  rintro ⟨w₀, s, e, hg₀, hrest⟩
  exact ⟨w₀, s, e, hg₀.trans hg, hrest⟩

theorem commitEntry_spec {e : LogEntry} {commandId : String} {payload : Bytes}
    (hid : e.commandId = commandId) (turns : Nat) :
    Guarded 𝒮 C J t c (Inside t fun w s => SequencerInv 𝒮 w s (some e))
      (𝒮.segment.commitEntry e turns)
      fun w r => Inside t (Books 𝒮) w ∧ Acked 𝒮 C t c commandId payload w r := by
  intro w₀ w hk hp
  suffices h : Guarded 𝒮 C J t c (Inside t fun w' s => Grow w w' ∧ SequencerInv 𝒮 w' s (some e))
      (𝒮.segment.commitEntry e turns)
      fun w r => Inside t (Books 𝒮) w ∧ Acked 𝒮 C t c commandId payload w r from
    h w₀ w hk (hp.mono fun s hs => ⟨.refl w, hs⟩)
  refine .bind (Q := fun w' _ => Inside t (Committing 𝒮 w (fun _ => True) e) w')
    (modify_spec (f := fun s => { s with pending := some e }) (fun _ => rfl) (fun _ => rfl)
      (steady_committing w _ e) fun w' s _ h => ⟨h.1, rfl, trivial, ?_⟩) fun _ => ?_
  · exact ⟨h.2.entries, h.2.next, h.2.known, h.2.committed, h.2.last⟩
  refine .bind (commit_spec turns) fun _ => .bind setPending_none_spec fun _ => ?_
  refine .bind sequencer_spec fun s => .ret fun w' hi h => ?_
  obtain ⟨hl, hc, hnone⟩ := h
  have hcommitted := hc.books.committed e hc.assigned nofun
  have hbooks : Books 𝒮 w' s := by
    rw [Books, hnone]
    exact hc.books
  refine ⟨⟨s, hl, hbooks⟩, ⟨⟨e, hc.assigned, hid, rfl⟩, ?_, hc.books.known⟩, .inl hcommitted.1⟩
  exact hc.books.known.le hcommitted.2

theorem appendLocked_spec {commandId : String} {payload : Bytes} (turns : Nat) :
    Guarded 𝒮 C J t c (Inside t fun w s => Books 𝒮 w s ∧ Entered C t c w s)
      (𝒮.segment.appendLocked commandId payload turns)
      fun w r => Inside t (Books 𝒮) w ∧ Acked 𝒮 C t c commandId payload w r := by
  refine .bind sequencer_spec fun s => ?_
  cases hfound : s.entryFor commandId with
  | none =>
      have hunassigned := NativeSequencer.entryFor_none hfound
      intro w₀ w hk hp
      refine (Discipline.Triple.bind (Q := fun w' _ => Inside t (fun w' s => Grow w w' ∧
        SequencerInv 𝒮 w' s none ∧ Unassigned commandId s.entriesByCommand) w')
        ((commitPending_spec turns).pre fun w' _ h => h) fun _ => ?_)
        w₀ w hk ⟨s, hp.1, .refl w, hp.2.1, hunassigned⟩
      refine .bind (assign_spec.pre fun w' _ h => h.mono fun s' hs => hs.2) fun e => ?_
      intro w₁ w' hk' h
      exact commitEntry_spec h.1 turns w₁ w' hk' h.2
  | some e =>
      obtain ⟨hmem, hid⟩ := NativeSequencer.entryFor_some hfound
      simp only
      refine .bind (.check fun w _ h _ => ⟨⟨s, h.1, h.2.1⟩, nofun⟩) fun _ => ?_
      split
      · next hlt =>
          -- The entry is behind the known tail: committed, or still pending.
          refine .ret fun w hi h => ?_
          obtain ⟨⟨hl, hb, w₀, s₀, hg, hC, hs₀, hs⟩, hpayload⟩ := h
          have hassigned : e ∈ w.assigned := hb.entries ▸ hmem
          refine ⟨⟨s, hl, hb⟩, ⟨⟨e, hassigned, hid, rfl⟩, hb.known.le hlt, hb.known⟩, ?_⟩
          by_cases hpending : s.pending = some e
          · refine .inr ⟨w₀, s₀, e, hg, hC, hs₀, ?_, hid, hpayload, rfl, ?_⟩
            · rw [hs] at hpending
              exact hpending
            · rw [hs] at hlt
              exact hlt
          · exact .inl (hb.committed e hassigned hpending).1
      · next hge =>
          subst hid
          have hown : ∀ w, Books 𝒮 w s → s.pending = some e := by
            intro w hb
            by_contra hne
            exact hge (hb.committed e (hb.entries ▸ hmem) hne).2
          refine .bind ((commitPending_own turns).pre fun w _ h =>
            ⟨s, h.1.1, h.1.2.1, hown w h.1.2.1⟩) fun _ => ?_
          refine (commitEntry_spec rfl turns).pre fun w _ h => h.mono fun s' hs' => ?_
          have hb := hs'.1
          rw [Books, hs'.2] at hb
          exact hb

theorem append_spec {commandId : String} {payload : Bytes} (turns : Nat) :
    (discipline 𝒮 C J).Triple t c (fun _ => True) (𝒮.segment.append commandId payload turns)
      (fun w r => Acked 𝒮 C t c commandId payload w r) fun _ e => Excused 𝒮 C t c e := by
  refine .bind (sequencerFor_spec.mono (fun _ _ h => h) (fun _ _ _ h => h) fun _ _ _ h => h.2)
    fun found => ?_
  refine .bind (.ofExcept (fun w a _ h hok => h.2 hok) fun w e _ h he message hm => ?_) fun _ => ?_
  · exact absurd hm ((h.1 e he).2 message)
  · exact withLock_spec (fun r => persistent_acked commandId payload r) (appendLocked_spec turns)

end DelosLab.NativeLoglet
