import DelosLab.NativeLoglet.GenuineEntries
import DelosLab.NativeLoglet.Rules

/-!
# What the runtimes of a segment keep

The discipline of the deployment's processes and runtimes, its rules for acts and waits, and
what the process of the sequencer answers an append with.
-/

namespace DelosLab.NativeLoglet.Remote

open Async Async.Runtime Async.Coroutine
open VirtualLog (Bytes)

variable {𝒮 : Deployment} {C : Condition signature World TaskId Call Choice} {t : TaskId}
  {c : Call} {α : Type}

/-! ## The discipline -/

/-- Nothing changes that a task relies on. -/
structure Aside (w w' : NativeLoglet.World) : Prop where
  messages : w'.messages = w.messages
  assigned : w'.assigned = w.assigned
  sequencers : ∀ node, (w'.processes node).sequencer = (w.processes node).sequencer

theorem Aside.trans {w₁ w₂ w₃ : NativeLoglet.World} (h : Aside w₁ w₂) (h' : Aside w₂ w₃) :
    Aside w₁ w₃ :=
  ⟨h'.messages.trans h.messages, h'.assigned.trans h.assigned,
    fun node => (h'.sequencers node).trans (h.sequencers node)⟩

theorem Aside.grow {w : World} {w' : NativeLoglet.World} (h : Aside w.segment w') :
    Grow w { w with segment := w' } :=
  ⟨h.messages ▸ List.prefix_refl _, h.assigned ▸ List.prefix_refl _⟩

theorem Aside.rely {w : World} {w' : NativeLoglet.World} (h : Aside w.segment w') (t : TaskId) :
    Rely t w { w with segment := w' } :=
  fun s hs => ⟨s, (h.sequencers t.node).trans hs, fun hk => hk⟩

theorem aside_setStore (w : NativeLoglet.World) (node : String) (s : LogletStore) :
    Aside w (w.setStore node s) :=
  ⟨rfl, rfl, fun n => by rw [World.processes_setStore]⟩

theorem aside_setClient (w : NativeLoglet.World) (node : String) (client : NativeLogletClient) :
    Aside w (w.setClient node client) :=
  ⟨rfl, rfl, fun n => by rw [World.processes_setClient]⟩

theorem aside_written (w : NativeLoglet.World) (batch : Nat) (node : String)
    (r : Except NativeLoglet.Error Unit) : Aside w (w.written batch node r) := by
  cases r <;> exact ⟨rfl, rfl, fun _ => rfl⟩

theorem aside_accept (w : NativeLoglet.World) (node : String) (position : Nat)
    (r : Except NativeLoglet.Error Unit) : Aside w (w.accept node position r) := by
  cases r <;> exact ⟨rfl, rfl, fun _ => rfl⟩

theorem aside_reply (w : NativeLoglet.World) (batch : Nat) (node : String) (response : Response) :
    Aside w (w.reply batch node response) := ⟨rfl, rfl, fun _ => rfl⟩

theorem aside_deliver (w : NativeLoglet.World) (batch : Nat) (node : String) (request : Request) :
    Aside w (w.deliver 𝒮 batch node request) := by
  cases request with
  | put entry knownTail =>
      let result := LogletStore.put 𝒮.kind (w.store node) entry knownTail
      exact ((aside_setStore w node result.1).trans (aside_accept _ node _ result.2)).trans
        (aside_written _ batch node result.2)
  | repair entry knownTail =>
      let result := LogletStore.repair 𝒮.kind (w.store node) entry knownTail
      exact (aside_setStore w node result.1).trans (aside_written _ batch node result.2)
  | get position knownTail =>
      let result := (w.store node).get position knownTail
      exact (aside_setStore w node result.1).trans (aside_reply _ batch node (.entry result.2))
  | «seal» knownTail =>
      exact (aside_setStore w node ((w.store node).seal knownTail)).trans
        (aside_written _ batch node (.ok ()))
  | prefixTrim trimPosition =>
      exact (aside_setStore w node ((w.store node).prefixTrim trimPosition).1).trans
        (aside_written _ batch node (.ok ()))
  | state knownTail =>
      let result := (w.store node).state knownTail
      exact (aside_setStore w node result.1).trans (aside_reply _ batch node (.state result.2))
  | waitForTail localTail knownTail =>
      let result := (w.store node).state knownTail
      rw [World.deliver]
      split
      · exact (aside_setStore w node result.1).trans (aside_reply _ batch node (.state result.2))
      · exact aside_setStore w node result.1

theorem Resumed.eq_of_ne {w w' : NativeLoglet.World} {e : NativeLoglet.Wait}
    {x : NativeLoglet.Choice} {r : Except NativeLoglet.Error (NativeLoglet.WaitResult e)}
    (h : Resumed w t e x w' r) (he : e ≠ .acquire) : w' = w := by
  cases h with
  | acquired h => exact absurd rfl he
  | _ => rfl

/-- What the end of a wait does to the deployment. -/
theorem resume_cases {w w' : World} {e : Wait} {x : Choice} {r : Except Error (WaitResult e)}
    (h : resume w t e x = some (w', r)) :
    w' = w ∨ ∃ s, (w.segment.sequencer t.node).holder = none ∧
      s = { w.segment.sequencer t.node with holder := some t } ∧
      w' = { w with segment := w.segment.setSequencer t.node s } := by
  unfold resume at h
  split at h
  · obtain ⟨⟨w₁, r₁⟩, hr, heq⟩ := Option.map_eq_some_iff.mp h
    cases heq
    have hres := resumed_of_resume hr
    cases hres with
    | acquired hfree => exact .inr ⟨_, hfree, rfl, rfl⟩
    | _ => exact .inl rfl
  · cases h
    exact .inl rfl
  · split at h
    · cases h
      exact .inl rfl
    · cases h
  · cases h
    exact .inl rfl
  · cases h
    exact .inl rfl
  · cases h

theorem resume_grow {w w' : World} {e : Wait} {x : Choice} {r : Except Error (WaitResult e)}
    (h : resume w t e x = some (w', r)) : Grow w w' := by
  rcases resume_cases h with rfl | ⟨s, -, -, rfl⟩
  · exact .refl w'
  · exact ⟨List.prefix_refl _, List.prefix_refl _⟩

theorem finish_grow (w : World) (c : Call) (o : Except Error Outcome) : Grow w (finish w c o) := by
  unfold finish
  split <;> exact ⟨List.prefix_refl _, List.prefix_refl _⟩

def discipline (𝒮 : Deployment) (C : Condition signature World TaskId Call Choice) :
    Discipline (runtime 𝒮) C where
  Inv := Inv 𝒮
  Grow := Grow
  Rely := Rely
  grow_refl := Grow.refl
  grow_trans := Grow.trans
  rely_refl := Rely.refl
  rely_trans := Rely.trans
  exec_grow := fun w t a =>
    ⟨(exec_grow w.segment t a).messages, (exec_grow w.segment t a).assigned⟩
  resume_grow := resume_grow
  finish_grow := fun w _ c o => finish_grow w c o

theorem Inv.genuinely {w : World} (hi : Inv 𝒮 w) {w' : NativeLoglet.World} (h : Genuine 𝒮 w') :
    Inv 𝒮 { w with segment := w' } :=
  ⟨h, hi.appended, hi.failed⟩

theorem Aside.kept {w : World} {w' : NativeLoglet.World} (h : Aside w.segment w') (hi : Inv 𝒮 w)
    (hg : Genuine 𝒮 w') : (discipline 𝒮 C).Kept t w { w with segment := w' } :=
  ⟨hi.genuinely hg, fun u _ => h.rely u⟩

/-- The sequencer of the own process changes, and goes on to know of a committed entry. -/
theorem rely_setSequencer {w : World} {s : NativeSequencer} (s' : NativeSequencer)
    (hs : (w.segment.processes t.node).sequencer = some s)
    (hknown : 1 ≤ s.knownTail → 1 ≤ s'.knownTail) {assigned : List LogEntry} (u : TaskId) :
    Rely u w { w with segment :=
      { w.segment.setSequencer t.node s' with assigned := assigned } } := by
  intro s₁ hs₁
  by_cases hnode : u.node = t.node
  · rw [hnode, hs] at hs₁
    cases hs₁
    refine ⟨s', ?_, hknown⟩
    show ((w.segment.setSequencer t.node s').processes u.node).sequencer = some s'
    rw [hnode, World.processes_setSequencer_self]
  · refine ⟨s₁, ?_, fun hk => hk⟩
    show ((w.segment.setSequencer t.node s').processes u.node).sequencer = some s₁
    rw [World.processes_setSequencer_of_ne _ _ hnode]
    exact hs₁

theorem kept_setSequencer {w : World} (hi : Inv 𝒮 w) {s s' : NativeSequencer}
    (hs : (w.segment.processes t.node).sequencer = some s) (hbooks : Books w.segment.assigned s')
    (hknown : 1 ≤ s.knownTail → 1 ≤ s'.knownTail) :
    (discipline 𝒮 C).Kept t w { w with segment := w.segment.setSequencer t.node s' } :=
  ⟨hi.genuinely (hi.genuine.setSequencer (hi.genuine.fence t.node (hs ▸ nofun)) hbooks),
    fun u _ => rely_setSequencer s' hs hknown u⟩

/-! ## Acts and waits of the client's code -/

section Rules

variable {P : World → Prop} {X : World → Error → Prop}

theorem act_spec {a : NativeLoglet.Act} {Q : World → NativeLoglet.ActResult a → Prop}
    {Y : World → NativeLoglet.Error → Prop}
    (h : ∀ w, Inv 𝒮 w → P w →
      (discipline 𝒮 C).Kept t w { w with segment := (𝒮.exec w.segment t a).1 } ∧
        Q { w with segment := (𝒮.exec w.segment t a).1 } (𝒮.exec w.segment t a).2) :
    (discipline 𝒮 C).Ported native t c P (act a) Q Y X :=
  .perform (.act h)

/-- A wait of the client ends with what the deployment has for it. -/
theorem wait_spec {e : NativeLoglet.Wait} {Q : World → NativeLoglet.WaitResult e → Prop}
    {Y : World → NativeLoglet.Error → Prop} (hP : (discipline 𝒮 C).Stable t P)
    (h : ∀ w x w' r, Inv 𝒮 w → P w → C.resume w t c (.native e) (.native x) →
      Resumed w.segment t e x w' r → (discipline 𝒮 C).Kept t w { w with segment := w' } ∧
        (∀ a, r = .ok a → Q { w with segment := w' } a) ∧
        ∀ err, r = .error err → Y { w with segment := w' } err) :
    (discipline 𝒮 C).Ported native t c P (NativeLoglet.wait e) Q Y X := by
  refine .await (.wait hP fun w x w' r hi hp hc hs => ?_)
  cases x with
  | native x =>
      obtain ⟨⟨w₁, r₁⟩, hr, heq⟩ := Option.map_eq_some_iff.mp hs
      cases heq
      obtain ⟨hkept, hok, herror⟩ := h w x w₁ r₁ hi hp hc (resumed_of_resume hr)
      refine ⟨hkept, fun a ha => ?_, nofun⟩
      cases ha
      exact ⟨hok, herror⟩
  | unreached => cases hs
  | responded result => cases hs
  | cancel => cases hs

/-- A wait that changes nothing, when nothing need be known of what it raises. -/
theorem quiet_wait {e : NativeLoglet.Wait} (hP : (discipline 𝒮 C).Stable t P) (he : e ≠ .acquire)
    {Y : World → NativeLoglet.Error → Prop} (hY : ∀ w e, P w → Y w e) :
    (discipline 𝒮 C).Ported native t c P (NativeLoglet.wait e) (fun w _ => P w) Y X := by
  refine wait_spec hP fun w x w' r hi hp _ hr => ?_
  obtain rfl := Resumed.eq_of_ne hr he
  exact ⟨.refl hi, fun _ _ => hp, fun err _ => hY _ err hp⟩

end Rules

/-! ## Appends in the process of the sequencer -/

/-- The process of `t` has a sequencer, which satisfies `K`. -/
def Holds (t : TaskId) (K : NativeSequencer → Prop) (w : World) : Prop :=
  ∃ s, (w.segment.processes t.node).sequencer = some s ∧ K s

abbrev Present (t : TaskId) : World → Prop := Holds t fun _ => True

abbrev Committed (t : TaskId) : World → Prop := Holds t fun s => 1 ≤ s.knownTail

theorem lasting_present : (discipline 𝒮 C).Lasting t (Present t) := by
  rintro w w' - hr ⟨s, hs, -⟩
  obtain ⟨s', hs', -⟩ := hr s hs
  exact ⟨s', hs', trivial⟩

theorem Holds.sequencer_eq {K : NativeSequencer → Prop} {w : World} (h : Holds t K w) :
    ∃ s, (w.segment.processes t.node).sequencer = some s ∧ w.segment.sequencer t.node = s ∧ K s := by
  obtain ⟨s, hs, hk⟩ := h
  refine ⟨s, hs, ?_, hk⟩
  rw [World.sequencer, hs]
  rfl

/-- What is known of the entries of the segment, whoever does what. -/
abbrev Entries (entries : List LogEntry) (w : World) : Prop := ∀ e ∈ entries, e ∈ w.segment.assigned

theorem persistent_entries (entries : List LogEntry) :
    (discipline 𝒮 C).Persistent (Entries entries) :=
  fun _ _ hg h e he => hg.assigned.subset (h e he)

section Server

variable {G : World → Prop} {X : World → Error → Prop} {K K' : NativeSequencer → Prop}

/-- The triple of what a sequencer does: it keeps `G`, and may raise anything. -/
abbrev Serves (𝒮 : Deployment) (C : Condition signature World TaskId Call Choice) (t : TaskId)
    (c : Call) (P : World → Prop) (p : NativeLoglet.Co α) (Q : World → α → Prop)
    (X : World → Error → Prop) : Prop :=
  (discipline 𝒮 C).Ported native t c P p Q (fun w _ => Present t w) X

/-- An act that changes the sequencer by `f`. -/
theorem modify_spec (hG : (discipline 𝒮 C).Persistent G) {a : NativeLoglet.Act}
    {f : NativeSequencer → NativeSequencer}
    (hexec : ∀ w, (𝒮.exec w t a).1 = w.setSequencer t.node (f (w.sequencer t.node)))
    (hbooks : ∀ w s, G w → Books w.segment.assigned s → Books w.segment.assigned (f s))
    (hknown : ∀ s, 1 ≤ s.knownTail → 1 ≤ (f s).knownTail) (hK : ∀ s, K s → K' (f s)) :
    Serves 𝒮 C t c (fun w => Holds t K w ∧ G w) (act a) (fun w _ => Holds t K' w ∧ G w) X := by
  refine act_spec fun w hi h => ?_
  obtain ⟨s, hs, hseq, hk⟩ := h.1.sequencer_eq
  have hkept := kept_setSequencer (C := C) hi hs
    (hbooks w s h.2 (hi.genuine.books t.node s hs)) (hknown s)
  have hg : Grow w { w with segment := w.segment.setSequencer t.node (f s) } :=
    ⟨List.prefix_refl _, List.prefix_refl _⟩
  rw [hexec, hseq]
  refine ⟨hkept, ⟨f s, ?_, hK s hk⟩, hG _ _ hg h.2⟩
  rw [World.processes_setSequencer_self]

theorem sequencer_spec :
    Serves 𝒮 C t c (fun w => Holds t K w ∧ G w) (act .sequencer) (fun w s => (Holds t K w ∧ G w) ∧
      K s ∧ Entries s.entriesByCommand w ∧ Entries s.pending.toList w) X := by
  refine act_spec fun w hi h => ⟨.refl hi, h, ?_⟩
  obtain ⟨s, hs, hseq, hk⟩ := h.1.sequencer_eq
  have hbooks := hi.genuine.books t.node s hs
  show K (w.segment.sequencer t.node) ∧ _
  refine ⟨hseq ▸ hk, fun e he => ?_, fun e he => ?_⟩
  · change e ∈ (w.segment.sequencer t.node).entriesByCommand at he
    exact hbooks.entries e (hseq ▸ he)
  · change e ∈ (w.segment.sequencer t.node).pending.toList at he
    rw [hseq, Option.mem_toList] at he
    exact hbooks.pending e he

theorem kept_send {w : World} (hi : Inv 𝒮 w) {requests : List (String × Request)}
    (hr : ∀ item ∈ requests, Carries w.segment.assigned item.2) :
    (discipline 𝒮 C).Kept t w { w with segment :=
      { w.segment with messages := w.segment.messages ++ [requests] } } :=
  ⟨hi.genuinely (hi.genuine.send hr), fun _ _ s hs => ⟨s, hs, fun hk => hk⟩⟩

theorem grow_send (w : World) (requests : List (String × Request)) :
    Grow w { w with segment := { w.segment with messages := w.segment.messages ++ [requests] } } :=
  ⟨List.prefix_append _ _, List.prefix_refl _⟩

theorem put_spec (hG : (discipline 𝒮 C).Persistent G) {entry : LogEntry}
    (he : ∀ w, G w → entry ∈ w.segment.assigned) (knownTail : Nat) :
    Serves 𝒮 C t c (fun w => Holds t K w ∧ G w)
      (act (.send (𝒮.segment.toAll (.put entry knownTail)))) (fun w _ => Holds t K w ∧ G w) X := by
  refine act_spec fun w hi h => ⟨kept_send hi fun item hitem => ?_, h.1, ?_⟩
  · obtain ⟨node, -, rfl⟩ := List.mem_map.mp hitem
    exact he w h.2
  · exact hG _ _ (grow_send w _) h.2

theorem observe_spec (hG : (discipline 𝒮 C).Persistent G) (states : List LogServerState) :
    Serves 𝒮 C t c (fun w => Present t w ∧ G w)
      (observeAll (fun tail => act (.observeKnownTail tail)) states)
      (fun w _ => Present t w ∧ G w) X := by
  induction states with
  | nil => exact .ret fun _ _ h => h
  | cons state states ih =>
      refine .bind (modify_spec hG (f := fun s =>
        { s with knownTail := max s.knownTail state.knownTail }) (fun _ => rfl)
          (fun _ _ _ hb => ⟨hb.next, hb.entries, hb.pending⟩) (fun s hs => ?_) fun _ h => h)
            fun _ => ih
      exact Nat.le_trans hs (Nat.le_max_left _ _)

theorem commitRounds_spec (hG : (discipline 𝒮 C).Persistent G) {entry : LogEntry}
    (he : ∀ w, G w → entry ∈ w.segment.assigned) (turns : Nat) :
    Serves 𝒮 C t c (fun w => Present t w ∧ G w) (𝒮.segment.commitRounds entry turns)
      (fun w _ => Present t w ∧ G w) X := by
  have hstable : (discipline 𝒮 C).Stable t fun w => Present t w ∧ G w :=
    (lasting_present.and hG.lasting).stable
  induction turns with
  | zero => exact .bind (quiet_wait (e := .never) hstable nofun fun _ _ h => h.1) nofun
  | succ turns ih =>
      refine .bind (sequencer_spec) fun s => .bind ((put_spec hG he s.knownTail).pre
        fun _ _ h => h.1) fun batch => .bind (quiet_wait (e := .gather batch 𝒮.segment.members)
          hstable nofun fun _ _ h => h.1) fun replies => .bind (observe_spec hG _) fun _ => ?_
      split
      · exact .ret fun _ _ h => h
      · exact .bind (.require (fun _ _ h _ => h) fun _ _ h _ => h.1) fun _ =>
          .bind (quiet_wait (e := .sleep) hstable nofun fun _ _ h => h.1) fun _ => ih

theorem commit_spec (hG : (discipline 𝒮 C).Persistent G) {entry : LogEntry}
    (he : ∀ w, G w → entry ∈ w.segment.assigned) (turns : Nat) :
    Serves 𝒮 C t c (fun w => Present t w ∧ G w) (𝒮.segment.commit entry turns)
      (fun w _ => Committed t w ∧ G w) X := by
  refine .bind (commitRounds_spec hG he turns) fun _ => .bind (sequencer_spec) fun s =>
    .bind (.require (Q := fun w _ => Present t w ∧ G w) (fun _ _ h _ => h.1)
      fun _ _ h _ => h.1.1) fun _ => ?_
  exact modify_spec hG (f := fun s => { s with knownTail := entry.position + 1 }) (fun _ => rfl)
    (fun _ _ _ hb => ⟨hb.next, hb.entries, hb.pending⟩) (fun _ _ => Nat.succ_pos _)
      fun _ _ => Nat.succ_pos _

theorem setPending_spec (hG : (discipline 𝒮 C).Persistent G) {entry : Option LogEntry}
    (he : ∀ w, G w → Entries entry.toList w) :
    Serves 𝒮 C t c (fun w => Holds t K w ∧ G w) (act (.setPending entry))
      (fun w _ => Present t w ∧ G w) X :=
  modify_spec hG (f := fun s => { s with pending := entry }) (fun _ => rfl)
    (fun w _ hg hb => ⟨hb.next, hb.entries, fun e hp => he w hg e (Option.mem_toList.mpr hp)⟩)
      (fun _ hk => hk) fun _ _ => trivial

theorem commitPending_spec (hG : (discipline 𝒮 C).Persistent G) (commandId : String)
    (turns : Nat) :
    Serves 𝒮 C t c (fun w => Present t w ∧ G w) (𝒮.segment.commitPending commandId turns)
      (fun w _ => Present t w ∧ G w) X := by
  refine .bind sequencer_spec fun s => ?_
  cases hpending : s.pending with
  | none => exact .ret fun _ _ h => h.1
  | some entry =>
      simp only
      split
      · refine .bind ((commit_spec (hG.and (persistent_entries [entry])) (fun w h => h.2 entry
          (List.mem_singleton_self _)) turns).pre fun w _ h => ⟨h.1.1, h.1.2, ?_⟩) fun _ =>
            (setPending_spec hG (by rintro w - e ⟨⟩)).pre fun _ _ h => ⟨h.1, h.2.1⟩
        exact h.2.2.2
      · exact .ret fun _ _ h => h.1

theorem commitEntry_spec (hG : (discipline 𝒮 C).Persistent G) {entry : LogEntry}
    (he : ∀ w, G w → entry ∈ w.segment.assigned) (turns : Nat) :
    Serves 𝒮 C t c (fun w => Present t w ∧ G w) (𝒮.segment.commitEntry entry turns)
      (fun w r => Present t w ∧ 1 ≤ r.knownTail) X := by
  refine .bind (setPending_spec hG fun w hg e hmem => ?_) fun _ =>
    .bind (commit_spec hG he turns) fun _ => ?_
  · cases Option.mem_toList.mp hmem
    exact he w hg
  · have hclear : Serves 𝒮 C t c (fun w => Committed t w ∧ G w) (act (.setPending none))
        (fun w _ => Committed t w ∧ G w) X :=
      modify_spec hG (f := fun s => { s with pending := none }) (fun _ => rfl)
        (fun _ _ _ hb => ⟨hb.next, hb.entries, nofun⟩) (fun _ h => h) fun _ h => h
    refine .bind hclear fun _ => .bind sequencer_spec fun s => .ret fun w _ h => ⟨?_, h.2.1⟩
    obtain ⟨s, hs, -⟩ := h.1.1
    exact ⟨s, hs, trivial⟩

theorem assign_spec (commandId : String) (payload : Bytes) :
    Serves 𝒮 C t c (Present t) (act (.assign commandId payload))
      (fun w e => Present t w ∧ Entries [e] w) X := by
  refine act_spec fun w hi h => ?_
  obtain ⟨s, hs, hseq, -⟩ := h.sequencer_eq
  let entry : LogEntry := ⟨𝒮.segment.segmentId, s.nextPosition, commandId, payload⟩
  let s' : NativeSequencer := { s with
    nextPosition := s.nextPosition + 1
    entriesByCommand := s.entriesByCommand ++ [entry] }
  have hexec : (𝒮.exec w.segment t (.assign commandId payload)) =
      ({ w.segment.setSequencer t.node s' with assigned := w.segment.assigned ++ [entry] },
        entry) := by
    simp only [Deployment.exec, hseq]
    rfl
  rw [hexec]
  refine ⟨⟨hi.genuinely (hi.genuine.assign hs commandId payload),
    fun u _ => rely_setSequencer s' hs (fun hk => hk) u⟩, ⟨s', ?_, trivial⟩, fun e he => ?_⟩
  · show ((w.segment.setSequencer t.node s').processes t.node).sequencer = some s'
    rw [World.processes_setSequencer_self]
  · obtain rfl := List.mem_singleton.mp he
    exact List.mem_append_right _ (List.mem_singleton_self _)

theorem appendLocked_spec (commandId : String) (payload : Bytes) (turns : Nat) :
    Serves 𝒮 C t c (Present t) (𝒮.segment.appendLocked commandId payload turns)
      (fun w r => Present t w ∧ 1 ≤ r.knownTail) X := by
  have hnothing : (discipline 𝒮 C).Persistent fun _ => True := fun _ _ _ h => h
  refine .bind ((sequencer_spec (G := fun _ => True)).pre fun _ _ h => ⟨h, trivial⟩) fun s => ?_
  cases hfound : s.entryFor commandId with
  | some entry =>
      obtain ⟨hmem, -⟩ := NativeSequencer.entryFor_some hfound
      refine .bind (.require (Q := fun w _ => Present t w ∧ Entries [entry] w)
        (fun w _ h _ => ⟨h.1.1, fun e he => ?_⟩) fun _ _ h _ => h.1.1) fun _ => ?_
      · obtain rfl := List.mem_singleton.mp he
        exact h.2.2.1 _ hmem
      · split
        · next hlt => exact .ret fun _ _ h => ⟨h.1, Nat.lt_of_le_of_lt (Nat.zero_le _) hlt⟩
        · exact .bind (commitPending_spec (persistent_entries [entry]) commandId turns) fun _ =>
            commitEntry_spec (persistent_entries [entry])
              (fun w h => h entry (List.mem_singleton_self _)) turns
  | none =>
      refine .bind ((commitPending_spec hnothing commandId turns).pre fun _ _ h => h.1) fun _ => ?_
      refine .bind ((assign_spec commandId payload).pre fun _ _ h => h.1) fun entry => ?_
      exact commitEntry_spec (persistent_entries [entry])
        (fun w h => h entry (List.mem_singleton_self _)) turns

theorem present_setSequencer (w : World) (t : TaskId) (s : NativeSequencer) :
    Present t { w with segment := w.segment.setSequencer t.node s } :=
  ⟨s, by rw [World.processes_setSequencer_self], trivial⟩

theorem sequencerFor_spec {Y : World → NativeLoglet.Error → Prop} :
    (discipline 𝒮 C).Ported native t c (fun _ => True) (act .sequencerFor)
      (fun w r => r = .ok () → Present t w) Y X := by
  refine act_spec fun w hi _ => ?_
  simp only [Deployment.exec, Deployment.sequencerFor]
  split
  · exact ⟨.refl hi, by rintro ⟨⟩⟩
  next hnode =>
    split
    · exact ⟨.refl hi, by rintro ⟨⟩⟩
    next hinc =>
      have hnode := not_not.mp hnode
      have hinc := not_not.mp hinc
      cases hs : (w.segment.processes t.node).sequencer with
      | some s =>
          have hseq : w.segment.sequencer t.node = s := by
            rw [World.sequencer, hs]
            rfl
          rw [hseq]
          exact ⟨kept_setSequencer hi hs (hi.genuine.books t.node s hs) fun h => h,
            fun _ => present_setSequencer w t s⟩
      | none =>
          -- The process has just come up with the configured incarnation.
          have hseq : w.segment.sequencer t.node = .new := by
            rw [World.sequencer, hs]
            rfl
          have hnil : w.segment.assigned = [] :=
            hi.genuine.assigned_nil (by rw [hnode, hs]) (by rw [hnode, hinc])
          rw [hseq]
          refine ⟨⟨hi.genuinely (hi.genuine.setSequencer ⟨hnode.symm, hinc.symm⟩
            ⟨by rw [hnil]; rfl, by rintro _ ⟨⟩, by rintro _ ⟨⟩⟩), fun u _ s hu => ⟨s, ?_, fun h => h⟩⟩,
            fun _ => present_setSequencer w t .new⟩
          have hne : u.node ≠ t.node := by
            intro heq
            rw [heq, hs] at hu
            cases hu
          rw [World.processes_setSequencer_of_ne _ _ hne]
          exact hu

theorem acquire_spec : (discipline 𝒮 C).Ported native t c (Present t) (NativeLoglet.wait .acquire)
    (fun w _ => Present t w) (fun _ _ => True) X := by
  refine wait_spec lasting_present.stable fun w x w' r hi hp _ hr => ?_
  cases hr with
  | cancelled => exact ⟨.refl hi, nofun, fun _ _ => trivial⟩
  | acquired hfree =>
      obtain ⟨s, hs, hseq, -⟩ := hp.sequencer_eq
      have hbooks := hi.genuine.books t.node s hs
      rw [hseq]
      exact ⟨kept_setSequencer hi hs ⟨hbooks.next, hbooks.entries, hbooks.pending⟩ fun h => h,
        fun _ _ => present_setSequencer w t _, nofun⟩

/-- The append of an entry ends with the known tail of a sequencer that has committed it. -/
theorem registryAppend_spec (commandId : String) (payload : Bytes) (turns : Nat) :
    (discipline 𝒮 C).Ported native t c (fun _ => True) (𝒮.segment.append commandId payload turns)
      (fun _ r => 1 ≤ r.knownTail) (fun _ _ => True) X := by
  refine .bind sequencerFor_spec fun found => .bind (.ofExcept (Q := fun w _ => Present t w)
    (fun w _ _ h hr => h hr) fun _ _ _ _ _ => trivial) fun _ => .bind acquire_spec fun _ => ?_
  refine .bind (Q := fun w r => Present t w ∧ ∀ a, r = .ok a → 1 ≤ a.knownTail)
    (.handle (.bind (appendLocked_spec commandId payload turns) fun a => .ret fun w _ h =>
      ⟨h.1, fun _ ha => Except.ok.inj ha ▸ h.2⟩) fun e => .ret fun _ _ h => ⟨h, nofun⟩)
      fun result => ?_
  refine .bind (Q := fun _ _ => ∀ a, result = .ok a → 1 ≤ a.knownTail) ?_ fun _ =>
    .ofExcept (fun _ a _ h ha => h a ha) fun _ _ _ _ _ => trivial
  have hrelease : Serves 𝒮 C t c (fun w => Present t w ∧ ∀ a, result = .ok a → 1 ≤ a.knownTail)
      (act .release) (fun w _ => Present t w ∧ ∀ a, result = .ok a → 1 ≤ a.knownTail) X :=
    modify_spec (Discipline.persistent_const _) (f := fun s => { s with holder := none })
      (fun _ => rfl) (fun _ _ _ hb => ⟨hb.next, hb.entries, hb.pending⟩) (fun _ h => h)
        fun _ h => h
  exact hrelease.mono (fun _ _ h => h) (fun _ _ _ h => h.2) fun _ _ _ _ => trivial

end Server

end DelosLab.NativeLoglet.Remote
