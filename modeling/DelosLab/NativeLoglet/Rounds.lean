import DelosLab.Async.Sequential
import DelosLab.NativeLoglet.Durability

/-!
# Commit rounds

The LogServers that have not trimmed the pending position accept its put, and the others
refuse it for ever. So a round gathers a quorum exactly when the watermarks of a majority
have not passed the pending entry: a client that learns the tail from the LogServers and
trims it away before the sequencer has counted its acknowledgements leaves the sequencer
with rounds that end in neither a quorum nor seals. The operations of the stores are
atomic in these runs.
-/

namespace DelosLab.NativeLoglet

open Async Async.Coroutine Async.Runtime Consensus

/-! ## What a LogServer accepts -/

namespace LogletStore

/-- An open store in which nothing but the watermark stands against a put. -/
structure Awaits (s : LogletStore) (entry : LogEntry) : Prop where
  «open» : s.sealed = false
  swept : s.Swept
  position : ∀ e ∈ s.entries, e.position = entry.position → e = entry
  command : ∀ e ∈ s.entries, e.commandId = entry.commandId → e = entry

/-- A known tail at the entry excuses every missing predecessor. -/
theorem not_lacksPredecessor {s : LogletStore} {entry : LogEntry}
    (h : entry.position ≤ s.knownTail) : s.lacksPredecessor entry = false := by
  by_contra hlacks
  simp only [lacksPredecessor, Bool.not_eq_false, Bool.and_eq_true, decide_eq_true_eq] at hlacks
  obtain ⟨⟨hpos, -⟩, hle⟩ := hlacks
  omega

theorem memory_put_ok_iff {s : LogletStore} {entry : LogEntry} {knownTail : Nat}
    (h : s.Awaits entry) (hk : entry.position ≤ knownTail) :
    (MemoryLogletStore.put s entry knownTail).2 = .ok () ↔ s.trimmedPrefix ≤ entry.position := by
  have hlacks : (s.observeKnownTail knownTail).lacksPredecessor entry = false :=
    not_lacksPredecessor (Nat.le_trans hk (Nat.le_max_right _ _))
  have hopen : (s.observeKnownTail knownTail).sealed = false := h.open
  rw [MemoryLogletStore.put]
  simp only [hopen, hlacks, Bool.false_eq_true, if_false]
  split
  · next existing hat =>
      obtain ⟨hmem, hpos⟩ := entryAt_some hat
      rw [if_neg (not_not_intro (h.position existing hmem hpos))]
      exact iff_of_true rfl (hpos ▸ h.swept existing hmem)
  · next hnone =>
      rw [MemoryLogletStore.write]
      split
      · next hlt => exact iff_of_false (by rintro ⟨⟩) (Nat.not_le_of_lt hlt)
      · next hge =>
          rw [hnone]
          exact iff_of_true rfl (Nat.le_of_not_lt hge)

theorem sqlite_put_ok_iff {s : LogletStore} {entry : LogEntry} {knownTail : Nat}
    (h : s.Awaits entry) (hk : entry.position ≤ knownTail) :
    (SQLiteLogletStore.put s entry knownTail).2 = .ok () ↔ s.trimmedPrefix ≤ entry.position := by
  have hlacks : (s.observeKnownTail knownTail).lacksPredecessor entry = false :=
    not_lacksPredecessor (Nat.le_trans hk (Nat.le_max_right _ _))
  have hopen : (s.observeKnownTail knownTail).sealed = false := h.open
  rw [SQLiteLogletStore.put, SQLiteLogletStore.write]
  simp only [hopen, hlacks, Bool.and_false, Bool.false_eq_true, if_false]
  split
  · next hlt => exact iff_of_false (by rintro ⟨⟩) (Nat.not_le_of_lt hlt)
  · next hge =>
      have hle : s.trimmedPrefix ≤ entry.position := Nat.le_of_not_lt hge
      split
      · next existing hat =>
          obtain ⟨hmem, hpos⟩ := entryAt_some hat
          rw [if_neg (not_not_intro (h.position existing hmem hpos))]
          exact iff_of_true rfl hle
      · next hnone =>
          split
          · next commandPosition hcommand =>
              -- The command stands at no other position.
              obtain ⟨e, hmem, hid, hpos⟩ := positionForCommand_some hcommand
              have he := h.command e hmem hid
              exact absurd (congrArg LogEntry.position he) (entryAt_none hnone e hmem)
          · exact iff_of_true rfl hle

/-- Both stores accept an awaited put unless its position was trimmed. -/
theorem put_ok_iff (kind : StoreKind) {s : LogletStore} {entry : LogEntry} {knownTail : Nat}
    (h : s.Awaits entry) (hk : entry.position ≤ knownTail) :
    (put kind s entry knownTail).2 = .ok () ↔ s.trimmedPrefix ≤ entry.position := by
  cases kind with
  | memory => exact memory_put_ok_iff h hk
  | sqlite => exact sqlite_put_ok_iff h hk

end LogletStore

/-! ## What every store keeps -/

namespace LogletStore

/-- A property of the stores that no operation of theirs breaks. -/
structure Kept (kind : StoreKind) (I : LogletStore → Prop) : Prop where
  observeKnownTail : ∀ s n, I s → I (s.observeKnownTail n)
  put : ∀ s entry n, I s → I (put kind s entry n).1
  repair : ∀ s entry n, I s → I (repair kind s entry n).1
  «seal» : ∀ s n, I s → I (s.seal n)
  prefixTrim : ∀ s n, I s → I (s.prefixTrim n).1
  reopen : ∀ s, I s → I s.reopen

theorem kept_swept (kind : StoreKind) : Kept kind Swept where
  observeKnownTail := fun _ _ h => h
  put := fun s entry n h => (put_effect kind s entry n).swept h
  repair := fun s entry n h => (repair_effect kind s entry n).swept h
  «seal» := fun _ _ h => h
  prefixTrim := fun s n _ => swept_prefixTrim s n
  reopen := fun _ h => h

theorem PutEffect.trimmedPrefix {s s' : LogletStore} {entry : LogEntry} {r : Except Error Unit}
    (h : PutEffect s entry s' r) : s'.trimmedPrefix = s.trimmedPrefix := by
  cases h with
  | added hopen htrim hfree h => rfl
  | _ => rfl

theorem RepairEffect.trimmedPrefix {s s' : LogletStore} {entry : LogEntry}
    {r : Except Error Unit} (h : RepairEffect s entry s' r) :
    s'.trimmedPrefix = s.trimmedPrefix := by
  cases h with
  | added htrim hfree => rfl
  | _ => rfl

/-- Watermarks never fall. -/
theorem kept_trimmed (kind : StoreKind) (watermark : Nat) :
    Kept kind fun s => watermark ≤ s.trimmedPrefix where
  observeKnownTail := fun _ _ h => h
  put := fun s entry n h => Nat.le_trans h (Nat.le_of_eq (put_effect kind s entry n).trimmedPrefix.symm)
  repair := fun s entry n h =>
    Nat.le_trans h (Nat.le_of_eq (repair_effect kind s entry n).trimmedPrefix.symm)
  «seal» := fun _ _ h => h
  prefixTrim := fun _ _ h => Nat.le_trans h (Nat.le_max_left _ _)
  reopen := fun _ h => h

end LogletStore

/-! ## Stores in a run -/

open LogletStore

section Kept

variable {𝒮 : Deployment} {I : LogletStore → Prop} {w : World} {node : String}

/-- A change of a process that leaves its store alone. -/
theorem World.store_setProcess {process : Process} (h : process.store = w.store node)
    (n : String) : (w.setProcess node process).store n = w.store n := by
  by_cases hn : n = node
  · rw [hn, World.store, World.setProcess_self]
    exact h
  · rw [World.store, World.setProcess_of_ne _ _ hn, World.store]

theorem World.store_setSequencer (w : World) (node : String) (s : NativeSequencer) (n : String) :
    (w.setSequencer node s).store n = w.store n := by
  have h : { w.processes node with sequencer := some s }.store = w.store node := rfl
  exact World.store_setProcess h n

theorem World.store_setClient (w : World) (node : String) (c : NativeLogletClient) (n : String) :
    (w.setClient node c).store n = w.store n := by
  have h : { w.processes node with client := c }.store = w.store node := rfl
  exact World.store_setProcess h n

theorem store_exec (w : World) (t : TaskId) (a : Act) (n : String) :
    (𝒮.exec w t a).1.store n = w.store n := by
  cases a with
  | sequencerFor =>
      rw [Deployment.exec, Deployment.sequencerFor]
      split
      · rfl
      · split
        · rfl
        · exact w.store_setSequencer _ _ n
  | observeKnownTail tail => exact w.store_setSequencer _ _ n
  | assign commandId payload => exact w.store_setSequencer _ _ n
  | setPending entry => exact w.store_setSequencer _ _ n
  | setKnownTail tail => exact w.store_setSequencer _ _ n
  | release => exact w.store_setSequencer _ _ n
  | observeTail tail => exact w.store_setClient _ _ n
  | observeTrimmed watermark => exact w.store_setClient _ _ n
  | _ => rfl

theorem kept_setStore (h : I (w.store node)) {n : String} {s : LogletStore}
    (hs : I (w.store n) → I s) : I ((w.setStore n s).store node) := by
  by_cases hn : node = n
  · rw [hn, World.store_setStore]
    exact hs (hn ▸ h)
  · rw [World.store_setStore_of_ne w s hn]
    exact h

theorem World.store_written (batch : Nat) (n : String) (r : Except Error Unit) :
    (w.written batch n r).store node = w.store node := by
  cases r with
  | ok _ => rfl
  | error e => rfl

theorem World.store_accept (n : String) (p : Nat) (r : Except Error Unit) :
    (w.accept n p r).store node = w.store node := by
  cases r with
  | ok _ => rfl
  | error e => rfl

theorem kept_deliver (hI : Kept 𝒮.kind I) (h : I (w.store node)) (batch : Nat) (n : String)
    (request : Request) : I ((w.deliver 𝒮 batch n request).store node) := by
  cases request with
  | put entry knownTail =>
      rw [World.deliver, World.store_written, World.store_accept]
      exact kept_setStore h (hI.put _ _ _)
  | repair entry knownTail =>
      rw [World.deliver, World.store_written]
      exact kept_setStore h (hI.repair _ _ _)
  | get position knownTail => exact kept_setStore h (hI.observeKnownTail _ _)
  | «seal» knownTail => exact kept_setStore h (hI.seal _ _)
  | prefixTrim trimPosition => exact kept_setStore h (hI.prefixTrim _ _)
  | state knownTail => exact kept_setStore h (hI.observeKnownTail _ _)
  | waitForTail localTail knownTail =>
      rw [World.deliver]
      split
      · exact kept_setStore h (hI.observeKnownTail _ _)
      · exact kept_setStore h (hI.observeKnownTail _ _)

/-- What no operation of a store breaks, no step of a run breaks. -/
theorem keeps_store (hI : Kept 𝒮.kind I) (node : String) :
    𝒮.runtime.Keeps Condition.any fun w => I (w.store node) where
  start := by
    intro w t c w' p h _ hst
    cases hst
    exact h
  exec := fun w t a h => (store_exec w t a node).symm ▸ h
  resume := by
    intro w t c e x w' r h _ hs
    cases resumed_of_resume hs with
    | acquired hfree => exact (w.store_setSequencer _ _ node).symm ▸ h
    | _ => exact h
  finish := by
    intro w t c o h
    cases o with
    | ok outcome => exact h
    | error e => exact h
  disturb := by
    intro w d w' h hd
    cases d with
    | deliver batch n =>
        obtain ⟨request, -, rfl⟩ := Option.map_eq_some_iff.mp hd
        exact kept_deliver hI h batch n request
    | respond batch n =>
        change (if (batch, n) ∈ w.handling then (w.request batch n).map
          (w.respond batch n) else none) = some w' at hd
        split at hd
        · obtain ⟨request, -, rfl⟩ := Option.map_eq_some_iff.mp hd
          exact kept_setStore h (hI.observeKnownTail _ _)
        · cases hd
    | learn n returned =>
        have hd : Deployment.learn w n w.completed[returned]? = some w' := hd
        unfold Deployment.learn at hd
        split at hd
        · cases hd
          exact (w.store_setClient _ _ node).symm ▸ h
        · cases hd
    | restart n incarnation =>
        have hd : 𝒮.restart w n incarnation = some w' := hd
        rw [Deployment.restart] at hd
        split at hd
        · cases hd
          by_cases hn : node = n
          · rw [hn, World.store, World.setProcess_self]
            exact hI.reopen _ (hn ▸ h)
          · rw [World.store, World.setProcess_of_ne _ _ hn]
            exact h
        · cases hd

end Kept

/-! ## The answers to a put -/

/-- How `node` answers its request of a batch that it handles in `s`: it raises, or it
writes and reads its state in some later moment. -/
inductive Answers (𝒮 : Deployment) (batch : Nat) (node : String) (s : SystemState) :
    Response → Prop
  | raised {s' : SystemState} {e : Error}
      (hs : 𝒮.runtime.step s (.disturb (.deliver batch node)) = some s')
      (hr : s'.world.replies = ⟨batch, node, .error e⟩ :: s.world.replies) :
      Answers 𝒮 batch node s (.error e)
  | read {s₁ s₂ s₃ : SystemState} {state : LogServerState}
      (hs : 𝒮.runtime.step s (.disturb (.deliver batch node)) = some s₁)
      (hw : s₁.world.handling = (batch, node) :: s.world.handling)
      (hl : 𝒮.runtime.Later Condition.any s₁ s₂)
      (hr : 𝒮.runtime.step s₂ (.disturb (.respond batch node)) = some s₃)
      (hreply : s₃.world.replies = ⟨batch, node, .state state⟩ :: s₂.world.replies) :
      Answers 𝒮 batch node s (.state state)

/-- What a round has gathered when every member has answered. -/
def Segment.gathered (self : Segment) (response : String → Response) : List (Option Response) :=
  self.members.map fun node => some (response node)

theorem mem_gathered_states {self : Segment} {response : String → Response}
    {state : LogServerState} :
    state ∈ (self.gathered response).filterMap stateOf ↔
      ∃ m ∈ self.members, response m = .state state := by
  rw [Segment.gathered, List.filterMap_map, List.mem_filterMap]
  constructor
  · rintro ⟨m, hm, hstate⟩
    refine ⟨m, hm, ?_⟩
    cases hr : response m with
    | state s =>
        simp only [Function.comp_apply, hr, stateOf, Option.some.injEq] at hstate
        rw [hstate]
    | entry e => simp [hr, stateOf] at hstate
    | error e => simp [hr, stateOf] at hstate
  · rintro ⟨m, hm, hstate⟩
    exact ⟨m, hm, by rw [Function.comp_apply, hstate, stateOf]⟩

section Answers

variable {𝒮 : Deployment} {s s' : SystemState} {w w' : World} {batch : Nat} {node : String}
  {entry : LogEntry} {knownTail : Nat} {response : String → Response}

theorem step_deliver {request : Request} (hreq : s.world.request batch node = some request)
    (hs : 𝒮.runtime.step s (.disturb (.deliver batch node)) = some s') :
    s'.world = s.world.deliver 𝒮 batch node request := by
  obtain ⟨w, hd, rfl⟩ := Option.map_eq_some_iff.mp hs
  have hd : (s.world.request batch node).map (s.world.deliver 𝒮 batch node) = some w := hd
  rw [hreq] at hd
  exact (Option.some.inj hd).symm

/-- A put is answered with a state exactly when the store accepts it. -/
theorem Answers.accepts_iff {r : Response} (h : Answers 𝒮 batch node s r)
    (hreq : s.world.request batch node = some (.put entry knownTail)) :
    (stateOf (some r)).isSome ↔
      (LogletStore.put 𝒮.kind (s.world.store node) entry knownTail).2 = .ok () := by
  have hreplies : ∀ {w : World} (n : String) (p : Nat) (r : Except Error Unit),
      (w.accept n p r).replies = w.replies ∧ (w.accept n p r).handling = w.handling := by
    intro w n p r
    cases r with
    | ok _ => exact ⟨rfl, rfl⟩
    | error e => exact ⟨rfl, rfl⟩
  cases h with
  | raised hs hr =>
      rw [step_deliver hreq hs, World.deliver] at hr
      refine iff_of_false (by rintro ⟨⟩) fun hok => ?_
      simp only [hok, World.written, hreplies] at hr
      exact List.ne_cons_self hr
  | read hs hw hl hr hreply =>
      rw [step_deliver hreq hs, World.deliver] at hw
      refine iff_of_true rfl ?_
      cases hput : (LogletStore.put 𝒮.kind (s.world.store node) entry knownTail).2 with
      | ok _ => rfl
      | error e =>
          simp only [hput, World.written, World.reply, hreplies] at hw
          exact absurd hw List.ne_cons_self

theorem request_toAll {request : Request}
    (hb : w.messages[batch]? = some (𝒮.segment.toAll request))
    (hm : node ∈ 𝒮.segment.members) : w.request batch node = some request := by
  rw [World.request, hb]
  show (𝒮.segment.toAll request).lookup node = some request
  rw [Segment.toAll]
  generalize 𝒮.segment.members = members at hm
  induction members with
  | nil => cases hm
  | cons m members ih =>
      rw [List.map_cons, List.lookup_cons]
      by_cases hn : node = m
      · rw [beq_iff_eq.mpr hn]
      · rw [beq_eq_false_iff_ne.mpr hn]
        exact ih ((List.mem_cons.mp hm).resolve_left hn)

theorem Inv.put_of_batch (h : Inv 𝒮 w)
    (hb : w.messages[batch]? = some (𝒮.segment.toAll (.put entry knownTail)))
    (hm : node ∈ 𝒮.segment.members) :
    entry ∈ w.assigned ∧ entry.position ≤ knownTail := by
  have hr := h.requests _ (List.mem_of_getElem? hb) (node, .put entry knownTail)
    (List.mem_map.mpr ⟨node, hm, rfl⟩)
  exact ⟨hr.1, hr.2.1⟩

/-- Everything that is stored was assigned, so nothing stands against an assigned entry. -/
theorem Inv.awaits (h : Inv 𝒮 w) (ha : entry ∈ w.assigned)
    (hopen : (w.store node).sealed = false) (hswept : (w.store node).Swept) :
    (w.store node).Awaits entry where
  «open» := hopen
  swept := hswept
  position := fun _ he hp => h.eq_of_position ((h.store node).entries _ he) ha hp
  command := fun _ he hc => h.eq_of_command ((h.store node).entries _ he) ha hc

/-- **The members that accept a round's put** are those whose watermark has not passed it. -/
theorem accepting_eq_countP {handled : String → SystemState}
    (h : 𝒮.runtime.ReachableUnder trimsReturned (· = World.initial 𝒮) s)
    (hb : s.world.messages[batch]? = some (𝒮.segment.toAll (.put entry knownTail)))
    (hl : ∀ m ∈ 𝒮.segment.members, 𝒮.runtime.Later trimsReturned s (handled m))
    (hopen : ∀ m ∈ 𝒮.segment.members, ((handled m).world.store m).sealed = false)
    (hans : ∀ m ∈ 𝒮.segment.members, Answers 𝒮 batch m (handled m) (response m)) :
    ((𝒮.segment.gathered response).filterMap stateOf).length =
      𝒮.segment.members.countP
        fun m => ((handled m).world.store m).trimmedPrefix ≤ entry.position := by
  have hs := sound_trimsReturned.reachable (fun w hw => ⟨hw ▸ inv_initial 𝒮, trivial⟩) h
  rw [List.length_filterMap_eq_countP, Segment.gathered, List.countP_map]
  refine List.countP_congr fun m hm => ?_
  obtain ⟨hs', hg⟩ := sound_trimsReturned.grow_later hs (hl m hm)
  have hg : Grow s.world (handled m).world := hg
  obtain ⟨ha, hle⟩ := Inv.put_of_batch hs.1.1 hb hm
  have hreq := hg.request (request_toAll hb hm)
  have hswept : ((handled m).world.store m).Swept := by
    refine (keeps_store (kept_swept 𝒮.kind) m).reachable (fun w hw => ?_)
      ((h.later (hl m hm)).mono fun _ _ _ _ _ => meets_any _ _)
    subst hw
    exact fun _ he => nomatch he
  have hput := put_ok_iff 𝒮.kind
    (Inv.awaits hs'.1.1 (hg.assigned.subset ha) (hopen m hm) hswept) hle
  rw [decide_eq_true_eq, ← hput]
  exact (hans m hm).accepts_iff hreq

end Answers

/-! ## The rest of an append -/

/-- One task alone, from when its round has gathered `replies`; it gets no other answer. -/
def alone (𝒮 : Deployment) (t : TaskId) (replies : List (Option Response)) :
    Handler signature World where
  act := fun w a => 𝒮.exec w t a
  wait := fun w e => (w, match e with
    | .gather _ _ => .ok replies
    | .acquire => .error .cancelled
    | .sleep => .error .cancelled
    | .entry _ _ => .error .cancelled
    | .state _ _ => .error .cancelled
    | .firstState _ => .error .cancelled
    | .never => .error .cancelled)

section Alone

variable {𝒮 : Deployment} {t : TaskId} {replies : List (Option Response)} {w : World}
  {entry : LogEntry}

theorem run_sequencer (w : World) :
    (alone 𝒮 t replies).run w (act .sequencer) = (w, .ok (w.sequencer t.node)) := rfl

theorem World.sequencer_setSequencer (w : World) (node : String) (s : NativeSequencer) :
    (w.setSequencer node s).sequencer node = s := by
  rw [World.sequencer, World.setSequencer, World.setProcess_self]
  rfl

/-- The tail of a sequencer that observes what it gathered. -/
def observed (tail : Nat) (states : List LogServerState) : Nat :=
  states.foldl (fun tail state => max tail state.knownTail) tail

theorem observed_cons (tail : Nat) (state : LogServerState) (states : List LogServerState) :
    observed tail (state :: states) = observed (max tail state.knownTail) states := rfl

theorem eq_observed_iff {p tail : Nat} {states : List LogServerState} (h : p ≤ tail) :
    p = observed tail states ↔ tail ≤ p ∧ ∀ state ∈ states, state.knownTail ≤ p := by
  induction states generalizing tail with
  | nil =>
      constructor
      · intro hp
        exact ⟨Nat.le_of_eq hp.symm, nofun⟩
      · intro hp
        exact Nat.le_antisymm h hp.1
  | cons state states ih =>
      rw [observed_cons, ih (Nat.le_trans h (Nat.le_max_left _ _)), List.forall_mem_cons,
        Nat.max_le, and_assoc]

theorem run_observeAll (w : World) (states : List LogServerState) :
    ∃ w', (alone 𝒮 t replies).run w
        (observeAll (fun tail => act (.observeKnownTail tail)) states) = (w', .ok ()) ∧
      (w'.sequencer t.node).knownTail = observed (w.sequencer t.node).knownTail states := by
  induction states generalizing w with
  | nil => exact ⟨w, rfl, rfl⟩
  | cons state states ih =>
      obtain ⟨w', hrun, htail⟩ := ih (𝒮.exec w t (.observeKnownTail state.knownTail)).1
      refine ⟨w', hrun, htail.trans ?_⟩
      rw [observed_cons]
      exact congrArg (observed · states)
        (congrArg NativeSequencer.knownTail (w.sequencer_setSequencer t.node _))

/-- A round ends `_commit` when it has gathered a quorum, and otherwise raises or sleeps. -/
theorem run_commitRounds (w : World) :
    ∃ w', (w'.sequencer t.node).knownTail =
        observed (w.sequencer t.node).knownTail (replies.filterMap stateOf) ∧
      (alone 𝒮 t replies).run w (𝒮.segment.commitRounds entry 1) =
        (w', if 𝒮.segment.quorum ≤ (replies.filterMap stateOf).length then .ok ()
          else if replies.countP isSealed < 𝒮.segment.quorum then .error .cancelled
          else .error (.segmentSealed 𝒮.segment.segmentId)) := by
  let put : Request := .put entry (w.sequencer t.node).knownTail
  let w₁ : World := (𝒮.exec w t (.send (𝒮.segment.toAll put))).1
  obtain ⟨w', hrun, htail⟩ : ∃ w', (alone 𝒮 t replies).run w₁
      (observeAll (fun tail => act (.observeKnownTail tail)) (replies.filterMap stateOf)) =
        (w', .ok ()) ∧ _ := run_observeAll w₁ (replies.filterMap stateOf)
  refine ⟨w', htail, ?_⟩
  have hrounds : (alone 𝒮 t replies).run w (𝒮.segment.commitRounds entry 1) =
      (alone 𝒮 t replies).run w₁ (do
        observeAll (fun tail => act (.observeKnownTail tail)) (replies.filterMap stateOf)
        if 𝒮.segment.quorum ≤ (replies.filterMap stateOf).length then ret ()
        else do
          require (replies.countP isSealed < 𝒮.segment.quorum)
            (.segmentSealed 𝒮.segment.segmentId)
          wait .sleep
          𝒮.segment.commitRounds entry 0) := rfl
  rw [hrounds, Handler.run_bind_ok hrun]
  by_cases hq : 𝒮.segment.quorum ≤ (replies.filterMap stateOf).length
  · rw [if_pos hq, if_pos hq]
    rfl
  · rw [if_neg hq, if_neg hq]
    by_cases hs : replies.countP isSealed < 𝒮.segment.quorum
    · rw [require, if_pos hs, if_pos hs]
      rfl
    · rw [require, if_neg hs, if_neg hs]
      rfl

theorem run_commit_ok_iff (w : World) :
    ((alone 𝒮 t replies).run w (𝒮.segment.commit entry 1)).2 = .ok () ↔
      𝒮.segment.quorum ≤ (replies.filterMap stateOf).length ∧
        entry.position =
          observed (w.sequencer t.node).knownTail (replies.filterMap stateOf) := by
  obtain ⟨w', htail, hrun⟩ : ∃ w', _ ∧
      (alone 𝒮 t replies).run w (𝒮.segment.commitRounds entry 1) = _ := run_commitRounds w
  rw [Segment.commit, Handler.run_bind, hrun, ← htail]
  by_cases hq : 𝒮.segment.quorum ≤ (replies.filterMap stateOf).length
  · simp only [hq, if_true, true_and]
    by_cases hp : entry.position = (w'.sequencer t.node).knownTail
    · refine iff_of_true ?_ hp
      rw [Handler.run_bind_ok (run_sequencer w'), require, if_pos hp]
      rfl
    · refine iff_of_false ?_ hp
      rw [Handler.run_bind_ok (run_sequencer w'), require, if_neg hp]
      rintro ⟨⟩
  · rw [if_neg hq]
    refine iff_of_false ?_ fun h => hq h.1
    split
    · next heq =>
        split at heq
        · cases heq
        · cases heq
    · rintro ⟨⟩

/-- **An append returns** after a round that gathered a quorum, unless its sequencer then
knows a tail behind the entry. -/
theorem run_commitEntry_ok_iff (w : World) :
    (∃ r, ((alone 𝒮 t replies).run w (𝒮.segment.commitEntry entry 1)).2 = .ok r) ↔
      𝒮.segment.quorum ≤ (replies.filterMap stateOf).length ∧
        entry.position =
          observed (w.sequencer t.node).knownTail (replies.filterMap stateOf) := by
  have hcommit : ((alone 𝒮 t replies).run (𝒮.exec w t (.setPending (some entry))).1
      (𝒮.segment.commit entry 1)).2 = .ok () ↔ _ := run_commit_ok_iff _
  have htail : (𝒮.exec w t (.setPending (some entry))).1.sequencer t.node =
      { w.sequencer t.node with pending := some entry } := w.sequencer_setSequencer t.node _
  rw [htail] at hcommit
  rw [← hcommit]
  show (∃ r, ((alone 𝒮 t replies).run (𝒮.exec w t (.setPending (some entry))).1
    (𝒮.segment.commit entry 1 >>= _)).2 = .ok r) ↔ _
  rw [Handler.run_bind]
  split
  · next hrun => exact iff_of_true ⟨_, rfl⟩ (congrArg Prod.snd hrun)
  · next hrun =>
      rw [hrun]
      exact iff_of_false nofun nofun

end Alone

/-! ## Pending appends -/

section Pending

variable {𝒮 : Deployment} {s : SystemState} {batch : Nat} {entry : LogEntry} {knownTail : Nat}
  {response : String → Response} {handled : String → SystemState}

/-- **When a pending append gets through.** In every state of every run whose `prefix_trim`
calls stay within tails that were returned, a round for a pending entry that every
member answers, open, gathers a quorum exactly when a majority of the members have not
trimmed the entry's position at the moment they handle the put; and its append returns
exactly when moreover neither the sequencer nor a LogServer that accepted knows a tail
behind the entry. -/
theorem pending_round_gathers_iff
    (h : 𝒮.runtime.ReachableUnder trimsReturned (· = World.initial 𝒮) s)
    (hb : s.world.messages[batch]? = some (𝒮.segment.toAll (.put entry knownTail)))
    (hl : ∀ m ∈ 𝒮.segment.members, 𝒮.runtime.Later trimsReturned s (handled m))
    (hopen : ∀ m ∈ 𝒮.segment.members, ((handled m).world.store m).sealed = false)
    (hans : ∀ m ∈ 𝒮.segment.members, Answers 𝒮 batch m (handled m) (response m)) :
    (𝒮.segment.quorum ≤ ((𝒮.segment.gathered response).filterMap stateOf).length ↔
      𝒮.segment.quorum ≤ 𝒮.segment.members.countP
        fun m => ((handled m).world.store m).trimmedPrefix ≤ entry.position) ∧
    ∀ (w : World) (t : TaskId), (w.sequencer t.node).knownTail = knownTail →
      ((∃ r, ((alone 𝒮 t (𝒮.segment.gathered response)).run w
          (𝒮.segment.commitEntry entry 1)).2 = .ok r) ↔
        𝒮.segment.quorum ≤ (𝒮.segment.members.countP
          fun m => ((handled m).world.store m).trimmedPrefix ≤ entry.position) ∧
        knownTail ≤ entry.position ∧
        ∀ m ∈ 𝒮.segment.members, ∀ state, response m = .state state →
          state.knownTail ≤ entry.position) := by
  have hcount := accepting_eq_countP h hb hl hopen hans
  refine ⟨by rw [hcount], fun w t hw => ?_⟩
  have hne : 𝒮.segment.members ≠ [] :=
    List.ne_nil_of_length_pos (Nat.lt_of_lt_of_le (by decide) 𝒮.segment.configuration.storageMembers.size)
  obtain ⟨m, hm⟩ := List.exists_mem_of_ne_nil _ hne
  have hi := (sound_trimsReturned.reachable (fun w hw => ⟨hw ▸ inv_initial 𝒮, trivial⟩) h).1.1
  rw [run_commitEntry_ok_iff, hcount, hw, eq_observed_iff (Inv.put_of_batch hi hb hm).2]
  have hstates : (∀ state ∈ (𝒮.segment.gathered response).filterMap stateOf,
      state.knownTail ≤ entry.position) ↔ ∀ m ∈ 𝒮.segment.members, ∀ state,
        response m = .state state → state.knownTail ≤ entry.position := by
    constructor
    · intro hall m hm state hstate
      exact hall state (mem_gathered_states.mpr ⟨m, hm, hstate⟩)
    · intro hall state hmem
      obtain ⟨m, hm, hstate⟩ := mem_gathered_states.mp hmem
      exact hall m hm state hstate
  rw [hstates]

/-- Watermarks never fall, so once too few members would accept the entry, none of the
later rounds gathers a quorum. -/
theorem pending_wedged {s' : SystemState}
    (h : 𝒮.runtime.ReachableUnder trimsReturned (· = World.initial 𝒮) s)
    (htrimmed : 𝒮.segment.members.countP
      (fun m => (s.world.store m).trimmedPrefix ≤ entry.position) < 𝒮.segment.quorum)
    (hs : 𝒮.runtime.Later trimsReturned s s')
    (hb : s'.world.messages[batch]? = some (𝒮.segment.toAll (.put entry knownTail)))
    (hl : ∀ m ∈ 𝒮.segment.members, 𝒮.runtime.Later trimsReturned s' (handled m))
    (hopen : ∀ m ∈ 𝒮.segment.members, ((handled m).world.store m).sealed = false)
    (hans : ∀ m ∈ 𝒮.segment.members, Answers 𝒮 batch m (handled m) (response m)) :
    ((𝒮.segment.gathered response).filterMap stateOf).length < 𝒮.segment.quorum := by
  rw [accepting_eq_countP (h.later hs) hb hl hopen hans]
  refine Nat.lt_of_le_of_lt (List.countP_mono_left fun m hm hle => ?_) htrimmed
  have hrun : 𝒮.runtime.Later Condition.any s (handled m) :=
    (hs.trans (hl m hm)).mono fun _ _ _ _ _ => meets_any _ _
  have hfall := (keeps_store (kept_trimmed 𝒮.kind (s.world.store m).trimmedPrefix) m).later
    (Nat.le_refl _) hrun
  exact decide_eq_true (Nat.le_trans hfall (of_decide_eq_true hle))

end Pending

/-- The first round of `a` reaches every member and its answers are lost; `c` checks the
tail and trims up to it; and `a` sends its next round. -/
def starvedRun : List (Action TaskId Call Choice Disturbance) :=
  let stored := some (Response.state (stateAt 1 0 false))
  List.flatten
    [[.launch ⟨"a", 0⟩ (.append "x" [1] 2), .resume ⟨"a", 0⟩ .done],
     handled 0 ["a", "b", "c"],
     [.resume ⟨"a", 0⟩ (.gathered [none, none, none]), .launch ⟨"c", 0⟩ (.checkTail 1)],
     delivered 1 ["a", "b", "c"],
     [.resume ⟨"c", 0⟩ (.gathered [stored, stored, stored]),
      .launch ⟨"c", 0⟩ (.prefixTrim 1)],
     handled 2 ["a", "b", "c"], [.resume ⟨"a", 0⟩ .done]]

/-- The state after `starvedRun`, and those in which one member after the other has
handled the round's put. -/
def starvedRound : Option (SystemState × SystemState × SystemState × SystemState) := do
  let s ← threeNodes.runtime.runWhile meetsLaunches (fresh _ _ _ _ (World.initial threeNodes))
    starvedRun
  let s₁ ← threeNodes.runtime.step s (.disturb (.deliver 3 "a"))
  let s₂ ← threeNodes.runtime.step s₁ (.disturb (.deliver 3 "b"))
  let s₃ ← threeNodes.runtime.step s₂ (.disturb (.deliver 3 "c"))
  some (s, s₁, s₂, s₃)

def starvedEntry : LogEntry := ⟨"segment", 0, "x", [1]⟩

theorem starvedRound_runs :
    (starvedRound.map fun (s, s₁, s₂, s₃) =>
      ((s.world.sequencer "a").pending, s.world.messages[3]?,
        [s₁.world.replies, s₂.world.replies, s₃.world.replies] =
          [⟨3, "a", .error (LogletStore.trimmedAt starvedEntry)⟩ :: s.world.replies,
            ⟨3, "b", .error (LogletStore.trimmedAt starvedEntry)⟩ :: s₁.world.replies,
            ⟨3, "c", .error (LogletStore.trimmedAt starvedEntry)⟩ :: s₂.world.replies],
        [(s.world.store "a").sealed, (s₁.world.store "b").sealed, (s₂.world.store "c").sealed] =
          [false, false, false])) =
      some (some starvedEntry, some (threeNodes.segment.toAll (.put starvedEntry 0)),
        true, true) := by
  decide +kernel

/-- The member that handles its put in each of the states of the round. -/
def starvedHandled (s s₁ s₂ : SystemState) (node : String) : SystemState :=
  if node = "a" then s else if node = "b" then s₁ else s₂

/-- The rounds' refusals, which the sequencer counts neither as accepted nor as sealed. -/
theorem starvedRound_answers :
    ∃ s s₁ s₂ : SystemState,
      threeNodes.runtime.ReachableUnder trimsReturned (· = World.initial threeNodes) s ∧
      (s.world.sequencer "a").pending = some starvedEntry ∧
      s.world.messages[3]? = some (threeNodes.segment.toAll (.put starvedEntry 0)) ∧
      ∀ m ∈ threeNodes.segment.members,
        threeNodes.runtime.Later trimsReturned s (starvedHandled s s₁ s₂ m) ∧
        ((starvedHandled s s₁ s₂ m).world.store m).sealed = false ∧
        Answers threeNodes 3 m (starvedHandled s s₁ s₂ m)
          (.error (LogletStore.trimmedAt starvedEntry)) := by
  obtain ⟨⟨s, s₁, s₂, s₃⟩, hround, hfacts⟩ := Option.map_eq_some_iff.mp starvedRound_runs
  simp only [starvedRound, Option.bind_eq_bind, Option.bind_eq_some_iff] at hround
  obtain ⟨s', hs, s₁', hs₁, s₂', hs₂, s₃', hs₃, hrest⟩ := hround
  cases hrest
  simp only [Prod.mk.injEq, decide_eq_true_eq, List.cons.injEq, and_true] at hfacts
  obtain ⟨hpending, hmessages, ⟨ha, hb, hc⟩, hopen, hopen₁, hopen₂⟩ := hfacts
  have hl₁ : threeNodes.runtime.Later trimsReturned s s₁ :=
    .step (a := .disturb (.deliver 3 "a")) .refl trivial hs₁
  have hl₂ : threeNodes.runtime.Later trimsReturned s s₂ :=
    .step (a := .disturb (.deliver 3 "b")) hl₁ trivial hs₂
  refine ⟨s, s₁, s₂, .runWhile meets_of_meetsLaunches (.init rfl) hs, hpending, hmessages, ?_⟩
  intro m hm
  have hm : m ∈ ["a", "b", "c"] := hm
  have hm : m = "a" ∨ m = "b" ∨ m = "c" := by simpa using hm
  rcases hm with rfl | rfl | rfl
  · exact ⟨.refl, hopen, .raised hs₁ ha⟩
  · exact ⟨hl₁, hopen₁, .raised hs₂ hb⟩
  · exact ⟨hl₂, hopen₂, .raised hs₃ hc⟩

/-- Every member answers the round, none is sealed, and nobody accepts the pending entry. -/
theorem pending_round_starved :
    ∃ s s₁ s₂ : SystemState,
      threeNodes.runtime.ReachableUnder trimsReturned (· = World.initial threeNodes) s ∧
      (s.world.sequencer "a").pending = some starvedEntry ∧
      s.world.messages[3]? = some (threeNodes.segment.toAll (.put starvedEntry 0)) ∧
      (∀ m ∈ threeNodes.segment.members,
        threeNodes.runtime.Later trimsReturned s (starvedHandled s s₁ s₂ m) ∧
        ((starvedHandled s s₁ s₂ m).world.store m).sealed = false ∧
        Answers threeNodes 3 m (starvedHandled s s₁ s₂ m)
          (.error (LogletStore.trimmedAt starvedEntry))) ∧
      ¬threeNodes.segment.quorum ≤ ((threeNodes.segment.gathered fun _ =>
        .error (LogletStore.trimmedAt starvedEntry)).filterMap stateOf).length := by
  obtain ⟨s, s₁, s₂, hs, hpending, hb, hmembers⟩ := starvedRound_answers
  exact ⟨s, s₁, s₂, hs, hpending, hb, hmembers, by decide⟩

theorem pending_round_gathers_iff_starved :
    ∃ s s₁ s₂ : SystemState,
      ¬threeNodes.segment.quorum ≤ threeNodes.segment.members.countP fun m =>
        ((starvedHandled s s₁ s₂ m).world.store m).trimmedPrefix ≤ starvedEntry.position := by
  obtain ⟨s, s₁, s₂, hs, -, hb, hmembers⟩ := starvedRound_answers
  obtain ⟨hgathers, -⟩ := pending_round_gathers_iff hs hb (fun m hm => (hmembers m hm).1)
    (fun m hm => (hmembers m hm).2.1) fun m hm => (hmembers m hm).2.2
  exact ⟨s, s₁, s₂, fun h => absurd (hgathers.mpr h) (by decide)⟩

end DelosLab.NativeLoglet
