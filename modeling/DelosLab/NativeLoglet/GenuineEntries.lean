import DelosLab.NativeLoglet.Processes
import DelosLab.NativeLoglet.RemoteRuntime

/-!
# One entry for each position

Wherever the entries of a segment go, they are those that its sequencer has assigned, one for
each position. This needs nothing about tails, so it holds under every trim.
-/

namespace DelosLab.NativeLoglet.Remote

open Async Async.Runtime Async.Coroutine LogletStore
open VirtualLog (Bytes)

/-! ## What holds between the steps -/

/-- The books of a sequencer that has assigned `assigned`. -/
structure Books (assigned : List LogEntry) (s : NativeSequencer) : Prop where
  next : s.nextPosition = assigned.length
  entries : ∀ e ∈ s.entriesByCommand, e ∈ assigned
  pending : ∀ e, s.pending = some e → e ∈ assigned

def Carries (assigned : List LogEntry) : Request → Prop
  | .put entry _ => entry ∈ assigned
  | .repair entry _ => entry ∈ assigned
  | _ => True

/-- A `get` is answered with the entry of its position, and with no exception. -/
structure Answers (assigned : List LogEntry) (request : Request) (response : Response) : Prop where
  entry : ∀ p k e, request = .get p k → response = .entry (some e) →
    e ∈ assigned ∧ e.position = p
  error : ∀ p k e, request = .get p k → response ≠ .error e

structure Genuine (𝒮 : Deployment) (w : NativeLoglet.World) : Prop where
  positions : ∀ (i : Nat) (e : LogEntry), w.assigned[i]? = some e → e.position = i
  stores : ∀ node, ∀ e ∈ (w.store node).entries, e ∈ w.assigned
  requests : ∀ requests ∈ w.messages, ∀ item ∈ requests, Carries w.assigned item.2
  replies : ∀ r ∈ w.replies, ∃ request, w.request r.batch r.node = some request ∧
    Answers w.assigned request r.response
  fence : ∀ node, (w.processes node).sequencer ≠ none →
    node = 𝒮.segment.configuration.sequencerNode ∧
      (w.processes node).incarnation = 𝒮.segment.configuration.sequencerIncarnation
  fresh : ∀ node, (w.processes node).incarnation ∉ (w.processes node).past
  once : w.assigned ≠ [] →
    (w.processes 𝒮.segment.configuration.sequencerNode).sequencer ≠ none ∨
      𝒮.segment.configuration.sequencerIncarnation ∈
        (w.processes 𝒮.segment.configuration.sequencerNode).past
  books : ∀ node s, (w.processes node).sequencer = some s → Books w.assigned s

/-- VirtualLog knows what to do with the exceptions of a Loglet; an append may also conflict
with an earlier one of its command. -/
def Surfaces (c : Call) (e : Error) : Prop :=
  (∃ message, e = .logletSealed message) ∨ (∃ message, e = .logletUnavailable message) ∨
    (∃ commandId payload, c = .append commandId payload ∧
      e = .native (.entryConflict commandId)) ∨ e = .native .cancelled

structure Inv (𝒮 : Deployment) (w : World) : Prop where
  genuine : Genuine 𝒮 w.segment
  appended : ∀ r ∈ w.appended, 1 ≤ r.knownTail
  failed : ∀ c e, (c, e) ∈ w.failed → Surfaces c e

structure Grow (w w' : World) : Prop where
  messages : w.segment.messages <+: w'.segment.messages
  assigned : w.segment.assigned <+: w'.segment.assigned

/-- The sequencer of the own process stays, and goes on to know of a committed entry. -/
def Rely (t : TaskId) (w w' : World) : Prop :=
  ∀ s, (w.segment.processes t.node).sequencer = some s →
    ∃ s', (w'.segment.processes t.node).sequencer = some s' ∧ (1 ≤ s.knownTail → 1 ≤ s'.knownTail)

theorem Grow.refl (w : World) : Grow w w := ⟨List.prefix_refl _, List.prefix_refl _⟩

theorem Grow.trans {w₁ w₂ w₃ : World} (h : Grow w₁ w₂) (h' : Grow w₂ w₃) : Grow w₁ w₃ :=
  ⟨h.messages.trans h'.messages, h.assigned.trans h'.assigned⟩

theorem Rely.refl (t : TaskId) (w : World) : Rely t w w := fun s hs => ⟨s, hs, fun h => h⟩

theorem Rely.trans {t : TaskId} {w₁ w₂ w₃ : World} (h : Rely t w₁ w₂) (h' : Rely t w₂ w₃) :
    Rely t w₁ w₃ := by
  intro s hs
  obtain ⟨s', hs', hknown⟩ := h s hs
  obtain ⟨s'', hs'', hknown'⟩ := h' s' hs'
  exact ⟨s'', hs'', fun hk => hknown' (hknown hk)⟩

theorem Carries.mono {assigned assigned' : List LogEntry} {request : Request}
    (h : Carries assigned request) (ha : assigned ⊆ assigned') : Carries assigned' request := by
  cases request with
  | put entry knownTail => exact ha h
  | repair entry knownTail => exact ha h
  | _ => trivial

theorem Answers.mono {assigned assigned' : List LogEntry} {request : Request} {response : Response}
    (h : Answers assigned request response) (ha : assigned ⊆ assigned') :
    Answers assigned' request response :=
  ⟨fun p k e hr he => ⟨ha (h.entry p k e hr he).1, (h.entry p k e hr he).2⟩, h.error⟩

variable {𝒮 : Deployment} {w w' : NativeLoglet.World}

/-- Two assigned entries of one position are one entry. -/
theorem Genuine.eq_of_position (h : Genuine 𝒮 w) {e e' : LogEntry} (he : e ∈ w.assigned)
    (he' : e' ∈ w.assigned) (hp : e.position = e'.position) : e = e' := by
  obtain ⟨i, hi⟩ := List.getElem?_of_mem he
  obtain ⟨j, hj⟩ := List.getElem?_of_mem he'
  rw [← h.positions i e hi, hp, h.positions j e' hj] at hi
  exact Option.some.inj (hi.symm.trans hj)

/-- Nothing changes but records and the parts of processes that no entry depends on. -/
theorem Genuine.changed (h : Genuine 𝒮 w) (hassigned : w'.assigned = w.assigned)
    (hmessages : w'.messages = w.messages) (hreplies : w'.replies = w.replies)
    (hstore : ∀ node, ∀ e ∈ (w'.store node).entries, e ∈ w.assigned)
    (hparts : ∀ node, (w'.processes node).sequencer = (w.processes node).sequencer ∧
      (w'.processes node).incarnation = (w.processes node).incarnation ∧
        (w'.processes node).past = (w.processes node).past) : Genuine 𝒮 w' where
  positions := hassigned ▸ h.positions
  stores := hassigned ▸ hstore
  requests := by
    rw [hmessages, hassigned]
    exact h.requests
  replies := by
    rw [hreplies, hassigned]
    intro r hr
    obtain ⟨request, hreq, hans⟩ := h.replies r hr
    refine ⟨request, ?_, hans⟩
    rw [World.request, hmessages]
    exact hreq
  fence := fun node => by
    rw [(hparts node).1, (hparts node).2.1]
    exact h.fence node
  fresh := fun node => by
    rw [(hparts node).2.1, (hparts node).2.2]
    exact h.fresh node
  once := by
    rw [hassigned, (hparts _).1, (hparts _).2.2]
    exact h.once
  books := fun node => by
    rw [hassigned, (hparts node).1]
    exact h.books node

theorem Genuine.setStore (h : Genuine 𝒮 w) (node : String) {s : LogletStore}
    (hs : ∀ e ∈ s.entries, e ∈ w.assigned) : Genuine 𝒮 (w.setStore node s) := by
  refine h.changed rfl rfl rfl (fun n => ?_) fun n => ?_
  · by_cases hn : n = node
    · subst hn
      rw [World.store_setStore]
      exact hs
    · rw [World.store_setStore_of_ne w s hn]
      exact h.stores n
  · rw [World.processes_setStore]
    exact ⟨rfl, rfl, rfl⟩

theorem Genuine.setClient (h : Genuine 𝒮 w) (node : String) (client : NativeLogletClient) :
    Genuine 𝒮 (w.setClient node client) := by
  refine h.changed rfl rfl rfl (fun n => ?_) fun n => ?_
  · rw [World.store, World.processes_setClient]
    exact h.stores n
  · rw [World.processes_setClient]
    exact ⟨rfl, rfl, rfl⟩

/-- The sequencer that is there changes, and keeps its books. -/
theorem Genuine.setSequencer (h : Genuine 𝒮 w) {node : String} {s : NativeSequencer}
    (hnode : node = 𝒮.segment.configuration.sequencerNode ∧
      (w.processes node).incarnation = 𝒮.segment.configuration.sequencerIncarnation)
    (hs : Books w.assigned s) : Genuine 𝒮 (w.setSequencer node s) where
  positions := h.positions
  stores := fun n => by
    rw [(w.setSequencer_parts node s n).1]
    exact h.stores n
  requests := h.requests
  replies := h.replies
  fence := fun n hn => by
    by_cases heq : n = node
    · subst heq
      rw [World.processes_setSequencer_self]
      exact hnode
    · rw [World.processes_setSequencer_of_ne w s heq] at hn ⊢
      exact h.fence n hn
  fresh := fun n => by
    obtain ⟨-, -, hinc, hpast⟩ := w.setSequencer_parts node s n
    rw [hinc, hpast]
    exact h.fresh n
  once := fun _ => by
    rw [← hnode.1, World.processes_setSequencer_self]
    exact .inl nofun
  books := fun n s' hn => by
    by_cases heq : n = node
    · subst heq
      rw [World.processes_setSequencer_self] at hn
      exact Option.some.inj hn ▸ hs
    · rw [World.processes_setSequencer_of_ne w s heq] at hn
      exact h.books n s' hn

/-- The sequencer assigns the next position. -/
theorem Genuine.assign (h : Genuine 𝒮 w) {node : String} {s : NativeSequencer}
    (hs : (w.processes node).sequencer = some s) (commandId : String) (payload : Bytes) :
    let entry : LogEntry := ⟨𝒮.segment.segmentId, s.nextPosition, commandId, payload⟩
    Genuine 𝒮 { w.setSequencer node { s with
        nextPosition := s.nextPosition + 1
        entriesByCommand := s.entriesByCommand ++ [entry] } with
      assigned := w.assigned ++ [entry] } := by
  intro entry
  have hb := h.books node s hs
  have hsub : w.assigned ⊆ w.assigned ++ [entry] := List.subset_append_left _ _
  have hlast : entry ∈ w.assigned ++ [entry] :=
    List.mem_append_right _ (List.mem_singleton_self _)
  let s' : NativeSequencer := { s with
    nextPosition := s.nextPosition + 1
    entriesByCommand := s.entriesByCommand ++ [entry] }
  have hs' : Books (w.assigned ++ [entry]) s' := by
    refine ⟨?_, fun e he => ?_, fun e he => hsub (hb.pending e he)⟩
    · rw [List.length_append, List.length_singleton, ← hb.next]
    · rcases List.mem_append.mp he with he | he
      · exact hsub (hb.entries e he)
      · exact List.mem_append_right _ he
  have hnode := h.fence node (hs ▸ nofun)
  refine ⟨fun i e hi => ?_, fun n e he => ?_, fun requests hr item hi => ?_, fun r hr => ?_,
    fun n hn => ?_, fun n => ?_, fun _ => ?_, fun n s₁ hn => ?_⟩
  · rcases Nat.lt_or_ge i w.assigned.length with hlt | hge
    · exact h.positions i e (List.getElem?_append_left hlt ▸ hi)
    · change (w.assigned ++ [entry])[i]? = some e at hi
      rw [List.getElem?_append_right hge, List.getElem?_singleton] at hi
      split at hi
      · next hz =>
          cases hi
          show s.nextPosition = i
          rw [hb.next]
          omega
      · cases hi
  · change e ∈ ((w.setSequencer node s').store n).entries at he
    rw [(w.setSequencer_parts node s' n).1] at he
    exact hsub (h.stores n e he)
  · exact (h.requests requests hr item hi).mono hsub
  · obtain ⟨request, hreq, hans⟩ := h.replies r hr
    exact ⟨request, hreq, hans.mono hsub⟩
  · change ((w.setSequencer node s').processes n).sequencer ≠ none at hn
    show n = _ ∧ ((w.setSequencer node s').processes n).incarnation = _
    by_cases heq : n = node
    · subst heq
      rw [World.processes_setSequencer_self]
      exact hnode
    · rw [World.processes_setSequencer_of_ne w s' heq] at hn ⊢
      exact h.fence n hn
  · obtain ⟨-, -, hinc, hpast⟩ := w.setSequencer_parts node s' n
    show ((w.setSequencer node s').processes n).incarnation ∉ _
    rw [hinc]
    exact fun hmem => h.fresh n (hpast ▸ hmem)
  · rw [← hnode.1]
    refine .inl ?_
    show ((w.setSequencer node s').processes node).sequencer ≠ none
    rw [World.processes_setSequencer_self]
    exact nofun
  · change ((w.setSequencer node s').processes n).sequencer = some s₁ at hn
    by_cases heq : n = node
    · subst heq
      rw [World.processes_setSequencer_self] at hn
      exact Option.some.inj hn ▸ hs'
    · rw [World.processes_setSequencer_of_ne w s' heq] at hn
      rw [(h.fence n (hn ▸ nofun)).1, ← hnode.1] at heq
      exact absurd rfl heq

/-- The first sequencer of the segment has nothing assigned before it. -/
theorem Genuine.assigned_nil (h : Genuine 𝒮 w)
    (hnone : (w.processes 𝒮.segment.configuration.sequencerNode).sequencer = none)
    (hinc : (w.processes 𝒮.segment.configuration.sequencerNode).incarnation =
      𝒮.segment.configuration.sequencerIncarnation) : w.assigned = [] := by
  by_contra hne
  rcases h.once hne with hpresent | hpast
  · exact hpresent hnone
  · rw [← hinc] at hpast
    exact h.fresh _ hpast

theorem Genuine.send (h : Genuine 𝒮 w) {requests : List (String × Request)}
    (hr : ∀ item ∈ requests, Carries w.assigned item.2) :
    Genuine 𝒮 { w with messages := w.messages ++ [requests] } :=
  { h with
    requests := fun requests' hmem item hi => by
      rcases List.mem_append.mp hmem with hmem | hmem
      · exact h.requests requests' hmem item hi
      · obtain rfl := List.mem_singleton.mp hmem
        exact hr item hi
    replies := fun r hmem => by
      obtain ⟨request, hreq, hans⟩ := h.replies r hmem
      refine ⟨request, ?_, hans⟩
      obtain ⟨sent, hb, hl⟩ := Option.bind_eq_some_iff.mp hreq
      refine Option.bind_eq_some_iff.mpr ⟨sent, ?_, hl⟩
      show (w.messages ++ [requests])[r.batch]? = some sent
      rw [List.getElem?_append_left (List.getElem?_eq_some_iff.mp hb).1, hb] }

/-! ## LogServers -/

theorem Genuine.reply (h : Genuine 𝒮 w) {batch : Nat} {node : String} {request : Request}
    {response : Response} (hreq : w.request batch node = some request)
    (hans : Answers w.assigned request response) : Genuine 𝒮 (w.reply batch node response) :=
  { h with
    replies := fun r hmem => by
      rcases List.mem_cons.mp hmem with rfl | hmem
      · exact ⟨request, hreq, hans⟩
      · exact h.replies r hmem }

theorem Genuine.request (h : Genuine 𝒮 w) {batch : Nat} {node : String} {request : Request}
    (hreq : w.request batch node = some request) : Carries w.assigned request := by
  obtain ⟨requests, hb, hl⟩ := Option.bind_eq_some_iff.mp hreq
  obtain ⟨l₁, l₂, heq, -⟩ := List.lookup_eq_some_iff.mp hl
  exact h.requests requests (List.mem_of_getElem? hb) (node, request) (by simp [heq])

/-- A handler that writes an entry keeps what was asked for. -/
theorem Genuine.write (h : Genuine 𝒮 w) {batch : Nat} {node : String} {request : Request}
    {entry : LogEntry} {s : LogletStore} {r : Except NativeLoglet.Error Unit}
    (hreq : w.request batch node = some request) (hget : ∀ p k, request ≠ .get p k)
    (hentry : entry ∈ w.assigned)
    (hs : ∀ e ∈ s.entries, e ∈ (w.store node).entries ∨ e = entry) :
    Genuine 𝒮 ((w.setStore node s).written batch node r) := by
  have hset : Genuine 𝒮 (w.setStore node s) := by
    refine h.setStore node fun e he => ?_
    rcases hs e he with he | rfl
    · exact h.stores node e he
    · exact hentry
  cases r with
  | ok _ => exact hset.changed rfl rfl rfl hset.stores fun _ => ⟨rfl, rfl, rfl⟩
  | error e =>
      exact hset.reply hreq ⟨fun p k _ hr => absurd hr (hget p k), fun p k _ hr => absurd hr (hget p k)⟩

theorem entries_put (kind : StoreKind) (s : LogletStore) (entry : LogEntry) (knownTail : Nat) :
    ∀ e ∈ (LogletStore.put kind s entry knownTail).1.entries, e ∈ s.entries ∨ e = entry := by
  intro e he
  have heffect := put_effect kind s entry knownTail
  generalize LogletStore.put kind s entry knownTail = result at heffect he
  obtain ⟨s', r⟩ := result
  cases heffect with
  | failed => exact .inl he
  | kept => exact .inl he
  | added => exact (List.mem_append.mp he).imp_right List.mem_singleton.mp

theorem entries_repair (kind : StoreKind) (s : LogletStore) (entry : LogEntry) (knownTail : Nat) :
    ∀ e ∈ (LogletStore.repair kind s entry knownTail).1.entries, e ∈ s.entries ∨ e = entry := by
  intro e he
  have heffect := repair_effect kind s entry knownTail
  generalize LogletStore.repair kind s entry knownTail = result at heffect he
  obtain ⟨s', r⟩ := result
  cases heffect with
  | trimmed => exact .inl he
  | conflict => exact .inl he
  | kept => exact .inl he
  | added => exact (List.mem_append.mp he).imp_right List.mem_singleton.mp

theorem Genuine.deliver (h : Genuine 𝒮 w) {batch : Nat} {node : String} {request : Request}
    (hreq : w.request batch node = some request) :
    Genuine 𝒮 (w.deliver 𝒮 batch node request) := by
  cases request with
  | put entry knownTail =>
      have hset := h.write (r := (LogletStore.put 𝒮.kind (w.store node) entry knownTail).2) hreq
        nofun (h.request hreq) (entries_put 𝒮.kind (w.store node) entry knownTail)
      rw [World.deliver]
      generalize LogletStore.put 𝒮.kind (w.store node) entry knownTail = result at hset ⊢
      obtain ⟨s, r⟩ := result
      cases r with
      | ok _ => exact hset.changed rfl rfl rfl hset.stores fun _ => ⟨rfl, rfl, rfl⟩
      | error e => exact hset
  | repair entry knownTail =>
      exact h.write hreq nofun (h.request hreq) (entries_repair 𝒮.kind (w.store node) entry knownTail)
  | get position knownTail =>
      have hset := h.setStore node (s := ((w.store node).get position knownTail).1) (h.stores node)
      refine hset.reply hreq ⟨fun p k e hr he => ?_, fun _ _ _ _ => nofun⟩
      cases hr
      obtain ⟨hmem, hp⟩ := entryAt_some (Response.entry.inj he)
      exact ⟨h.stores node e hmem, hp⟩
  | «seal» knownTail =>
      have hset := h.setStore node (s := (w.store node).seal knownTail) (h.stores node)
      exact hset.changed rfl rfl rfl hset.stores fun _ => ⟨rfl, rfl, rfl⟩
  | prefixTrim trimPosition =>
      have hset := h.setStore node (s := ((w.store node).prefixTrim trimPosition).1)
        fun e he => h.stores node e (List.mem_of_mem_filter he)
      exact hset.changed rfl rfl rfl hset.stores fun _ => ⟨rfl, rfl, rfl⟩
  | state knownTail =>
      have hset := h.setStore node (s := ((w.store node).state knownTail).1) (h.stores node)
      exact hset.reply hreq ⟨nofun, fun _ _ _ _ => nofun⟩
  | waitForTail localTail knownTail =>
      have hset := h.setStore node (s := ((w.store node).state knownTail).1) (h.stores node)
      rw [World.deliver]
      split
      · exact hset.reply hreq ⟨nofun, fun _ _ _ _ => nofun⟩
      · exact hset

theorem Genuine.respond (h : Genuine 𝒮 w) {batch : Nat} {node : String} {request : Request}
    (hreq : w.request batch node = some request) : Genuine 𝒮 (w.respond batch node request) := by
  have herase : Genuine 𝒮 { w with handling := w.handling.erase (batch, node) } :=
    h.changed rfl rfl rfl h.stores fun _ => ⟨rfl, rfl, rfl⟩
  have hset := herase.setStore node (s := ((w.store node).state request.stateTail).1) (h.stores node)
  exact hset.reply hreq ⟨fun _ _ _ _ => nofun, fun _ _ _ _ => nofun⟩

/-- A process comes up again. -/
theorem Genuine.restart (h : Genuine 𝒮 w) {node incarnation : String}
    (hr : 𝒮.restart w node incarnation = some w') : Genuine 𝒮 w' ∧
      w'.messages = w.messages ∧ w'.assigned = w.assigned ∧
        ∀ n, n ≠ node → w'.processes n = w.processes n := by
  rw [Deployment.restart] at hr
  split at hr
  · next hinc =>
      cases hr
      set w' := NativeLoglet.World.setProcess _ node _ with hw'
      have hself : w'.processes node = ⟨incarnation,
          (w.processes node).incarnation :: (w.processes node).past, none, .new,
          (w.processes node).store.reopen⟩ := World.setProcess_self _ _ _
      have hother : ∀ n, n ≠ node → w'.processes n = w.processes n :=
        fun n hn => World.setProcess_of_ne _ _ hn
      refine ⟨⟨h.positions, fun n => ?_, h.requests, h.replies, fun n hn => ?_, fun n => ?_,
        fun ha => ?_, fun n s hn => ?_⟩, rfl, rfl, hother⟩
      · by_cases hn : n = node
        · subst hn
          rw [World.store, hself]
          exact h.stores n
        · rw [World.store, hother n hn]
          exact h.stores n
      · by_cases heq : n = node
        · subst heq
          rw [hself] at hn
          exact absurd rfl hn
        · rw [hother n heq] at hn ⊢
          exact h.fence n hn
      · by_cases hn : n = node
        · subst hn
          rw [hself]
          exact hinc.2
        · rw [hother n hn]
          exact h.fresh n
      · by_cases hn : 𝒮.segment.configuration.sequencerNode = node
        · -- The incarnation that had the sequencer is a past one now.
          rw [hn, hself]
          refine .inr ?_
          rcases h.once ha with hpresent | hpast
          · rw [← (h.fence _ hpresent).2, hn]
            exact List.mem_cons_self
          · rw [hn] at hpast
            exact List.mem_cons_of_mem _ hpast
        · rw [hother _ hn]
          exact h.once ha
      · by_cases heq : n = node
        · subst heq
          rw [hself] at hn
          cases hn
        · rw [hother n heq] at hn
          exact h.books n s hn
  · cases hr

end DelosLab.NativeLoglet.Remote
