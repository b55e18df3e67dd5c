import DelosLab.Async.RelyGuarantee
import DelosLab.Consensus.Coverage
import DelosLab.NativeLoglet.System

/-!
# What the processes of a segment keep

Every entry that is anywhere was assigned, every known tail that is anywhere is
covered by majorities, and what a LogServer says about its own tail is dense: each
position below it is covered there or on a majority. The sequencer that the fences
let through is the only one ever, and between two holders of its lock all assigned
entries but the pending one were stored by a majority.
-/

namespace DelosLab.NativeLoglet

open Async Consensus

namespace World

def Covers (w : World) (node : String) (p : Nat) : Prop := (w.store node).Covers p

/-- A majority covers every position below `tail`. -/
def Known (𝒮 : Deployment) (w : World) (tail : Nat) : Prop :=
  KnownTail 𝒮.segment.members w.Covers tail

def Dense (𝒮 : Deployment) (w : World) (node : String) (tail : Nat) : Prop :=
  DenseTo 𝒮.segment.members w.Covers node tail

/-- A majority accepted the sequencer's put at `p`, each of them before it was sealed. -/
def StoredByMajority (𝒮 : Deployment) (w : World) (p : Nat) : Prop :=
  Majority 𝒮.segment.members fun node => (node, p) ∈ w.stored

/-- `t` is inside the lock of its sequencer, whose state is `s`. -/
def Locked (w : World) (t : TaskId) (s : NativeSequencer) : Prop :=
  (w.processes t.node).sequencer = some s ∧ s.holder = some t

end World

/-! ## Facts about requests and replies -/

/-- What a state tells about its LogServer, then and ever after. -/
structure StateFacts (𝒮 : Deployment) (w : World) (node : String) (s : LogServerState) :
    Prop where
  known : w.Known 𝒮 s.knownTail
  trimmed : w.Known 𝒮 s.trimmedPrefix
  dense : w.Dense 𝒮 node s.localTail
  closed : s.sealed = true → (w.store node).sealed = true
  bound : s.sealed = true → ∀ p, (node, p) ∈ w.stored → p < s.localTail

def RequestInv (𝒮 : Deployment) (w : World) : Request → Prop
  | .put entry knownTail =>
      entry ∈ w.assigned ∧ entry.position ≤ knownTail ∧ w.Known 𝒮 knownTail
  | .repair entry knownTail =>
      entry ∈ w.assigned ∧ w.Known 𝒮 entry.position ∧ w.Known 𝒮 knownTail
  | .get _ knownTail => w.Known 𝒮 knownTail
  | .seal knownTail => w.Known 𝒮 knownTail
  | .prefixTrim trimPosition => w.Known 𝒮 trimPosition
  | .state knownTail => w.Known 𝒮 knownTail
  | .waitForTail _ knownTail => w.Known 𝒮 knownTail

/-- What a handler has written before it reads the state. -/
def Wrote (w : World) (node : String) : Request → Prop
  | .put entry _ => (node, entry.position) ∈ w.stored
  | .repair entry _ => w.Covers node entry.position
  | _ => True

/-- An error that a client's call may end with. -/
def Error.Tame (e : Error) : Prop :=
  (∀ message, e ≠ .entryConflict message) ∧ ∀ message, e ≠ .runtimeError message

structure ReplyInv (𝒮 : Deployment) (w : World) (node : String) (request : Request)
    (response : Response) : Prop where
  state : ∀ s, response = .state s → StateFacts 𝒮 w node s ∧ Wrote w node request
  entry : ∀ p k e, request = .get p k → response = .entry (some e) →
    e ∈ w.assigned ∧ e.position = p ∧ w.Covers node p
  tame : ∀ e, response = .error e → e.Tame ∨ ∃ entry k, request = .put entry k

/-- A sealed tail of `tail` was read from a majority that has accepted nothing at or
behind it and never will. -/
def World.SealedBelow (𝒮 : Deployment) (w : World) (tail : Nat) : Prop :=
  Majority 𝒮.segment.members fun node =>
    (w.store node).sealed = true ∧ ∀ p, (node, p) ∈ w.stored → p < tail

def OutcomeInv (𝒮 : Deployment) (w : World) : Outcome → Prop
  | .appended commandId result =>
      (∃ e ∈ w.assigned, e.commandId = commandId ∧ e.position = result.position) ∧
        w.Known 𝒮 (result.position + 1) ∧ w.Known 𝒮 result.knownTail
  | .tail result => w.Known 𝒮 result.tail ∧ (result.sealed = true → w.SealedBelow 𝒮 result.tail)
  | _ => True

/-- The sequencer's books, where `pending` is the entry that it has not committed. -/
structure SequencerInv (𝒮 : Deployment) (w : World) (s : NativeSequencer)
    (pending : Option LogEntry) : Prop where
  entries : s.entriesByCommand = w.assigned
  next : s.nextPosition = w.assigned.length
  known : w.Known 𝒮 s.knownTail
  committed : ∀ e ∈ w.assigned, pending ≠ some e →
    w.StoredByMajority 𝒮 e.position ∧ e.position < s.knownTail
  last : ∀ e, pending = some e →
    e ∈ w.assigned ∧ e.position + 1 = s.nextPosition ∧ e.position ≤ s.knownTail

/-- The store of a LogServer holds assigned entries, and what it knows is known. -/
structure StoreInv (𝒮 : Deployment) (w : World) (node : String) (s : LogletStore) : Prop where
  entries : ∀ e ∈ s.entries, e ∈ w.assigned
  dense : w.Dense 𝒮 node s.localTail
  known : w.Known 𝒮 s.knownTail
  trimmed : w.Known 𝒮 s.trimmedPrefix

def ClientInv (𝒮 : Deployment) (w : World) (client : NativeLogletClient) : Prop :=
  w.Known 𝒮 client.knownTail ∧ w.Known 𝒮 client.trimmedPrefix

/-- The sequencer lives in one incarnation of one process, and its books are in order
while nobody is inside its lock. -/
structure Fenced (𝒮 : Deployment) (w : World) : Prop where
  fence : ∀ node, (w.processes node).sequencer ≠ none →
    node = 𝒮.segment.configuration.sequencerNode ∧
      (w.processes node).incarnation = 𝒮.segment.configuration.sequencerIncarnation
  fresh : ∀ node, (w.processes node).incarnation ∉ (w.processes node).past
  once : w.assigned ≠ [] →
    (w.processes 𝒮.segment.configuration.sequencerNode).sequencer ≠ none ∨
      𝒮.segment.configuration.sequencerIncarnation ∈
        (w.processes 𝒮.segment.configuration.sequencerNode).past
  ready : ∀ node s, (w.processes node).sequencer = some s → s.holder = none →
    SequencerInv 𝒮 w s s.pending

structure Inv (𝒮 : Deployment) (w : World) : Prop where
  positions : ∀ (i : Nat) (e : LogEntry), w.assigned[i]? = some e → e.position = i
  commands : (w.assigned.map LogEntry.commandId).Nodup
  store : ∀ node, StoreInv 𝒮 w node (w.store node)
  client : ∀ node, ClientInv 𝒮 w (w.client node)
  stored : ∀ node p, (node, p) ∈ w.stored → w.Covers node p
  requests : ∀ requests ∈ w.messages, ∀ item ∈ requests, RequestInv 𝒮 w item.2
  handling : ∀ batch node, (batch, node) ∈ w.handling →
    ∃ request, w.request batch node = some request ∧ Wrote w node request
  replies : ∀ r ∈ w.replies,
    ∃ request, w.request r.batch r.node = some request ∧ ReplyInv 𝒮 w r.node request r.response
  fenced : Fenced 𝒮 w
  returned : ∀ r ∈ w.completed, OutcomeInv 𝒮 w r.outcome
  failed : ∀ c message, (c, Error.entryConflict message) ∈ w.failed → ∃ i p n, c = .append i p n

/-- A state that is read after `w`. -/
def Since (w : World) (node : String) (s : LogServerState) : Prop :=
  (w.store node).localTail ≤ s.localTail ∧ ((w.store node).sealed = true → s.sealed = true)

/-- Coverage, messages and records only grow, puts are accepted by open LogServers
only, and replies tell of the present. -/
structure Grow (w w' : World) : Prop where
  stores : ∀ node, (w.store node).Advances (w'.store node)
  messages : w.messages <+: w'.messages
  replies : w.replies ⊆ w'.replies
  since : ∀ r ∈ w'.replies, r ∈ w.replies ∨ ∀ s, r.response = .state s → Since w r.node s
  assigned : w.assigned <+: w'.assigned
  stored : w.stored ⊆ w'.stored
  «open» : ∀ node p, (node, p) ∈ w'.stored → (node, p) ∈ w.stored ∨ (w.store node).sealed = false
  completed : w.completed <+: w'.completed

/-- What the others leave alone: the sequencer while `t` is inside its lock. -/
structure Rely (t : TaskId) (w w' : World) : Prop where
  locked : ∀ s, w.Locked t s → w'.Locked t s ∧ w'.assigned = w.assigned
  present : (w.processes t.node).sequencer ≠ none → (w'.processes t.node).sequencer ≠ none
  invoked : w'.invoked t = w.invoked t

/-! ## Facts that last -/

theorem Grow.refl (w : World) : Grow w w :=
  ⟨fun _ => .refl _, List.prefix_refl _, List.Subset.refl _, fun _ hr => .inl hr,
    List.prefix_refl _, List.Subset.refl _, fun _ _ h => .inl h, List.prefix_refl _⟩

theorem Since.earlier {w w' : World} (hg : Grow w w') {node : String} {s : LogServerState}
    (h : Since w' node s) : Since w node s :=
  ⟨Nat.le_trans (hg.stores node).localTail h.1, fun hs => h.2 ((hg.stores node).sealed hs)⟩

theorem Grow.trans {w₁ w₂ w₃ : World} (h : Grow w₁ w₂) (h' : Grow w₂ w₃) : Grow w₁ w₃ where
  stores := fun node => (h.stores node).trans (h'.stores node)
  messages := h.messages.trans h'.messages
  replies := List.Subset.trans h.replies h'.replies
  since := by
    intro r hr
    rcases h'.since r hr with hold | hnew
    · exact h.since r hold
    · exact .inr fun s hs => (hnew s hs).earlier h
  assigned := h.assigned.trans h'.assigned
  stored := List.Subset.trans h.stored h'.stored
  «open» := by
    intro node p hp
    rcases h'.open node p hp with hold | hnew
    · exact h.open node p hold
    · refine .inr (Bool.eq_false_iff.mpr fun hs => ?_)
      rw [(h.stores node).sealed hs] at hnew
      cases hnew
  completed := h.completed.trans h'.completed

theorem Rely.refl (t : TaskId) (w : World) : Rely t w w := ⟨fun _ h => ⟨h, rfl⟩, fun h => h, rfl⟩

theorem Rely.trans {t : TaskId} {w₁ w₂ w₃ : World} (h : Rely t w₁ w₂) (h' : Rely t w₂ w₃) :
    Rely t w₁ w₃ := by
  refine ⟨fun s hs => ?_, fun hp => h'.present (h.present hp), h'.invoked.trans h.invoked⟩
  obtain ⟨hs', ha⟩ := h.locked s hs
  obtain ⟨hs'', ha'⟩ := h'.locked s hs'
  exact ⟨hs'', ha'.trans ha⟩

section Mono

variable {𝒮 : Deployment} {w w' : World}

theorem Grow.covers (hg : Grow w w') (node : String) (p : Nat) (h : w.Covers node p) :
    w'.Covers node p := (hg.stores node).covers p h

theorem World.Known.mono {tail : Nat} (h : w.Known 𝒮 tail) (hg : Grow w w') : w'.Known 𝒮 tail :=
  KnownTail.mono h hg.covers

theorem World.Dense.mono {node : String} {tail : Nat} (h : w.Dense 𝒮 node tail) (hg : Grow w w') :
    w'.Dense 𝒮 node tail := DenseTo.mono h hg.covers

theorem World.StoredByMajority.mono {p : Nat} (h : w.StoredByMajority 𝒮 p) (hg : Grow w w') :
    w'.StoredByMajority 𝒮 p := Majority.mono h fun _ _ hp => hg.stored hp

/-- Once sealed, a LogServer accepts no put. -/
theorem Grow.bound (hg : Grow w w') {node : String} (hs : (w.store node).sealed = true) {tail : Nat}
    (h : ∀ p, (node, p) ∈ w.stored → p < tail) : ∀ p, (node, p) ∈ w'.stored → p < tail := by
  intro p hp
  rcases hg.open node p hp with hold | hopen
  · exact h p hold
  · rw [hs] at hopen
    cases hopen

theorem StateFacts.mono {node : String} {s : LogServerState} (h : StateFacts 𝒮 w node s)
    (hg : Grow w w') : StateFacts 𝒮 w' node s where
  known := h.known.mono hg
  trimmed := h.trimmed.mono hg
  dense := h.dense.mono hg
  closed := fun hs => (hg.stores node).sealed (h.closed hs)
  bound := fun hs => hg.bound (h.closed hs) (h.bound hs)

theorem RequestInv.mono {request : Request} (h : RequestInv 𝒮 w request) (hg : Grow w w') :
    RequestInv 𝒮 w' request := by
  cases request with
  | put entry knownTail => exact ⟨hg.assigned.subset h.1, h.2.1, h.2.2.mono hg⟩
  | repair entry knownTail => exact ⟨hg.assigned.subset h.1, h.2.1.mono hg, h.2.2.mono hg⟩
  | get position knownTail => exact World.Known.mono h hg
  | «seal» knownTail => exact World.Known.mono h hg
  | prefixTrim trimPosition => exact World.Known.mono h hg
  | state knownTail => exact World.Known.mono h hg
  | waitForTail localTail knownTail => exact World.Known.mono h hg

theorem Wrote.mono {node : String} {request : Request} (h : Wrote w node request)
    (hg : Grow w w') : Wrote w' node request := by
  cases request with
  | put entry knownTail => exact hg.stored h
  | repair entry knownTail => exact hg.covers node _ h
  | _ => trivial

theorem ReplyInv.mono {node : String} {request : Request} {response : Response}
    (h : ReplyInv 𝒮 w node request response) (hg : Grow w w') :
    ReplyInv 𝒮 w' node request response := by
  refine ⟨fun s hs => ?_, fun p k e hr he => ?_, h.tame⟩
  · obtain ⟨hfacts, hwrote⟩ := h.state s hs
    exact ⟨hfacts.mono hg, hwrote.mono hg⟩
  · obtain ⟨ha, hp, hc⟩ := h.entry p k e hr he
    exact ⟨hg.assigned.subset ha, hp, hg.covers node p hc⟩

theorem World.SealedBelow.mono {tail : Nat} (h : w.SealedBelow 𝒮 tail) (hg : Grow w w') :
    w'.SealedBelow 𝒮 tail :=
  Majority.mono h fun node _ hn => ⟨(hg.stores node).sealed hn.1, hg.bound hn.1 hn.2⟩

theorem OutcomeInv.mono {o : Outcome} (h : OutcomeInv 𝒮 w o) (hg : Grow w w') :
    OutcomeInv 𝒮 w' o := by
  cases o with
  | appended commandId result =>
      obtain ⟨⟨e, he, hid, hp⟩, hk, hk'⟩ := h
      exact ⟨⟨e, hg.assigned.subset he, hid, hp⟩, hk.mono hg, hk'.mono hg⟩
  | tail result => exact ⟨h.1.mono hg, fun hs => (h.2 hs).mono hg⟩
  | _ => trivial

theorem SequencerInv.mono {s : NativeSequencer} {pending : Option LogEntry}
    (h : SequencerInv 𝒮 w s pending) (hg : Grow w w') (ha : w'.assigned = w.assigned) :
    SequencerInv 𝒮 w' s pending := by
  refine ⟨h.entries.trans ha.symm, h.next.trans (congrArg List.length ha.symm), h.known.mono hg,
    fun e he hne => ?_, fun e he => ?_⟩
  · rw [ha] at he
    exact ⟨(h.committed e he hne).1.mono hg, (h.committed e he hne).2⟩
  · rw [ha]
    exact h.last e he

theorem StoreInv.mono {node : String} {s : LogletStore} (h : StoreInv 𝒮 w node s)
    (hg : Grow w w') : StoreInv 𝒮 w' node s :=
  ⟨fun e he => hg.assigned.subset (h.entries e he), h.dense.mono hg, h.known.mono hg,
    h.trimmed.mono hg⟩

theorem ClientInv.mono {client : NativeLogletClient} (h : ClientInv 𝒮 w client)
    (hg : Grow w w') : ClientInv 𝒮 w' client := ⟨h.1.mono hg, h.2.mono hg⟩

theorem Fenced.mono (h : Fenced 𝒮 w) (hg : Grow w w') (ha : w'.assigned = w.assigned)
    (hp : ∀ n, ∃ client store, w'.processes n =
      { w.processes n with client := client, store := store }) : Fenced 𝒮 w' := by
  have hs : ∀ n, (w'.processes n).sequencer = (w.processes n).sequencer ∧
      (w'.processes n).incarnation = (w.processes n).incarnation ∧
        (w'.processes n).past = (w.processes n).past := by
    intro n
    obtain ⟨client, store, heq⟩ := hp n
    rw [heq]
    exact ⟨rfl, rfl, rfl⟩
  refine ⟨fun n hn => ?_, fun n => ?_, fun hne => ?_, fun n s hn hh => ?_⟩
  · obtain ⟨hseq, hinc, -⟩ := hs n
    rw [hseq] at hn
    rw [hinc]
    exact h.fence n hn
  · obtain ⟨-, hinc, hpast⟩ := hs n
    rw [hinc, hpast]
    exact h.fresh n
  · obtain ⟨hseq, -, hpast⟩ := hs 𝒮.segment.configuration.sequencerNode
    rw [hseq, hpast]
    exact h.once (ha ▸ hne)
  · rw [(hs n).1] at hn
    exact (h.ready n s hn hh).mono hg ha

theorem Grow.request (hg : Grow w w') {batch : Nat} {node : String} {request : Request}
    (h : w.request batch node = some request) : w'.request batch node = some request := by
  obtain ⟨requests, hb, hl⟩ := Option.bind_eq_some_iff.mp h
  refine Option.bind_eq_some_iff.mpr ⟨requests, ?_, hl⟩
  obtain ⟨rest, hrest⟩ := hg.messages
  rw [← hrest, List.getElem?_append_left (List.getElem?_eq_some_iff.mp hb).1, hb]

/-- The invariant after a step that has changed no record. -/
theorem Inv.changed (h : Inv 𝒮 w) (hg : Grow w w') (hm : w'.messages = w.messages)
    (hh : w'.handling ⊆ w.handling) (hr : w'.replies = w.replies)
    (ha : w'.assigned = w.assigned) (hs : w'.stored = w.stored)
    (hc : w'.completed = w.completed) (hf : w'.failed = w.failed)
    (hstore : ∀ node, StoreInv 𝒮 w' node (w'.store node))
    (hclient : ∀ node, ClientInv 𝒮 w' (w'.client node)) (hfenced : Fenced 𝒮 w') :
    Inv 𝒮 w' where
  positions := ha ▸ h.positions
  commands := ha ▸ h.commands
  store := hstore
  client := hclient
  stored := fun node p hp => hg.covers node p (h.stored node p (hs ▸ hp))
  requests := fun requests hreq item hi => (h.requests requests (hm ▸ hreq) item hi).mono hg
  handling := fun batch node hb => by
    obtain ⟨request, hreq, hw⟩ := h.handling batch node (hh hb)
    exact ⟨request, hg.request hreq, hw.mono hg⟩
  replies := fun r hmem => by
    obtain ⟨request, hreq, hinv⟩ := h.replies r (hr ▸ hmem)
    exact ⟨request, hg.request hreq, hinv.mono hg⟩
  fenced := hfenced
  returned := fun r hmem => (h.returned r (hc ▸ hmem)).mono hg
  failed := hf ▸ h.failed

end Mono

end DelosLab.NativeLoglet
