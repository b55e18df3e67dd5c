import DelosLab.NativeLoglet.Reads
import DelosLab.VirtualLog.Reads

/-!
# How a replica reads the shared log

A `ReadView` is what a `read_next` of a replica meets while it runs: the chain that its
VirtualLog has cached, what its NativeLoglet clients know, and what the LogServers answer.
The read itself is the code's, through both layers.
-/

namespace DelosLab.Kv

open Async Async.Coroutine
open VirtualLog (Bytes LogSegment LogletEntry VersionedLogChain VirtualLogEntry)
open NativeLoglet (NativeLogletConfiguration NativeLogletClient Segment)

/-- What an entry of the log carries. -/
structure Content where
  commandId : String
  payload : Bytes
deriving DecidableEq

/-- `clients` and `answers` are by segment; an answer is what a member holds at a local
position, or the exception that its call ends with. -/
structure ReadView where
  cached : VersionedLogChain NativeLogletConfiguration
  clients : String → NativeLogletClient
  answers : String → String → Nat → Except NativeLoglet.Error (Option NativeLoglet.LogEntry)

namespace ReadView

/-- The segment, as its NativeLoglet runtime knows it. -/
def native (segment : LogSegment NativeLogletConfiguration) : Segment :=
  ⟨segment.segmentId, segment.loglet.parameters⟩

/-- The members that a read by `node` asks. -/
def asked (node : String) (segment : LogSegment NativeLogletConfiguration) : List String :=
  (native segment).readMembers node

/-- What a runtime of the segment meets; the number of a batch is the position it asks for. -/
def logletOracle (v : ReadView) (segmentId : String) : Oracle NativeLoglet.signature where
  act := fun
    | .client => v.clients segmentId
    | .send [(_, .get position _)] => position
    | .send _ => 0
    | .sequencerFor => .error (.notSequencer "")
    | .sequencer => .new
    | .assign commandId payload => ⟨segmentId, 0, commandId, payload⟩
    | .observeKnownTail _ => ()
    | .setPending _ => ()
    | .setKnownTail _ => ()
    | .release => ()
    | .observeTail _ => ()
    | .observeTrimmed _ => ()
  wait := fun
    | .entry batch member => v.answers segmentId member batch
    | _ => .error .cancelled

/-- `read_next` of the Loglet of a segment. -/
def readLoglet (v : ReadView) (node : String) (segment : LogSegment NativeLogletConfiguration)
    (localStart localStop : Nat) : Except VirtualLog.Error (Option LogletEntry) :=
  match run (v.logletOracle segment.segmentId)
      ((native segment).readNext node localStart localStop) with
  | .ok entry => .ok (entry.map fun e => ⟨e.position, e.commandId, e.payload⟩)
  | .error (.logletUnavailable message) => .error (.logletUnavailable message)
  | .error _ => .error .cancelled

/-- What the VirtualLog of the replica meets. -/
def oracle (v : ReadView) (node : String) :
    Oracle (VirtualLog.signature NativeLogletConfiguration) where
  act := fun
    | .cached => some v.cached
    | .setCached _ => ()
    | .uuid4 => ⟨"-", by decide⟩
    | .invoke _ => 0
    | .release => ()
  wait := fun
    | .readNext segment localStart localStop => v.readLoglet node segment localStart localStop
    | _ => .error .cancelled

/-- `VirtualLog.read_next` of the replica `node`. -/
def readNext (v : ReadView) (self : VirtualLog) (node : String) (virtualStart virtualStop : Int) :
    Except VirtualLog.Error (Option VirtualLogEntry) :=
  run (v.oracle node) (self.readNext virtualStart virtualStop)

/-- The segments of the cached chain. -/
def segments (v : ReadView) : List (LogSegment NativeLogletConfiguration) :=
  match v.cached.chain with
  | none => []
  | some chain => chain.segments

/-- Virtual position `q` is found by a read: the segment that covers it is in the cached
chain, its client does not know the position to be trimmed, and a member that is asked
holds it. -/
def Visible (v : ReadView) (node : String) (q : Nat) : Prop :=
  ∃ s ∈ v.segments, s.Covers q ∧ (v.clients s.segmentId).trimmedPrefix ≤ q - s.virtualStart ∧
    ∃ member ∈ asked node s, ∃ e, v.answers s.segmentId member (q - s.virtualStart) = .ok (some e)

/-- Virtual position `q` is passed over by a read: in the segment that covers it, if one
does, the client knows the position to be trimmed or all members that are asked lack it. -/
def Passed (v : ReadView) (node : String) (q : Nat) : Prop :=
  ∀ s ∈ v.segments, s.Covers q → q - s.virtualStart < (v.clients s.segmentId).trimmedPrefix ∨
    ∀ member ∈ asked node s, v.answers s.segmentId member (q - s.virtualStart) = .ok none

instance {E A : Type} : (r : Except E (Option A)) → Decidable (∃ e, r = .ok (some e))
  | .ok (some e) => isTrue ⟨e, rfl⟩
  | .ok none => isFalse nofun
  | .error _ => isFalse nofun

instance (v : ReadView) (node : String) (q : Nat) : Decidable (v.Visible node q) :=
  inferInstanceAs (Decidable (∃ s ∈ v.segments, s.Covers q ∧
    (v.clients s.segmentId).trimmedPrefix ≤ q - s.virtualStart ∧ ∃ member ∈ asked node s,
      ∃ e, v.answers s.segmentId member (q - s.virtualStart) = .ok (some e)))

instance (v : ReadView) (node : String) (q : Nat) : Decidable (v.Passed node q) :=
  inferInstanceAs (Decidable (∀ s ∈ v.segments, s.Covers q →
    q - s.virtualStart < (v.clients s.segmentId).trimmedPrefix ∨ ∀ member ∈ asked node s,
      v.answers s.segmentId member (q - s.virtualStart) = .ok none))

/-- What a member holds at virtual position `q`, local position `l`, is what the log has
there. -/
def AnswerRight (log : Nat → Option Content) (q l : Nat) :
    Except NativeLoglet.Error (Option NativeLoglet.LogEntry) → Prop
  | .ok (some e) => e.position = l ∧ log q = some ⟨e.commandId, e.payload⟩
  | _ => True

instance (log : Nat → Option Content) (q l : Nat) :
    (r : Except NativeLoglet.Error (Option NativeLoglet.LogEntry)) →
      Decidable (AnswerRight log q l r)
  | .ok (some _) => inferInstanceAs (Decidable (_ ∧ _))
  | .ok none => isTrue trivial
  | .error _ => isTrue trivial

/-- What the members hold in a range is what the log has there. -/
def Right (v : ReadView) (node : String) (log : Nat → Option Content) (start stop : Nat) : Prop :=
  ∀ q < stop, start ≤ q → ∀ s ∈ v.segments, s.Covers q → ∀ member ∈ asked node s,
    AnswerRight log q (q - s.virtualStart) (v.answers s.segmentId member (q - s.virtualStart))

instance (v : ReadView) (node : String) (log : Nat → Option Content) (start stop : Nat) :
    Decidable (v.Right node log start stop) :=
  inferInstanceAs (Decidable (∀ q < stop, start ≤ q → ∀ s ∈ v.segments, s.Covers q →
    ∀ member ∈ asked node s, AnswerRight log q (q - s.virtualStart)
      (v.answers s.segmentId member (q - s.virtualStart))))

/-! ## What a read finds and passes over -/

/-- A read of `[start, stop)` found a visible entry of the log, or none, and passed over
what lies before. -/
structure Reads (v : ReadView) (node : String) (log : Nat → Option Content) (start stop : Nat)
    (r : Option VirtualLogEntry) : Prop where
  found : ∀ e, r = some e → start ≤ e.position ∧ e.position < stop ∧
    log e.position = some ⟨e.commandId, e.payload⟩ ∧ v.Visible node e.position
  passed : ∀ q, start ≤ q → q < stop → (∀ e, r = some e → q < e.position) → v.Passed node q

/-- A visible position is not passed over. -/
theorem Visible.not_passed {v : ReadView} {node : String} {q : Nat} (h : v.Visible node q) :
    ¬v.Passed node q := by
  intro hp
  obtain ⟨s, hs, hcov, hle, member, hm, e, he⟩ := h
  rcases hp s hs hcov with hlt | hall
  · omega
  · rw [hall member hm] at he
    cases he

/-- What the Loglets of a view show at a local position of a segment. -/
def Shown (v : ReadView) (node : String) (log : Nat → Option Content)
    (s : LogSegment NativeLogletConfiguration) (entry : LogletEntry) : Prop :=
  (v.clients s.segmentId).trimmedPrefix ≤ entry.position ∧
    (∃ member ∈ asked node s, ∃ e,
      v.answers s.segmentId member entry.position = .ok (some e)) ∧
    log (s.virtualStart + entry.position) = some ⟨entry.commandId, entry.payload⟩

/-- What they hide. -/
def Hidden (v : ReadView) (node : String) (s : LogSegment NativeLogletConfiguration)
    (l : Nat) : Prop :=
  l < (v.clients s.segmentId).trimmedPrefix ∨
    ∀ member ∈ asked node s, v.answers s.segmentId member l = .ok none

variable {v : ReadView} {self : VirtualLog} {node : String} {log : Nat → Option Content}

theorem readLoglet_ok {s : LogSegment NativeLogletConfiguration} {a b : Nat}
    {r : Option LogletEntry} (h : v.readLoglet node s a b = .ok r) :
    ∃ entry, run (v.logletOracle s.segmentId) ((native s).readNext node a b) = .ok entry ∧
      r = entry.map fun e => ⟨e.position, e.commandId, e.payload⟩ := by
  unfold readLoglet at h
  split at h
  · next entry hrun =>
      cases h
      exact ⟨entry, hrun, rfl⟩
  · cases h
  · cases h

theorem logletReads {start stop : Nat} (hright : v.Right node log start stop) :
    VirtualLog.LogletReads (v.oracle node) v.segments start stop (v.Shown node log)
      (v.Hidden node) where
  found := by
    intro s hs hne entry hread
    obtain ⟨found, hrun, hentry⟩ := readLoglet_ok hread
    cases found with
    | none => cases hentry
    | some e =>
        cases hentry
        obtain ⟨hfound, -⟩ := NativeLoglet.run_readNext hrun
        obtain ⟨l, hl, hl', htrim, ⟨member, hm, hanswer⟩, hbefore⟩ := hfound e rfl
        have hstart : s.virtualStart ≤ s.overlapStart start := Nat.le_max_right _ _
        have hlow : s.overlapStart start ≤ s.virtualStart + l := by omega
        have hhigh : s.virtualStart + l < s.overlapStop stop := by omega
        obtain ⟨hcov, hq, hq'⟩ := VirtualLog.LogSegment.covers_of_overlap hlow hhigh
        have hr := hright _ hq' hq s hs hcov member hm
        have hlocal : s.virtualStart + l - s.virtualStart = l := by omega
        have hanswer : v.answers s.segmentId member l = .ok (some e) := hanswer
        rw [hlocal, hanswer] at hr
        obtain ⟨hpos, hlog⟩ := hr
        subst hpos
        exact ⟨⟨htrim, ⟨member, hm, e, hanswer⟩, hlog⟩, hbefore⟩
  missing := by
    intro s hs hne hread l hl hl'
    obtain ⟨found, hrun, hentry⟩ := readLoglet_ok hread
    cases found with
    | some e => cases hentry
    | none => exact (NativeLoglet.run_readNext hrun).2 rfl l hl hl'

/-- **A read of the replica** shows an entry of the log and passes over what is hidden
from it. -/
theorem readNext_reads {start stop : Int} {r : Option VirtualLogEntry}
    (hright : v.Right node log start.toNat stop.toNat)
    (h : v.readNext self node start stop = .ok r) :
    0 ≤ start ∧ start < stop ∧ v.Reads node log start.toNat stop.toNat r := by
  have hreads : ∀ value chain, (v.oracle node).act .cached = some value →
      value.chain = some chain → VirtualLog.LogletReads (v.oracle node) chain.segments
        start.toNat stop.toNat (v.Shown node log) (v.Hidden node) := by
    intro value chain hvalue hchain
    obtain rfl : v.cached = value := Option.some.inj hvalue
    have hsegments : v.segments = chain.segments := by rw [segments, hchain]
    exact hsegments ▸ logletReads hright
  obtain ⟨hstart, hstop, value, chain, hvalue, hchain, hresult⟩ := VirtualLog.run_readNext hreads h
  obtain rfl : v.cached = value := Option.some.inj hvalue
  have hsegments : v.segments = chain.segments := by rw [segments, hchain]
  refine ⟨hstart, hstop, fun e he => ?_, fun q hq hq' hbefore s hs hcov => ?_⟩
  · obtain ⟨hlow, hhigh, s, hs, hcov, -, hpos, htrim, ⟨member, hm, entry, hanswer⟩, hlog⟩ :=
      hresult.found e he
    have hlocal : e.position - s.virtualStart = e.localPosition := by omega
    refine ⟨hlow, hhigh, hpos ▸ hlog, s, hsegments ▸ hs, hcov, ?_, member, hm, entry, ?_⟩
    · rw [hlocal]
      exact htrim
    · rw [hlocal]
      exact hanswer
  · exact hresult.passed q hq hq' hbefore s (hsegments ▸ hs) hcov

end ReadView

end DelosLab.Kv
