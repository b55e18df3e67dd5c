import DelosLab.Common.Membership
import DelosLab.Common.Search
import DelosLab.VirtualLog.Reads
import Mathlib.Tactic.IntervalCases

/-!
# One address space

A chain and the contents of its Loglets make up one partial map of virtual positions: a
position has the entry that the segment that covers it holds at the translated position.
`readNext` is a search of that map, whatever else the Loglets hold.
-/

namespace DelosLab.VirtualLog

open Async Async.Coroutine

variable {P : Type}

/-- The command and the payload at each position of a Loglet. -/
abbrev LogletContent : Type := Nat → Option (String × Bytes)

def LogletContent.entryAt (content : LogletContent) (position : Nat) : Option LogletEntry :=
  (content position).map fun e => ⟨position, e.1, e.2⟩

/-- `VirtualLoglet.read_next`: the first entry in the half-open local range. -/
def LogletContent.readNext (content : LogletContent) (localStart localStop : Nat) :
    Option LogletEntry :=
  firstIn content.entryAt localStart localStop

/-- The entry at a virtual position of a chain. -/
def LogChain.entryAt (chain : LogChain P) (content : LogSegment P → LogletContent)
    (position : Nat) : Option VirtualLogEntry :=
  (chain.segmentAt position).bind fun s =>
    (content s (position - s.virtualStart)).map fun e =>
      { position := position
        commandId := e.1
        payload := e.2
        segmentId := s.segmentId
        localPosition := position - s.virtualStart }

/-! ## The Loglet's contract -/

namespace LogletContent

variable {content : LogletContent} {localStart localStop : Nat}

theorem entryAt_eq_none {p : Nat} : content.entryAt p = none ↔ content p = none := by
  rw [entryAt, Option.map_eq_none_iff]

theorem entryAt_eq_some {p : Nat} {e : LogletEntry} :
    content.entryAt p = some e ↔ e.position = p ∧ content p = some (e.commandId, e.payload) := by
  rw [entryAt, Option.map_eq_some_iff]
  constructor
  · rintro ⟨⟨commandId, payload⟩, h, rfl⟩
    exact ⟨rfl, h⟩
  · rintro ⟨rfl, h⟩
    exact ⟨_, h, rfl⟩

theorem readNext_eq_none :
    content.readNext localStart localStop = none ↔
      ∀ l, localStart ≤ l → l < localStop → content l = none := by
  simp only [readNext, firstIn_eq_none, entryAt_eq_none]

theorem readNext_eq_some {e : LogletEntry} :
    content.readNext localStart localStop = some e ↔
      localStart ≤ e.position ∧ e.position < localStop ∧
        content e.position = some (e.commandId, e.payload) ∧
          ∀ l, localStart ≤ l → l < e.position → content l = none := by
  simp only [readNext, firstIn_eq_some, entryAt_eq_none, entryAt_eq_some]
  constructor
  · rintro ⟨p, hle, hlt, ⟨rfl, he⟩, hbefore⟩
    exact ⟨hle, hlt, he, hbefore⟩
  · rintro ⟨hle, hlt, he, hbefore⟩
    exact ⟨e.position, hle, hlt, ⟨rfl, he⟩, hbefore⟩

end LogletContent

/-! ## The map of a chain -/

namespace LogChain

variable {chain : LogChain P} {content : LogSegment P → LogletContent} {p : Nat}

theorem mem_of_segmentAt {s : LogSegment P} (h : chain.segmentAt p = some s) :
    s ∈ chain.segments ∧ s.Covers p := by
  have hp := List.find?_some h
  exact ⟨List.mem_of_find?_eq_some h, of_decide_eq_true hp⟩

theorem segmentAt_eq_none :
    chain.segmentAt p = none ↔ ∀ s ∈ chain.segments, ¬s.Covers p := by
  simp only [segmentAt, List.find?_eq_none, decide_eq_true_eq]

/-- Below a covering segment the map is what that segment's Loglet holds. -/
theorem entryAt_of_covers {s : LogSegment P} (hs : s ∈ chain.segments) (hp : s.Covers p) :
    chain.entryAt content p = (content s (p - s.virtualStart)).map fun e =>
      ⟨p, e.1, e.2, s.segmentId, p - s.virtualStart⟩ := by
  rw [entryAt, segmentAt_eq_some hs hp, Option.bind_some]

theorem entryAt_eq_none :
    chain.entryAt content p = none ↔
      ∀ s ∈ chain.segments, s.Covers p → content s (p - s.virtualStart) = none := by
  constructor
  · intro h s hs hp
    rw [entryAt_of_covers hs hp] at h
    exact Option.map_eq_none_iff.mp h
  · intro h
    cases hat : chain.segmentAt p with
    | none => rw [entryAt, hat, Option.bind_none]
    | some s =>
        obtain ⟨hs, hp⟩ := mem_of_segmentAt hat
        rw [entryAt_of_covers hs hp, h s hs hp, Option.map_none]

theorem position_of_entryAt {e : VirtualLogEntry} (h : chain.entryAt content p = some e) :
    e.position = p := by
  obtain ⟨s, -, he⟩ := Option.bind_eq_some_iff.mp h
  obtain ⟨x, -, rfl⟩ := Option.map_eq_some_iff.mp he
  rfl

end LogChain

/-! ## Routing -/

section Routing

variable {o : Oracle (signature P)} {content : LogSegment P → LogletContent}
  {virtualStart virtualStop : Nat}

/-- No answer of a Loglet falls outside the range that it was asked for. -/
theorem readNextLoop_returns {segments : List (LogSegment P)}
    (hr : ∀ s ∈ segments, ∀ i j, o.wait (.readNext s i j) = .ok ((content s).readNext i j)) :
    ∃ r, run o (readNextLoop virtualStart virtualStop segments) = .ok r := by
  induction segments with
  | nil => exact ⟨none, rfl⟩
  | cons s segments ih =>
      obtain ⟨r, hrest⟩ := ih fun t ht => hr t (List.mem_cons_of_mem _ ht)
      rw [readNextLoop]
      simp only
      split
      · exact ⟨r, hrest⟩
      · have hread := hr s List.mem_cons_self (s.overlapStart virtualStart - s.virtualStart)
          (s.overlapStop virtualStop - s.virtualStart)
        have hwait : run o (wait (.readNext s (s.overlapStart virtualStart - s.virtualStart)
            (s.overlapStop virtualStop - s.virtualStart))) = _ := (run_await _).trans hread
        cases hanswer : (content s).readNext (s.overlapStart virtualStart - s.virtualStart)
            (s.overlapStop virtualStop - s.virtualStart) with
        | none =>
            rw [hanswer] at hwait
            exact ⟨r, (run_bind_of_ok hwait _).trans hrest⟩
        | some e =>
            rw [hanswer] at hwait
            -- The answer is within the range, so the check of `read_next` passes.
            obtain ⟨hle, hlt, -⟩ := LogletContent.readNext_eq_some.mp hanswer
            exact ⟨_, (run_bind_of_ok hwait _).trans
              (run_bind_of_ok (run_require_of ⟨hle, hlt⟩) _)⟩

theorem run_cached_of {snapshot : VersionedLogChain P} {chain : LogChain P}
    (hcached : o.act .cached = some snapshot) (hchain : snapshot.chain = some chain) :
    run o cached = .ok ⟨snapshot.version, chain⟩ := by
  have hact : run o (act (P := P) .cached) = .ok (some snapshot) := by
    rw [← hcached]
    rfl
  rw [cached, run_bind_of_ok hact]
  simp only [hchain]
  rfl

/-- What `read_next` does before it goes through the segments. -/
theorem run_readNext_eq {self : VirtualLog} {snapshot : VersionedLogChain P}
    {chain : LogChain P} (hcached : o.act .cached = some snapshot)
    (hchain : snapshot.chain = some chain) (hloglets : self.loglets = true)
    (hrange : virtualStart < virtualStop) :
    run o (self.readNext virtualStart virtualStop) =
      run o (readNextLoop virtualStart virtualStop chain.segments) := by
  have hcheck : (0 : Int) ≤ virtualStart ∧ (virtualStart : Int) < virtualStop := by omega
  rw [VirtualLog.readNext, run_bind_of_ok (run_require_of hcheck),
    run_bind_of_ok (run_cached_of hcached hchain), requireLoglets,
    run_bind_of_ok (run_require_of hloglets)]
  rfl

/-- The Loglets' contract in the form that reads are routed by. -/
theorem logletReads_of_contents {segments : List (LogSegment P)}
    (hr : ∀ s ∈ segments, ∀ i j, o.wait (.readNext s i j) = .ok ((content s).readNext i j)) :
    LogletReads o segments virtualStart virtualStop
      (fun s e => content s e.position = some (e.commandId, e.payload))
      fun s l => content s l = none where
  found := by
    intro s hs _ e he
    rw [hr s hs] at he
    obtain ⟨-, -, hshown, hbefore⟩ := LogletContent.readNext_eq_some.mp (Except.ok.inj he)
    exact ⟨hshown, hbefore⟩
  missing := by
    intro s hs _ hnone
    rw [hr s hs] at hnone
    exact LogletContent.readNext_eq_none.mp (Except.ok.inj hnone)

section Result

variable {chain : LogChain P} {r : Option VirtualLogEntry}
  (h : ReadResult (fun s (e : LogletEntry) => content s e.position = some (e.commandId, e.payload))
    (fun s l => content s l = none) chain.segments virtualStart virtualStop r)

include h

theorem ReadResult.entryAt_found {e : VirtualLogEntry} (he : r = some e) :
    chain.entryAt content e.position = some e := by
  obtain ⟨-, -, s, hs, hcov, hid, hpos, hshown⟩ := h.found e he
  have hlocal : e.position - s.virtualStart = e.localPosition := by omega
  rw [LogChain.entryAt_of_covers hs hcov, hlocal, hshown, ← hid]
  rfl

theorem ReadResult.entryAt_passed {q : Nat} (hq : virtualStart ≤ q) (hq' : q < virtualStop)
    (hbefore : ∀ e, r = some e → q < e.position) : chain.entryAt content q = none :=
  LogChain.entryAt_eq_none.mpr fun s hs hcov => h.passed q hq hq' hbefore s hs hcov

/-- A read finds the least entry of its range. -/
theorem ReadResult.eq_some_iff (e : VirtualLogEntry) :
    r = some e ↔ virtualStart ≤ e.position ∧ e.position < virtualStop ∧
      chain.entryAt content e.position = some e ∧
        ∀ q, virtualStart ≤ q → q < e.position → chain.entryAt content q = none := by
  constructor
  · intro he
    obtain ⟨hstart, hstop, -⟩ := h.found e he
    refine ⟨hstart, hstop, h.entryAt_found he, fun q hq hq' => ?_⟩
    refine h.entryAt_passed hq (Nat.lt_trans hq' hstop) fun e' he' => ?_
    cases he.symm.trans he'
    exact hq'
  · rintro ⟨hstart, hstop, hat, hleast⟩
    cases hr : r with
    | none =>
        rw [h.entryAt_passed hstart hstop (by simp [hr])] at hat
        cases hat
    | some e' =>
        have hat' := h.entryAt_found hr
        obtain ⟨hstart', -⟩ := h.found e' hr
        rcases Nat.lt_trichotomy e.position e'.position with hlt | heq | hgt
        · have hbefore : ∀ e₁, r = some e₁ → e.position < e₁.position := by
            intro e₁ he₁
            cases hr.symm.trans he₁
            exact hlt
          rw [h.entryAt_passed hstart hstop hbefore] at hat
          cases hat
        · rw [heq, hat'] at hat
          rw [Option.some.inj hat]
        · rw [hleast _ hstart' hgt] at hat'
          cases hat'

theorem ReadResult.eq_none_iff :
    r = none ↔ ∀ q, virtualStart ≤ q → q < virtualStop → chain.entryAt content q = none := by
  constructor
  · intro hr q hq hq'
    exact h.entryAt_passed hq hq' (by simp [hr])
  · intro hall
    cases hr : r with
    | none => rfl
    | some e =>
        obtain ⟨hstart, hstop, -⟩ := h.found e hr
        have := h.entryAt_found hr
        rw [hall _ hstart hstop] at this
        cases this

end Result

/-- A read is a search of the map of the chain. -/
theorem run_readNext_firstIn {self : VirtualLog} {snapshot : VersionedLogChain P}
    {chain : LogChain P} (hcached : o.act .cached = some snapshot)
    (hchain : snapshot.chain = some chain) (hloglets : self.loglets = true)
    (hreads : ∀ s ∈ chain.segments, ∀ i j,
      o.wait (.readNext s i j) = .ok ((content s).readNext i j))
    (hrange : virtualStart < virtualStop) :
    run o (self.readNext virtualStart virtualStop) =
      .ok (firstIn (chain.entryAt content) virtualStart virtualStop) := by
  obtain ⟨r, hr⟩ : ∃ r, run o (readNextLoop virtualStart virtualStop chain.segments) = .ok r :=
    readNextLoop_returns hreads
  have h := readNextLoop_result (logletReads_of_contents hreads) (.inr chain.valid.2) hr
  rw [run_readNext_eq hcached hchain hloglets hrange, hr]
  cases hfirst : firstIn (chain.entryAt content) virtualStart virtualStop with
  | none => rw [h.eq_none_iff.mpr (firstIn_eq_none.mp hfirst)]
  | some e =>
      obtain ⟨p, hle, hlt, hat, hbefore⟩ := firstIn_eq_some.mp hfirst
      obtain rfl := LogChain.position_of_entryAt hat
      rw [(h.eq_some_iff e).mpr ⟨hle, hlt, hat, hbefore⟩]

/-- **`readNext` is a search of one address space.** For every chain and every content of
its Loglets, a read of a range returns the entry at the least position of the range that
has one, in the one segment that covers it and before that segment's end, and `None`
exactly when there is none. -/
theorem readNext_routes {self : VirtualLog} {snapshot : VersionedLogChain P}
    {chain : LogChain P} (hcached : o.act .cached = some snapshot)
    (hchain : snapshot.chain = some chain) (hloglets : self.loglets = true)
    (hreads : ∀ s ∈ chain.segments, ∀ i j,
      o.wait (.readNext s i j) = .ok ((content s).readNext i j))
    (hrange : virtualStart < virtualStop) :
    ∃ r, run o (self.readNext virtualStart virtualStop) = .ok r ∧
      (∀ e, r = some e ↔ virtualStart ≤ e.position ∧ e.position < virtualStop ∧
        chain.entryAt content e.position = some e ∧
          ∀ q, virtualStart ≤ q → q < e.position → chain.entryAt content q = none) ∧
      (r = none ↔ ∀ q, virtualStart ≤ q → q < virtualStop → chain.entryAt content q = none) ∧
      ∀ e, r = some e → ∃ s ∈ chain.segments, chain.segmentAt e.position = some s ∧
        (∀ t ∈ chain.segments, t.Covers e.position → t = s) ∧ e.segmentId = s.segmentId ∧
          e.position = s.virtualStart + e.localPosition ∧
            ∀ stop ∈ s.virtualStop, e.position < stop := by
  obtain ⟨r, hr⟩ : ∃ r, run o (readNextLoop virtualStart virtualStop chain.segments) = .ok r :=
    readNextLoop_returns hreads
  have h := readNextLoop_result (logletReads_of_contents hreads) (.inr chain.valid.2) hr
  refine ⟨r, (run_readNext_eq hcached hchain hloglets hrange).trans hr, h.eq_some_iff,
    h.eq_none_iff, fun e he => ?_⟩
  obtain ⟨-, -, s, hs, hcov, hid, hpos, -⟩ := h.found e he
  refine ⟨s, hs, LogChain.segmentAt_eq_some hs hcov, fun t ht hcov' => ?_, hid, hpos, hcov.2⟩
  exact chain.valid.2.covers_unique ht hs hcov' hcov

end Routing

/-! ## A chain whose closed segment has a zombie -/

theorem fresh_named : "fresh" ≠ "" := by decide

/-- The answers of Loglets that hold `content`, under a cached snapshot. -/
def frozen (snapshot : VersionedLogChain P) (content : LogSegment P → LogletContent) :
    Oracle (signature P) where
  act := fun
    | .cached => some snapshot
    | .setCached _ => ()
    | .uuid4 => ⟨"fresh", fresh_named⟩
    | .invoke _ => 0
    | .release => ()
  wait := fun
    | .readNext s localStart localStop => .ok ((content s).readNext localStart localStop)
    | .acquire => .error .cancelled
    | .sleep => .error .cancelled
    | .readResponse _ => .error .cancelled
    | .casResponse _ => .error .cancelled
    | .append _ _ _ => .error .cancelled
    | .seal _ => .error .cancelled
    | .checkTail _ => .error .cancelled
    | .prefixTrim _ _ => .error .cancelled
    | .successor _ => .error .cancelled

def zombieChain : LogChain Unit where
  segments :=
    [⟨"a", 2, some 5, ⟨"memory", 1, ()⟩, a_named, by decide⟩,
      ⟨"b", 5, none, ⟨"memory", 1, ()⟩, b_named, by decide⟩]
  valid := by decide

/-- `a` has an entry at the end of its range. -/
def zombieContent (s : LogSegment Unit) : LogletContent := fun p =>
  if s.segmentId = "a" ∧ p = 3 then some ("zombie", [1])
  else if s.segmentId = "b" ∧ p = 1 then some ("x", [2])
  else none

def zombieLog : VirtualLog := ⟨true, false, 1, Nat.one_pos⟩

theorem readNext_routes_zombie :
    ∃ r, run (frozen (.installed 1 zombieChain) zombieContent)
        (zombieLog.readNext (3 : Nat) (9 : Nat)) = .ok r ∧
      r = some ⟨6, "x", [2], "b", 1⟩ := by
  obtain ⟨r, hr, hsome, -⟩ : ∃ r, run (frozen (.installed 1 zombieChain) zombieContent)
      (zombieLog.readNext (3 : Nat) (9 : Nat)) = .ok r ∧ (∀ e, r = some e ↔ _) ∧ _ :=
    readNext_routes rfl rfl rfl (fun _ _ _ _ => rfl) (by decide)
  refine ⟨r, hr, (hsome _).mpr ⟨by decide, by decide, by decide, fun q hq hq' => ?_⟩⟩
  have hq' : q < 6 := hq'
  interval_cases q
  · decide
  · decide
  · decide

end DelosLab.VirtualLog
