import DelosLab.VirtualLog.Core

/-!
# What a read of the virtual log finds and passes over

`readNext` asks the Loglets of the cached chain, one segment after the other, for the
part of the range that each of them covers. What a Loglet passes over is passed over.
-/

namespace DelosLab.VirtualLog

open Async Async.Coroutine

variable {P : Type}

namespace LogSegment

/-- The part of a virtual range that the segment covers begins and ends here. -/
def overlapStart (s : LogSegment P) (virtualStart : Nat) : Nat := max virtualStart s.virtualStart

def overlapStop (s : LogSegment P) (virtualStop : Nat) : Nat :=
  min virtualStop (s.virtualStop.getD virtualStop)

variable {s : LogSegment P} {virtualStart virtualStop q : Nat}

/-- A position of the range that a segment covers is in the segment's part of it. -/
theorem Covers.overlap (h : s.Covers q) (hstart : virtualStart ≤ q) (hstop : q < virtualStop) :
    s.overlapStart virtualStart ≤ q ∧ q < s.overlapStop virtualStop := by
  refine ⟨Nat.max_le.mpr ⟨hstart, h.1⟩, Nat.lt_min.mpr ⟨hstop, ?_⟩⟩
  cases hs : s.virtualStop with
  | none => exact hstop
  | some stop => exact h.2 stop hs

/-- A position of a segment's part of the range is covered by the segment. -/
theorem covers_of_overlap (hstart : s.overlapStart virtualStart ≤ q)
    (hstop : q < s.overlapStop virtualStop) :
    s.Covers q ∧ virtualStart ≤ q ∧ q < virtualStop := by
  obtain ⟨hv, hs⟩ := Nat.max_le.mp hstart
  obtain ⟨hlt, hlt'⟩ := Nat.lt_min.mp hstop
  refine ⟨⟨hs, fun stop hstop' => ?_⟩, hv, hlt⟩
  rw [hstop'] at hlt'
  exact hlt'

end LogSegment

/-- What the Loglets of `segments` answer for their parts of a range: what is found is
shown, and what lies before it is hidden. -/
structure LogletReads (o : Oracle (signature P)) (segments : List (LogSegment P))
    (virtualStart virtualStop : Nat) (shown : LogSegment P → LogletEntry → Prop)
    (hidden : LogSegment P → Nat → Prop) : Prop where
  found : ∀ s ∈ segments, s.overlapStart virtualStart < s.overlapStop virtualStop → ∀ entry,
    o.wait (.readNext s (s.overlapStart virtualStart - s.virtualStart)
      (s.overlapStop virtualStop - s.virtualStart)) = .ok (some entry) →
    shown s entry ∧
      ∀ l, s.overlapStart virtualStart - s.virtualStart ≤ l → l < entry.position → hidden s l
  missing : ∀ s ∈ segments, s.overlapStart virtualStart < s.overlapStop virtualStop →
    o.wait (.readNext s (s.overlapStart virtualStart - s.virtualStart)
      (s.overlapStop virtualStop - s.virtualStart)) = .ok none →
    ∀ l, s.overlapStart virtualStart - s.virtualStart ≤ l →
      l < s.overlapStop virtualStop - s.virtualStart → hidden s l

/-- What a read of a range found and passed over. -/
structure ReadResult (shown : LogSegment P → LogletEntry → Prop)
    (hidden : LogSegment P → Nat → Prop) (segments : List (LogSegment P))
    (virtualStart virtualStop : Nat) (r : Option VirtualLogEntry) : Prop where
  found : ∀ e, r = some e → virtualStart ≤ e.position ∧ e.position < virtualStop ∧
    ∃ s ∈ segments, s.Covers e.position ∧ e.segmentId = s.segmentId ∧
      e.position = s.virtualStart + e.localPosition ∧
        shown s ⟨e.localPosition, e.commandId, e.payload⟩
  passed : ∀ q, virtualStart ≤ q → q < virtualStop → (∀ e, r = some e → q < e.position) →
    ∀ s ∈ segments, s.Covers q → hidden s (q - s.virtualStart)

section Routing

variable {o : Oracle (signature P)} {shown : LogSegment P → LogletEntry → Prop}
  {hidden : LogSegment P → Nat → Prop} {virtualStart virtualStop : Nat}

/-- A segment in whose part of the range everything is hidden can be passed over. -/
theorem ReadResult.cons {segment : LogSegment P} {segments : List (LogSegment P)}
    {r : Option VirtualLogEntry}
    (h : ReadResult shown hidden segments virtualStart virtualStop r)
    (hhidden : ∀ q, virtualStart ≤ q → q < virtualStop → segment.Covers q →
      hidden segment (q - segment.virtualStart)) :
    ReadResult shown hidden (segment :: segments) virtualStart virtualStop r where
  found := by
    intro e he
    obtain ⟨hstart, hstop, s, hs, hrest⟩ := h.found e he
    exact ⟨hstart, hstop, s, List.mem_cons_of_mem _ hs, hrest⟩
  passed := by
    intro q hq hq' hbefore s hs hcov
    rcases List.mem_cons.mp hs with rfl | hs
    · exact hhidden q hq hq' hcov
    · exact h.passed q hq hq' hbefore s hs hcov

theorem readNextLoop_result {segments : List (LogSegment P)}
    (hr : LogletReads o segments virtualStart virtualStop shown hidden)
    (hc : segments = [] ∨ Contiguous segments) {r : Option VirtualLogEntry}
    (h : run o (readNextLoop virtualStart virtualStop segments) = .ok r) :
    ReadResult shown hidden segments virtualStart virtualStop r := by
  induction segments generalizing r with
  | nil =>
      cases h
      exact ⟨nofun, fun _ _ _ _ _ hs => nomatch hs⟩
  | cons segment segments ih =>
      have hcont := hc.resolve_left (List.cons_ne_nil _ _)
      have hrest : segments = [] ∨ Contiguous segments := by
        cases segments with
        | nil => exact .inl rfl
        | cons t rest => exact .inr hcont.2
      have hr' : LogletReads o segments virtualStart virtualStop shown hidden :=
        ⟨fun s hs => hr.found s (List.mem_cons_of_mem _ hs),
          fun s hs => hr.missing s (List.mem_cons_of_mem _ hs)⟩
      have ih := fun {r} h => ih (r := r) hr' hrest h
      rw [readNextLoop] at h
      simp only at h
      split at h
      · next hempty =>
          refine (ih h).cons fun q hq hq' hcov => ?_
          obtain ⟨hle, hlt⟩ := hcov.overlap hq hq'
          exact absurd (Nat.lt_of_le_of_lt hle hlt) (Nat.not_lt.mpr hempty)
      · next hfull =>
          have hne : segment.overlapStart virtualStart < segment.overlapStop virtualStop :=
            Nat.lt_of_not_le hfull
          have hge : segment.virtualStart ≤ segment.overlapStart virtualStart :=
            Nat.le_max_right _ _
          obtain ⟨answer, hread, h⟩ := run_bind_ok h
          have hread : o.wait (.readNext segment
              (segment.overlapStart virtualStart - segment.virtualStart)
              (segment.overlapStop virtualStop - segment.virtualStart)) = .ok answer :=
            (run_await _).symm.trans hread
          cases answer with
          | none =>
              refine (ih h).cons fun q hq hq' hcov => ?_
              obtain ⟨hle, hlt⟩ := hcov.overlap hq hq'
              exact hr.missing _ List.mem_cons_self hne hread _ (by omega) (by omega)
          | some entry =>
              obtain ⟨_, hcheck, h⟩ := run_bind_ok h
              obtain ⟨hlow, hhigh⟩ := run_require_ok hcheck
              cases h
              obtain ⟨hshown, hhidden⟩ := hr.found _ List.mem_cons_self hne _ hread
              have hpos : segment.overlapStart virtualStart ≤
                  segment.virtualStart + entry.position := by
                have : segment.overlapStart virtualStart - segment.virtualStart ≤
                  entry.position := hlow
                omega
              have hpos' : segment.virtualStart + entry.position <
                  segment.overlapStop virtualStop := by
                have : entry.position < segment.overlapStop virtualStop - segment.virtualStart :=
                  hhigh
                omega
              obtain ⟨hcov, hstart, hstop⟩ := LogSegment.covers_of_overlap hpos hpos'
              refine ⟨fun e he => ?_, fun q hq hq' hbefore s hs hcov' => ?_⟩
              · cases he
                exact ⟨hstart, hstop, segment, List.mem_cons_self, hcov, rfl, rfl, hshown⟩
              · have hlt : q < segment.virtualStart + entry.position := hbefore _ rfl
                rcases List.mem_cons.mp hs with rfl | hs
                · have hov := (hcov'.overlap hq hq').1
                  have hle := hcov'.1
                  exact hhidden _ (by omega) (by omega)
                · -- A later segment starts behind the entry.
                  obtain ⟨stop, hstop', hle'⟩ := hcont.stop_le s hs
                  have := hcov.2 stop hstop'
                  have := hcov'.1
                  omega

theorem run_cached {snapshot : Snapshot P} (h : run o cached = .ok snapshot) :
    ∃ value, o.act .cached = some value ∧ value.chain = some snapshot.chain := by
  obtain ⟨value, hvalue, h⟩ := run_bind_ok h
  obtain rfl : o.act .cached = value := Except.ok.inj hvalue
  cases hcached : o.act .cached with
  | none =>
      rw [hcached] at h
      cases h
  | some value =>
      refine ⟨value, rfl, ?_⟩
      rw [hcached] at h
      simp only at h
      cases hchain : value.chain with
      | none =>
          rw [hchain] at h
          cases h
      | some chain =>
          rw [hchain] at h
          cases h
          rfl

/-- **`readNext`** finds an entry that a Loglet of the cached chain shows, and passes
over hidden positions only. -/
theorem run_readNext {self : VirtualLog} {start stop : Int} {r : Option VirtualLogEntry}
    (hr : ∀ value chain, o.act .cached = some value → value.chain = some chain →
      LogletReads o chain.segments start.toNat stop.toNat shown hidden)
    (h : run o (self.readNext start stop) = .ok r) :
    0 ≤ start ∧ start < stop ∧
      ∃ value chain, o.act .cached = some value ∧ value.chain = some chain ∧
        ReadResult shown hidden chain.segments start.toNat stop.toNat r := by
  rw [VirtualLog.readNext] at h
  obtain ⟨_, hrange, h⟩ := run_bind_ok h
  obtain ⟨hstart, hstop⟩ := run_require_ok hrange
  obtain ⟨snapshot, hcached, h⟩ := run_bind_ok h
  obtain ⟨_, -, h⟩ := run_bind_ok h
  obtain ⟨value, hvalue, hchain⟩ := run_cached hcached
  exact ⟨hstart, hstop, value, snapshot.chain, hvalue, hchain,
    readNextLoop_result (hr _ _ hvalue hchain) (.inr snapshot.chain.valid.2) h⟩

end Routing

end DelosLab.VirtualLog
