import Mathlib.Data.Nat.Basic
import Mathlib.Data.Nat.Init
import DelosLab.VirtualLog.System

/-!
# Histories of installed chains

What one installed chain may make of its predecessor, and what follows for every
pair of chains of one history: closed ranges are frozen, starts only move
forward, and a position below a sealed tail stays where it was mapped.
-/

namespace DelosLab.VirtualLog

variable {P : Type}

def LogChain.ids (chain : LogChain P) : List String := chain.segments.map LogSegment.segmentId

/-- The active segment is closed at a sealed tail and an open one begins there. -/
def Extends (events : List LogletEvent) (old new : LogChain P) : Prop :=
  ∃ length next, new.segments = old.segments.dropLast ++ [old.active.close length, next] ∧
    next.virtualStart = old.active.virtualStart + length ∧ next.virtualStop = none ∧
    LogletEvent.tail old.active.segmentId length true ∈ events

/-- The first segment is dropped; it is closed and its Loglet has reported it
trimmed through its whole range. -/
def Truncates (events : List LogletEvent) (old new : LogChain P) : Prop :=
  ∃ stop watermark, old.segments = old.first :: new.segments ∧
    old.first.virtualStop = some stop ∧
    LogletEvent.trimmed old.first.segmentId watermark ∈ events ∧
    stop - old.first.virtualStart ≤ watermark

/-- The active segment stays, or it was sealed before it was replaced. -/
def SealsFirst (events : List LogletEvent) (old new : LogChain P) : Prop :=
  new.active.segmentId = old.active.segmentId ∨
    LogletEvent.sealed old.active.segmentId ∈ events

/-- One closed segment gets another Loglet configuration. -/
def Modifies (old new : LogChain P) : Prop :=
  ∃ xs s ys loglet, old.segments = xs ++ s :: ys ∧
    new.segments = xs ++ s.modify loglet :: ys ∧ s.virtualStop ≠ none ∧ s.loglet ≠ loglet

/-- What an installed chain may make of the one before it; `earlier` are the
chains installed so far, whose identifiers a new segment avoids. -/
inductive Succeeds (events : List LogletEvent) (earlier : List (LogChain P))
    (old new : LogChain P) : Prop
  | extends (h : Extends events old new)
      (fresh : ∀ chain ∈ earlier, new.active.segmentId ∉ chain.ids)
  | truncates (h : Truncates events old new)
  | modifies (h : Modifies old new)

/-- A history of installed chains, oldest first: version one is an open segment
at zero, and every later version comes from the one before it. -/
structure ValidHistory (events : List LogletEvent) (history : List (LogChain P)) : Prop where
  first : ∀ chain, history[0]? = some chain →
    ∃ s, chain.segments = [s] ∧ s.virtualStart = 0 ∧ s.virtualStop = none
  step : ∀ n old new, history[n]? = some old → history[n + 1]? = some new →
    Succeeds events (history.take (n + 1)) old new

/-! ## Shapes of a step -/

theorem LogChain.active_eq_of_append {chain : LogChain P} {xs : List (LogSegment P)}
    {s : LogSegment P} (h : chain.segments = xs ++ [s]) : chain.active = s := by
  have h' := chain.segments_eq
  rw [h] at h'
  exact ((List.append_inj' h' rfl).2 |> List.singleton_inj.mp).symm

theorem LogChain.active_eq_of_concat {chain : LogChain P} {xs : List (LogSegment P)}
    {s t : LogSegment P} (h : chain.segments = xs ++ [s, t]) : chain.active = t := by
  have h' : chain.segments = (xs ++ [s]) ++ [t] := by
    rw [h]
    simp
  exact LogChain.active_eq_of_append h'

theorem LogChain.first_eq_of_cons {chain : LogChain P} {s : LogSegment P}
    {rest : List (LogSegment P)} (h : chain.segments = s :: rest) : chain.first = s := by
  have h' := chain.segments_eq_cons
  rw [h] at h'
  exact (List.cons.inj h').1.symm

theorem LogChain.mem_dropLast_or_active {chain : LogChain P} {s : LogSegment P}
    (h : s ∈ chain.segments) : s ∈ chain.segments.dropLast ∨ s = chain.active := by
  rw [chain.segments_eq, List.mem_append, List.mem_singleton] at h
  exact h

/-- A closed segment is not the active one. -/
theorem LogChain.ne_active_of_closed {chain : LogChain P} {s : LogSegment P}
    (h : s.virtualStop ≠ none) : s ≠ chain.active := by
  rintro rfl
  exact h chain.active_open

theorem Extends.active_virtualStart {events : List LogletEvent} {old new : LogChain P}
    (h : Extends events old new) : old.active.virtualStart ≤ new.active.virtualStart := by
  obtain ⟨length, next, hseg, hstart, -, -⟩ := h
  have : new.active = next :=
    LogChain.active_eq_of_concat hseg
  rw [this, hstart]
  exact Nat.le_add_right _ _

theorem Extends.length {events : List LogletEvent} {old new : LogChain P}
    (h : Extends events old new) : new.segments.length = old.segments.length + 1 := by
  obtain ⟨length, next, hseg, -, -, -⟩ := h
  have := congrArg List.length old.segments_eq
  rw [hseg]
  simp only [List.length_append, List.length_cons, List.length_nil] at this ⊢
  omega

theorem Truncates.length {events : List LogletEvent} {old new : LogChain P}
    (h : Truncates events old new) : new.segments.length + 1 = old.segments.length := by
  obtain ⟨stop, watermark, hseg, -, -, -⟩ := h
  rw [hseg, List.length_cons]

theorem Modifies.length {old new : LogChain P} (h : Modifies old new) :
    new.segments.length = old.segments.length := by
  obtain ⟨xs, s, ys, loglet, hold, hnew, -, -⟩ := h
  rw [hold, hnew]
  simp

/-! ## Where a segment comes from -/

/-- What became of a segment over some steps: same identifier and start, and
either the same range or a range closed since, at a sealed tail of its Loglet. -/
def Evolves (events : List LogletEvent) (s s' : LogSegment P) : Prop :=
  s'.segmentId = s.segmentId ∧ s'.virtualStart = s.virtualStart ∧
    (s'.virtualStop = s.virtualStop ∨
      s.virtualStop = none ∧ ∃ length, s'.virtualStop = some (s.virtualStart + length) ∧
        LogletEvent.tail s.segmentId length true ∈ events)

theorem Evolves.refl (events : List LogletEvent) (s : LogSegment P) : Evolves events s s :=
  ⟨rfl, rfl, .inl rfl⟩

theorem Evolves.trans {events : List LogletEvent} {s₁ s₂ s₃ : LogSegment P}
    (h : Evolves events s₁ s₂) (h' : Evolves events s₂ s₃) : Evolves events s₁ s₃ := by
  obtain ⟨hid, hstart, hstop⟩ := h
  obtain ⟨hid', hstart', hstop'⟩ := h'
  refine ⟨hid'.trans hid, hstart'.trans hstart, ?_⟩
  rcases hstop' with hstop' | ⟨hopen, length, hstop', htail⟩
  · rcases hstop with hstop | ⟨hopen, length, hstop, htail⟩
    · exact .inl (hstop'.trans hstop)
    · exact .inr ⟨hopen, length, hstop'.trans hstop, htail⟩
  · rcases hstop with hstop | ⟨_, length', hstop, _⟩
    · refine .inr ⟨hstop ▸ hopen, length, ?_, hid ▸ htail⟩
      rw [hstop', hstart]
    · rw [hstop] at hopen
      cases hopen

/-- A closed segment keeps its range. -/
theorem Evolves.closed {events : List LogletEvent} {s s' : LogSegment P}
    (h : Evolves events s s') (hs : s.virtualStop ≠ none) : s'.virtualStop = s.virtualStop := by
  rcases h.2.2 with hstop | ⟨hopen, _⟩
  · exact hstop
  · exact absurd hopen hs

/-- Every segment of the new chain was there before or is the fresh active one. -/
theorem Succeeds.origin {events : List LogletEvent} {earlier : List (LogChain P)}
    {old new : LogChain P} (h : Succeeds events earlier old new) {s' : LogSegment P}
    (hs' : s' ∈ new.segments) :
    (∃ s ∈ old.segments, Evolves events s s') ∨
      ∀ chain ∈ earlier, s'.segmentId ∉ chain.ids := by
  cases h with
  | «extends» h fresh =>
      obtain ⟨length, next, hseg, hstart, hopen, htail⟩ := h
      have hactive : new.active = next :=
        LogChain.active_eq_of_concat hseg
      rw [hseg, List.mem_append, List.mem_cons, List.mem_singleton] at hs'
      rcases hs' with hs' | rfl | rfl
      · exact .inl ⟨s', List.dropLast_subset _ hs', Evolves.refl events s'⟩
      · refine .inl ⟨old.active, old.active_mem, rfl, rfl, .inr ⟨old.active_open, length, rfl, ?_⟩⟩
        exact htail
      · rw [hactive] at fresh
        exact .inr fresh
  | truncates h =>
      obtain ⟨stop, watermark, hseg, -, -, -⟩ := h
      exact .inl ⟨s', hseg ▸ List.mem_cons_of_mem _ hs', Evolves.refl events s'⟩
  | modifies h =>
      obtain ⟨xs, s, ys, loglet, hold, hnew, -, -⟩ := h
      rw [hnew, List.mem_append, List.mem_cons] at hs'
      rcases hs' with hs' | rfl | hs'
      · exact .inl ⟨s', by rw [hold]; simp [hs'], Evolves.refl events s'⟩
      · exact .inl ⟨s, by rw [hold]; simp, rfl, rfl, .inl rfl⟩
      · exact .inl ⟨s', by rw [hold]; simp [hs'], Evolves.refl events s'⟩

/-- Every segment of the old chain is still there, or it was closed and the new
chain starts at its end. -/
theorem Succeeds.fate {events : List LogletEvent} {earlier : List (LogChain P)}
    {old new : LogChain P} (h : Succeeds events earlier old new) {s : LogSegment P}
    (hs : s ∈ old.segments) :
    (∃ s' ∈ new.segments, Evolves events s s') ∨
      ∃ stop, s.virtualStop = some stop ∧ stop ≤ new.first.virtualStart := by
  cases h with
  | «extends» h fresh =>
      obtain ⟨length, next, hseg, hstart, hopen, htail⟩ := h
      rcases old.mem_dropLast_or_active hs with hs | rfl
      · exact .inl ⟨s, by rw [hseg]; simp [hs], Evolves.refl events s⟩
      · refine .inl ⟨old.active.close length, by rw [hseg]; simp, rfl, rfl, ?_⟩
        exact .inr ⟨old.active_open, length, rfl, htail⟩
  | truncates h =>
      obtain ⟨stop, watermark, hseg, hstop, -, -⟩ := h
      have hold := hs
      rw [hseg, List.mem_cons] at hold
      rcases hold with rfl | hs
      · refine .inr ⟨stop, hstop, ?_⟩
        -- The second segment starts exactly where the first one stops.
        have hvalid := old.valid.2
        rw [hseg, new.segments_eq_cons] at hvalid
        have hnext : some stop = some new.first.virtualStart := hstop ▸ hvalid.1
        exact Nat.le_of_eq (Option.some.inj hnext)
      · exact .inl ⟨s, hs, Evolves.refl events s⟩
  | modifies h =>
      obtain ⟨xs, u, ys, loglet, hold, hnew, -, -⟩ := h
      rw [hold, List.mem_append, List.mem_cons] at hs
      rcases hs with hs | rfl | hs
      · exact .inl ⟨s, by rw [hnew]; simp [hs], Evolves.refl events s⟩
      · exact .inl ⟨s.modify loglet, by rw [hnew]; simp, rfl, rfl, .inl rfl⟩
      · exact .inl ⟨s, by rw [hnew]; simp [hs], Evolves.refl events s⟩

theorem Succeeds.first_le {events : List LogletEvent} {earlier : List (LogChain P)}
    {old new : LogChain P} (h : Succeeds events earlier old new) :
    old.first.virtualStart ≤ new.first.virtualStart := by
  rcases h.fate old.first_mem with ⟨s', hs', hev⟩ | ⟨stop, hstop, hle⟩
  · cases h with
    | truncates h =>
        obtain ⟨stop, watermark, hseg, -, -, -⟩ := h
        exact old.first_le (hseg ▸ List.mem_cons_of_mem _ new.first_mem)
    | «extends» h fresh =>
        -- The new first segment is the old one, closed if it was the active one.
        obtain ⟨length, next, hseg, -, -, -⟩ := h
        cases hd : old.segments.dropLast with
        | nil =>
            have hold : old.segments = [] ++ [old.active] := hd ▸ old.segments_eq
            rw [LogChain.first_eq_of_cons hold, LogChain.first_eq_of_cons (hd ▸ hseg)]
            exact Nat.le_refl _
        | cons x xs =>
            have hold : old.segments = x :: (xs ++ [old.active]) := by
              have := old.segments_eq
              rwa [hd] at this
            rw [LogChain.first_eq_of_cons hold, LogChain.first_eq_of_cons (hd ▸ hseg)]
    | modifies h =>
        obtain ⟨xs, u, ys, loglet, hold, hnew, -, -⟩ := h
        cases xs with
        | nil =>
            rw [LogChain.first_eq_of_cons hold, LogChain.first_eq_of_cons hnew]
            exact Nat.le_refl _
        | cons x xs => rw [LogChain.first_eq_of_cons hold, LogChain.first_eq_of_cons hnew]
  · exact Nat.le_trans (old.first.range stop hstop) hle

theorem Truncates.active {events : List LogletEvent} {old new : LogChain P}
    (h : Truncates events old new) : new.active = old.active := by
  obtain ⟨stop, watermark, hseg, -, -, -⟩ := h
  have hold : old.segments = (old.first :: new.segments.dropLast) ++ [new.active] := by
    rw [List.cons_append, ← new.segments_eq]
    exact hseg
  exact (LogChain.active_eq_of_append hold).symm

theorem Modifies.active {old new : LogChain P} (h : Modifies old new) :
    new.active = old.active := by
  obtain ⟨xs, s, ys, loglet, hold, hnew, hclosed, -⟩ := h
  -- The modified segment is closed, so something follows it.
  rcases List.eq_nil_or_concat ys with rfl | ⟨ys, last, rfl⟩
  · exact absurd (LogChain.active_eq_of_append hold).symm (LogChain.ne_active_of_closed hclosed)
  · have hold' : old.segments = (xs ++ s :: ys) ++ [last] := by simp [hold]
    have hnew' : new.segments = (xs ++ s.modify loglet :: ys) ++ [last] := by simp [hnew]
    rw [LogChain.active_eq_of_append hold', LogChain.active_eq_of_append hnew']

theorem Succeeds.active_le {events : List LogletEvent} {earlier : List (LogChain P)}
    {old new : LogChain P} (h : Succeeds events earlier old new) :
    old.active.virtualStart ≤ new.active.virtualStart := by
  cases h with
  | «extends» h fresh => exact h.active_virtualStart
  | truncates h => rw [h.active]
  | modifies h => rw [h.active]

/-! ## Pairs of chains of one history -/

namespace ValidHistory

variable {events : List LogletEvent} {history : List (LogChain P)}

/-- Chains before an installed one are installed. -/
theorem getElem?_of_le {n m : Nat} {chain : LogChain P} (h : history[m]? = some chain)
    (hn : n ≤ m) : ∃ chain', history[n]? = some chain' := by
  have hm : m < history.length := (List.getElem?_eq_some_iff.mp h).1
  exact ⟨history.get ⟨n, by omega⟩, List.getElem?_eq_getElem (by omega)⟩

/-- A relation that every step has and that composes holds between any two
chains of a history. -/
theorem rel_of_le (hV : ValidHistory events history) (R : LogChain P → LogChain P → Prop)
    (hrefl : ∀ chain, R chain chain) (htrans : ∀ a b c, R a b → R b c → R a c)
    (hstep : ∀ earlier old new, Succeeds events earlier old new → R old new)
    {n m : Nat} (hnm : n ≤ m) {old new : LogChain P}
    (hold : history[n]? = some old) (hnew : history[m]? = some new) : R old new := by
  induction m, hnm using Nat.le_induction generalizing new with
  | base =>
      obtain rfl := Option.some.inj (hold.symm.trans hnew)
      exact hrefl _
  | succ m hm ih =>
      obtain ⟨mid, hmid⟩ := getElem?_of_le hnew (Nat.le_succ m)
      exact htrans _ _ _ (ih hmid) (hstep _ _ _ (hV.step m mid new hmid hnew))

theorem first_le (hV : ValidHistory events history) {n m : Nat} (hnm : n ≤ m)
    {old new : LogChain P} (hold : history[n]? = some old) (hnew : history[m]? = some new) :
    old.first.virtualStart ≤ new.first.virtualStart :=
  hV.rel_of_le (fun a b => a.first.virtualStart ≤ b.first.virtualStart)
    (fun _ => Nat.le_refl _) (fun _ _ _ => Nat.le_trans) (fun _ _ _ h => h.first_le)
    hnm hold hnew

theorem active_le (hV : ValidHistory events history) {n m : Nat} (hnm : n ≤ m)
    {old new : LogChain P} (hold : history[n]? = some old) (hnew : history[m]? = some new) :
    old.active.virtualStart ≤ new.active.virtualStart :=
  hV.rel_of_le (fun a b => a.active.virtualStart ≤ b.active.virtualStart)
    (fun _ => Nat.le_refl _) (fun _ _ _ => Nat.le_trans) (fun _ _ _ h => h.active_le)
    hnm hold hnew

/-- One identifier names one segment throughout a history. -/
theorem evolves (hV : ValidHistory events history) {n m : Nat} (hnm : n ≤ m)
    {old new : LogChain P} (hold : history[n]? = some old) (hnew : history[m]? = some new)
    {s s' : LogSegment P} (hs : s ∈ old.segments) (hs' : s' ∈ new.segments)
    (hid : s'.segmentId = s.segmentId) : Evolves events s s' := by
  induction m, hnm using Nat.le_induction generalizing new s' with
  | base =>
      obtain rfl := Option.some.inj (hold.symm.trans hnew)
      rw [LogChain.eq_of_segmentId hs' hs hid]
      exact Evolves.refl events s
  | succ m hm ih =>
      obtain ⟨mid, hmid⟩ := getElem?_of_le hnew (Nat.le_succ m)
      rcases (hV.step m mid new hmid hnew).origin hs' with ⟨u, hu, hev⟩ | fresh
      · exact (ih hmid hu (hev.1.symm.trans hid)).trans hev
      · -- A fresh identifier occurs in no earlier chain.
        have hmem : old ∈ history.take (m + 1) :=
          List.mem_of_getElem? ((List.getElem?_take_of_lt (by omega)).trans hold)
        exact absurd (hid ▸ List.mem_map_of_mem hs) (fresh old hmem)

/-- A segment is still there, or the chain starts at or past its end; an end
that was fixed since is a sealed tail of its Loglet. -/
theorem fate (hV : ValidHistory events history) {n m : Nat} (hnm : n ≤ m)
    {old new : LogChain P} (hold : history[n]? = some old) (hnew : history[m]? = some new)
    {s : LogSegment P} (hs : s ∈ old.segments) :
    (∃ s' ∈ new.segments, Evolves events s s') ∨
      ∃ s' stop, Evolves events s s' ∧ s'.virtualStop = some stop ∧
        stop ≤ new.first.virtualStart := by
  induction m, hnm using Nat.le_induction generalizing new with
  | base =>
      obtain rfl := Option.some.inj (hold.symm.trans hnew)
      exact .inl ⟨s, hs, Evolves.refl events s⟩
  | succ m hm ih =>
      obtain ⟨mid, hmid⟩ := getElem?_of_le hnew (Nat.le_succ m)
      have hstep := hV.step m mid new hmid hnew
      rcases ih hmid with ⟨u, hu, hev⟩ | ⟨u, stop, hev, hstop, hle⟩
      · rcases hstep.fate hu with ⟨s', hs', hev'⟩ | ⟨stop, hstop, hle⟩
        · exact .inl ⟨s', hs', hev.trans hev'⟩
        · exact .inr ⟨u, stop, hev, hstop, hle⟩
      · exact .inr ⟨u, stop, hev, hstop, Nat.le_trans hle hstep.first_le⟩

/-- A closed segment's range never changes while it is present. -/
theorem range_frozen (hV : ValidHistory events history) {n m : Nat} (hnm : n ≤ m)
    {old new : LogChain P} (hold : history[n]? = some old) (hnew : history[m]? = some new)
    {s s' : LogSegment P} (hs : s ∈ old.segments) (hs' : s' ∈ new.segments)
    (hid : s'.segmentId = s.segmentId) (hclosed : s.virtualStop ≠ none) :
    s'.virtualStart = s.virtualStart ∧ s'.virtualStop = s.virtualStop := by
  have h := hV.evolves hnm hold hnew hs hs' hid
  exact ⟨h.2.1, h.closed hclosed⟩

/-- While a segment is the active one, nothing about it changes. -/
theorem active_eq (hV : ValidHistory events history) {n m : Nat} (hnm : n ≤ m)
    {old new : LogChain P} (hold : history[n]? = some old) (hnew : history[m]? = some new)
    (hid : new.active.segmentId = old.active.segmentId) : new.active = old.active := by
  induction m, hnm using Nat.le_induction generalizing new with
  | base =>
      obtain rfl := Option.some.inj (hold.symm.trans hnew)
      rfl
  | succ m hm ih =>
      obtain ⟨mid, hmid⟩ := getElem?_of_le hnew (Nat.le_succ m)
      cases hV.step m mid new hmid hnew with
      | «extends» h fresh =>
          -- A fresh identifier is not that of an earlier active segment.
          have hmem : old ∈ history.take (m + 1) :=
            List.mem_of_getElem? ((List.getElem?_take_of_lt (by omega)).trans hold)
          exact absurd (hid ▸ List.mem_map_of_mem old.active_mem) (fresh old hmem)
      | truncates h => rw [h.active] at hid ⊢; exact ih hmid hid
      | modifies h => rw [h.active] at hid ⊢; exact ih hmid hid

/-- Later chains have the same active segment, or it was sealed. -/
theorem active_eq_or_sealed (hV : ValidHistory events history)
    (hS : ∀ n old new, history[n]? = some old → history[n + 1]? = some new →
      SealsFirst events old new)
    {n m : Nat} (hnm : n ≤ m) {old new : LogChain P}
    (hold : history[n]? = some old) (hnew : history[m]? = some new) :
    new.active = old.active ∨ LogletEvent.sealed old.active.segmentId ∈ events := by
  induction m, hnm using Nat.le_induction generalizing new with
  | base =>
      obtain rfl := Option.some.inj (hold.symm.trans hnew)
      exact .inl rfl
  | succ m hm ih =>
      obtain ⟨mid, hmid⟩ := getElem?_of_le hnew (Nat.le_succ m)
      rcases ih hmid with heq | hsealed
      · rcases hS m mid new hmid hnew with hid | hsealed
        · rw [heq] at hid
          exact .inl (hV.active_eq (Nat.le_succ_of_le hm) hold hnew hid)
        · exact .inr (heq ▸ hsealed)
      · exact .inr hsealed

end ValidHistory

/-! ## Growing a history -/

theorem Extends.mono {events events' : List LogletEvent} {old new : LogChain P}
    (h : Extends events old new) (he : events ⊆ events') : Extends events' old new := by
  obtain ⟨length, next, hseg, hstart, hopen, htail⟩ := h
  exact ⟨length, next, hseg, hstart, hopen, he htail⟩

theorem Truncates.mono {events events' : List LogletEvent} {old new : LogChain P}
    (h : Truncates events old new) (he : events ⊆ events') : Truncates events' old new := by
  obtain ⟨stop, watermark, hseg, hstop, htrim, hle⟩ := h
  exact ⟨stop, watermark, hseg, hstop, he htrim, hle⟩

theorem SealsFirst.mono {events events' : List LogletEvent} {old new : LogChain P}
    (h : SealsFirst events old new) (he : events ⊆ events') : SealsFirst events' old new :=
  h.imp_right fun hs => he hs

theorem Succeeds.mono {events events' : List LogletEvent} {earlier : List (LogChain P)}
    {old new : LogChain P} (h : Succeeds events earlier old new) (he : events ⊆ events') :
    Succeeds events' earlier old new := by
  cases h with
  | «extends» h fresh => exact .extends (h.mono he) fresh
  | truncates h => exact .truncates (h.mono he)
  | modifies h => exact .modifies h

theorem ValidHistory.mono {events events' : List LogletEvent} {history : List (LogChain P)}
    (h : ValidHistory events history) (he : events ⊆ events') :
    ValidHistory events' history :=
  ⟨h.first, fun n old new hold hnew => (h.step n old new hold hnew).mono he⟩

theorem ValidHistory.nil (events : List LogletEvent) :
    ValidHistory events ([] : List (LogChain P)) :=
  ⟨fun _ h => by simp at h, fun _ _ _ h => by simp at h⟩

/-- Installing a chain that succeeds the last one keeps a history valid. -/
theorem ValidHistory.snoc {events : List LogletEvent} {history : List (LogChain P)}
    {last new : LogChain P} (h : ValidHistory events history)
    (hlast : history.getLast? = some last) (hnew : Succeeds events history last new) :
    ValidHistory events (history ++ [new]) := by
  have hne : history ≠ [] := by
    rintro rfl
    simp at hlast
  have hlen : 0 < history.length := List.length_pos_iff.mpr hne
  refine ⟨fun chain hc => ?_, fun n old chain hold hc => ?_⟩
  · rw [List.getElem?_append_left hlen] at hc
    exact h.first chain hc
  · have hn := (List.getElem?_eq_some_iff.mp hc).1
    rw [List.length_append, List.length_singleton] at hn
    rw [List.getElem?_append_left (by omega)] at hold
    by_cases hn' : n + 1 < history.length
    · rw [List.getElem?_append_left hn'] at hc
      rw [List.take_append_of_le_length (by omega)]
      exact h.step n old chain hold hc
    · have hlen' : n + 1 = history.length := by omega
      rw [List.getElem?_append_right (by omega), hlen', Nat.sub_self] at hc
      obtain rfl := Option.some.inj hc
      rw [List.getLast?_eq_getElem?, show history.length - 1 = n by omega, hold] at hlast
      obtain rfl := Option.some.inj hlast
      rw [List.take_append_of_le_length (by omega), hlen', List.take_length]
      exact hnew

end DelosLab.VirtualLog
