import Mathlib.Data.List.Basic
import Mathlib.Data.List.Nodup
import Mathlib.Data.List.Pairwise

/-!
# The virtual address space

A `LogChain` maps one unbounded virtual address space onto Loglets: each segment
covers the half-open range from its `virtualStart` to its `virtualStop`, and the
last one is open. The parameters of a Loglet configuration are opaque to this
layer, so their type `P` is a parameter of every definition.
-/

namespace DelosLab.VirtualLog

abbrev Bytes : Type := List UInt8

/-- Opaque, versioned configuration interpreted only by its Loglet adapter. -/
structure LogletConfiguration (P : Type) where
  kind : String
  version : Nat
  parameters : P
deriving DecidableEq

/-- One half-open VirtualLog address range. -/
structure LogSegment (P : Type) where
  segmentId : String
  virtualStart : Nat
  virtualStop : Option Nat
  loglet : LogletConfiguration P
  named : segmentId ≠ ""
  range : ∀ stop ∈ virtualStop, virtualStart ≤ stop
deriving DecidableEq

/-- The segment that a log begins with, which is open. -/
def LogSegment.first {P : Type} (segmentId : String) (loglet : LogletConfiguration P)
    (named : segmentId ≠ "") : LogSegment P :=
  ⟨segmentId, 0, none, loglet, named, by simp⟩

structure NewLogletConfiguration (P : Type) where
  segmentId : String
  loglet : LogletConfiguration P
  named : segmentId ≠ ""

/-- Opaque replacement configuration for one sealed LogChain segment. -/
structure LogletConfigurationUpdate (P : Type) where
  segmentId : String
  loglet : LogletConfiguration P
  named : segmentId ≠ ""

variable {P : Type}

def NewLogletConfiguration.activate (next : NewLogletConfiguration P) (virtualStart : Nat) :
    LogSegment P where
  segmentId := next.segmentId
  virtualStart := virtualStart
  virtualStop := none
  loglet := next.loglet
  named := next.named
  range := by simp

namespace LogSegment

/-- `model_copy(update={"virtual_stop": virtual_start + length})`. -/
def close (s : LogSegment P) (length : Nat) : LogSegment P :=
  { s with
    virtualStop := some (s.virtualStart + length)
    range := by simp }

/-- `model_copy(update={"loglet": loglet})`. -/
def modify (s : LogSegment P) (loglet : LogletConfiguration P) : LogSegment P :=
  { s with loglet := loglet }

/-- The segment covers virtual position `p`. -/
def Covers (s : LogSegment P) (p : Nat) : Prop :=
  s.virtualStart ≤ p ∧ ∀ stop ∈ s.virtualStop, p < stop

instance (s : LogSegment P) (p : Nat) : Decidable (s.Covers p) := by
  unfold Covers
  infer_instance

@[simp] theorem close_segmentId (s : LogSegment P) (n : Nat) :
    (s.close n).segmentId = s.segmentId := rfl

@[simp] theorem close_virtualStart (s : LogSegment P) (n : Nat) :
    (s.close n).virtualStart = s.virtualStart := rfl

@[simp] theorem close_virtualStop (s : LogSegment P) (n : Nat) :
    (s.close n).virtualStop = some (s.virtualStart + n) := rfl

@[simp] theorem modify_segmentId (s : LogSegment P) (l : LogletConfiguration P) :
    (s.modify l).segmentId = s.segmentId := rfl

@[simp] theorem modify_virtualStart (s : LogSegment P) (l : LogletConfiguration P) :
    (s.modify l).virtualStart = s.virtualStart := rfl

@[simp] theorem modify_virtualStop (s : LogSegment P) (l : LogletConfiguration P) :
    (s.modify l).virtualStop = s.virtualStop := rfl

end LogSegment

/-- `LogChain.validate_chain`, on the tuple of segments: every segment but the
last is closed exactly where the next one starts, and the last one is open. -/
def Contiguous : List (LogSegment P) → Prop
  | [] => False
  | [last] => last.virtualStop = none
  | s :: t :: rest => s.virtualStop = some t.virtualStart ∧ Contiguous (t :: rest)

instance decidableContiguous : ∀ segments : List (LogSegment P), Decidable (Contiguous segments)
  | [] => .isFalse id
  | [last] => inferInstanceAs (Decidable (last.virtualStop = none))
  | s :: t :: rest =>
      haveI := decidableContiguous (t :: rest)
      inferInstanceAs (Decidable (s.virtualStop = some t.virtualStart ∧ Contiguous (t :: rest)))

/-- What a `LogChain` must satisfy to be built. -/
def ValidChain (segments : List (LogSegment P)) : Prop :=
  (segments.map LogSegment.segmentId).Nodup ∧ Contiguous segments

instance (segments : List (LogSegment P)) : Decidable (ValidChain segments) :=
  inferInstanceAs (Decidable (_ ∧ _))

structure LogChain (P : Type) where
  segments : List (LogSegment P)
  valid : ValidChain segments
deriving DecidableEq

theorem Contiguous.ne_nil {segments : List (LogSegment P)} (h : Contiguous segments) :
    segments ≠ [] := by
  rintro rfl
  exact h

namespace LogChain

/-- `LogChain(segments=...)`; `none` is the `ValidationError`. -/
def ofSegments (segments : List (LogSegment P)) : Option (LogChain P) :=
  if h : ValidChain segments then some ⟨segments, h⟩ else none

theorem ne_nil (chain : LogChain P) : chain.segments ≠ [] := chain.valid.2.ne_nil

/-- `self.segments[-1]`. -/
def active (chain : LogChain P) : LogSegment P := chain.segments.getLast chain.ne_nil

/-- `self.segments[0]`. -/
def first (chain : LogChain P) : LogSegment P := chain.segments.head chain.ne_nil

def segmentAt (chain : LogChain P) (position : Nat) : Option (LogSegment P) :=
  chain.segments.find? fun s => decide (s.Covers position)

theorem ofSegments_eq_some {segments : List (LogSegment P)} {chain : LogChain P}
    (h : ofSegments segments = some chain) : chain.segments = segments := by
  unfold ofSegments at h
  split at h
  · obtain rfl := Option.some.inj h
    rfl
  · cases h

theorem active_mem (chain : LogChain P) : chain.active ∈ chain.segments :=
  List.getLast_mem chain.ne_nil

theorem first_mem (chain : LogChain P) : chain.first ∈ chain.segments :=
  List.head_mem chain.ne_nil

theorem segments_eq (chain : LogChain P) :
    chain.segments = chain.segments.dropLast ++ [chain.active] :=
  (List.dropLast_append_getLast chain.ne_nil).symm

theorem segments_eq_cons (chain : LogChain P) :
    chain.segments = chain.first :: chain.segments.tail :=
  (List.cons_head_tail chain.ne_nil).symm

end LogChain

/-! ## Contiguity -/

theorem Contiguous.last_open {segments : List (LogSegment P)} (h : Contiguous segments) :
    (segments.getLast h.ne_nil).virtualStop = none := by
  induction segments with
  | nil => exact absurd h id
  | cons s rest ih =>
      cases rest with
      | nil => exact h
      | cons t rest =>
          rw [List.getLast_cons (List.cons_ne_nil t rest)]
          exact ih h.2

theorem Contiguous.of_append {xs ys : List (LogSegment P)} (h : Contiguous (xs ++ ys))
    (hy : ys ≠ []) : Contiguous ys := by
  induction xs with
  | nil => exact h
  | cons x xs ih =>
      cases hxs : xs ++ ys with
      | nil => exact absurd (List.append_eq_nil_iff.mp hxs).2 hy
      | cons t rest =>
          rw [List.cons_append, hxs] at h
          exact ih (hxs ▸ h.2)

/-- An earlier segment ends at or before the start of a later one. -/
theorem Contiguous.stop_le {s : LogSegment P} {rest : List (LogSegment P)}
    (h : Contiguous (s :: rest)) :
    ∀ t ∈ rest, ∃ stop, s.virtualStop = some stop ∧ stop ≤ t.virtualStart := by
  induction rest generalizing s with
  | nil => simp
  | cons u rest ih =>
      intro t ht
      refine ⟨u.virtualStart, h.1, ?_⟩
      rcases List.mem_cons.mp ht with rfl | ht
      · exact Nat.le_refl _
      · obtain ⟨stop, hstop, hle⟩ := ih h.2 t ht
        exact Nat.le_trans (u.range stop hstop) hle

/-- The first segment starts no later than any other. -/
theorem Contiguous.first_le {s : LogSegment P} {rest : List (LogSegment P)}
    (h : Contiguous (s :: rest)) : ∀ t ∈ s :: rest, s.virtualStart ≤ t.virtualStart := by
  intro t ht
  rcases List.mem_cons.mp ht with rfl | ht
  · exact Nat.le_refl _
  · obtain ⟨stop, hstop, hle⟩ := h.stop_le t ht
    exact Nat.le_trans (s.range stop hstop) hle

/-- Two segments of a contiguous list that cover one position are the same. -/
theorem Contiguous.covers_unique {segments : List (LogSegment P)} (h : Contiguous segments)
    {s t : LogSegment P} (hs : s ∈ segments) (ht : t ∈ segments) {p : Nat}
    (hps : s.Covers p) (hpt : t.Covers p) : s = t := by
  induction segments with
  | nil => cases hs
  | cons u rest ih =>
      -- The head ends before the others start, so it cannot share `p` with them.
      have apart : ∀ v ∈ rest, u.Covers p → v.Covers p → False := by
        intro v hv hu hv'
        obtain ⟨stop, hstop, hle⟩ := h.stop_le v hv
        have := hu.2 stop hstop
        have := hv'.1
        omega
      rcases List.mem_cons.mp hs with hsu | hs' <;> rcases List.mem_cons.mp ht with htu | ht'
      · rw [hsu, htu]
      · exact (apart t ht' (hsu ▸ hps) hpt).elim
      · exact (apart s hs' (htu ▸ hpt) hps).elim
      · have hrest : Contiguous ([u] ++ rest) := h
        exact ih (hrest.of_append (List.ne_nil_of_mem hs')) hs' ht'

theorem LogChain.segmentAt_eq_some {chain : LogChain P} {s : LogSegment P} {p : Nat}
    (hs : s ∈ chain.segments) (hp : s.Covers p) : chain.segmentAt p = some s := by
  unfold LogChain.segmentAt
  cases hf : chain.segments.find? fun s => decide (s.Covers p) with
  | none =>
      have := List.find?_eq_none.mp hf s hs
      simp [hp] at this
  | some t =>
      have ht : t ∈ chain.segments := List.mem_of_find?_eq_some hf
      have hpt : t.Covers p := by simpa using List.find?_some hf
      rw [chain.valid.2.covers_unique hs ht hp hpt]

/-- Segments of one chain with one identifier are one segment. -/
theorem LogChain.eq_of_segmentId {chain : LogChain P} {s t : LogSegment P}
    (hs : s ∈ chain.segments) (ht : t ∈ chain.segments) (h : s.segmentId = t.segmentId) :
    s = t :=
  List.inj_on_of_nodup_map chain.valid.1 hs ht h

theorem LogChain.active_open (chain : LogChain P) : chain.active.virtualStop = none :=
  chain.valid.2.last_open

theorem LogChain.first_le (chain : LogChain P) {s : LogSegment P} (hs : s ∈ chain.segments) :
    chain.first.virtualStart ≤ s.virtualStart := by
  have h := chain.valid.2
  rw [chain.segments_eq_cons] at h hs
  exact h.first_le s hs

/-! ## The versioned register's value -/

/-- The value of the versioned register: version zero and nothing else has no chain. -/
structure VersionedLogChain (P : Type) where
  version : Nat
  chain : Option (LogChain P)
  initial : version = 0 ↔ chain = none
deriving DecidableEq

namespace VersionedLogChain

/-- `VersionedLogChain(version=0, chain=None)`. -/
def zero : VersionedLogChain P := ⟨0, none, by simp⟩

/-- `VersionedLogChain(version=version + 1, chain=chain)`. -/
def installed (version : Nat) (chain : LogChain P) : VersionedLogChain P :=
  ⟨version + 1, some chain, by simp⟩

end VersionedLogChain

structure VirtualLogEntry where
  position : Nat
  commandId : String
  payload : Bytes
  segmentId : String
  localPosition : Nat
deriving DecidableEq

end DelosLab.VirtualLog
