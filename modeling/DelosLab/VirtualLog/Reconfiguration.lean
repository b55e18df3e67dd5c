import DelosLab.Common.Behaviour
import DelosLab.VirtualLog.Safety
import Mathlib.Data.List.Chain

/-!
# The specification of reconfiguration

`VirtualLogReconfiguration`: clients race to extend, modify and truncate a LogChain while
its prefix is trimmed. Its invariants hold for any clients and any bounds, and the chains
that the VirtualLog instances install are one of its behaviours.
-/

namespace DelosLab.VirtualLog

open Async

namespace Reconfiguration

/-- `NoCandidate` is `none`. -/
structure State (Client : Type) where
  firstStart : Nat
  closedStops : List Nat
  activeStart : Nat
  configEpochs : List Nat
  trimPoint : Nat
  version : Nat
  casCount : Nat
  sealed : Bool
  preparedVersion : Client → Option Nat
  preparedStop : Client → Nat

/-- `MaxLocalTail` and `MaxReconfigurations`. -/
structure Bounds where
  maxLocalTail : Nat
  maxReconfigurations : Nat

variable {Client : Type} [DecidableEq Client]

def init (Client : Type) : State Client where
  firstStart := 0
  closedStops := []
  activeStart := 0
  configEpochs := [0]
  trimPoint := 0
  version := 1
  casCount := 0
  sealed := false
  preparedVersion := fun _ => none
  preparedStop := fun _ => 0

/-- `Next`, one constructor for each of its actions. -/
inductive Next (b : Bounds) (s : State Client) : State Client → Prop
  /-- `seal` and `checkTail` are idempotent; competing clients may see different tails. -/
  | prepare (client : Client) (localTail : Nat) (hcas : s.casCount < b.maxReconfigurations)
      (htail : localTail ≤ b.maxLocalTail) :
      Next b s { s with
        sealed := true
        preparedVersion := Function.update s.preparedVersion client (some s.version)
        preparedStop := Function.update s.preparedStop client (s.activeStart + localTail) }
  /-- `reconfigExtend` closes the active range and appends a fresh configuration. -/
  | install (client : Client) (hsealed : s.sealed = true)
      (hprepared : s.preparedVersion client = some s.version) :
      Next b s { s with
        closedStops := s.closedStops ++ [s.preparedStop client]
        activeStart := s.preparedStop client
        configEpochs := s.configEpochs ++ [0]
        version := s.version + 1
        casCount := s.casCount + 1
        sealed := false
        preparedVersion := Function.update s.preparedVersion client none }
  /-- `prefixTrim` is monotonic; it supplies the evidence for a truncation. -/
  | advanceTrim (newTrim : Nat) (hle : s.trimPoint ≤ newTrim) (hactive : newTrim ≤ s.activeStart) :
      Next b s { s with trimPoint := newTrim }
  /-- `reconfigTruncate` removes a fully trimmed leading sealed segment. -/
  | truncate (stop : Nat) (rest : List Nat) (hcas : s.casCount < b.maxReconfigurations)
      (hstops : s.closedStops = stop :: rest) (htrim : stop ≤ s.trimPoint) :
      Next b s { s with
        firstStart := stop
        closedStops := rest
        configEpochs := s.configEpochs.tail
        version := s.version + 1
        casCount := s.casCount + 1 }
  /-- `reconfigModify` changes the configuration of a sealed segment only. -/
  | modify (index : Nat) (hcas : s.casCount < b.maxReconfigurations)
      (hindex : index < s.closedStops.length) :
      Next b s { s with
        configEpochs := s.configEpochs.modify index (· + 1)
        version := s.version + 1
        casCount := s.casCount + 1 }
  /-- A losing installer observes any newer version. -/
  | discardStale (client : Client) (hprepared : s.preparedVersion client ≠ none)
      (hstale : s.preparedVersion client ≠ some s.version) :
      Next b s { s with preparedVersion := Function.update s.preparedVersion client none }

/-- `Spec`. -/
def spec (Client : Type) [DecidableEq Client] (b : Bounds) : Behaviour.Spec (State Client) where
  Init := (· = init Client)
  Next := Next b

/-! ## Its invariants -/

/-- The invariants that the specification lists, under its names. -/
structure Invariants (s : State Client) : Prop where
  versionTracksCAS : s.version = s.casCount + 1
  configurationTracksSegments : s.configEpochs.length = s.closedStops.length + 1
  halfOpenBoundaryHasNoGap : (s.firstStart :: s.closedStops).getLast (List.cons_ne_nil _ _) =
    s.activeStart
  closedStopsAreMonotonic : (s.firstStart :: s.closedStops).IsChain (· ≤ ·)
  trimPointIsRetainedBoundary : s.firstStart ≤ s.trimPoint ∧ s.trimPoint ≤ s.activeStart
  currentCandidatesCannotMoveBackward : ∀ client, s.preparedVersion client = some s.version →
    s.activeStart ≤ s.preparedStop client
  candidatesAreNeverFromTheFuture : ∀ client, ∀ v ∈ s.preparedVersion client, v ≤ s.version

theorem Invariants.next {b : Bounds} {s s' : State Client} (h : Invariants s)
    (hn : Next b s s') : Invariants s' := by
  have hlast := h.halfOpenBoundaryHasNoGap
  have hmono := h.closedStopsAreMonotonic
  -- No candidate is of the version that a successful CAS installs.
  have hfuture : ∀ client, s.preparedVersion client ≠ some (s.version + 1) := by
    intro client hc
    have := h.candidatesAreNeverFromTheFuture client _ hc
    omega
  cases hn with
  | prepare client localTail hcas htail =>
      refine { h with
        currentCandidatesCannotMoveBackward := fun c hc => ?_
        candidatesAreNeverFromTheFuture := fun c v hv => ?_ }
      · by_cases hcc : c = client
        · subst hcc
          simp only [Function.update_self]
          omega
        · simp only [Function.update_of_ne hcc] at hc ⊢
          exact h.currentCandidatesCannotMoveBackward c hc
      · by_cases hcc : c = client
        · subst hcc
          simp only [Function.update_self, Option.mem_some_iff] at hv
          exact Nat.le_of_eq hv.symm
        · simp only [Function.update_of_ne hcc] at hv
          exact h.candidatesAreNeverFromTheFuture c v hv
  | install client hsealed hprepared =>
      have hstop := h.currentCandidatesCannotMoveBackward client hprepared
      refine ⟨?_, ?_, ?_, ?_, ?_, fun c hc => ?_, fun c v hv => ?_⟩
      · exact congrArg (· + 1) h.versionTracksCAS
      · simp only [List.length_append, List.length_singleton, h.configurationTracksSegments]
      · simp only [← List.cons_append, List.getLast_append_singleton]
      · simp only [← List.cons_append]
        refine List.isChain_append.mpr ⟨hmono, .singleton _, ?_⟩
        intro x hx y hy
        rw [List.getLast?_eq_some_getLast (List.cons_ne_nil _ _), hlast] at hx
        simp only [Option.mem_some_iff] at hx
        simp only [List.head?_cons, Option.mem_some_iff] at hy
        omega
      · exact ⟨h.trimPointIsRetainedBoundary.1,
          Nat.le_trans h.trimPointIsRetainedBoundary.2 hstop⟩
      · by_cases hcc : c = client
        · subst hcc
          simp only [Function.update_self] at hc
          cases hc
        · simp only [Function.update_of_ne hcc] at hc
          exact absurd hc (hfuture c)
      · by_cases hcc : c = client
        · subst hcc
          simp only [Function.update_self] at hv
          cases hv
        · simp only [Function.update_of_ne hcc] at hv
          exact Nat.le_succ_of_le (h.candidatesAreNeverFromTheFuture c v hv)
  | advanceTrim newTrim hle hactive =>
      exact { h with
        trimPointIsRetainedBoundary := ⟨Nat.le_trans h.trimPointIsRetainedBoundary.1 hle, hactive⟩ }
  | truncate stop rest hcas hstops htrim =>
      simp only [hstops] at hlast hmono
      refine ⟨?_, ?_, ?_, ?_, ?_, fun c hc => ?_, fun c v hv => ?_⟩
      · exact congrArg (· + 1) h.versionTracksCAS
      · have hlen := h.configurationTracksSegments
        rw [hstops, List.length_cons] at hlen
        show s.configEpochs.tail.length = rest.length + 1
        rw [List.length_tail]
        omega
      · rw [List.getLast_cons (List.cons_ne_nil _ _)] at hlast
        exact hlast
      · exact (List.isChain_cons_cons.mp hmono).2
      · exact ⟨htrim, h.trimPointIsRetainedBoundary.2⟩
      · exact absurd hc (hfuture c)
      · exact Nat.le_succ_of_le (h.candidatesAreNeverFromTheFuture c v hv)
  | modify index hcas hindex =>
      refine { h with
        versionTracksCAS := congrArg (· + 1) h.versionTracksCAS
        configurationTracksSegments := ?_
        currentCandidatesCannotMoveBackward := fun c hc => absurd hc (hfuture c)
        candidatesAreNeverFromTheFuture := fun c v hv =>
          Nat.le_succ_of_le (h.candidatesAreNeverFromTheFuture c v hv) }
      rw [List.length_modify]
      exact h.configurationTracksSegments
  | discardStale client hprepared hstale =>
      refine { h with
        currentCandidatesCannotMoveBackward := fun c hc => ?_
        candidatesAreNeverFromTheFuture := fun c v hv => ?_ }
      · by_cases hcc : c = client
        · subst hcc
          simp only [Function.update_self] at hc
          cases hc
        · simp only [Function.update_of_ne hcc] at hc
          exact h.currentCandidatesCannotMoveBackward c hc
      · by_cases hcc : c = client
        · subst hcc
          simp only [Function.update_self] at hv
          cases hv
        · simp only [Function.update_of_ne hcc] at hv
          exact h.candidatesAreNeverFromTheFuture c v hv

theorem invariants_inductive (b : Bounds) : (spec Client b).Inductive Invariants where
  init := by
    rintro s rfl
    refine ⟨rfl, rfl, rfl, .singleton _, ⟨Nat.le_refl _, Nat.le_refl _⟩, fun c hc => ?_,
      fun c v hv => ?_⟩
    · cases hc
    · cases hv
  next := fun _ _ h hn => h.next hn

/-- **The invariants of the specification** hold in every reachable state, for any clients
and any bounds. -/
theorem reachable_invariants (b : Bounds) (s : State Client) (h : (spec Client b).Reachable s) :
    Invariants s :=
  (invariants_inductive b).reachable h

/-- Of two clients that have prepared, one installs what it saw; the other is stale. -/
theorem reachable_invariants_raced :
    ∃ s : State String, (spec String ⟨4, 2⟩).Reachable s ∧ s.closedStops = [3] ∧
      s.preparedVersion "b" = some 1 ∧ Invariants s := by
  have hstart : (spec String ⟨4, 2⟩).Reachable (init String) := .init rfl
  have hone := hstart.next (.prepare "a" 3 (Nat.zero_lt_succ _) (Nat.le_succ 3))
  have htwo := hone.next (.prepare "b" 4 (Nat.zero_lt_succ _) (Nat.le_refl 4))
  have hthree := htwo.next (.install "a" rfl (by decide))
  exact ⟨_, hthree, by decide, by decide, reachable_invariants ⟨4, 2⟩ _ hthree⟩

/-! ## What the installed chains show of it -/

section Chains

variable {P : Type}

/-- The segment is in both chains, with two Loglets. -/
def Changes (old new : LogChain P) (id : String) : Prop :=
  ∃ x ∈ old.segments, ∃ y ∈ new.segments, x.segmentId = id ∧ y.segmentId = id ∧
    x.loglet ≠ y.loglet

theorem changes_iff {old new : LogChain P} {x y : LogSegment P} (hx : x ∈ old.segments)
    (hy : y ∈ new.segments) (hid : y.segmentId = x.segmentId) :
    Changes old new x.segmentId ↔ x.loglet ≠ y.loglet := by
  constructor
  · rintro ⟨x', hx', y', hy', hidx, hidy, hne⟩
    rwa [old.eq_of_segmentId hx' hx hidx, new.eq_of_segmentId hy' hy (hidy.trans hid.symm)] at hne
  · exact fun hne => ⟨x, hx, y, hy, rfl, hid, hne⟩

theorem not_changes_of_mem {old new : LogChain P} {x : LogSegment P} (hx : x ∈ old.segments)
    (hy : x ∈ new.segments) : ¬ Changes old new x.segmentId := by
  rw [changes_iff hx hy rfl]
  exact fun h => h rfl

variable [DecidableEq P]

instance (old new : LogChain P) (id : String) : Decidable (Changes old new id) :=
  inferInstanceAs (Decidable (∃ _ ∈ _, ∃ _ ∈ _, _))

/-- How often the installed chains changed the Loglet of a segment. -/
def epoch : List (LogChain P) → String → Nat
  | old :: new :: rest, id => (if Changes old new id then 1 else 0) + epoch (new :: rest) id
  | _, _ => 0

theorem epoch_append {history : List (LogChain P)} {old new : LogChain P} (id : String)
    (h : history.getLast? = some old) :
    epoch (history ++ [new]) id = epoch history id + if Changes old new id then 1 else 0 := by
  induction history with
  | nil => cases h
  | cons c rest ih =>
      cases rest with
      | nil =>
          obtain rfl := Option.some.inj h
          exact (Nat.zero_add _).symm
      | cons d rest =>
          rw [List.getLast?_cons_cons] at h
          have := ih h
          simp only [List.cons_append, epoch] at this ⊢
          omega

theorem epoch_append_of_mem {history : List (LogChain P)} {old new : LogChain P}
    {x : LogSegment P} (h : history.getLast? = some old) (hx : x ∈ old.segments)
    (hy : x ∈ new.segments) :
    epoch (history ++ [new]) x.segmentId = epoch history x.segmentId := by
  rw [epoch_append _ h, if_neg (not_changes_of_mem hx hy), Nat.add_zero]

/-- Nobody has changed a segment that no chain had. -/
theorem epoch_eq_zero {history : List (LogChain P)} {id : String}
    (h : ∀ chain ∈ history, id ∉ chain.ids) : epoch history id = 0 := by
  induction history with
  | nil => rfl
  | cons c rest ih =>
      cases rest with
      | nil => rfl
      | cons d rest =>
          have hnot : ¬ Changes c d id := by
            rintro ⟨x, hx, -, -, hid, -⟩
            exact h c List.mem_cons_self (List.mem_map.mpr ⟨x, hx, hid⟩)
          rw [epoch, if_neg hnot, ih fun chain hc => h chain (List.mem_cons_of_mem _ hc)]

/-- What the newest chain of a history shows of a state. A trim shows only when the
chain is truncated. -/
structure Shows (history : List (LogChain P)) (chain : LogChain P) (s : State Client) : Prop where
  firstStart : s.firstStart = chain.first.virtualStart
  closedStops : s.closedStops = chain.segments.filterMap LogSegment.virtualStop
  activeStart : s.activeStart = chain.active.virtualStart
  configEpochs : s.configEpochs = chain.segments.map fun x => epoch history x.segmentId
  trimPoint : s.trimPoint = chain.first.virtualStart
  version : s.version = history.length

/-- Before the first chain is installed, the specification has not begun. -/
structure Matches (history : List (LogChain P)) (s : State Client) : Prop where
  initial : history = [] → s = init Client
  newest : ∀ chain, history.getLast? = some chain → Shows history chain s

omit [DecidableEq Client] in
/-- Fewer CASes have succeeded than there are chains. -/
theorem Shows.casCount_lt {history : List (LogChain P)} {old : LogChain P} {s : State Client}
    (hi : Invariants s) (h : Shows history old s) (hlast : history.getLast? = some old) :
    s.casCount < history.length := by
  have hlen : 0 < history.length := List.length_pos_of_mem (List.mem_of_getLast? hlast)
  rw [← h.version, hi.versionTracksCAS]
  exact Nat.lt_succ_self _

/-- An extension is a `Prepare` and the `Install` of what it prepared. -/
theorem Shows.extends {b : Bounds} {events : List LogletEvent} {history : List (LogChain P)}
    {old new : LogChain P} {s : State Client} (client : Client) (hi : Invariants s)
    (h : Shows history old s) (hlast : history.getLast? = some old)
    (hcas : history.length ≤ b.maxReconfigurations)
    (htail : ∀ id t, LogletEvent.tail id t true ∈ events → t ≤ b.maxLocalTail)
    (hn : Extends events old new) (fresh : ∀ chain ∈ history, new.active.segmentId ∉ chain.ids) :
    ∃ s', (spec Client b).Leads s s' ∧ Shows (history ++ [new]) new s' := by
  obtain ⟨length, next, hseg, hstart, hopen, hsealed⟩ := hn
  have hactive : new.active = next := LogChain.active_eq_of_concat hseg
  have hold := old.segments_eq
  have hcount := Nat.lt_of_lt_of_le (h.casCount_lt hi hlast) hcas
  have hfirst : new.first.virtualStart = old.first.virtualStart := by
    cases hd : old.segments.dropLast with
    | nil =>
        rw [hd] at hseg hold
        rw [LogChain.first_eq_of_cons hseg, LogChain.first_eq_of_cons hold]
        rfl
    | cons x xs =>
        rw [hd] at hseg hold
        rw [LogChain.first_eq_of_cons hseg, LogChain.first_eq_of_cons hold]
  have hprepare := Next.prepare (b := b) (s := s) client length hcount (htail _ _ hsealed)
  refine ⟨_, .head hprepare (.single (.install client rfl (Function.update_self ..))), ?_⟩
  refine ⟨h.firstStart.trans hfirst.symm, ?_, ?_, ?_, h.trimPoint.trans hfirst.symm, ?_⟩
  · simp only [Function.update_self, h.closedStops, h.activeStart, hseg]
    rw [hold]
    simp [List.filterMap_append, hopen, old.active_open]
  · simp only [Function.update_self, h.activeStart, hactive, hstart]
  · simp only [h.configEpochs, hseg]
    conv_lhs => rw [hold]
    have hkept : ∀ x ∈ old.segments.dropLast,
        epoch (history ++ [new]) x.segmentId = epoch history x.segmentId := fun x hx =>
      epoch_append_of_mem hlast (List.dropLast_subset _ hx) (by rw [hseg]; simp [hx])
    have hclosed : epoch (history ++ [new]) old.active.segmentId =
        epoch history old.active.segmentId := by
      have hnot : ¬ Changes old new old.active.segmentId := by
        rw [changes_iff (y := old.active.close length) old.active_mem (by rw [hseg]; simp) rfl]
        exact fun hne => hne rfl
      rw [epoch_append _ hlast, if_neg hnot, Nat.add_zero]
    have hnext : epoch (history ++ [new]) next.segmentId = 0 := by
      rw [hactive] at fresh
      have hnot : ¬ Changes old new next.segmentId := by
        rintro ⟨x, hx, -, -, hid, -⟩
        exact fresh old (List.mem_of_getLast? hlast) (List.mem_map.mpr ⟨x, hx, hid⟩)
      rw [epoch_append _ hlast, if_neg hnot, epoch_eq_zero fresh]
    simp [List.map_append, hclosed, hnext, List.map_congr_left hkept]
  · simp [h.version]

/-- A truncation is an `AdvanceTrim` to the end of the first segment and a `Truncate`. -/
theorem Shows.truncates {b : Bounds} {events : List LogletEvent} {history : List (LogChain P)}
    {old new : LogChain P} {s : State Client} (hi : Invariants s) (h : Shows history old s)
    (hlast : history.getLast? = some old) (hcas : history.length ≤ b.maxReconfigurations)
    (hn : Truncates events old new) :
    ∃ s', (spec Client b).Leads s s' ∧ Shows (history ++ [new]) new s' := by
  have hactive := hn.active
  obtain ⟨stop, watermark, hseg, hstop, -, -⟩ := hn
  have hcount := Nat.lt_of_lt_of_le (h.casCount_lt hi hlast) hcas
  -- The second segment starts where the first one stops.
  have hnext : stop = new.first.virtualStart := by
    have hvalid := old.valid.2
    rw [hseg, new.segments_eq_cons] at hvalid
    exact Option.some.inj (hstop ▸ hvalid.1)
  have hstops : s.closedStops = stop :: new.segments.filterMap LogSegment.virtualStop := by
    rw [h.closedStops]
    conv_lhs => rw [hseg]
    rw [List.filterMap_cons_some hstop]
  have htrim : s.trimPoint ≤ stop := by
    rw [h.trimPoint]
    exact old.first.range stop hstop
  have hle : stop ≤ s.activeStart := by
    rw [h.activeStart, ← hactive, hnext]
    exact new.first_le new.active_mem
  have hadvance := Next.advanceTrim (b := b) (s := s) stop htrim hle
  refine ⟨_, .head hadvance (.single (.truncate stop _ hcount hstops (Nat.le_refl stop))), ?_⟩
  refine ⟨hnext, rfl, ?_, ?_, hnext, ?_⟩
  · simp only [h.activeStart, hactive]
  · simp only [h.configEpochs]
    conv_lhs => rw [hseg]
    rw [List.map_cons, List.tail_cons]
    refine List.map_congr_left fun x hx => (epoch_append_of_mem hlast ?_ hx).symm
    rw [hseg]
    exact List.mem_cons_of_mem _ hx
  · simp [h.version]

/-- A modification is a `Modify` of the index of its segment. -/
theorem Shows.modifies {b : Bounds} {history : List (LogChain P)} {old new : LogChain P}
    {s : State Client} (hi : Invariants s) (h : Shows history old s)
    (hlast : history.getLast? = some old) (hcas : history.length ≤ b.maxReconfigurations)
    (hn : Modifies old new) :
    ∃ s', (spec Client b).Leads s s' ∧ Shows (history ++ [new]) new s' := by
  have hactive := hn.active
  obtain ⟨xs, x, ys, loglet, hold, hnew, hclosed, hloglet⟩ := hn
  have hcount := Nat.lt_of_lt_of_le (h.casCount_lt hi hlast) hcas
  have hfirst : new.first.virtualStart = old.first.virtualStart := by
    cases xs with
    | nil =>
        rw [LogChain.first_eq_of_cons hnew, LogChain.first_eq_of_cons hold]
        rfl
    | cons y xs => rw [LogChain.first_eq_of_cons hnew, LogChain.first_eq_of_cons hold]
  -- The segments before it are closed, so its index is one of a stop.
  have hindex : xs.length < s.closedStops.length := by
    have hlen := hi.configurationTracksSegments
    rw [h.configEpochs, List.length_map, hold, List.length_append, List.length_cons] at hlen
    have hys : ys ≠ [] := by
      rintro rfl
      exact LogChain.ne_active_of_closed hclosed (LogChain.active_eq_of_append hold).symm
    have := List.length_pos_of_ne_nil hys
    omega
  refine ⟨_, .single (.modify xs.length hcount hindex), ?_⟩
  refine ⟨h.firstStart.trans hfirst.symm, ?_, ?_, ?_, h.trimPoint.trans hfirst.symm, ?_⟩
  · simp only [h.closedStops, hold, hnew, List.filterMap_append, List.filterMap_cons,
      LogSegment.modify_virtualStop]
  · simp only [h.activeStart, hactive]
  · simp only [h.configEpochs, hnew]
    conv_lhs => rw [hold]
    have hx : epoch (history ++ [new]) x.segmentId = epoch history x.segmentId + 1 := by
      have hchanges : Changes old new x.segmentId :=
        ⟨x, by rw [hold]; simp, x.modify loglet, by rw [hnew]; simp, rfl, rfl, hloglet⟩
      rw [epoch_append _ hlast, if_pos hchanges]
    have hxs : ∀ y ∈ xs, epoch (history ++ [new]) y.segmentId = epoch history y.segmentId :=
      fun y hy => epoch_append_of_mem hlast (by rw [hold]; simp [hy]) (by rw [hnew]; simp [hy])
    have hys : ∀ y ∈ ys, epoch (history ++ [new]) y.segmentId = epoch history y.segmentId :=
      fun y hy => epoch_append_of_mem hlast (by rw [hold]; simp [hy]) (by rw [hnew]; simp [hy])
    rw [List.map_append, List.map_append, List.map_cons, List.map_cons, List.map_congr_left hxs,
      List.map_congr_left hys, LogSegment.modify_segmentId, hx]
    have := List.modifyTailIdx_add (List.modifyHead (· + 1)) 0
      (xs.map fun y => epoch history y.segmentId)
      (epoch history x.segmentId :: ys.map fun y => epoch history y.segmentId)
    rwa [List.length_map] at this
  · simp [h.version]

/-- What succeeds the newest chain is followed by steps of the specification. -/
theorem Shows.succeeds {b : Bounds} {events : List LogletEvent} {history : List (LogChain P)}
    {old new : LogChain P} {s : State Client} (client : Client) (hi : Invariants s)
    (h : Shows history old s) (hlast : history.getLast? = some old)
    (hcas : history.length ≤ b.maxReconfigurations)
    (htail : ∀ id t, LogletEvent.tail id t true ∈ events → t ≤ b.maxLocalTail)
    (hn : Succeeds events history old new) :
    ∃ s', (spec Client b).Leads s s' ∧ Shows (history ++ [new]) new s' := by
  cases hn with
  | «extends» he fresh => exact h.extends client hi hlast hcas htail he fresh
  | truncates ht => exact h.truncates hi hlast hcas ht
  | modifies hm => exact h.modifies hi hlast hcas hm

omit [DecidableEq Client] in
theorem Shows.matches {history : List (LogChain P)} {chain : LogChain P} {s : State Client}
    (h : Shows (history ++ [chain]) chain s) : Matches (history ++ [chain]) s where
  initial := fun hnil => absurd hnil (List.append_ne_nil_of_right_ne_nil _ (List.cons_ne_nil _ _))
  newest := by
    intro chain' hc
    rw [List.getLast?_concat] at hc
    exact Option.some.inj hc ▸ h

omit [DecidableEq Client] in
/-- The first chain is one open segment at zero. -/
theorem shows_first {chain : LogChain P} {x : LogSegment P} (hseg : chain.segments = [x])
    (hstart : x.virtualStart = 0) (hopen : x.virtualStop = none) :
    Shows [chain] chain (init Client) := by
  have hfirst : chain.first = x := LogChain.first_eq_of_cons hseg
  have hconcat : chain.segments = [] ++ [x] := hseg
  have hactive : chain.active = x := (LogChain.active_eq_of_append hconcat)
  refine ⟨?_, ?_, ?_, ?_, ?_, rfl⟩
  · rw [hfirst, hstart]
    rfl
  · rw [hseg, List.filterMap_cons_none hopen]
    rfl
  · rw [hactive, hstart]
    rfl
  · rw [hseg]
    rfl
  · rw [hfirst, hstart]
    rfl

/-- A longer part of a valid history is reached from a shorter one. -/
theorem Matches.leads {b : Bounds} {events : List LogletEvent} {history : List (LogChain P)}
    {s : State Client} (client : Client) (hs : (spec Client b).Reachable s)
    (hv : ValidHistory events history) (hcas : history.length ≤ b.maxReconfigurations + 1)
    (htail : ∀ id t, LogletEvent.tail id t true ∈ events → t ≤ b.maxLocalTail) {n m : Nat}
    (hnm : n ≤ m) (hm : m ≤ history.length) (h : Matches (history.take n) s) :
    ∃ s', (spec Client b).Leads s s' ∧ Matches (history.take m) s' := by
  induction m, hnm using Nat.le_induction with
  | base => exact ⟨s, .refl, h⟩
  | succ m hnm ih =>
      obtain ⟨t, hleads, ht⟩ := ih (Nat.le_of_succ_le hm)
      have hget : history[m]? = some (history.get ⟨m, hm⟩) := List.getElem?_eq_getElem hm
      have htake : history.take (m + 1) = history.take m ++ [history.get ⟨m, hm⟩] :=
        (List.take_append_getElem hm).symm
      rw [htake]
      cases m with
      | zero =>
          obtain ⟨x, hseg, hstart, hopen⟩ := hv.first _ hget
          obtain rfl := ht.initial rfl
          exact ⟨_, hleads, Shows.matches (shows_first hseg hstart hopen)⟩
      | succ m =>
          have hlt : m < history.length := Nat.lt_of_succ_lt hm
          have hold : history[m]? = some (history.get ⟨m, hlt⟩) := List.getElem?_eq_getElem hlt
          have hlast : (history.take (m + 1)).getLast? = some (history.get ⟨m, hlt⟩) := by
            rw [← List.take_append_getElem hlt, List.getLast?_concat]
            rfl
          have hlen : (history.take (m + 1)).length ≤ b.maxReconfigurations := by
            rw [List.length_take]
            omega
          obtain ⟨t', hleads', hshow⟩ := (ht.newest _ hlast).succeeds client
            (reachable_invariants b t (hs.leads hleads)) hlast hlen htail (hv.step m _ _ hold hget)
          exact ⟨t', hleads.trans hleads', hshow.matches⟩

end Chains

/-! ## Every run refines it -/

section Runs

variable {P : Type} [DecidableEq P]

/-- The bounds of a model run allow what has happened in this world. -/
structure Within (b : Bounds) (w : World P) : Prop where
  reconfigurations : w.history.length ≤ b.maxReconfigurations + 1
  localTail : ∀ id t, LogletEvent.tail id t true ∈ w.events → t ≤ b.maxLocalTail

omit [DecidableEq P] in
theorem Within.of_grow {b : Bounds} {w w' : World P} (hg : Grow w w') (h : Within b w') :
    Within b w :=
  ⟨Nat.le_trans hg.history.length_le h.reconfigurations,
    fun id t ht => h.localTail id t (hg.events ht)⟩

/-- The runs of any number of VirtualLog instances on one register. -/
def system (𝒮 : Deployment) : Behaviour.Spec (SystemState P) where
  Init := (· = Runtime.fresh _ _ _ _ (World.initial P))
  Next := fun s s' => ∃ a, (𝒮.runtime (P := P)).step s a = some s'

/-- While a run is within the bounds, its chains show a reachable state of the
specification. -/
theorem system_simulation (𝒮 : Deployment) (b : Bounds) (client : Client) :
    (system (P := P) 𝒮).Simulation (spec Client b) fun s t =>
      (discipline 𝒮).StateInv s ∧ (Within b s.world → Matches s.world.history t) where
  init := by
    rintro s rfl
    exact ⟨init Client, rfl, Discipline.stateInv_fresh (inv_initial 𝒮), fun _ =>
      ⟨fun _ => rfl, fun _ h => by cases h⟩⟩
  next := by
    rintro s s' t ht ⟨hinv, hmatch⟩ ⟨a, ha⟩
    obtain ⟨hinv', hg⟩ := (sound 𝒮).step hinv (Runtime.meets_any s a) ha
    by_cases hw : Within b s'.world
    · have hlen : s.world.history.length ≤ s'.world.history.length := hg.history.length_le
      have htake : s'.world.history.take s.world.history.length = s.world.history :=
        (List.prefix_iff_eq_take.mp hg.history).symm
      have hold := hmatch (hw.of_grow hg)
      rw [← htake] at hold
      obtain ⟨t', hleads, hnew⟩ := hold.leads client ht hinv'.1.history hw.reconfigurations
        hw.localTail hlen (Nat.le_refl _)
      rw [List.take_length] at hnew
      exact ⟨t', hleads, hinv', fun _ => hnew⟩
    · exact ⟨t, .refl, hinv', fun h => absurd h hw⟩

/-- The states that a run of actions goes through. -/
theorem exists_states {𝒮 : Deployment} {s s' : SystemState P}
    {as : List (Action TaskId (Call P) (Choice P) Disturbance)}
    (h : (𝒮.runtime (P := P)).run s as = some s') :
    ∃ a : Nat → SystemState P, a 0 = s ∧
      (∀ i ≤ as.length, 𝒮.runtime.run s (as.take i) = some (a i)) ∧
      ∀ i < as.length, ∃ x, 𝒮.runtime.step (a i) x = some (a (i + 1)) := by
  induction as generalizing s with
  | nil =>
      refine ⟨fun _ => s, rfl, fun i _ => ?_, fun i hi => absurd hi (Nat.not_lt_zero i)⟩
      rw [List.take_nil]
      rfl
  | cons x as ih =>
      obtain ⟨m, hm, hrun⟩ := Option.bind_eq_some_iff.mp h
      obtain ⟨a, hzero, hstates, hsteps⟩ := ih hrun
      refine ⟨fun i => Nat.rec s (fun j _ => a j) i, rfl, fun i hi => ?_, fun i hi => ?_⟩
      · cases i with
        | zero => rfl
        | succ i =>
            rw [List.take_succ_cons, Runtime.run, hm]
            exact hstates i (Nat.le_of_succ_le_succ hi)
      · cases i with
        | zero => exact ⟨x, hm.trans (congrArg some hzero.symm)⟩
        | succ i => exact hsteps i (Nat.lt_of_succ_lt_succ hi)

/-- **Runs refine the specification.** Whatever the instances and the register do, the
chains installed so far are at every point of a run what a behaviour of the specification
shows there, as long as the run is within the bounds. -/
theorem run_refines (𝒮 : Deployment) (b : Bounds) (client : Client)
    (as : List (Action TaskId (Call P) (Choice P) Disturbance)) (s : SystemState P)
    (h : (𝒮.runtime (P := P)).run (Runtime.fresh _ _ _ _ (World.initial P)) as = some s) :
    ∃ t : Nat → State Client, t 0 = init Client ∧
      (∀ i ≤ as.length, ∀ s',
        𝒮.runtime.run (Runtime.fresh _ _ _ _ (World.initial P)) (as.take i) = some s' →
        Within b s'.world → Matches s'.world.history (t i)) ∧
      ∀ i < as.length, (spec Client b).Leads (t i) (t (i + 1)) := by
  obtain ⟨a, hzero, hstates, hsteps⟩ := exists_states h
  obtain ⟨t, hinit, hrel, hleads⟩ :=
    (system_simulation 𝒮 b client).path a hzero as.length hsteps
  refine ⟨t, hinit, fun i hi s' hs' hw => ?_, hleads⟩
  rw [hstates i hi] at hs'
  obtain rfl := Option.some.inj hs'
  exact (hrel i hi).2.2 hw

/-- The two chains of this run are an `Install` of a range that ends at one. -/
theorem run_refines_reconfigured :
    ∃ t : Nat → State String, t 0 = init String ∧
      (t reconfiguredRun.length).closedStops = [1] ∧
      ∀ i < reconfiguredRun.length, (spec String ⟨1, 1⟩).Leads (t i) (t (i + 1)) := by
  have hrun : ((sealingDeployment.runtime.run (Runtime.fresh _ _ _ _ (World.initial Unit))
      reconfiguredRun).map fun s => (s.world.history.map fun chain =>
        chain.segments.filterMap LogSegment.virtualStop, s.world.events)) =
      some ([[], [1]], [.appended "--b" "second" 0, .tail "--a" 1 true, .sealed "--a",
        .appended "--a" "first" 0]) := by
    decide +kernel
  obtain ⟨s, hs, hpost⟩ := Option.map_eq_some_iff.mp hrun
  obtain ⟨hhistory, hevents⟩ := Prod.mk.inj hpost
  have hw : Within ⟨1, 1⟩ s.world := by
    constructor
    · have hlen := congrArg List.length hhistory
      rw [List.length_map] at hlen
      exact Nat.le_of_eq hlen
    · intro id t ht
      obtain ⟨-, rfl⟩ : id = "--a" ∧ t = 1 := by simpa [hevents] using ht
      exact Nat.le_refl 1
  obtain ⟨t, hinit, hstates, hleads⟩ := run_refines sealingDeployment ⟨1, 1⟩ "a" _ s hs
  refine ⟨t, hinit, ?_, hleads⟩
  have hmatch := hstates _ (Nat.le_refl _) s (by rwa [List.take_length]) hw
  have hlast := congrArg List.getLast? hhistory
  rw [List.getLast?_map] at hlast
  obtain ⟨chain, hchain, hstops⟩ := Option.map_eq_some_iff.mp hlast
  exact (hmatch.newest chain hchain).closedStops.trans hstops

end Runs

end Reconfiguration

end DelosLab.VirtualLog
