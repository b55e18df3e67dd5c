import DelosLab.Async.Sequential
import DelosLab.VirtualLog.Routing

/-!
# What `prefixTrim` removes

One instance alone with the register and with Loglets that answer at once. The physical
trim reaches every segment below the trim position, and the truncation loop drops the
closed segments in front, one in each of its turns: it gets as many turns as a call has
reconfiguration attempts, however many segments there are.
-/

namespace DelosLab.VirtualLog

open Async Async.Coroutine

variable {P : Type}

/-! ## Loglets that answer at once -/

/-- A Loglet holds nothing below its watermark. -/
structure LogletState where
  content : LogletContent
  trimmed : Nat
  tail : Nat
  swept : ∀ p < trimmed, content p = none

namespace LogletState

/-- `VirtualLoglet.prefix_trim`: discard positions below `trimPosition`. -/
def prefixTrim (self : LogletState) (trimPosition : Nat) : LogletState where
  content := fun p => if p < max self.trimmed trimPosition then none else self.content p
  trimmed := max self.trimmed trimPosition
  tail := self.tail
  swept := fun _ hp => if_pos hp

@[ext] theorem ext {l l' : LogletState} (hc : l.content = l'.content)
    (ht : l.trimmed = l'.trimmed) (htail : l.tail = l'.tail) : l = l' := by
  cases l
  cases l'
  simp_all

@[simp] theorem prefixTrim_trimmed (l : LogletState) (n : Nat) :
    (l.prefixTrim n).trimmed = max l.trimmed n := rfl

@[simp] theorem prefixTrim_tail (l : LogletState) (n : Nat) : (l.prefixTrim n).tail = l.tail :=
  rfl

/-- Trimming below the watermark does nothing. -/
theorem prefixTrim_of_le {l : LogletState} {n : Nat} (h : n ≤ l.trimmed) :
    l.prefixTrim n = l := by
  have hmax : max l.trimmed n = l.trimmed := Nat.max_eq_left h
  ext p e
  · simp only [prefixTrim, hmax]
    split
    · next hlt => rw [l.swept p hlt]
    · rfl
  · exact hmax
  · rfl

/-- Nothing at or above the trim position is lost. -/
theorem prefixTrim_content {l : LogletState} {n p : Nat} (h : n ≤ p) :
    (l.prefixTrim n).content p = l.content p := by
  simp only [prefixTrim]
  split
  · next hlt => rw [l.swept p (by omega)]
  · rfl

end LogletState

/-- One instance, the register, and the Loglet of each segment. -/
structure Plane (P : Type) where
  cached : Option (VersionedLogChain P)
  register : VersionedLogChain P
  replies : List (CompareAndSetResult P)
  loglets : String → LogletState

namespace Plane

def content (w : Plane P) (s : LogSegment P) : LogletContent := (w.loglets s.segmentId).content

/-- The instance is the only one that changes the chain, no Loglet call fails, and the
active Loglet is not sealed. -/
def alone (P : Type) : Handler (signature P) (Plane P) where
  act := fun w a => match a with
    | .cached => (w, w.cached)
    | .setCached snapshot => ({ w with cached := some snapshot }, ())
    | .uuid4 => (w, ⟨"fresh", fresh_named⟩)
    | .invoke .read => (w, w.replies.length)
    | .invoke (.compareAndSet expected chain) =>
        let outcome := w.register.compareAndSet expected chain
        ({ w with register := outcome.1, replies := w.replies ++ [outcome.2] }, w.replies.length)
    | .release => (w, ())
  wait := fun w e => match e with
    | .acquire => (w, .ok ())
    | .sleep => (w, .ok ())
    | .readResponse _ => (w, .ok w.register)
    | .casResponse call =>
        match w.replies[call]? with
        | some result => (w, .ok result)
        | none => (w, .error .cancelled)
    | .append _ _ _ => (w, .error .cancelled)
    | .seal _ => (w, .error .cancelled)
    | .checkTail s => (w, .ok ⟨(w.loglets s.segmentId).tail, false⟩)
    | .readNext s localStart localStop => (w, .ok ((w.content s).readNext localStart localStop))
    | .prefixTrim s trimPosition =>
        let loglet := (w.loglets s.segmentId).prefixTrim trimPosition
        ({ w with loglets := Function.update w.loglets s.segmentId loglet }, .ok loglet.trimmed)
    | .successor _ => (w, .error .cancelled)

/-- `chain` is installed, and the instance knows it. -/
def Holds (w : Plane P) (chain : LogChain P) : Prop :=
  w.cached = some w.register ∧ w.register.chain = some chain

section Runs

variable {w : Plane P} {chain : LogChain P} {self : VirtualLog}

theorem run_cached (h : w.Holds chain) :
    (alone P).run w VirtualLog.cached = (w, .ok ⟨w.register.version, chain⟩) := by
  have hact : (alone P).run w (act (P := P) .cached) = (w, .ok (some w.register)) := by
    rw [← h.1]
    rfl
  rw [VirtualLog.cached, Handler.run_bind_ok hact]
  simp only [h.2]
  rfl

theorem run_require {p : Prop} [Decidable p] (e : Error) (h : p) :
    (alone P).run w (require p e) = (w, .ok ()) := by
  rw [require, if_pos h]
  rfl

theorem run_prefixTrim (s : LogSegment P) (n : Nat) :
    (alone P).run w (wait (.prefixTrim s n)) =
      ({ w with loglets :=
          Function.update w.loglets s.segmentId ((w.loglets s.segmentId).prefixTrim n) },
        .ok (max (w.loglets s.segmentId).trimmed n)) := rfl

/-- The only client installs what it wants to install. -/
theorem run_install (w : Plane P) (chain candidate : LogChain P) :
    ∃ w' : Plane P, (alone P).run w (install ⟨w.register.version, chain⟩ candidate) =
        (w', .ok true) ∧ w'.Holds candidate ∧ w'.loglets = w.loglets := by
  let w' : Plane P :=
    { w with
      cached := some (.installed w.register.version candidate)
      register := .installed w.register.version candidate
      replies := w.replies ++ [.applied (.installed w.register.version candidate)] }
  refine ⟨w', ?_, ⟨rfl, rfl⟩, rfl⟩
  have hcas : (alone P).run w (compareAndSet w.register.version candidate) =
      ({ w' with cached := w.cached }, .ok (.applied (.installed w.register.version candidate))) := by
    have hinvoke : (alone P).run w (act (.invoke (.compareAndSet w.register.version candidate))) =
        ({ w' with cached := w.cached }, .ok w.replies.length) := by
      show (((alone P).act w (.invoke (.compareAndSet w.register.version candidate))).1,
        Except.ok ((alone P).act w (.invoke (.compareAndSet w.register.version candidate))).2) = _
      simp only [alone, compareAndSet_of_eq]
      rfl
    rw [compareAndSet, Handler.run_bind_ok hinvoke]
    rw [VirtualLog.wait, Handler.run_await]
    simp [alone, w']
  rw [install, Handler.run_bind_ok hcas]
  rfl

theorem run_reconfigTruncate (h : w.Holds chain) (hloglets : self.loglets = true)
    {s t : LogSegment P} {rest : List (LogSegment P)} (hsegments : chain.segments = s :: t :: rest)
    {stop : Nat} (hstop : s.virtualStop = some stop)
    (htrimmed : stop - s.virtualStart ≤ (w.loglets s.segmentId).trimmed) :
    ∃ (w' : Plane P) (chain' : LogChain P),
      (alone P).run w self.reconfigTruncate = (w', .ok true) ∧ w'.Holds chain' ∧
        chain'.segments = t :: rest ∧ w'.loglets = w.loglets := by
  have hvalid : ValidChain (t :: rest) := by
    have hv := chain.valid
    rw [hsegments] at hv
    exact ⟨(List.nodup_cons.mp hv.1).2, hv.2.2⟩
  let chain' : LogChain P := ⟨t :: rest, hvalid⟩
  have hlength : ¬chain.segments.length = 1 := by simp [hsegments]
  have hfirst : chain.first = s := by simp [LogChain.first, hsegments]
  subst hfirst
  -- The first segment is trimmed already, so trimming it once more leaves its Loglet alone.
  have htrim : (alone P).run w
      (wait (.prefixTrim chain.first (stop - chain.first.virtualStart))) =
        (w, .ok (w.loglets chain.first.segmentId).trimmed) := by
    rw [run_prefixTrim, LogletState.prefixTrim_of_le htrimmed, Function.update_eq_self,
      Nat.max_eq_left htrimmed]
  obtain ⟨w', hinstall, hw', hkept⟩ := run_install w chain chain'
  refine ⟨w', chain', ?_, hw', rfl, hkept⟩
  rw [reconfigTruncate, Handler.run_bind_ok (run_cached h), requireLoglets,
    Handler.run_bind_ok (run_require _ hloglets)]
  simp only [hlength, if_false, hstop]
  rw [Handler.run_bind_ok htrim, if_neg (Nat.not_lt.mpr htrimmed)]
  have hcandidate : LogChain.ofSegments chain.segments.tail = some chain' := by
    rw [hsegments]
    exact dif_pos hvalid
  rw [hcandidate]
  exact hinstall

end Runs

end Plane

/-! ## The closed segments in front -/

/-- The segment is closed at or before `trimPosition`. -/
def LogSegment.Below (s : LogSegment P) (trimPosition : Nat) : Prop :=
  ∃ stop ∈ s.virtualStop, stop ≤ trimPosition

instance (s : LogSegment P) (n : Nat) : Decidable (s.Below n) :=
  inferInstanceAs (Decidable (∃ stop ∈ s.virtualStop, stop ≤ n))

/-- How many closed segments end at or before `trimPosition`. -/
def removable (segments : List (LogSegment P)) (trimPosition : Nat) : Nat :=
  segments.countP fun s => s.Below trimPosition

/-- They all stand in front. -/
theorem removable_eq_zero {s : LogSegment P} {rest : List (LogSegment P)} {n : Nat}
    (h : Contiguous (s :: rest)) (hs : ¬s.Below n) : removable (s :: rest) n = 0 := by
  refine List.countP_eq_zero.mpr fun t ht => ?_
  rw [decide_eq_true_eq]
  rcases List.mem_cons.mp ht with rfl | ht
  · exact hs
  · rintro ⟨stop, hstop, hle⟩
    obtain ⟨stop', hstop', hle'⟩ := h.stop_le t ht
    have := t.range stop hstop
    exact hs ⟨stop', hstop', by omega⟩

theorem removable_cons {s : LogSegment P} {rest : List (LogSegment P)} {n : Nat}
    (hs : s.Below n) : removable (s :: rest) n = removable rest n + 1 :=
  List.countP_cons_of_pos (decide_eq_true hs)

theorem below_of_mem_take {segments : List (LogSegment P)} {n k : Nat}
    (h : Contiguous segments) (hk : k ≤ removable segments n) :
    ∀ s ∈ segments.take k, s.Below n := by
  induction segments generalizing k with
  | nil => simp
  | cons s rest ih =>
      by_cases hs : s.Below n
      · cases k with
        | zero => simp
        | succ k =>
            rw [removable_cons hs] at hk
            rw [List.take_succ_cons]
            intro t ht
            rcases List.mem_cons.mp ht with rfl | ht
            · exact hs
            · cases rest with
              | nil => simp at ht
              | cons u rest => exact ih h.2 (Nat.le_of_succ_le_succ hk) t ht
      · rw [removable_eq_zero h hs, Nat.le_zero] at hk
        simp [hk]

/-- What is left when they have been dropped ends behind `trimPosition`. -/
theorem not_below_of_mem_drop {segments : List (LogSegment P)} {n k : Nat}
    (h : Contiguous segments) (hk : removable segments n ≤ k) :
    ∀ s ∈ segments.drop k, ¬s.Below n := by
  induction segments generalizing k with
  | nil => simp
  | cons s rest ih =>
      by_cases hs : s.Below n
      · rw [removable_cons hs] at hk
        obtain ⟨k, rfl⟩ := Nat.exists_eq_add_of_le' (Nat.le_trans (Nat.le_add_left 1 _) hk)
        rw [List.drop_succ_cons]
        cases rest with
        | nil => simp
        | cons t rest => exact ih h.2 (by omega)
      · intro t ht
        have hzero := List.countP_eq_zero.mp (removable_eq_zero h hs) t (List.mem_of_mem_drop ht)
        simpa using hzero

/-- When fewer are dropped, the first of what is left ends at or before `trimPosition`. -/
theorem below_head_drop {segments : List (LogSegment P)} {n k : Nat} (h : Contiguous segments)
    (hk : k < removable segments n) : ∃ s ∈ segments.drop k, s.Below n := by
  induction segments generalizing k with
  | nil => cases hk
  | cons s rest ih =>
      by_cases hs : s.Below n
      · rw [removable_cons hs] at hk
        cases k with
        | zero => exact ⟨s, List.mem_cons_self, hs⟩
        | succ k =>
            rw [List.drop_succ_cons]
            cases rest with
            | nil => cases Nat.lt_of_succ_lt_succ hk
            | cons t rest => exact ih h.2 (Nat.lt_of_succ_lt_succ hk)
      · rw [removable_eq_zero h hs] at hk
        cases hk

/-! ## The loops of `prefixTrim` -/

namespace Plane

section Loops

variable {w : Plane P} {chain : LogChain P} {self : VirtualLog} {n : Nat}

/-- How far `prefix_trim` trims the Loglet of a segment. -/
def localTarget (s : LogSegment P) (trimPosition : Nat) : Nat :=
  min trimPosition (s.virtualStop.getD trimPosition) - s.virtualStart

/-- The Loglets after the physical trim. -/
def trimAll (loglets : String → LogletState) (segments : List (LogSegment P)) (n : Nat) :
    String → LogletState :=
  segments.foldl
    (fun loglets s =>
      Function.update loglets s.segmentId ((loglets s.segmentId).prefixTrim (localTarget s n)))
    loglets

theorem trimAll_of_notMem {loglets : String → LogletState} {segments : List (LogSegment P)}
    {id : String} (h : id ∉ segments.map LogSegment.segmentId) :
    trimAll loglets segments n id = loglets id := by
  induction segments generalizing loglets with
  | nil => rfl
  | cons s rest ih =>
      rw [List.map_cons, List.mem_cons, not_or] at h
      rw [trimAll, List.foldl_cons, ← trimAll, ih h.2, Function.update_of_ne h.1]

/-- Every segment's Loglet is trimmed once, to its own target. -/
theorem trimAll_of_mem {loglets : String → LogletState} {segments : List (LogSegment P)}
    (hnodup : (segments.map LogSegment.segmentId).Nodup) {s : LogSegment P} (hs : s ∈ segments) :
    trimAll loglets segments n s.segmentId =
      (loglets s.segmentId).prefixTrim (localTarget s n) := by
  induction segments generalizing loglets with
  | nil => cases hs
  | cons u rest ih =>
      rw [List.map_cons, List.nodup_cons] at hnodup
      rw [trimAll, List.foldl_cons, ← trimAll]
      rcases List.mem_cons.mp hs with rfl | hs
      · rw [trimAll_of_notMem hnodup.1, Function.update_self]
      · have hne : s.segmentId ≠ u.segmentId := by
          intro heq
          exact hnodup.1 (heq ▸ List.mem_map_of_mem hs)
        rw [ih hnodup.2 hs, Function.update_of_ne hne]

/-- Segments at or behind the trim position lose nothing. -/
theorem trimAll_of_behind {loglets : String → LogletState} {segments : List (LogSegment P)}
    (h : ∀ s ∈ segments, n ≤ s.virtualStart) : trimAll loglets segments n = loglets := by
  induction segments with
  | nil => rfl
  | cons s rest ih =>
      have hzero : localTarget s n = 0 := by
        have := h s List.mem_cons_self
        simp only [localTarget]
        omega
      rw [trimAll, List.foldl_cons, ← trimAll, hzero,
        LogletState.prefixTrim_of_le (Nat.zero_le _), Function.update_eq_self]
      exact ih fun t ht => h t (List.mem_cons_of_mem _ ht)

/-- The physical trim stops early only where it would do nothing. -/
theorem run_trimSegments {segments : List (LogSegment P)}
    (hc : segments = [] ∨ Contiguous segments) (w : Plane P) :
    (alone P).run w (trimSegments n segments) =
      ({ w with loglets := trimAll w.loglets segments n }, .ok none) := by
  induction segments generalizing w with
  | nil => rfl
  | cons s rest ih =>
      have hcont := hc.resolve_left (List.cons_ne_nil _ _)
      have hrest : rest = [] ∨ Contiguous rest := by
        cases rest with
        | nil => exact .inl rfl
        | cons t rest => exact .inr hcont.2
      rw [trimSegments]
      split
      · next hle =>
          rw [trimAll_of_behind fun t ht => Nat.le_trans hle (hcont.first_le t ht)]
          rfl
      · have hkept : ¬max (w.loglets s.segmentId).trimmed (localTarget s n) < localTarget s n :=
          Nat.not_lt.mpr (Nat.le_max_right _ _)
        refine (Handler.run_bind_ok (run_prefixTrim s (localTarget s n)) _).trans ?_
        show (alone P).run _ (if max _ _ < localTarget s n then _ else trimSegments n rest) = _
        rw [if_neg hkept, ih hrest]
        rfl

/-- A closed first segment is not the last. -/
theorem exists_second (hs : chain.first.Below n) :
    ∃ t rest, chain.segments = chain.first :: t :: rest := by
  have hcont := chain.valid.2
  rw [chain.segments_eq_cons] at hcont ⊢
  cases hrest : chain.segments.tail with
  | nil =>
      rw [hrest] at hcont
      obtain ⟨stop, hstop, -⟩ := hs
      rw [show chain.first.virtualStop = none from hcont] at hstop
      cases hstop
  | cons t rest => exact ⟨t, rest, rfl⟩

/-- The loop ends where the first segment reaches behind the trim position. -/
theorem run_truncateLoop_stops (h : w.Holds chain) (hs : ¬chain.first.Below n) (turns : Nat) :
    (alone P).run w (self.truncateLoop n turns) = (w, .ok ()) := by
  cases turns with
  | zero => rfl
  | succ turns =>
      rw [truncateLoop, Handler.run_bind_ok (run_cached h)]
      simp only
      split
      · rfl
      · cases hstop : chain.first.virtualStop with
        | none => rfl
        | some stop =>
            have hgt : stop > n := by
              by_contra hle
              exact hs ⟨stop, hstop, Nat.le_of_not_lt hle⟩
            simp only [hgt, if_true]
            rfl

/-- Each other turn drops one closed segment. -/
theorem run_truncateLoop_turn (hloglets : self.loglets = true) (h : w.Holds chain)
    (htrimmed : ∀ s ∈ chain.segments, localTarget s n ≤ (w.loglets s.segmentId).trimmed)
    (hs : chain.first.Below n) (turns : Nat) :
    ∃ (w' : Plane P) (chain' : LogChain P),
      (alone P).run w (self.truncateLoop n (turns + 1)) =
          (alone P).run w' (self.truncateLoop n turns) ∧
        w'.Holds chain' ∧ chain.segments = chain.first :: chain'.segments ∧
          w'.loglets = w.loglets := by
  obtain ⟨t, rest, hsegments⟩ := exists_second hs
  obtain ⟨stop, hstop, hle⟩ := hs
  have hlocal : stop - chain.first.virtualStart = localTarget chain.first n := by
    rw [localTarget, show chain.first.virtualStop = some stop from hstop, Option.getD_some,
      Nat.min_eq_right hle]
  obtain ⟨w', chain', hrun, hw', hsegments', hkept⟩ :=
    run_reconfigTruncate h hloglets hsegments hstop (hlocal ▸ htrimmed _ chain.first_mem)
  refine ⟨w', chain', ?_, hw', hsegments.trans (by rw [hsegments']), hkept⟩
  have hlength : ¬chain.segments.length = 1 := by simp [hsegments]
  rw [truncateLoop, Handler.run_bind_ok (run_cached h)]
  simp only [hlength, if_false, show chain.first.virtualStop = some stop from hstop,
    Nat.not_lt.mpr hle]
  rw [Handler.run_bind_ok hrun]

theorem run_truncateLoop (hloglets : self.loglets = true) (turns : Nat) (h : w.Holds chain)
    (htrimmed : ∀ s ∈ chain.segments, localTarget s n ≤ (w.loglets s.segmentId).trimmed) :
    ∃ (w' : Plane P) (chain' : LogChain P),
      (alone P).run w (self.truncateLoop n turns) = (w', .ok ()) ∧ w'.Holds chain' ∧
        chain'.segments = chain.segments.drop (min turns (removable chain.segments n)) ∧
          w'.loglets = w.loglets := by
  induction turns generalizing w chain with
  | zero => exact ⟨w, chain, rfl, h, by simp, rfl⟩
  | succ turns ih =>
      by_cases hs : chain.first.Below n
      · obtain ⟨w₁, chain₁, hrun, hw₁, hsegments, hkept⟩ :=
          run_truncateLoop_turn hloglets h htrimmed hs turns
        have htrimmed₁ : ∀ u ∈ chain₁.segments,
            localTarget u n ≤ (w₁.loglets u.segmentId).trimmed := by
          intro u hu
          rw [hkept]
          exact htrimmed u (hsegments ▸ List.mem_cons_of_mem _ hu)
        obtain ⟨w', chain', hloop, hw', hsegments', hkept'⟩ := ih hw₁ htrimmed₁
        refine ⟨w', chain', hrun.trans hloop, hw', ?_, hkept'.trans hkept⟩
        rw [hsegments', hsegments, removable_cons hs, Nat.add_min_add_right,
          List.drop_succ_cons]
      · refine ⟨w, chain, run_truncateLoop_stops h hs _, h, ?_, rfl⟩
        have hcont := chain.valid.2
        rw [chain.segments_eq_cons] at hcont ⊢
        rw [removable_eq_zero hcont hs, Nat.min_zero, List.drop_zero]

/-- An unsealed tail is the tail of the log. -/
theorem run_checkTail (hloglets : self.loglets = true) (h : w.Holds chain) :
    (alone P).run w self.checkTail =
      (w, .ok ⟨chain.active.virtualStart + (w.loglets chain.active.segmentId).tail, false⟩) := by
  obtain ⟨turns, hturns⟩ := Nat.exists_eq_add_of_le' self.positive
  rw [checkTail, hturns, checkTailLoop, Handler.run_bind_ok (run_cached h), requireLoglets,
    Handler.run_bind_ok (run_require _ hloglets)]
  rfl

/-- The call comes down to its two loops. -/
theorem run_prefixTrim_call (hloglets : self.loglets = true) (h : w.Holds chain)
    (hstart : chain.first.virtualStart < n)
    (htail : n ≤ chain.active.virtualStart + (w.loglets chain.active.segmentId).tail) :
    ∃ (w' : Plane P) (chain' : LogChain P),
      (alone P).run w (self.prefixTrim n) = (w', .ok (max n chain'.first.virtualStart)) ∧
        w'.Holds chain' ∧
        chain'.segments = chain.segments.drop
          (min self.maxReconfigurationAttempts (removable chain.segments n)) ∧
        w'.loglets = trimAll w.loglets chain.segments n := by
  let w₁ : Plane P := { w with loglets := trimAll w.loglets chain.segments n }
  have htrimmed : ∀ s ∈ chain.segments, localTarget s n ≤ (w₁.loglets s.segmentId).trimmed := by
    intro s hs
    show _ ≤ (trimAll w.loglets chain.segments n s.segmentId).trimmed
    rw [trimAll_of_mem chain.valid.1 hs]
    exact Nat.le_max_right _ _
  have hw₁ : w₁.Holds chain := h
  obtain ⟨w', chain', hloop, hw', hsegments, hkept⟩ :=
    run_truncateLoop hloglets self.maxReconfigurationAttempts hw₁ htrimmed
  refine ⟨w', chain', ?_, hw', hsegments, hkept⟩
  have hphysical : (alone P).run w (trimSegments n chain.segments) = (w₁, .ok none) :=
    run_trimSegments (.inr chain.valid.2) w
  rw [prefixTrim, Handler.run_bind_ok (run_require _ (Int.natCast_nonneg n))]
  simp only [Int.toNat_natCast]
  rw [Handler.run_bind_ok (run_cached h), requireLoglets,
    Handler.run_bind_ok (run_require _ hloglets)]
  simp only [Nat.not_le.mpr hstart, if_false]
  rw [Handler.run_bind_ok (run_checkTail hloglets h),
    Handler.run_bind_ok (run_require _ htail), Handler.run_bind_ok (run_cached h),
    Handler.run_bind_ok hphysical]
  simp only
  rw [Handler.run_bind_ok hloop, Handler.run_bind_ok (run_cached hw')]
  rfl

/-- Reads leave everything alone, and answer from what the Loglets hold. -/
theorem run_readNext (hloglets : self.loglets = true) (h : w.Holds chain) {a b : Nat}
    (hab : a < b) :
    (alone P).run w (self.readNext a b) =
      (w, Coroutine.run (frozen w.register w.content) (self.readNext a b)) := by
  have hloop : ∀ segments : List (LogSegment P), (alone P).run w (readNextLoop a b segments) =
      (w, Coroutine.run (frozen w.register w.content) (readNextLoop a b segments)) := by
    intro segments
    induction segments with
    | nil => rfl
    | cons s rest ih =>
        rw [readNextLoop]
        simp only
        split
        · exact ih
        · have hread : (alone P).run w (wait (.readNext s (max a s.virtualStart - s.virtualStart)
              (min b (s.virtualStop.getD b) - s.virtualStart))) =
              (w, .ok ((w.content s).readNext (max a s.virtualStart - s.virtualStart)
                (min b (s.virtualStop.getD b) - s.virtualStart))) := rfl
          have hanswer : Coroutine.run (frozen w.register w.content)
              (wait (.readNext s (max a s.virtualStart - s.virtualStart)
                (min b (s.virtualStop.getD b) - s.virtualStart))) =
              .ok ((w.content s).readNext (max a s.virtualStart - s.virtualStart)
                (min b (s.virtualStop.getD b) - s.virtualStart)) := rfl
          rw [Handler.run_bind_ok hread, run_bind_of_ok hanswer]
          cases (w.content s).readNext (max a s.virtualStart - s.virtualStart)
            (min b (s.virtualStop.getD b) - s.virtualStart) with
          | none => exact ih
          | some e =>
              simp only [require]
              split
              · rfl
              · rfl
  have hcheck : (0 : Int) ≤ a ∧ (a : Int) < b := by omega
  have hcached : (frozen w.register w.content).act .cached = some w.register := rfl
  rw [run_readNext_eq hcached h.2 hloglets hab, VirtualLog.readNext,
    Handler.run_bind_ok (run_require _ hcheck), Handler.run_bind_ok (run_cached h),
    requireLoglets, Handler.run_bind_ok (run_require _ hloglets)]
  exact hloop chain.segments

/-- A read of one position answers what the address space has there. -/
theorem run_readNext_at (hloglets : self.loglets = true) (h : w.Holds chain) (p : Nat) :
    (alone P).run w (self.readNext p (p + 1 : Nat)) =
      (w, .ok (chain.entryAt w.content p)) := by
  have hcached : (frozen w.register w.content).act .cached = some w.register := rfl
  rw [run_readNext hloglets h (Nat.lt_succ_self p),
    run_readNext_firstIn hcached h.2 hloglets (fun _ _ _ _ => rfl) (Nat.lt_succ_self p),
    firstIn_singleton]

end Loops

/-! ## What the call is for -/

/-- What `prefixTrim` of `n` has done to the chain and to the Loglets when it returns. -/
structure PrefixTrimmed (log : VirtualLog) (w w' : Plane P) (chain chain' : LogChain P)
    (n : Nat) : Prop where
  removed : ∀ s ∈ chain'.segments, ∀ stop ∈ s.virtualStop, n < stop
  trimmed : ∀ s ∈ chain'.segments, ∀ p < n, s.Covers p →
    p - s.virtualStart < (w'.loglets s.segmentId).trimmed
  readable : ∀ p ≥ n, (alone P).run w' (log.readNext p (p + 1 : Nat)) =
    (w', .ok (chain.entryAt w.content p))
  again : ∀ n' : Int, n' ≤ n →
    ((alone P).run w' (log.prefixTrim n')).1.register = w'.register ∧
      ((alone P).run w' (log.prefixTrim n')).1.loglets = w'.loglets

section Main

variable {w w' : Plane P} {chain chain' : LogChain P} {self : VirtualLog} {n k : Nat}

theorem prefixTrimmed_trimmed (hsegments : chain'.segments = chain.segments.drop k)
    (hkept : w'.loglets = trimAll w.loglets chain.segments n) :
    ∀ s ∈ chain'.segments, ∀ p < n, s.Covers p →
      p - s.virtualStart < (w'.loglets s.segmentId).trimmed := by
  intro s hs p hp hcov
  rw [hsegments] at hs
  rw [hkept, trimAll_of_mem chain.valid.1 (List.mem_of_mem_drop hs)]
  refine Nat.lt_of_lt_of_le ?_ (Nat.le_max_right _ _)
  have hstop : p < s.virtualStop.getD n := by
    cases hs : s.virtualStop with
    | none => exact hp
    | some stop => exact hcov.2 stop hs
  have := hcov.1
  simp only [localTarget]
  omega

/-- Nothing at or behind the trim position is dropped or discarded. -/
theorem entryAt_prefixTrimmed (hsegments : chain'.segments = chain.segments.drop k)
    (hk : k ≤ removable chain.segments n)
    (hkept : w'.loglets = trimAll w.loglets chain.segments n) {p : Nat} (hp : n ≤ p) :
    chain'.entryAt w'.content p = chain.entryAt w.content p := by
  have hsub : ∀ s ∈ chain'.segments, s ∈ chain.segments := by
    intro s hs
    rw [hsegments] at hs
    exact List.mem_of_mem_drop hs
  cases hat : chain.segmentAt p with
  | none =>
      have hnone := LogChain.segmentAt_eq_none.mp hat
      have hnone' : chain'.entryAt w'.content p = none :=
        LogChain.entryAt_eq_none.mpr fun s hs hcov => absurd hcov (hnone s (hsub s hs))
      rw [hnone', LogChain.entryAt, hat, Option.bind_none]
  | some s =>
      obtain ⟨hs, hcov⟩ := LogChain.mem_of_segmentAt hat
      have hs' : s ∈ chain'.segments := by
        rw [← List.take_append_drop k chain.segments] at hs
        rcases List.mem_append.mp hs with hs | hs
        · obtain ⟨stop, hstop, hle⟩ := below_of_mem_take chain.valid.2 hk s hs
          have := hcov.2 stop hstop
          omega
        · exact hsegments ▸ hs
      have hcontent : w'.content s (p - s.virtualStart) = w.content s (p - s.virtualStart) := by
        have htarget : localTarget s n ≤ p - s.virtualStart := by
          simp only [localTarget]
          omega
        rw [content, hkept, trimAll_of_mem chain.valid.1 hs,
          LogletState.prefixTrim_content htarget, content]
      rw [LogChain.entryAt_of_covers hs' hcov, LogChain.entryAt_of_covers hs hcov, hcontent]

theorem localTarget_mono {s : LogSegment P} {m : Nat} (h : m ≤ n) :
    localTarget s m ≤ localTarget s n := by
  cases hs : s.virtualStop with
  | none =>
      simp only [localTarget, hs, Option.getD_none]
      omega
  | some stop =>
      simp only [localTarget, hs, Option.getD_some]
      omega

theorem trimAll_eq_self {loglets : String → LogletState} {segments : List (LogSegment P)}
    (h : ∀ s ∈ segments, localTarget s n ≤ (loglets s.segmentId).trimmed) :
    trimAll loglets segments n = loglets := by
  induction segments with
  | nil => rfl
  | cons s rest ih =>
      rw [trimAll, List.foldl_cons, ← trimAll,
        LogletState.prefixTrim_of_le (h s List.mem_cons_self), Function.update_eq_self]
      exact ih fun t ht => h t (List.mem_cons_of_mem _ ht)

/-- A second trim up to a position that was trimmed finds nothing to do. -/
theorem run_prefixTrim_again (hloglets : self.loglets = true) (h : w.Holds chain)
    (htrimmed : ∀ s ∈ chain.segments, localTarget s n ≤ (w.loglets s.segmentId).trimmed)
    (hfirst : ¬chain.first.Below n)
    (htail : n ≤ chain.active.virtualStart + (w.loglets chain.active.segmentId).tail)
    {n' : Int} (hle : n' ≤ n) : ((alone P).run w (self.prefixTrim n')).1 = w := by
  by_cases hneg : 0 ≤ n'
  · obtain ⟨m, rfl⟩ := Int.eq_ofNat_of_zero_le hneg
    have hm : m ≤ n := Int.ofNat_le.mp hle
    have htrim : (alone P).run w (trimSegments m chain.segments) = (w, .ok none) := by
      rw [run_trimSegments (.inr chain.valid.2), trimAll_eq_self fun s hs =>
        Nat.le_trans (localTarget_mono hm) (htrimmed s hs)]
    have hstops : ¬chain.first.Below m := by
      rintro ⟨stop, hstop, hle'⟩
      exact hfirst ⟨stop, hstop, Nat.le_trans hle' hm⟩
    rw [prefixTrim, Handler.run_bind_ok (run_require _ (Int.natCast_nonneg m))]
    simp only [Int.toNat_natCast]
    rw [Handler.run_bind_ok (run_cached h), requireLoglets,
      Handler.run_bind_ok (run_require _ hloglets)]
    by_cases hstart : m ≤ chain.first.virtualStart
    · simp only [hstart, if_true]
      rfl
    · simp only [hstart, if_false]
      rw [Handler.run_bind_ok (run_checkTail hloglets h),
        Handler.run_bind_ok (run_require _ (Nat.le_trans hm htail)),
        Handler.run_bind_ok (run_cached h), Handler.run_bind_ok htrim]
      simp only
      rw [Handler.run_bind_ok (run_truncateLoop_stops h hstops _),
        Handler.run_bind_ok (run_cached h)]
      rfl
  · rw [prefixTrim, require, if_neg hneg]
    rfl

/-- Dropping segments in front leaves the last one. -/
theorem active_of_drop (hsegments : chain'.segments = chain.segments.drop k) :
    chain'.active = chain.active := by
  have hne : chain.segments.drop k ≠ [] := hsegments ▸ chain'.ne_nil
  simp only [LogChain.active, hsegments, List.getLast_drop hne]

/-- **What `prefixTrim` removes.** For every chain, every content of its Loglets and every
trim position above the first segment's start and not above the tail, the call returns a
position that is not below the trim position, and it has removed what it promises, and
nothing else, exactly when the closed segments that end at or before the trim position are
no more than a call has reconfiguration attempts. -/
theorem prefixTrim_removes_iff (hloglets : self.loglets = true) (h : w.Holds chain)
    (hstart : chain.first.virtualStart < n)
    (htail : n ≤ chain.active.virtualStart + (w.loglets chain.active.segmentId).tail) :
    ∃ (r : Nat) (w' : Plane P) (chain' : LogChain P),
      (alone P).run w (self.prefixTrim n) = (w', .ok r) ∧ w'.Holds chain' ∧ n ≤ r ∧
        (PrefixTrimmed self w w' chain chain' n ↔
          removable chain.segments n ≤ self.maxReconfigurationAttempts) := by
  obtain ⟨w', chain', hrun, hw', hsegments, hkept⟩ :=
    run_prefixTrim_call hloglets h hstart htail
  refine ⟨_, w', chain', hrun, hw', Nat.le_max_left _ _, ?_⟩
  constructor
  · intro hdone
    by_contra hmany
    rw [Nat.min_eq_left (Nat.le_of_not_le hmany)] at hsegments
    obtain ⟨s, hs, stop, hstop, hle⟩ :=
      below_head_drop chain.valid.2 (Nat.lt_of_not_le hmany)
    have := hdone.removed s (hsegments ▸ hs) stop hstop
    omega
  · intro henough
    rw [Nat.min_eq_right henough] at hsegments
    have hremoved : ∀ s ∈ chain'.segments, ¬s.Below n := by
      rw [hsegments]
      exact not_below_of_mem_drop chain.valid.2 (Nat.le_refl _)
    have htrimmed : ∀ s ∈ chain'.segments,
        localTarget s n ≤ (w'.loglets s.segmentId).trimmed := by
      intro s hs
      rw [hsegments] at hs
      rw [hkept, trimAll_of_mem chain.valid.1 (List.mem_of_mem_drop hs)]
      exact Nat.le_max_right _ _
    have htail' : n ≤ chain'.active.virtualStart +
        (w'.loglets chain'.active.segmentId).tail := by
      rw [active_of_drop hsegments, hkept, trimAll_of_mem chain.valid.1 chain.active_mem]
      exact htail
    refine ⟨fun s hs stop hstop => ?_, prefixTrimmed_trimmed hsegments hkept, fun p hp => ?_,
      fun n' hn' => ?_⟩
    · by_contra hle
      exact hremoved s hs ⟨stop, hstop, Nat.le_of_not_lt hle⟩
    · rw [run_readNext_at hloglets hw',
        entryAt_prefixTrimmed hsegments (Nat.le_refl _) hkept hp]
    · have hsame := run_prefixTrim_again hloglets hw' htrimmed
        (hremoved _ chain'.first_mem) htail' hn'
      rw [hsame]
      exact ⟨rfl, rfl⟩

end Main

end Plane

/-! ## More segments than attempts -/

def chunk (id : String) (start : Nat) (stop : Option Nat) (named : id ≠ "")
    (range : ∀ n ∈ stop, start ≤ n) : LogSegment Unit :=
  ⟨id, start, stop, ⟨"memory", 1, ()⟩, named, range⟩

/-- Two closed segments of one position each, and the active one. -/
def chunks : LogChain Unit where
  segments :=
    [chunk "a" 0 (some 1) a_named (by decide), chunk "b" 1 (some 2) b_named (by decide),
      chunk "c" 2 none (by decide) (by decide)]
  valid := by decide

def fullLoglet : LogletState where
  content := fun p => if p = 0 then some ("x", [1]) else none
  trimmed := 0
  tail := 1
  swept := nofun

def fullPlane : Plane Unit where
  cached := some (.installed 1 chunks)
  register := .installed 1 chunks
  replies := []
  loglets := fun _ => fullLoglet

/-- An instance with a number of reconfiguration attempts. -/
def withAttempts (attempts : Nat) (h : 1 ≤ attempts) : VirtualLog := ⟨true, false, attempts, h⟩

/-- The chain that one turn of the loop leaves. -/
def lastChunks : LogChain Unit where
  segments :=
    [chunk "b" 1 (some 2) b_named (by decide), chunk "c" 2 none (by decide) (by decide)]
  valid := by decide

/-- With one attempt a segment stays that ends at the trim position, and a second call
removes it. -/
theorem prefixTrim_leaves_segment :
    ∃ w' : Plane Unit,
      (Plane.alone Unit).run fullPlane ((withAttempts 1 (by decide)).prefixTrim (2 : Nat)) =
          (w', .ok 2) ∧
        w'.Holds lastChunks ∧ (∃ s ∈ lastChunks.segments, s.virtualStop = some 2) ∧
          ((Plane.alone Unit).run w'
            ((withAttempts 1 (by decide)).prefixTrim (2 : Nat))).1.register.version ≠
              w'.register.version := by
  refine ⟨_, Prod.ext rfl ?_, ⟨?_, ?_⟩, by decide, ?_⟩
  · decide
  · decide
  · decide
  · decide

theorem prefixTrim_removes_iff_chunks :
    ∃ (r : Nat) (w' : Plane Unit) (chain' : LogChain Unit),
      (Plane.alone Unit).run fullPlane ((withAttempts 2 (by decide)).prefixTrim (2 : Nat)) =
          (w', .ok r) ∧ w'.Holds chain' ∧ 2 ≤ r ∧
        Plane.PrefixTrimmed (withAttempts 2 (by decide)) fullPlane w' chunks chain' 2 := by
  have hw : fullPlane.Holds chunks := ⟨rfl, rfl⟩
  have hstart : chunks.first.virtualStart < 2 := by decide
  have htail : 2 ≤ chunks.active.virtualStart +
      (fullPlane.loglets chunks.active.segmentId).tail := by decide
  have hloglets : (withAttempts 2 (by decide)).loglets = true := rfl
  obtain ⟨r, w', chain', hrun, hw', hr, hiff⟩ :=
    Plane.prefixTrim_removes_iff hloglets hw hstart htail
  exact ⟨r, w', chain', hrun, hw', hr, hiff.mpr (by decide)⟩

end DelosLab.VirtualLog
