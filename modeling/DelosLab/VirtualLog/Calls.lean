import DelosLab.Async.RelyGuarantee
import DelosLab.VirtualLog.System

/-!
# What every call keeps

The functions of an instance are built from a few parts: reading the cache, asking a
Loglet, refreshing, installing a chain. Whatever the parts keep, every call keeps. The
fail-over functions stand apart, since they are entered with a segment that failed.
-/

namespace DelosLab.VirtualLog

open Async Async.Coroutine

variable {P W Θ Call' Choice' D O : Type}
  {M : Runtime (signature P) W Θ Call' Choice' D O}
  {C : Condition (signature P) W Θ Call' Choice'}

/-- `p` returns in worlds that satisfy `F` when it starts in one. -/
abbrev Upholds {α : Type} (𝒟 : Discipline M C) (t : Θ) (c : Call') (F : W → Prop) (p : Co P α) :
    Prop :=
  𝒟.Triple t c F p (fun w _ => F w) fun _ _ => True

/-- The parts that calls are built from uphold `F`. -/
structure Parts (𝒟 : Discipline M C) (t : Θ) (c : Call') (F : W → Prop) : Prop where
  cached : Upholds 𝒟 t c F VirtualLog.cached
  uuid4 : Upholds 𝒟 t c F (act .uuid4)
  wait : ∀ e, e ≠ Wait.acquire → Upholds 𝒟 t c F (VirtualLog.wait e)
  refresh : Upholds 𝒟 t c F VirtualLog.refresh
  install : ∀ expected candidate, Upholds 𝒟 t c F (VirtualLog.install expected candidate)
  bootstrap : ∀ initialSegment, Upholds 𝒟 t c F (VirtualLog.bootstrap initialSegment)

/-- The parts of the data plane too: a Loglet's failure is known to be the failure of the
segment that was asked, and the fail-over of that segment upholds `F`. -/
structure DataPlane (𝒟 : Discipline M C) (t : Θ) (c : Call') (F : W → Prop)
    (Failing : LogSegment P → W → Prop) : Prop extends Parts 𝒟 t c F where
  failing : ∀ s w, Failing s w → F w
  append : ∀ s commandId payload, 𝒟.Triple t c F (VirtualLog.wait (.append s commandId payload))
    (fun w _ => F w) fun w _ => Failing s w
  checkTail : ∀ s, 𝒟.Triple t c F (VirtualLog.wait (.checkTail s))
    (fun w _ => Failing s w) fun w _ => Failing s w
  rollForward : ∀ (self : VirtualLog) s, 𝒟.Triple t c (Failing s) (self.rollForward s)
    (fun w _ => F w) fun _ _ => True
  replaceUnavailable : ∀ (self : VirtualLog) s, 𝒟.Triple t c (Failing s)
    (self.replaceUnavailable s) (fun w _ => F w) fun _ _ => True

/-- Whatever becomes of the body, the lock is released behind it. -/
theorem withReconfigureLock_triple {𝒟 : Discipline M C} {t : Θ} {c : Call'} {F B F' : W → Prop}
    {body : Co P Unit}
    (hacquire : 𝒟.Triple t c F (wait .acquire) (fun w _ => B w) fun _ _ => True)
    (hbody : 𝒟.Triple t c B body (fun _ _ => True) fun _ _ => True)
    (hrelease : 𝒟.Triple t c (fun _ => True) (act .release) (fun w _ => F' w) fun _ _ => True) :
    𝒟.Triple t c F (withReconfigureLock body) (fun w _ => F' w) fun _ _ => True := by
  refine .bind hacquire fun _ => ?_
  refine .bind (Q := fun _ _ => True) (.handle (Y := fun _ _ => True) ?_ fun e => ?_) fun r => ?_
  · exact .bind hbody fun _ => .ret fun _ _ _ => trivial
  · exact .ret fun _ _ _ => trivial
  · refine .bind hrelease fun _ => ?_
    exact .ofExcept (fun _ _ _ hf _ => hf) fun _ _ _ _ _ => trivial

/-! ## Reconfiguration and reads -/

namespace Parts

variable {𝒟 : Discipline M C} {t : Θ} {c : Call'} {F : W → Prop}

theorem require {p : Prop} [Decidable p] (e : Error) :
    Upholds 𝒟 t c F (Coroutine.require (S := signature P) p e) :=
  .require (fun _ _ h _ => h) fun _ _ _ _ => trivial

theorem orRaise {α : Type} (value : Option α) (e : Error) :
    Upholds 𝒟 t c F (Coroutine.orRaise (S := signature P) value e) :=
  .orRaise (fun _ _ _ h _ => h) fun _ _ _ _ => trivial

variable (h : Parts 𝒟 t c F)

include h

theorem reconfigExtend (self : VirtualLog) (next : NewLogletConfiguration P) :
    Upholds 𝒟 t c F (self.reconfigExtend next) := by
  refine .bind h.cached fun s => ?_
  refine .bind (require _) fun _ => ?_
  refine .bind (h.wait _ (by simp)) fun _ => ?_
  refine .bind (h.wait _ (by simp)) fun tail => ?_
  refine .bind (require _) fun _ => ?_
  exact .bind (orRaise _ _) fun candidate => h.install s candidate

theorem reconfigTruncate (self : VirtualLog) : Upholds 𝒟 t c F (self.reconfigTruncate (P := P)) := by
  refine .bind h.cached fun s => ?_
  refine .bind (require _) fun _ => ?_
  split
  · exact .ret fun _ _ hf => hf
  simp only
  split
  · exact .raise fun _ _ _ => trivial
  · refine .bind (h.wait _ (by simp)) fun trimmed => ?_
    split
    · exact .ret fun _ _ hf => hf
    · exact .bind (orRaise _ _) fun candidate => h.install s candidate

theorem reconfigModify [DecidableEq P] (update : LogletConfigurationUpdate P) :
    Upholds 𝒟 t c F (reconfigModify update) := by
  refine .bind h.cached fun s => ?_
  simp only
  split
  · exact .raise fun _ _ _ => trivial
  split
  · exact .raise fun _ _ _ => trivial
  split
  · exact .ret fun _ _ hf => hf
  · exact .bind (orRaise _ _) fun candidate => h.install s candidate

theorem refreshIfActive (expected : LogSegment P) :
    Upholds 𝒟 t c F (refreshIfActive expected) := by
  refine .bind h.cached fun s => ?_
  split
  · exact .ret fun _ _ hf => hf
  refine .bind h.refresh fun refreshed => ?_
  split
  · exact .ret fun _ _ hf => hf
  · exact .ret fun _ _ hf => hf

theorem sealActive (self : VirtualLog) : Upholds 𝒟 t c F (self.sealActive (P := P)) := by
  refine .bind h.cached fun s => ?_
  refine .bind (require _) fun _ => ?_
  exact h.wait _ (by simp)

theorem readNextLoop (virtualStart virtualStop : Nat) (segments : List (LogSegment P)) :
    Upholds 𝒟 t c F (readNextLoop virtualStart virtualStop segments) := by
  induction segments with
  | nil => exact .ret fun _ _ hf => hf
  | cons segment rest ih =>
      unfold VirtualLog.readNextLoop
      simp only
      split
      · exact ih
      · refine .bind (h.wait _ (by simp)) fun entry => ?_
        cases entry with
        | none => exact ih
        | some entry => exact .bind (require _) fun _ => .ret fun _ _ hf => hf

theorem readNext (self : VirtualLog) (virtualStart virtualStop : Int) :
    Upholds 𝒟 t c F (self.readNext (P := P) virtualStart virtualStop) := by
  refine .bind (require _) fun _ => ?_
  refine .bind h.cached fun s => ?_
  refine .bind (require _) fun _ => ?_
  exact h.readNextLoop _ _ _

theorem read (self : VirtualLog) (position : Int) :
    Upholds 𝒟 t c F (self.read (P := P) position) := by
  refine .bind (require _) fun _ => ?_
  refine .bind (h.readNext self _ _) fun entry => ?_
  cases entry with
  | none => exact .raise fun _ _ _ => trivial
  | some entry => exact .ret fun _ _ hf => hf

theorem trimSegments (trimPosition : Nat) (segments : List (LogSegment P)) :
    Upholds 𝒟 t c F (trimSegments trimPosition segments) := by
  induction segments with
  | nil => exact .ret fun _ _ hf => hf
  | cons segment rest ih =>
      unfold VirtualLog.trimSegments
      split
      · exact .ret fun _ _ hf => hf
      · refine .bind (h.wait _ (by simp)) fun localResult => ?_
        split
        · exact .ret fun _ _ hf => hf
        · exact ih

theorem truncateLoop (self : VirtualLog) (trimPosition remaining : Nat) :
    Upholds 𝒟 t c F (self.truncateLoop (P := P) trimPosition remaining) := by
  induction remaining with
  | zero => exact .ret fun _ _ hf => hf
  | succ remaining ih =>
      refine .bind h.cached fun s => ?_
      split
      · exact .ret fun _ _ hf => hf
      split
      · exact .ret fun _ _ hf => hf
      split
      · exact .ret fun _ _ hf => hf
      · exact .bind (h.reconfigTruncate self) fun _ => ih

end Parts

/-! ## The data plane -/

namespace DataPlane

variable {𝒟 : Discipline M C} {t : Θ} {c : Call'} {F : W → Prop}
  {Failing : LogSegment P → W → Prop}

theorem appendLoop (h : DataPlane 𝒟 t c F Failing) (self : VirtualLog) (commandId : String)
    (payload : Bytes) (remaining : Nat) :
    Upholds 𝒟 t c F (self.appendLoop (P := P) commandId payload remaining) := by
  induction remaining with
  | zero => exact .raise fun _ _ _ => trivial
  | succ remaining ih =>
      refine .bind h.cached fun s => ?_
      refine .bind (Parts.require _) fun _ => ?_
      refine .handle (Y := fun w _ => Failing s.chain.active w) ?_ fun e => ?_
      · exact .bind (h.append _ _ _) fun _ => .ret fun _ _ hf => hf
      · cases e with
        | logletSealed message =>
            simp only
            split
            · exact .raise fun _ _ _ => trivial
            · exact .bind (h.rollForward self _) fun _ => ih
        | logletUnavailable message =>
            simp only
            split
            · exact .raise fun _ _ _ => trivial
            · exact .bind (h.replaceUnavailable self _) fun _ => ih
        | _ => exact .raise fun _ _ _ => trivial

theorem checkTailLoop (h : DataPlane 𝒟 t c F Failing) (self : VirtualLog) (remaining : Nat) :
    Upholds 𝒟 t c F (self.checkTailLoop (P := P) remaining) := by
  induction remaining with
  | zero => exact .raise fun _ _ _ => trivial
  | succ remaining ih =>
      refine .bind h.cached fun s => ?_
      refine .bind (Parts.require _) fun _ => ?_
      refine .bind (Q := fun w observed => F w ∧
        (observed ≠ none → Failing s.chain.active w))
        (.handle (Y := fun w _ => Failing s.chain.active w) ?_ fun e => ?_) fun observed => ?_
      · refine .bind (h.checkTail _) fun _ => ?_
        exact .ret fun w _ hf => ⟨h.failing _ w hf, fun _ => hf⟩
      · cases e with
        | logletUnavailable message =>
            simp only
            split
            · exact .raise fun _ _ _ => trivial
            · refine .bind (h.replaceUnavailable self _) fun _ => ?_
              exact .ret fun _ _ hf => ⟨hf, fun hne => absurd rfl hne⟩
        | _ => exact .raise fun _ _ _ => trivial
      · cases observed with
        | none => exact ih.pre fun _ _ hf => hf.1
        | some tail =>
            simp only
            split
            · exact .ret fun _ _ hf => hf.1
            split
            · exact .ret fun _ _ hf => hf.1
            · refine .bind ((h.rollForward self _).pre fun _ _ hf => hf.2 ?_) fun _ => ih
              simp

theorem prefixTrim (h : DataPlane 𝒟 t c F Failing) (self : VirtualLog) (trimPosition : Int) :
    Upholds 𝒟 t c F (self.prefixTrim (P := P) trimPosition) := by
  refine .bind (Parts.require _) fun _ => ?_
  refine .bind h.cached fun s => ?_
  refine .bind (Parts.require _) fun _ => ?_
  split
  · exact .ret fun _ _ hf => hf
  refine .bind (h.checkTailLoop self _) fun tail => ?_
  refine .bind (Parts.require _) fun _ => ?_
  refine .bind h.cached fun s => ?_
  refine .bind (h.trimSegments _ _) fun reached => ?_
  cases reached with
  | some reached => exact .ret fun _ _ hf => hf
  | none =>
      refine .bind (h.truncateLoop self _ _) fun _ => ?_
      refine .bind h.cached fun s => ?_
      exact .ret fun _ _ hf => hf

/-- **Every call upholds what its parts uphold.** -/
theorem program [DecidableEq P] (h : DataPlane 𝒟 t c F Failing) (self : VirtualLog)
    (call : Call P) : Upholds 𝒟 t c F (Deployment.program self call) := by
  cases call with
  | bootstrap initialSegment =>
      refine .bind h.uuid4 fun id => ?_
      exact .bind (h.bootstrap _) fun _ => .ret fun _ _ hf => hf
  | refresh => exact .bind h.refresh fun _ => .ret fun _ _ hf => hf
  | append commandId payload =>
      exact .bind (h.appendLoop self commandId payload _) fun _ => .ret fun _ _ hf => hf
  | «seal» => exact .bind (h.sealActive self) fun _ => .ret fun _ _ hf => hf
  | checkTail => exact .bind (h.checkTailLoop self _) fun _ => .ret fun _ _ hf => hf
  | read position => exact .bind (h.read self position) fun _ => .ret fun _ _ hf => hf
  | readNext a b => exact .bind (h.readNext self a b) fun _ => .ret fun _ _ hf => hf
  | prefixTrim p => exact .bind (h.prefixTrim self p) fun _ => .ret fun _ _ hf => hf
  | reconfigExtend loglet =>
      refine .bind h.uuid4 fun id => ?_
      exact .bind (h.reconfigExtend self _) fun _ => .ret fun _ _ hf => hf
  | reconfigTruncate => exact .bind (h.reconfigTruncate self) fun _ => .ret fun _ _ hf => hf
  | reconfigModify update => exact .bind (h.reconfigModify update) fun _ => .ret fun _ _ hf => hf

end DataPlane

end DelosLab.VirtualLog
