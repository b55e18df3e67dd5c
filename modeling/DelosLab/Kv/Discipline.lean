import DelosLab.Async.RelyGuarantee
import DelosLab.Kv.Replay

/-!
# What the tasks of the replicas keep

The committed tables of every replica are a replay of the log. Only the task that holds
the lock of the materializer writes to a connection, so while it does, the others leave
the connection alone; what they may read of an open transaction is already right.
-/

namespace DelosLab.Kv

open Async Async.Coroutine

/-- The rows that a statement outside the transaction may see are right. -/
structure Readable (𝒮 : Deployment) (w : World) (c : Connection) : Prop where
  ahead : c.committed.appliedPosition ≤ c.working.appliedPosition
  request : ∀ key x, c.working.request key = some x → (𝒮.replay w w.settled).first key = some x

/-- A connection between the transactions of the materializer. A transaction that is left
open is the trace of an exception. -/
structure Idle (faulted : Bool) (c : Connection) : Prop where
  clean : c.working = c.committed
  closed : c.inTransaction = true → faulted = true

structure StoreInv (𝒮 : Deployment) (w : World) (faulted : Bool) (r : Replica) : Prop where
  committed : Replays 𝒮 w r.connection.committed
  readable : Readable 𝒮 w r.connection
  idle : r.locks .materializer = none → Idle faulted r.connection

/-- The request of `command` has this result, the one of its first occurrence in the log. -/
def Completed (𝒮 : Deployment) (w : World) (command : KvCommandEnvelope) (result : KvResult) :
    Prop :=
  ∃ x, (𝒮.replay w w.settled).first command.identity = some x ∧ x.2 = result

/-- Why a `materialize_through` without faults raises, when it has met no gap. -/
inductive Blocked (𝒮 : Deployment) (w : World) (target : Int) (e : Error) : Prop where
  | conflict (p : Nat) (hp : (p : Int) ≤ target) (hc : 𝒮.Conflict w p)
      (he : ∃ message, e = .requestConflict message)
  | invalid (p : Nat) (hp : (p : Int) ≤ target) (hlog : w.log p ≠ none)
      (hc : 𝒮.commands w p = none)
  | missing (h : ∀ p : Nat, (p : Int) = target → w.log p = none)

/-- What the error of a `materialize_through` tells. -/
structure ReplayError (𝒮 : Deployment) (w : World) (target : Int) (gap faulted : Bool)
    (e : Error) : Prop where
  gapped : gap = true → ∃ message, e = .syncRequired message
  clean : faulted = true ∨ gap = true ∨ Blocked 𝒮 w target e

/-- What is known of a `materialize_through` that has ended. -/
structure ReplayedInv (𝒮 : Deployment) (w : World) (f : Replayed) : Prop where
  target : f.target < w.settled
  returned : ∀ result, f.outcome = .ok result →
    f.gap = false ∧ f.target ≤ (w.connection f.node).committed.appliedPosition
  raised : ∀ e, f.outcome = .error e → ReplayError 𝒮 w f.target f.gap f.faulted e

structure Inv (𝒮 : Deployment) (w : World) : Prop where
  store : ∀ node, StoreInv 𝒮 w (w.faulted node) (w.replicas node)
  submitted : ∀ s ∈ w.submitted, 𝒮.codec.fromPayload (𝒮.codec.toPayload s.command) =
    some s.command → Completed 𝒮 w s.command s.result
  replayed : ∀ f ∈ w.replayed, ReplayedInv 𝒮 w f

/-- What the others leave alone while `t` waits. -/
structure Rely (t : TaskId) (w w' : World) : Prop where
  held : (w.replicas t.node).locks .materializer = some t →
    (w'.replicas t.node).locks .materializer = some t ∧
      w'.connection t.node = w.connection t.node
  gap : w'.gap t = w.gap t
  faulted : w.faulted t.node = true → w'.faulted t.node = true

/-! ## Facts that last -/

section Grow

variable {𝒮 : Deployment} {w w' : World}

theorem Readable.mono {c : Connection} (h : Readable 𝒮 w c) (hg : Grow w w') :
    Readable 𝒮 w' c :=
  ⟨h.ahead, fun key x hx => Deployment.first_grow hg (h.request key x hx)⟩

theorem StoreInv.mono {faulted : Bool} {r : Replica} (h : StoreInv 𝒮 w faulted r)
    (hg : Grow w w') : StoreInv 𝒮 w' faulted r :=
  ⟨h.committed.mono hg, h.readable.mono hg, h.idle⟩

theorem Completed.mono {command : KvCommandEnvelope} {result : KvResult}
    (h : Completed 𝒮 w command result) (hg : Grow w w') : Completed 𝒮 w' command result := by
  obtain ⟨x, hx, hresult⟩ := h
  exact ⟨x, Deployment.first_grow hg hx, hresult⟩

theorem Blocked.mono {target : Int} {e : Error} (h : Blocked 𝒮 w target e)
    (ht : target < w.settled) (hg : Grow w w') : Blocked 𝒮 w' target e := by
  have hlt : ∀ {p : Nat}, (p : Int) ≤ target → p < w.settled := fun hp => by omega
  cases h with
  | conflict p hp hc he => exact .conflict p hp ((Deployment.conflict_grow hg (hlt hp)).mpr hc) he
  | invalid p hp hlog hc =>
      refine .invalid p hp ?_ ?_
      · rw [hg.fixed p (hlt hp)]
        exact hlog
      · rw [Deployment.commands_grow hg (hlt hp)]
        exact hc
  | missing h =>
      refine .missing fun p hp => ?_
      rw [hg.fixed p (hlt (Int.le_of_eq hp))]
      exact h p hp

/-- What blocks a replay is in the log. -/
theorem Blocked.of_log {target : Int} {e : Error} (h : Blocked 𝒮 w target e)
    (hlog : w'.log = w.log) : Blocked 𝒮 w' target e := by
  have hcommands : 𝒮.commands w' = 𝒮.commands w := by
    funext p
    rw [Deployment.commands, Deployment.commands, hlog]
  have hconflict : ∀ p, 𝒮.Conflict w p → 𝒮.Conflict w' p := by
    intro p hp
    unfold Deployment.Conflict Deployment.replay at hp ⊢
    rw [hcommands]
    exact hp
  cases h with
  | conflict p hp hc he => exact .conflict p hp (hconflict p hc) he
  | invalid p hp hne hc => exact .invalid p hp (hlog ▸ hne) (hcommands ▸ hc)
  | missing h => exact .missing fun p hp => hlog ▸ h p hp

theorem ReplayError.mono {target : Int} {gap faulted : Bool} {e : Error}
    (h : ReplayError 𝒮 w target gap faulted e) (ht : target < w.settled) (hg : Grow w w') :
    ReplayError 𝒮 w' target gap faulted e := by
  refine ⟨h.gapped, ?_⟩
  rcases h.clean with hf | hgap | hb
  · exact .inl hf
  · exact .inr (.inl hgap)
  · exact .inr (.inr (hb.mono ht hg))

/-- An error that an exception of the replica explains. -/
theorem ReplayError.of_faulted {target : Int} {e : Error} :
    ReplayError 𝒮 w target false true e :=
  ⟨nofun, .inl rfl⟩

theorem ReplayError.of_blocked {target : Int} {faulted : Bool} {e : Error}
    (h : Blocked 𝒮 w target e) : ReplayError 𝒮 w target false faulted e :=
  ⟨nofun, .inr (.inr h)⟩

theorem ReplayedInv.mono {f : Replayed} (h : ReplayedInv 𝒮 w f) (hg : Grow w w')
    (hc : (w.connection f.node).committed.appliedPosition ≤
      (w'.connection f.node).committed.appliedPosition) : ReplayedInv 𝒮 w' f := by
  refine ⟨?_, fun result hr => ?_, fun e he => (h.raised e he).mono h.target hg⟩
  · have := h.target
    have := hg.settled
    omega
  · obtain ⟨hgap, hle⟩ := h.returned result hr
    exact ⟨hgap, Int.le_trans hle hc⟩

/-- What the invariant asks of a world in which no call has ended. -/
theorem Inv.of_grow (h : Inv 𝒮 w) (hg : Grow w w') (hsubmitted : w'.submitted = w.submitted)
    (hreplayed : w'.replayed = w.replayed)
    (hstore : ∀ node, StoreInv 𝒮 w' (w'.faulted node) (w'.replicas node))
    (happlied : ∀ node, (w.connection node).committed.appliedPosition ≤
      (w'.connection node).committed.appliedPosition) : Inv 𝒮 w' where
  store := hstore
  submitted := by
    intro s hs hlossless
    rw [hsubmitted] at hs
    exact (h.submitted s hs hlossless).mono hg
  replayed := by
    intro f hf
    rw [hreplayed] at hf
    exact (h.replayed f hf).mono hg (happlied f.node)

end Grow

namespace Rely

variable {t : TaskId} {w w' w₁ w₂ w₃ : World}

theorem refl (t : TaskId) (w : World) : Rely t w w := ⟨fun h => ⟨h, rfl⟩, rfl, id⟩

theorem trans (h : Rely t w₁ w₂) (h' : Rely t w₂ w₃) : Rely t w₁ w₃ := by
  refine ⟨fun hl => ?_, h'.gap.trans h.gap, fun hf => h'.faulted (h.faulted hf)⟩
  obtain ⟨hl₂, hc⟩ := h.held hl
  obtain ⟨hl₃, hc'⟩ := h'.held hl₂
  exact ⟨hl₃, hc'.trans hc⟩

end Rely

/-! ## The discipline -/

section Runtime

variable {𝒮 : Deployment} {w w' : World} {t : TaskId}

theorem exec_log (w : World) (t : TaskId) (a : Act) :
    (Deployment.exec w t a).1.log = w.log ∧ (Deployment.exec w t a).1.settled = w.settled := by
  cases a with
  | sql s => exact ⟨rfl, rfl⟩
  | release lock => exact ⟨rfl, rfl⟩
  | cached => exact ⟨rfl, rfl⟩

/-- What an answered wait may change of the world. -/
inductive Resumed (𝒮 : Deployment) (w : World) (t : TaskId) : (e : Wait) → Choice → World →
    Except Error (WaitResult e) → Prop
  | failed (e : Wait) (x : Error) :
      Resumed 𝒮 w t e (.fail x) { w with faulted := Function.update w.faulted t.node true }
        (.error x)
  | executed : Resumed 𝒮 w t .executed .done w (.ok ())
  | acquired (lock : Lock) (h : (w.replicas t.node).locks lock = none) :
      Resumed 𝒮 w t (.acquire lock) .done (w.setLock t.node lock (some t)) (.ok ())
  | refreshed : Resumed 𝒮 w t .refresh .done (w.setCached t.node) (.ok ())
  | initialSegment : Resumed 𝒮 w t .initialSegment .done w (.ok ())
  | bootstrapped : Resumed 𝒮 w t .bootstrap .done (w.setCached t.node) (.ok ())
  | appended (commandId : String) (payload : VirtualLog.Bytes) (p : Nat)
      (hlog : w.log p = some ⟨commandId, payload⟩) (hp : p < w.settled) :
      Resumed 𝒮 w t (.append commandId payload) (.position p) w (.ok p)
  | tail (tail : VirtualLog.LogletTail) (h : tail.tail ≤ w.settled) :
      Resumed 𝒮 w t .checkTail (.tail tail) w (.ok tail)
  | read (start stop : Int) (view : ReadView) (r : Option VirtualLog.VirtualLogEntry)
      (hright : view.Right t.node w.log start.toNat stop.toNat)
      (hread : view.readNext (𝒮.virtualLogs t.node) t.node start stop = .ok r) :
      Resumed 𝒮 w t (.readNext start stop) (.read view)
        { w with gap := Function.update w.gap t (w.overlooked start.toNat stop.toNat r) } (.ok r)

theorem resume_cases {e : Wait} {x : Choice} {r : Except Error (WaitResult e)}
    (h : 𝒮.resume w t e x = some (w', r)) : Resumed 𝒮 w t e x w' r := by
  unfold Deployment.resume at h
  split at h
  · cases h
    exact .failed _ _
  · cases h
    exact .executed
  · split at h
    · next hfree =>
        cases h
        exact .acquired _ hfree
    · cases h
  · cases h
    exact .refreshed
  · cases h
    exact .initialSegment
  · cases h
    exact .bootstrapped
  · split at h
    · next hp =>
        cases h
        exact .appended _ _ _ hp.1 hp.2
    · cases h
  · split at h
    · next htail =>
        cases h
        exact .tail _ htail
    · cases h
  · split at h
    · next hright =>
        split at h
        · next hread =>
            cases h
            exact .read _ _ _ _ hright hread
        · cases h
    · cases h
  · cases h

theorem Resumed.log {e : Wait} {x : Choice} {r : Except Error (WaitResult e)}
    (h : Resumed 𝒮 w t e x w' r) : w'.log = w.log ∧ w'.settled = w.settled := by
  cases h <;> exact ⟨rfl, rfl⟩

theorem finish_log (w : World) (t : TaskId) (c : Call) (o : Except Error Outcome) :
    (Deployment.finish w t c o).log = w.log ∧
      (Deployment.finish w t c o).settled = w.settled := by
  unfold Deployment.finish
  split <;> exact ⟨rfl, rfl⟩

/-- The calls of the service; `materialize_through` is called with a target below a tail
of the log. -/
def Call.Serves (w : World) : Call → Prop
  | .submit _ => True
  | .sync => True
  | .get _ => True
  | .materializeThrough target => target < w.settled
  | _ => False

instance (w : World) : (c : Call) → Decidable (c.Serves w)
  | .submit _ => isTrue trivial
  | .sync => isTrue trivial
  | .get _ => isTrue trivial
  | .materializeThrough target => inferInstanceAs (Decidable (target < w.settled))
  | .apply _ _ => isFalse id
  | .storeGet _ => isFalse id
  | .storeSnapshot => isFalse id
  | .storeRequest _ _ => isFalse id

/-- A read of `[start, stop)` through the view passes over no entry of the log to find
another one. -/
def World.Unskipped (𝒮 : Deployment) (w : World) (node : String) (start stop : Int)
    (view : ReadView) : Prop :=
  ∀ e, view.readNext (𝒮.virtualLogs node) node start stop = .ok (some e) →
    ∀ p, start.toNat ≤ p → p < e.position → w.log p = none

/-- The runs in which the service is called and every read of a range through a view is as
`R` says. -/
def serving (R : World → String → Int → Int → ReadView → Prop) :
    Condition signature World TaskId Call Choice where
  launch := fun w _ c => c.Serves w
  resume := fun w t _ e x =>
    match e, x with
    | .readNext start stop, .read view => R w t.node start stop view
    | _, _ => True

/-- A step meets what follows from the view and from what its members hold. -/
theorem serving_mono {R R' : World → String → Int → Int → ReadView → Prop}
    (hR : ∀ w node start stop view, view.Right node w.log start.toNat stop.toNat →
      R w node start stop view → R' w node start stop view)
    (s : SystemState) (a : Action TaskId Call Choice Disturbance) (s' : SystemState)
    (h : Runtime.Meets (serving R) s a) (hs : 𝒮.runtime.step s a = some s') :
    Runtime.Meets (serving R') s a := by
  cases a with
  | launch t c => exact h
  | disturb d => trivial
  | resume t x =>
      intro c e k ht
      have hread := h c e k ht
      cases e with
      | readNext start stop =>
          cases x with
          | read view =>
              simp only [Runtime.step, ht] at hs
              obtain ⟨⟨w', r⟩, hr, -⟩ := Option.map_eq_some_iff.mp hs
              have hr : 𝒮.resume s.world t (.readNext start stop) (.read view) = some (w', r) := hr
              cases resume_cases hr with
              | read start stop view r hright _ => exact hR _ _ _ _ _ hright hread
          | _ => trivial
      | _ => trivial

section Check

variable {R : World → String → Int → Int → ReadView → Prop}
  [∀ w node start stop view, Decidable (R w node start stop view)]

variable (R) in
/-- The check of a run that keeps to `serving R`. -/
def meetsServing (s : SystemState) (a : Action TaskId Call Choice Disturbance) : Bool :=
  match a with
  | .launch _ c => decide (c.Serves s.world)
  | .resume t (.read view) =>
      match s.tasks t with
      | some (_, .wait (.readNext start stop) _) => decide (R s.world t.node start stop view)
      | _ => true
  | _ => true

theorem meets_of_meetsServing (s : SystemState) (a : Action TaskId Call Choice Disturbance)
    (h : meetsServing R s a = true) : Runtime.Meets (serving R) s a := by
  cases a with
  | launch t c => exact of_decide_eq_true (p := c.Serves s.world) h
  | disturb d => trivial
  | resume t x =>
      intro c e k ht
      cases x with
      | read view =>
          cases e with
          | readNext start stop =>
              simp only [meetsServing, ht] at h
              exact of_decide_eq_true (p := R s.world t.node start stop view) h
          | _ => trivial
      | _ => cases e <;> trivial

end Check

/-- The runs in which the service is called and reads skip nothing. -/
def faithful (𝒮 : Deployment) : Condition signature World TaskId Call Choice :=
  serving fun w node start stop view => w.Unskipped 𝒮 node start stop view

def discipline (𝒮 : Deployment) : Discipline 𝒮.runtime (faithful 𝒮) where
  Inv := Inv 𝒮
  Grow := Grow
  Rely := Rely
  grow_refl := Grow.refl
  grow_trans := Grow.trans
  rely_refl := Rely.refl
  rely_trans := Rely.trans
  exec_grow := fun w t a => .of_eq (exec_log w t a).1 (exec_log w t a).2
  resume_grow := fun h => .of_eq (resume_cases h).log.1 (resume_cases h).log.2
  finish_grow := fun w t c o => .of_eq (finish_log w t c o).1 (finish_log w t c o).2

end Runtime

end DelosLab.Kv
