import DelosLab.NativeLoglet.Appends
import DelosLab.NativeLoglet.Tails

/-!
# Every run keeps the discipline

What a call tells at its end, and that every call, every delivery and every restart
keeps what the processes owe each other.
-/

namespace DelosLab.NativeLoglet

open Async Async.Coroutine Async.Runtime Consensus
open VirtualLog (Bytes)

variable {𝒮 : Deployment} {C : Condition signature World TaskId Call Choice} {J : Rider 𝒮}
  {t : TaskId} {c : Call} {w₀ w : World}

/-- The outcome of a `check_tail` that returned a tail at or behind `p`. -/
def Outcome.Reaches (p : Nat) : Outcome → Prop
  | .tail result => p ≤ result.tail
  | _ => False

instance (p : Nat) : (o : Outcome) → Decidable (o.Reaches p)
  | .tail result => inferInstanceAs (Decidable (p ≤ result.tail))
  | .appended _ _ => isFalse id
  | .done => isFalse id
  | .trimmed _ => isFalse id
  | .entry _ => isFalse id

/-- A position up to which `prefix_trim` may be called: some `check_tail` returned a
tail at or behind it. -/
def World.Trimmable (w : World) (p : Nat) : Prop := ∃ r ∈ w.completed, r.outcome.Reaches p

instance (w : World) (p : Nat) : Decidable (w.Trimmable p) :=
  inferInstanceAs (Decidable (∃ r ∈ w.completed, r.outcome.Reaches p))

/-- What a launch has to meet: `prefix_trim` only up to a tail that was returned. -/
def World.Launchable (w : World) : Call → Prop
  | .prefixTrim trimPosition => w.Trimmable trimPosition
  | _ => True

instance (w : World) : (c : Call) → Decidable (w.Launchable c)
  | .prefixTrim trimPosition => inferInstanceAs (Decidable (w.Trimmable trimPosition))
  | .append _ _ _ => isTrue trivial
  | .seal => isTrue trivial
  | .checkTail _ => isTrue trivial
  | .readNext _ _ => isTrue trivial

/-- What a call that began in `w₀` tells when it returns in `w`. -/
def CallPost (𝒮 : Deployment) (C : Condition signature World TaskId Call Choice) (t : TaskId)
    (c : Call) (w₀ w : World) : Outcome → Prop
  | .appended commandId r => ∃ payload turns, c = .append commandId payload turns ∧
      Acked 𝒮 C t c commandId payload w r
  | .tail r => TailRead 𝒮 w₀ w r
  | .entry entry => Read w entry
  | _ => True

/-- What a call that raises tells. -/
def ErrPost (𝒮 : Deployment) (C : Condition signature World TaskId Call Choice) (t : TaskId)
    (c : Call) (e : Error) : Prop :=
  e.Tame ∨ (∃ commandId payload turns, c = .append commandId payload turns) ∧ Excused 𝒮 C t c e

theorem Inv.known_of_trimmable (h : Inv 𝒮 w) {p : Nat} (hp : w.Trimmable p) : w.Known 𝒮 p := by
  obtain ⟨r, hr, hreaches⟩ := hp
  have hreturned := h.returned r hr
  cases hout : r.outcome with
  | tail result =>
      rw [hout] at hreturned hreaches
      exact hreturned.1.le hreaches
  | _ =>
      rw [hout] at hreaches
      cases hreaches

theorem program_spec (c : Call) (hc : w₀.Launchable c) (hi : Inv 𝒮 w₀) :
    (discipline 𝒮 C J).Triple t c (fun w => Grow w₀ w) (𝒮.program t.node c)
      (fun w o => CallPost 𝒮 C t c w₀ w o) fun _ e => ErrPost 𝒮 C t c e := by
  have htame : ∀ {α : Type} {P : World → Prop} {p : Co α} {Q : World → α → Prop},
      Ensures 𝒮 C J t c P p Q → (discipline 𝒮 C J).Triple t c P p Q fun _ e => ErrPost 𝒮 C t c e :=
    fun h => h.mono (fun _ _ hp => hp) (fun _ _ _ hq => hq) fun _ _ _ he => .inl he
  cases c with
  | append commandId payload turns =>
      refine .bind (((append_spec turns).mono (fun _ _ _ => trivial) (fun _ _ _ hq => hq)
        fun _ _ _ he => .inr ⟨⟨commandId, payload, turns, rfl⟩, he⟩)) fun r => .ret fun w _ h => ?_
      exact ⟨payload, turns, rfl, h⟩
  | «seal» => exact .bind (htame seal_spec) fun _ => .ret fun _ _ _ => trivial
  | prefixTrim trimPosition =>
      refine .bind (htame (prefixTrim_spec.pre fun w _ hg => ⟨hg, ?_⟩)) fun _ =>
        .ret fun _ _ _ => trivial
      exact World.Known.mono (hi.known_of_trimmable hc) hg
  | checkTail turns => exact .bind (htame (checkTail_spec turns)) fun _ => .ret fun _ _ h => h
  | readNext localStart localStop =>
      exact .bind (htame (readNext_spec t.node localStart localStop)) fun _ => .ret fun _ _ h => h

/-! ## The ends of a call -/

theorem World.grow_invoke (w : World) (invoked : TaskId → Nat) :
    Grow w { w with invoked := invoked } :=
  ⟨fun _ => .refl _, List.prefix_refl _, List.Subset.refl _, fun _ hr => .inl hr,
    List.prefix_refl _, List.Subset.refl _, fun _ _ h => .inl h, List.prefix_refl _⟩

theorem Inv.invoke (h : Inv 𝒮 w) (invoked : TaskId → Nat) :
    Inv 𝒮 { w with invoked := invoked } :=
  have hg := w.grow_invoke invoked
  h.changed hg rfl (List.Subset.refl _) rfl rfl rfl rfl rfl (fun n => (h.store n).mono hg)
    (fun n => (h.client n).mono hg) (h.fenced.mono hg rfl fun _ => ⟨_, _, rfl⟩)

/-- A call returns what it may return. -/
theorem Inv.complete (h : Inv 𝒮 w) (r : Completion) (hr : OutcomeInv 𝒮 w r.outcome) :
    Inv 𝒮 { w with completed := w.completed ++ [r] } :=
  have hg : Grow w { w with completed := w.completed ++ [r] } :=
    ⟨fun _ => .refl _, List.prefix_refl _, List.Subset.refl _, fun _ hr => .inl hr,
      List.prefix_refl _, List.Subset.refl _, fun _ _ h => .inl h, List.prefix_append _ _⟩
  { h with
    returned := fun r' hmem => by
      rcases List.mem_append.mp hmem with hmem | hmem
      · exact (h.returned r' hmem).mono hg
      · obtain rfl := List.mem_singleton.mp hmem
        exact hr.mono hg
    replies := fun r' hmem => by
      obtain ⟨request, hreq, hinv⟩ := h.replies r' hmem
      exact ⟨request, hreq, hinv.mono hg⟩
    store := fun n => (h.store n).mono hg
    fenced := h.fenced.mono hg rfl fun _ => ⟨_, _, rfl⟩
    requests := fun requests hreq item hi => (h.requests requests hreq item hi).mono hg }

/-- A call raises what it may raise. -/
theorem Inv.fail (h : Inv 𝒮 w) {c : Call} {e : Error}
    (he : ∀ message, e = .entryConflict message → ∃ i p n, c = .append i p n) :
    Inv 𝒮 { w with failed := (c, e) :: w.failed } :=
  have hg : Grow w { w with failed := (c, e) :: w.failed } :=
    ⟨fun _ => .refl _, List.prefix_refl _, List.Subset.refl _, fun _ hr => .inl hr,
      List.prefix_refl _, List.Subset.refl _, fun _ _ h => .inl h, List.prefix_refl _⟩
  { h with
    failed := fun c' message hmem => by
      rcases List.mem_cons.mp hmem with heq | hmem
      · cases heq
        exact he message rfl
      · exact h.failed c' message hmem
    replies := fun r' hmem => by
      obtain ⟨request, hreq, hinv⟩ := h.replies r' hmem
      exact ⟨request, hreq, hinv.mono hg⟩
    store := fun n => (h.store n).mono hg
    fenced := h.fenced.mono hg rfl fun _ => ⟨_, _, rfl⟩
    requests := fun requests hreq item hi => (h.requests requests hreq item hi).mono hg
    returned := fun r' hmem => (h.returned r' hmem).mono hg }

theorem CallPost.outcome {o : Outcome} (h : CallPost 𝒮 C t c w₀ w o) : OutcomeInv 𝒮 w o := by
  cases o with
  | appended commandId r =>
      obtain ⟨payload, turns, -, hacked⟩ := h
      exact hacked.outcome
  | tail r => exact ⟨TailRead.known h, TailRead.bound h⟩
  | _ => trivial

theorem invoked_exec (w : World) (t u : TaskId) (a : Act) :
    (𝒮.exec w t a).1.invoked u = w.invoked u := by
  cases a with
  | sequencerFor =>
      rw [Deployment.exec, Deployment.sequencerFor]
      split
      · rfl
      · split
        · rfl
        · rfl
  | _ => rfl

theorem Resumed.invoked {e : Wait} {x : Choice} {w' : World}
    {r : Except Error (WaitResult e)} (h : Resumed w t e x w' r) : w'.invoked = w.invoked := by
  cases h with
  | acquired h => rfl
  | _ => rfl

/-! ## Disturbances -/

theorem Served.learn (h : Inv 𝒮 w) {node : String} {returned : Nat} {w' : World}
    (hl : Deployment.learn w node w.completed[returned]? = some w') : Served 𝒮 w w' := by
  unfold Deployment.learn at hl
  split at hl
  · next before commandId result hget =>
      cases hl
      have hret := h.returned _ (List.mem_of_getElem? hget)
      have hc := h.client node
      exact ⟨h.setClient ⟨hc.1.max hret.2.2, hc.2⟩, w.grow_setClient _ _, w.rely_setClient _ _,
        rfl, rfl⟩
  · cases hl

theorem restart_records {node incarnation : String} {w' : World}
    (hr : 𝒮.restart w node incarnation = some w') :
    w'.completed = w.completed ∧ w'.failed = w.failed := by
  rw [Deployment.restart] at hr
  split at hr
  · cases hr
    exact ⟨rfl, rfl⟩
  · cases hr

/-! ## Soundness -/

/-- The rider of a run is kept when the calls that return or raise keep it. -/
structure Rider.Kept (J : Rider 𝒮) (C : Condition signature World TaskId Call Choice) : Prop where
  returned : ∀ w₀ w t c o, Inv 𝒮 w₀ → J.holds w₀ → Inv 𝒮 w → J.holds w → Grow w₀ w →
    w.invoked t = w₀.completed.length → CallPost 𝒮 C t c w₀ w o →
      J.holds (Deployment.finish w t c (.ok o))
  raised : ∀ w t c e, Inv 𝒮 w → J.holds w → ErrPost 𝒮 C t c e →
    J.holds (Deployment.finish w t c (.error e))

/-- **Every call, every delivery and every restart keeps the discipline.** -/
theorem sound (hC : ∀ w t c, C.launch w t c → w.Launchable c) (hJ : J.Kept C) :
    (discipline 𝒮 C J).Sound where
  start := by
    intro w t c w' p hi hlaunch hst
    change some _ = some (w', p) at hst
    cases hst
    set w₁ : World := { w with invoked := Function.update w.invoked t w.completed.length } with hw₁
    have hg : Grow w w₁ := w.grow_invoke _
    have hi₁ : Inv 𝒮 w₁ := hi.1.invoke _
    have hj₁ : J.holds w₁ := J.stable w w₁ hi.1 hi₁ hg rfl rfl hi.2
    have hk : (discipline 𝒮 C J).Kept t w w₁ :=
      kept_of hi hi₁ hg rfl rfl fun u hu =>
        ⟨fun _ h => ⟨h, rfl⟩, fun h => h, Function.update_of_ne hu _ _⟩
    have hI : (discipline 𝒮 C J).Lasting t fun v : World => v.invoked t = w.completed.length :=
      fun _ _ _ hr h => hr.invoked.trans h
    have hc : w₁.Launchable c := hC w t c hlaunch
    have hspec := ((program_spec (C := C) (J := J) (t := t) c hc hi₁).frame
      (persistent_grow w₁)).frame_own hI.stable
      (fun v a hv => (invoked_exec v t t a).trans hv)
      fun hs hv => (congrFun (resumed_of_resume hs).invoked t).trans hv
    refine ⟨hg, hspec.safe_finish hk ⟨⟨.refl _, .refl _⟩, Function.update_self _ _ _⟩
      (fun v o hi' h => ?_) fun v e hi' h => ?_⟩
    · obtain ⟨⟨hpost, hg'⟩, hinvoked⟩ := h
      refine ⟨⟨hi'.1.complete _ hpost.outcome, ?_⟩, fun _ _ =>
        ⟨fun _ h => ⟨h, rfl⟩, fun h => h, rfl⟩⟩
      exact hJ.returned w₁ v t c o hi₁ hj₁ hi'.1 hi'.2 hg' hinvoked hpost
    · obtain ⟨⟨herr, -⟩, -⟩ := h
      refine ⟨⟨hi'.1.fail fun message he => ?_, hJ.raised v t c e hi'.1 hi'.2 herr⟩, fun _ _ =>
        ⟨fun _ h => ⟨h, rfl⟩, fun h => h, rfl⟩⟩
      rcases herr with htame | ⟨⟨i, p, n, hc'⟩, -⟩
      · exact absurd he (htame.1 message)
      · exact ⟨i, p, n, hc'⟩
  disturb := by
    intro w d w' hi hd
    have hserved : ∀ {w' : World}, Served 𝒮 w w' → (discipline 𝒮 C J).Inv w' ∧ Grow w w' ∧
        ∀ u, Rely u w w' := fun h =>
      ⟨⟨h.inv, J.stable w _ hi.1 h.inv h.grow h.completed h.failed hi.2⟩, h.grow, h.rely⟩
    cases d with
    | deliver batch node =>
        obtain ⟨request, hreq, rfl⟩ := Option.map_eq_some_iff.mp hd
        obtain ⟨hi', hg, hr⟩ := hserved (.deliver hi.1 hreq)
        exact ⟨hi', hg, fun u _ => hr u⟩
    | respond batch node =>
        change (if (batch, node) ∈ w.handling then (w.request batch node).map
          (w.respond batch node) else none) = some w' at hd
        split at hd
        · next hmem =>
            obtain ⟨request, hreq, rfl⟩ := Option.map_eq_some_iff.mp hd
            obtain ⟨hi', hg, hr⟩ := hserved (.respond hi.1 hmem hreq)
            exact ⟨hi', hg, fun u _ => hr u⟩
        · cases hd
    | learn node returned =>
        obtain ⟨hi', hg, hr⟩ := hserved (.learn hi.1 hd)
        exact ⟨hi', hg, fun u _ => hr u⟩
    | restart node incarnation =>
        obtain ⟨hi', hg, hr⟩ := hi.1.restart hd
        obtain ⟨hcompleted, hfailed⟩ := restart_records hd
        refine ⟨⟨hi', J.stable w w' hi.1 hi' hg hcompleted hfailed hi.2⟩, hg, fun u hu => hr u ?_⟩
        exact of_decide_eq_true hu

theorem inv_initial (𝒮 : Deployment) : Inv 𝒮 (World.initial 𝒮) where
  positions := fun _ _ h => nomatch h
  commands := List.nodup_nil
  store := fun _ => ⟨nofun, fun _ hp => absurd hp (Nat.not_lt_zero _), knownTail_zero,
    knownTail_zero⟩
  client := fun _ => ⟨knownTail_zero, knownTail_zero⟩
  stored := fun _ _ h => nomatch h
  requests := fun _ h => nomatch h
  handling := fun _ _ h => nomatch h
  replies := fun _ h => nomatch h
  fenced := ⟨fun _ h => absurd rfl h, fun _ h => (nomatch h), fun h => absurd rfl h,
    fun _ _ h => nomatch h⟩
  returned := fun _ h => nomatch h
  failed := fun _ _ h => nomatch h

/-- The rider of a run about whose calls nothing more is claimed. -/
theorem Rider.kept_none : (Rider.none 𝒮).Kept C := ⟨fun _ _ _ _ _ _ _ _ _ _ _ _ => trivial,
  fun _ _ _ _ _ _ _ => trivial⟩

/-- The runs in which `prefix_trim` is called only up to a tail that was returned. -/
def trimsReturned : Condition signature World TaskId Call Choice where
  launch := fun w _ c => w.Launchable c
  resume := fun _ _ _ _ _ => True

/-- The invariant holds in every state of every run. -/
theorem inv_of_reachable (hC : ∀ w t c, C.launch w t c → w.Launchable c) (hJ : J.Kept C)
    (hinit : J.holds (World.initial 𝒮)) {s : SystemState}
    (h : 𝒮.runtime.ReachableUnder C (· = World.initial 𝒮) s) : Inv 𝒮 s.world ∧ J.holds s.world := by
  refine ((sound hC hJ).reachable (fun w hw => ?_) h).1
  subst hw
  exact ⟨inv_initial 𝒮, hinit⟩

end DelosLab.NativeLoglet
