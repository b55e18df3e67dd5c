import DelosLab.Kv.Runs

/-!
# Committed progress

What a store has committed is not taken back, whatever its tasks do. The invariant says
so of the replays that have ended. No task reads their list, so it says the same of any
replay that might have ended at the begin of a segment.
-/

namespace DelosLab.Kv

open Async Async.Discipline Async.Runtime

variable {𝒮 : Deployment} {w w' : World} {t : TaskId} {c : Call}

namespace World

/-- How far the store of a replica has committed. -/
def progress (w : World) (node : String) : Int := (w.connection node).committed.appliedPosition

/-- The world in which these replays have ended too. -/
def withReplays (w : World) (replays : List Replayed) : World :=
  { w with replayed := replays ++ w.replayed }

/-- A replay up to the progress of a replica. -/
def replayUpTo (w : World) (node : String) : Replayed :=
  ⟨node, w.progress node, false, w.faulted node, .ok ⟨.applied, none⟩⟩

end World

/-! ## Replays that might have ended -/

theorem Inv.withReplays (h : Inv 𝒮 w) {replays : List Replayed}
    (hr : ∀ f ∈ replays, ReplayedInv 𝒮 w f) : Inv 𝒮 (w.withReplays replays) := by
  have hg : Grow w (w.withReplays replays) := .of_eq rfl rfl
  refine ⟨fun n => (h.store n).mono hg, fun s hs hlossless => (h.submitted s hs hlossless).mono hg,
    fun f hf => ?_⟩
  rcases List.mem_append.mp hf with hf | hf
  · exact (hr f hf).mono hg (Int.le_refl _)
  · exact (h.replayed f hf).mono hg (Int.le_refl _)

theorem Inv.replayUpTo (h : Inv 𝒮 w) (node : String) : ReplayedInv 𝒮 w (w.replayUpTo node) where
  target := (h.store node).committed.settled
  returned := fun _ _ => ⟨rfl, Int.le_refl _⟩
  raised := by rintro _ ⟨⟩

theorem exec_withReplays (w : World) (replays : List Replayed) (t : TaskId) (a : Act) :
    Deployment.exec (w.withReplays replays) t a =
      ((Deployment.exec w t a).1.withReplays replays, (Deployment.exec w t a).2) := by
  cases a <;> rfl

theorem resume_withReplays {e : Wait} {x : Choice} {r : Except Error (WaitResult e)}
    (h : 𝒮.resume w t e x = some (w', r)) (replays : List Replayed) :
    𝒮.resume (w.withReplays replays) t e x = some (w'.withReplays replays, r) := by
  cases resume_cases h with
  | acquired lock hfree => exact if_pos hfree
  | appended commandId payload p hlog hp => exact if_pos ⟨hlog, hp⟩
  | tail tail htail => exact if_pos htail
  | read start stop view r hright hread =>
      refine (if_pos hright).trans ?_
      rw [hread]
      rfl
  | failed e x => cases e <;> rfl
  | _ => rfl

/-! ## What a triple says of progress -/

/-- The discipline of the replicas, with the progress of every store. -/
def progressDiscipline (𝒮 : Deployment) : Discipline 𝒮.runtime (faithful 𝒮) where
  Inv := Inv 𝒮
  Grow := Grow
  Rely := fun t w w' => Rely t w w' ∧ ∀ node, w.progress node ≤ w'.progress node
  grow_refl := Grow.refl
  grow_trans := Grow.trans
  rely_refl := fun t w => ⟨Rely.refl t w, fun _ => Int.le_refl _⟩
  rely_trans := fun h h' => ⟨h.1.trans h'.1, fun node => Int.le_trans (h.2 node) (h'.2 node)⟩
  exec_grow := (discipline 𝒮).exec_grow
  resume_grow := (discipline 𝒮).resume_grow
  finish_grow := (discipline 𝒮).finish_grow

/-- A segment that keeps the discipline, whatever replays had ended at some moment of it,
takes back no progress made by then. -/
theorem Kept.progress {b w₀ : World} (hb : Inv 𝒮 b)
    (hle : ∀ node, w₀.progress node ≤ b.progress node)
    (h : ∀ replays, (∀ f ∈ replays, ReplayedInv 𝒮 b f) →
      (discipline 𝒮).Kept t (w₀.withReplays replays) (w.withReplays replays)) :
    (progressDiscipline 𝒮).Kept t w₀ w := by
  obtain ⟨hi, hr⟩ := h [] fun f hf => absurd hf List.not_mem_nil
  refine ⟨hi, fun u hu => ⟨hr u hu, fun node => Int.le_trans (hle node) ?_⟩⟩
  have hmem : ∀ f ∈ [b.replayUpTo node], ReplayedInv 𝒮 b f := by
    intro f hf
    obtain rfl := List.mem_singleton.mp hf
    exact hb.replayUpTo node
  obtain ⟨hi', -⟩ := h [b.replayUpTo node] hmem
  exact ((hi'.replayed _ List.mem_cons_self).returned _ rfl).2

theorem Safe.progress {α : Type} {Q : World → α → Prop} {X : World → Error → Prop}
    (hQ : ∀ w replays a, Q (w.withReplays replays) a → Q w a)
    (hX : ∀ w replays e, X (w.withReplays replays) e → X w e) {p : Co α} {b w₀ w : World}
    (hb : Inv 𝒮 b) (hle : ∀ node, w₀.progress node ≤ b.progress node)
    (h : ∀ replays, (∀ f ∈ replays, ReplayedInv 𝒮 b f) →
      (discipline 𝒮).Safe t c (fun w₀ w a => (discipline 𝒮).Kept t w₀ w ∧ Q w a)
        (fun w₀ w e => (discipline 𝒮).Kept t w₀ w ∧ X w e) (w₀.withReplays replays)
          (w.withReplays replays) p) :
    (progressDiscipline 𝒮).Safe t c (fun w₀ w a => (progressDiscipline 𝒮).Kept t w₀ w ∧ Q w a)
      (fun w₀ w e => (progressDiscipline 𝒮).Kept t w₀ w ∧ X w e) w₀ w p := by
  have hnone : ∀ f ∈ ([] : List Replayed), ReplayedInv 𝒮 b f := fun f hf =>
    absurd hf List.not_mem_nil
  induction p generalizing b w₀ w with
  | ret a => exact ⟨Kept.progress hb hle fun rs hrs => (h rs hrs).1, hQ w [] a (h [] hnone).2⟩
  | raise e => exact ⟨Kept.progress hb hle fun rs hrs => (h rs hrs).1, hX w [] e (h [] hnone).2⟩
  | act a k ih =>
      refine ih _ hb hle (fun rs hrs => ?_) hnone
      have hexec : 𝒮.runtime.exec (w.withReplays rs) t a = _ := exec_withReplays w rs t a
      have hs := h rs hrs
      rw [Discipline.Safe, hexec] at hs
      exact hs
  | wait e k ih =>
      refine ⟨Kept.progress hb hle fun rs hrs => (h rs hrs).1, fun w₁ hg hr hi x w₂ r hc hs => ?_⟩
      refine ih r hi (fun _ => Int.le_refl _) (fun rs hrs => ?_) fun f hf => absurd hf List.not_mem_nil
      exact (h [] hnone).2 (w₁.withReplays rs) ⟨hg.log, hg.settled, hg.fixed⟩
        ⟨hr.1.held, hr.1.gap, hr.1.faulted⟩ (hi.withReplays hrs) x _ r hc
        (resume_withReplays hs rs)

/-- **A triple of a replica keeps the progress of every store**, when what it says is not
about the replays that have ended. -/
theorem Triple.progress {α : Type} {P : World → Prop} {Q : World → α → Prop}
    {X : World → Error → Prop} {p : Co α} (h : (discipline 𝒮).Triple t c P p Q X)
    (hP : ∀ w replays, P w → P (w.withReplays replays))
    (hQ : ∀ w replays a, Q (w.withReplays replays) a → Q w a)
    (hX : ∀ w replays e, X (w.withReplays replays) e → X w e) :
    (progressDiscipline 𝒮).Triple t c P p Q X := by
  intro w₀ w hk hp
  refine Safe.progress hQ hX hk.1 (fun node => ?_) fun rs hrs => ?_
  · have hother : (⟨t.node, t.number + 1⟩ : TaskId) ≠ t := by
      intro heq
      exact Nat.succ_ne_self _ (congrArg TaskId.number heq)
    exact (hk.2 _ hother).2 node
  · refine h _ _ ⟨hk.1.withReplays hrs, fun u hu => ?_⟩ (hP w rs hp)
    exact ⟨(hk.2 u hu).1.held, (hk.2 u hu).1.gap, (hk.2 u hu).1.faulted⟩

end DelosLab.Kv
