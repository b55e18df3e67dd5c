import DelosLab.Async.RelyGuarantee

/-!
# Observers

An observer watches a system and keeps notes that no task reads: what was known when a
call was invoked, on whose behalf an act was performed. The observed system takes exactly
the steps of the system it watches.
-/

namespace Async

open Async.Runtime

/-- What an observer notes when a task starts, performs an act in a world, sees a wait
end (in the world it ended in), and ends itself. -/
structure Observer (S : Signature) (W Θ Call O G : Type) where
  start : W → Θ → Call → G → G
  exec : W → Θ → S.Act → G → G
  resume : W → Θ → (e : S.Wait) → Except S.Error (S.WaitResult e) → G → G
  finish : W → Θ → Call → Except S.Error O → G → G

namespace Runtime

variable {S : Signature} {W Θ Call Choice D O G : Type}

/-- The system `M` with the notes of an observer beside its world. -/
def observed (M : Runtime S W Θ Call Choice D O) (ob : Observer S W Θ Call O G) :
    Runtime S (W × G) Θ Call Choice D O where
  start := fun w t c => (M.start w.1 t c).map fun r => ((r.1, ob.start r.1 t c w.2), r.2)
  exec := fun w t a => (((M.exec w.1 t a).1, ob.exec w.1 t a w.2), (M.exec w.1 t a).2)
  resume := fun w t e x =>
    (M.resume w.1 t e x).map fun r => ((r.1, ob.resume r.1 t e r.2 w.2), r.2)
  finish := fun w t c o => (M.finish w.1 t c o, ob.finish w.1 t c o w.2)
  disturb := fun w d => (M.disturb w.1 d).map fun w' => (w', w.2)
  survives := M.survives

/-- The state without the notes. -/
def forget (s : State S (W × G) Θ Call O) : State S W Θ Call O := ⟨s.world.1, s.tasks⟩

variable [DecidableEq Θ]

theorem forget_advance (M : Runtime S W Θ Call Choice D O) (ob : Observer S W Θ Call O G)
    (s : State S (W × G) Θ Call O) (t : Θ) (c : Call) (w : W × G) (p : Coroutine S O) :
    forget ((M.observed ob).advance s t c w p) = M.advance (forget s) t c w.1 p := by
  induction p generalizing w with
  | ret o => rfl
  | raise e => rfl
  | act a k ih => exact ih _ ((M.observed ob).exec w t a).1
  | wait e k _ => rfl

/-- **An observer changes nothing.** -/
theorem forget_step (M : Runtime S W Θ Call Choice D O) (ob : Observer S W Θ Call O G)
    (s : State S (W × G) Θ Call O) (a : Action Θ Call Choice D) :
    ((M.observed ob).step s a).map forget = M.step (forget s) a := by
  cases a with
  | launch t c =>
      have htasks : (forget s).tasks t = s.tasks t := rfl
      simp only [Runtime.step, htasks]
      cases s.tasks t with
      | some _ => rfl
      | none =>
          show ((((M.start s.world.1 t c).map _).map _).map forget) =
            (M.start s.world.1 t c).map _
          cases M.start s.world.1 t c with
          | none => rfl
          | some r => exact congrArg some (forget_advance M ob s t c _ r.2)
  | resume t x =>
      have htasks : (forget s).tasks t = s.tasks t := rfl
      simp only [Runtime.step, htasks]
      cases s.tasks t with
      | none => rfl
      | some task =>
          obtain ⟨c, p⟩ := task
          cases p with
          | wait e k =>
              show ((((M.resume s.world.1 t e x).map _).map _).map forget) =
                (M.resume s.world.1 t e x).map _
              cases M.resume s.world.1 t e x with
              | none => rfl
              | some r => exact congrArg some (forget_advance M ob s t c _ (k r.2))
          | ret o => rfl
          | raise e => rfl
          | act a k => rfl
  | disturb d =>
      show (((M.disturb s.world.1 d).map _).map _).map forget = (M.disturb s.world.1 d).map _
      cases M.disturb s.world.1 d with
      | none => rfl
      | some w => rfl

/-- A run of the observed system is a run of the system. -/
theorem ReachableUnder.forget {M : Runtime S W Θ Call Choice D O}
    {ob : Observer S W Θ Call O G} {C : Condition S (W × G) Θ Call Choice}
    {Init : W × G → Prop} {Init' : W → Prop} (hI : ∀ w, Init w → Init' w.1)
    {s : State S (W × G) Θ Call O} (h : (M.observed ob).ReachableUnder C Init s) :
    M.Reachable Init' (Runtime.forget s) := by
  induction h with
  | init hw => exact .init (hI _ hw)
  | @step s s' a _ _ hs ih =>
      have hstep := forget_step M ob s a
      rw [hs] at hstep
      exact .step ih (meets_any _ _) hstep.symm


end Runtime

/-- A condition on the steps of a system, for the observed system. -/
def Condition.observing {S : Signature} {W Θ Call Choice : Type} (C : Condition S W Θ Call Choice)
    (G : Type) : Condition S (W × G) Θ Call Choice where
  launch := fun w t c => C.launch w.1 t c
  resume := fun w t c e x => C.resume w.1 t c e x

/-! ## Observing a disciplined system -/

/-- Notes that the growth of the world and every hook of the observer keep true, whatever
the tasks do; the notes about a task are changed by that task only. -/
structure Watch {S : Signature} {W Θ Call Choice D O G : Type}
    {M : Runtime S W Θ Call Choice D O} {C : Condition S W Θ Call Choice}
    (𝒟 : Discipline M C) (ob : Observer S W Θ Call O G) where
  Inv : W → G → Prop
  Rely : Θ → G → G → Prop
  rely_refl : ∀ t g, Rely t g g
  rely_trans : ∀ {t g₁ g₂ g₃}, Rely t g₁ g₂ → Rely t g₂ g₃ → Rely t g₁ g₃
  grow : ∀ {w w' g}, 𝒟.Grow w w' → Inv w g → Inv w' g
  start : ∀ {w g} t c, 𝒟.Inv w → Inv w g → Inv w (ob.start w t c g)
  exec : ∀ {w g} t a, Inv w g → Inv w (ob.exec w t a g)
  resume : ∀ {w g} t e r, Inv w g → Inv w (ob.resume w t e r g)
  start_rely : ∀ {u t} w c g, u ≠ t → Rely u g (ob.start w t c g)
  exec_rely : ∀ {u t} w a g, u ≠ t → Rely u g (ob.exec w t a g)
  resume_rely : ∀ {u t} w e r g, u ≠ t → Rely u g (ob.resume w t e r g)

namespace Watch

variable {S : Signature} {W Θ Call Choice D O G : Type} {M : Runtime S W Θ Call Choice D O}
  {C : Condition S W Θ Call Choice} {𝒟 : Discipline M C} {ob : Observer S W Θ Call O G}
  {C' : Condition S (W × G) Θ Call Choice} {t : Θ} {c : Call} {α : Type}

/-- What the tasks of the observed system keep. -/
def discipline (K : Watch 𝒟 ob) (C' : Condition S (W × G) Θ Call Choice) :
    Discipline (M.observed ob) C' where
  Inv := fun w => 𝒟.Inv w.1 ∧ K.Inv w.1 w.2
  Grow := fun w w' => 𝒟.Grow w.1 w'.1
  Rely := fun t w w' => 𝒟.Rely t w.1 w'.1 ∧ K.Rely t w.2 w'.2
  grow_refl := fun w => 𝒟.grow_refl w.1
  grow_trans := 𝒟.grow_trans
  rely_refl := fun t w => ⟨𝒟.rely_refl t w.1, K.rely_refl t w.2⟩
  rely_trans := fun h h' => ⟨𝒟.rely_trans h.1 h'.1, K.rely_trans h.2 h'.2⟩
  exec_grow := fun w t a => 𝒟.exec_grow w.1 t a
  resume_grow := by
    intro w t e x w' r h
    obtain ⟨r', hr, heq⟩ := Option.map_eq_some_iff.mp h
    obtain ⟨rfl, -⟩ := Prod.mk.inj heq
    exact 𝒟.resume_grow hr
  finish_grow := fun w t c o => 𝒟.finish_grow w.1 t c o

/-- The notes have been kept since the segment began. -/
def Noted (K : Watch 𝒟 ob) (t : Θ) (w₀ w : W × G) : Prop :=
  K.Inv w.1 w.2 ∧ ∀ u, u ≠ t → K.Rely u w₀.2 w.2

theorem kept_iff {K : Watch 𝒟 ob} {w₀ w : W × G} :
    (K.discipline C').Kept t w₀ w ↔ 𝒟.Kept t w₀.1 w.1 ∧ K.Noted t w₀ w := by
  constructor
  · exact fun h => ⟨⟨h.1.1, fun u hu => (h.2 u hu).1⟩, h.1.2, fun u hu => (h.2 u hu).2⟩
  · exact fun h => ⟨⟨h.1.1, h.2.1⟩, fun u hu => ⟨h.1.2 u hu, h.2.2 u hu⟩⟩

theorem Noted.exec {K : Watch 𝒟 ob} {w₀ w : W × G} (h : K.Noted t w₀ w) (a : S.Act) :
    K.Noted t w₀ ((M.observed ob).exec w t a).1 :=
  ⟨K.grow (𝒟.exec_grow w.1 t a) (K.exec t a h.1),
    fun u hu => K.rely_trans (h.2 u hu) (K.exec_rely w.1 a w.2 hu)⟩

theorem Noted.resume {K : Watch 𝒟 ob} {w w' : W × G} {e : S.Wait} {x : Choice}
    {r : Except S.Error (S.WaitResult e)} (h : K.Inv w.1 w.2)
    (hs : (M.observed ob).resume w t e x = some (w', r)) : K.Noted t w w' := by
  obtain ⟨⟨w₁, r'⟩, hr, heq⟩ := Option.map_eq_some_iff.mp hs
  obtain ⟨rfl, rfl⟩ := Prod.mk.inj heq
  exact ⟨K.resume t e _ (K.grow (𝒟.resume_grow hr) h),
    fun u hu => K.resume_rely w₁ e _ w.2 hu⟩

/-- A coroutine that keeps the discipline keeps it under observation. -/
theorem safe (K : Watch 𝒟 ob)
    (hC : ∀ {w t c e x}, C'.resume w t c e x → C.resume w.1 t c e x)
    {Q : W → W → α → Prop} {X : W → W → S.Error → Prop} {p : Coroutine S α} {w₀ w : W × G}
    (h : 𝒟.Safe t c Q X w₀.1 w.1 p) (hn : K.Noted t w₀ w) :
    (K.discipline C').Safe t c (fun w₀ w a => Q w₀.1 w.1 a ∧ K.Noted t w₀ w)
      (fun w₀ w e => X w₀.1 w.1 e ∧ K.Noted t w₀ w) w₀ w p := by
  induction p generalizing w₀ w with
  | ret a => exact ⟨h, hn⟩
  | raise e => exact ⟨h, hn⟩
  | act a k ih => exact ih _ h (hn.exec a)
  | wait e k ih =>
      refine ⟨kept_iff.mpr ⟨h.1, hn⟩, fun w₁ hg hr hi x w₂ r hx hs => ?_⟩
      have hnoted := Noted.resume hi.2 hs
      obtain ⟨⟨w', r'⟩, hr', heq⟩ := Option.map_eq_some_iff.mp hs
      obtain ⟨rfl, rfl⟩ := Prod.mk.inj heq
      exact ih r' (h.2 w₁.1 hg hr.1 hi.1 x w' r' (hC hx) hr') hnoted

/-- The triples of a system hold of the observed system. -/
theorem triple (K : Watch 𝒟 ob)
    (hC : ∀ {w t c e x}, C'.resume w t c e x → C.resume w.1 t c e x)
    {F : W → Prop} {Q : W → α → Prop} {X : W → S.Error → Prop} {p : Coroutine S α}
    (h : 𝒟.Triple t c F p Q X) :
    (K.discipline C').Triple t c (fun w => F w.1) p (fun w a => Q w.1 a)
      (fun w e => X w.1 e) := by
  intro w₀ w hk hf
  obtain ⟨hkept, hnoted⟩ := kept_iff.mp hk
  refine (K.safe hC (h w₀.1 w.1 hkept hf) hnoted).mono ?_ ?_
  · exact fun _ w a hq => ⟨kept_iff.mpr ⟨hq.1.1, hq.2⟩, hq.1.2⟩
  · exact fun _ w e hx => ⟨kept_iff.mpr ⟨hx.1.1, hx.2⟩, hx.1.2⟩

end Watch

end Async
