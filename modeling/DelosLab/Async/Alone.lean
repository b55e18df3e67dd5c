import DelosLab.Async.RelyGuarantee

/-!
# A task that runs alone

What can become of a task when no other task is resumed: the disturbances between its steps
are of a given kind, and so are the answers to its waits. A triple says what holds if a
coroutine comes to its end; `Ends` says that there is a way for it to get there.
-/

namespace Async

open Async.Runtime

variable {S : Signature} {W Θ Call Choice D O : Type} {α β : Type}

/-- The disturbances and the answers that a task may see while it runs alone. -/
structure Calm (D Choice : Type) where
  disturb : D → Prop
  answer : Choice → Prop

/-- The actions of a run in which only `t` is launched and resumed. -/
def Calm.Alone {Θ Call Choice D : Type} (E : Calm D Choice) (t : Θ) :
    Action Θ Call Choice D → Prop
  | .launch u _ => u = t
  | .resume u x => u = t ∧ E.answer x
  | .disturb d => E.disturb d

namespace Runtime

variable (M : Runtime S W Θ Call Choice D O) (E : Calm D Choice) (t : Θ)

/-- `w'` comes after `w` by disturbances alone. -/
inductive Shaken (w : W) : W → Prop
  | refl : Shaken w w
  | step {w' w'' : W} {d : D} (h : Shaken w w') (hd : E.disturb d)
      (hw : M.disturb w' d = some w'') : Shaken w w''

/-- A coroutine of `t` that is started in `w` can come to the result `r` in `w'`. -/
inductive CanEnd : W → Coroutine S α → W → Except S.Error α → Prop
  | ret (w : W) (a : α) : CanEnd w (.ret a) w (.ok a)
  | raise (w : W) (e : S.Error) : CanEnd w (.raise e) w (.error e)
  | act {w w' : W} {a : S.Act} {k : S.ActResult a → Coroutine S α} {r : Except S.Error α}
      (h : CanEnd (M.exec w t a).1 (k (M.exec w t a).2) w' r) : CanEnd w (.act a k) w' r
  | wait {w w₁ w₂ w' : W} {e : S.Wait} {k : Except S.Error (S.WaitResult e) → Coroutine S α}
      {x : Choice} {o : Except S.Error (S.WaitResult e)} {r : Except S.Error α}
      (hw : M.Shaken E w w₁) (hx : E.answer x) (ho : M.resume w₁ t e x = some (w₂, o))
      (h : CanEnd w₂ (k o) w' r) : CanEnd w (.wait e k) w' r

/-- From every world that satisfies `P` the coroutine can return into `Q`. -/
def Ends (P : W → Prop) (p : Coroutine S α) (Q : W → α → Prop) : Prop :=
  ∀ w, P w → ∃ w' a, M.CanEnd E t w p w' (.ok a) ∧ Q w' a

variable {M E t}

theorem Shaken.trans {w₁ w₂ w₃ : W} (h : M.Shaken E w₁ w₂) (h' : M.Shaken E w₂ w₃) :
    M.Shaken E w₁ w₃ := by
  induction h' with
  | refl => exact h
  | step _ hd hw ih => exact .step ih hd hw

theorem CanEnd.perform (w : W) (a : S.Act) :
    M.CanEnd E t w (Coroutine.perform a) (M.exec w t a).1 (.ok (M.exec w t a).2) :=
  .act (.ret _ _)

theorem CanEnd.await {w w₁ w₂ : W} {e : S.Wait} {x : Choice} {a : S.WaitResult e}
    (hw : M.Shaken E w w₁) (hx : E.answer x) (hr : M.resume w₁ t e x = some (w₂, .ok a)) :
    M.CanEnd E t w (Coroutine.await e) w₂ (.ok a) :=
  .wait hw hx hr (.ret w₂ a)

theorem CanEnd.require {w : W} {p : Prop} [Decidable p] {e : S.Error} (h : p) :
    M.CanEnd E t w (Coroutine.require p e) w (.ok ()) := by
  rw [Coroutine.require, if_pos h]
  exact .ret w ()

theorem CanEnd.bind {p : Coroutine S α} {f : α → Coroutine S β} {w w₁ w₂ : W} {a : α}
    {r : Except S.Error β} (h : M.CanEnd E t w p w₁ (.ok a)) (hf : M.CanEnd E t w₁ (f a) w₂ r) :
    M.CanEnd E t w (p >>= f) w₂ r := by
  generalize ho : (Except.ok a : Except S.Error α) = o at h
  induction h with
  | ret w a' =>
      cases ho
      exact hf
  | raise w e => cases ho
  | act _ ih => exact .act (ih hf ho)
  | wait hw hx hr _ ih => exact .wait hw hx hr (ih hf ho)

/-- What acts, ends of waits and the disturbances keep is kept to the end. -/
theorem CanEnd.keeps {F : W → Prop} {p : Coroutine S α} {w w' : W} {r : Except S.Error α}
    (h : M.CanEnd E t w p w' r) (hexec : ∀ w a, F w → F (M.exec w t a).1)
    (hresume : ∀ {w e x w' o}, M.resume w t e x = some (w', o) → F w → F w')
    (hdisturb : ∀ {w d w'}, E.disturb d → M.disturb w d = some w' → F w → F w') (hw : F w) :
    F w' := by
  have hshaken : ∀ {w w'}, M.Shaken E w w' → F w → F w' := by
    intro w w' h hw
    induction h with
    | refl => exact hw
    | step _ hd hs ih => exact hdisturb hd hs ih
  induction h with
  | ret w a => exact hw
  | raise w e => exact hw
  | act _ ih => exact ih (hexec _ _ hw)
  | wait hs _ hr _ ih => exact ih (hresume hr (hshaken hs hw))

/-! ## Ends are runs -/

section Run

variable [DecidableEq Θ]

theorem Through.trans {C : Condition S W Θ Call Choice} {A : Action Θ Call Choice D → Prop}
    {s₁ s₂ s₃ : State S W Θ Call O} (h : M.Through C A s₁ s₂) (h' : M.Through C A s₂ s₃) :
    M.Through C A s₁ s₃ := by
  induction h' with
  | refl => exact h
  | step _ hA hC hs ih => exact .step ih hA hC hs

/-- Disturbances that everyone survives change the world and leave the tasks. -/
theorem Shaken.through (hsurvives : ∀ d, E.disturb d → ∀ u, M.survives d u = true) {w w' : W}
    (h : M.Shaken E w w') (tasks : Θ → Option (Call × Coroutine S O)) :
    M.Through Condition.any (E.Alone t) ⟨w, tasks⟩ ⟨w', tasks⟩ := by
  induction h with
  | refl => exact .refl
  | @step w' w'' d _ hd hw ih =>
      refine .step ih (a := .disturb d) hd (meets_any _ _) ?_
      have htasks : (fun u => if M.survives d u then tasks u else none) = tasks := by
        funext u
        rw [if_pos (hsurvives d hd u)]
      rw [Runtime.step, hw, Option.map_some, htasks]

/-- A task that can come to an end does so in some run in which it is alone. -/
theorem CanEnd.through (hsurvives : ∀ d, E.disturb d → ∀ u, M.survives d u = true)
    {p : Coroutine S O} {w w' : W} {r : Except S.Error O} (h : M.CanEnd E t w p w' r)
    (s : State S W Θ Call O) (c : Call) :
    M.Through Condition.any (E.Alone t) (M.advance s t c w p)
      ⟨M.finish w' t c r, Function.update s.tasks t none⟩ := by
  induction h generalizing s with
  | ret w a => exact .refl
  | raise w e => exact .refl
  | act _ ih => exact ih s
  | @wait w w₁ w₂ w' e k x o r hw hx ho _ ih =>
      let tasks := Function.update s.tasks t (some (c, .wait e k))
      have hshaken := hw.through (t := t) hsurvives tasks
      have hstep : M.step ⟨w₁, tasks⟩ (.resume t x) = some (M.advance ⟨w₁, tasks⟩ t c w₂ (k o)) := by
        have ht : tasks t = some (c, .wait e k) := Function.update_self _ _ _
        simp only [Runtime.step, ht, ho, Option.map_some]
      have hresume := Through.step hshaken (a := .resume t x) ⟨rfl, hx⟩ (meets_any _ _) hstep
      have hrest := ih ⟨w₁, tasks⟩
      have hnone : Function.update tasks t none = Function.update s.tasks t none :=
        Function.update_idem _ _ _
      rw [hnone] at hrest
      exact hresume.trans hrest

/-- A call of an idle task that can end ends in some run from there. -/
theorem CanEnd.call (hsurvives : ∀ d, E.disturb d → ∀ u, M.survives d u = true)
    {s : State S W Θ Call O} {c : Call} {p : Coroutine S O} {w w' : W} {r : Except S.Error O}
    (hidle : s.tasks t = none) (hstart : M.start s.world t c = some (w, p))
    (h : M.CanEnd E t w p w' r) :
    M.Through Condition.any (E.Alone t) s ⟨M.finish w' t c r, s.tasks⟩ := by
  have hlaunch : M.step s (.launch t c) = some (M.advance s t c w p) := by
    simp only [Runtime.step, hidle, hstart, Option.map_some]
  have hrun := h.through hsurvives s c
  have htasks : Function.update s.tasks t none = s.tasks := by
    rw [← hidle, Function.update_eq_self]
  rw [htasks] at hrun
  have hfirst : M.Through Condition.any (E.Alone t) s (M.advance s t c w p) :=
    .step .refl (a := .launch t c) rfl (meets_any _ _) hlaunch
  exact hfirst.trans hrun

end Run

end Runtime

/-! ## Ends and triples -/

namespace Discipline

variable {M : Runtime S W Θ Call Choice D O} {E : Calm D Choice}
  {𝒟 : Discipline M Condition.any} {t : Θ} {c : Call}

/-- The disturbances of `E` keep the discipline. -/
def Withstands (𝒟 : Discipline M Condition.any) (E : Calm D Choice) (t : Θ) : Prop :=
  ∀ {w d w'}, E.disturb d → 𝒟.Inv w → M.disturb w d = some w' →
    𝒟.Inv w' ∧ 𝒟.Grow w w' ∧ 𝒟.Rely t w w'

theorem Withstands.shaken (h : 𝒟.Withstands E t) {w w' : W} (hs : M.Shaken E w w')
    (hi : 𝒟.Inv w) : 𝒟.Inv w' ∧ 𝒟.Grow w w' ∧ 𝒟.Rely t w w' := by
  induction hs with
  | refl => exact ⟨hi, 𝒟.grow_refl w, 𝒟.rely_refl t w⟩
  | step _ hd hw ih =>
      obtain ⟨hi', hg, hr⟩ := ih
      obtain ⟨hi'', hg', hr'⟩ := h hd hi' hw
      exact ⟨hi'', 𝒟.grow_trans hg hg', 𝒟.rely_trans hr hr'⟩

/-- What a coroutine keeps, it keeps on the way to each of its ends. -/
theorem Safe.canEnd (h : 𝒟.Withstands E t) {Q : W → W → α → Prop} {X : W → W → S.Error → Prop}
    {p : Coroutine S α} {w₀ w w' : W} {r : Except S.Error α} (hp : 𝒟.Safe t c Q X w₀ w p)
    (hend : M.CanEnd E t w p w' r) :
    ∃ w₁, (∀ a, r = .ok a → Q w₁ w' a) ∧ ∀ e, r = .error e → X w₁ w' e := by
  induction hend generalizing w₀ with
  | ret w a =>
      refine ⟨w₀, ?_, ?_⟩
      · rintro _ ⟨⟩
        exact hp
      · rintro _ ⟨⟩
  | raise w e =>
      refine ⟨w₀, ?_, ?_⟩
      · rintro _ ⟨⟩
      · rintro _ ⟨⟩
        exact hp
  | act _ ih => exact ih hp
  | wait hs _ ho _ ih =>
      obtain ⟨hi, hg, hr⟩ := h.shaken hs hp.1.inv
      exact ih (hp.2 _ hg hr hi _ _ _ trivial ho)

/-- A coroutine that can return returns into what its triple says. -/
theorem Triple.ends (h : 𝒟.Withstands E t) {P P' : W → Prop} {Q Q' : W → α → Prop}
    {X : W → S.Error → Prop} {p : Coroutine S α} (htriple : 𝒟.Triple t c P p Q X)
    (hends : M.Ends E t P' p Q') :
    M.Ends E t (fun w => 𝒟.Inv w ∧ P w ∧ P' w) p fun w a => 𝒟.Inv w ∧ Q w a ∧ Q' w a := by
  rintro w ⟨hi, hp, hp'⟩
  obtain ⟨w', a, hend, hq'⟩ := hends w hp'
  obtain ⟨w₁, hok, -⟩ := (htriple w w (.refl hi) hp).canEnd h hend
  obtain ⟨hk, hq⟩ := hok a rfl
  exact ⟨w', a, hend, hk.inv, hq, hq'⟩

end Discipline

end Async
