import DelosLab.Async.Translation

/-!
# The shape of a coroutine

What a coroutine may ask for and raise, whatever it is answered, and what it does when a wait
ends with an exception. Such facts are read off the code; they hold of every task of a run
because they hold of every rest of a coroutine.
-/

namespace Async

open Async.Runtime

namespace Coroutine

variable {S : Signature} {α β : Type}

/-- Asks only for acts in `A` and waits in `B`, and raises only errors in `E` when its waits
do. -/
def Confined (A : S.Act → Prop) (B : S.Wait → Prop) (E : S.Error → Prop) : Coroutine S α → Prop
  | ret _ => True
  | raise e => E e
  | act a k => A a ∧ ∀ r, Confined A B E (k r)
  | wait e k => B e ∧ ∀ r, (∀ err, r = .error err → E err) → Confined A B E (k r)

/-- An exception that ends a wait ends the coroutine at once. -/
def Abandons : Coroutine S α → Prop
  | ret _ => True
  | raise _ => True
  | act _ k => ∀ r, Abandons (k r)
  | wait _ k => (∀ err, k (.error err) = raise err) ∧ ∀ r, Abandons (k r)

section Confined

variable {A : S.Act → Prop} {B : S.Wait → Prop} {E : S.Error → Prop}

theorem Confined.bind {p : Coroutine S α} {f : α → Coroutine S β} (h : p.Confined A B E)
    (hf : ∀ a, (f a).Confined A B E) : (p >>= f).Confined A B E := by
  induction p with
  | ret a => exact hf a
  | raise e => exact h
  | act a k ih => exact ⟨h.1, fun r => ih r (h.2 r)⟩
  | wait e k ih => exact ⟨h.1, fun r hr => ih r (h.2 r hr)⟩

theorem confined_perform {a : S.Act} (h : A a) : (perform a).Confined A B E :=
  ⟨h, fun _ => trivial⟩

theorem confined_await {e : S.Wait} (h : B e) : (await e).Confined A B E := by
  refine ⟨h, fun r hr => ?_⟩
  cases r with
  | ok a => trivial
  | error err => exact hr err rfl

theorem confined_require {p : Prop} [Decidable p] {e : S.Error} (h : E e) :
    (require p e).Confined A B E := by
  rw [require]
  split
  · trivial
  · exact h

end Confined

theorem Abandons.bind {p : Coroutine S α} {f : α → Coroutine S β} (h : p.Abandons)
    (hf : ∀ a, (f a).Abandons) : (p >>= f).Abandons := by
  induction p with
  | ret a => exact hf a
  | raise e => trivial
  | act a k ih => exact fun r => ih r (h r)
  | wait e k ih =>
      refine ⟨fun err => ?_, fun r => ih r (h.2 r)⟩
      show (k (.error err)).bind f = raise err
      rw [h.1 err]
      rfl

theorem abandons_perform (a : S.Act) : (perform a).Abandons := fun _ => trivial

theorem abandons_await (e : S.Wait) : (await e).Abandons := by
  refine ⟨fun _ => rfl, fun r => ?_⟩
  cases r <;> trivial

theorem abandons_require {p : Prop} [Decidable p] {e : S.Error} : (require p e).Abandons := by
  rw [require]
  split <;> trivial

/-- A property of coroutines that every rest of a coroutine inherits. -/
structure Hereditary (P : Coroutine S α → Prop) : Prop where
  act : ∀ {a k}, P (.act a k) → ∀ r, P (k r)
  wait : ∀ {e k}, P (.wait e k) → ∀ r, P (k r)

theorem hereditary_abandons : Hereditary (Abandons (S := S) (α := α)) where
  act := fun h => h
  wait := fun h => h.2

end Coroutine

/-! ## Tasks of a run -/

section Run

variable {S : Signature} {W Θ Call Choice D O : Type} [DecidableEq Θ]
  {M : Runtime S W Θ Call Choice D O} {P : Call → Coroutine S O → Prop}

theorem tasks_advance (hP : ∀ c, Coroutine.Hereditary (P c)) {s : State S W Θ Call O} {t : Θ}
    {c : Call} {w : W} {p : Coroutine S O} (hp : P c p)
    (h : ∀ u c' q, s.tasks u = some (c', q) → P c' q) {u : Θ} {c' : Call} {q : Coroutine S O}
    (hu : (M.advance s t c w p).tasks u = some (c', q)) : P c' q := by
  have ended : Function.update s.tasks t none u = some (c', q) → P c' q := by
    intro hu
    by_cases hut : u = t
    · rw [hut, Function.update_self] at hu
      cases hu
    · rw [Function.update_of_ne hut] at hu
      exact h u c' q hu
  induction p generalizing w with
  | ret o => exact ended hu
  | raise e => exact ended hu
  | act a k ih => exact ih _ ((hP c).act hp _) hu
  | wait e k _ =>
      change Function.update s.tasks t (some (c, .wait e k)) u = some (c', q) at hu
      by_cases hut : u = t
      · rw [hut, Function.update_self] at hu
        cases hu
        exact hp
      · rw [Function.update_of_ne hut] at hu
        exact h u c' q hu

/-- What every rest of a call's coroutine inherits holds of every suspended task. -/
theorem Runtime.ReachableUnder.tasks {C : Condition S W Θ Call Choice} {Init : W → Prop}
    (hP : ∀ c, Coroutine.Hereditary (P c))
    (hstart : ∀ {w t c w' p}, M.start w t c = some (w', p) → P c p)
    {s : State S W Θ Call O} (h : M.ReachableUnder C Init s) {t : Θ} {c : Call}
    {p : Coroutine S O} (ht : s.tasks t = some (c, p)) : P c p := by
  induction h generalizing t c p with
  | init hw => cases ht
  | @step s s' a _ _ hs ih =>
      cases a with
      | launch u d =>
          simp only [Runtime.step] at hs
          split at hs
          · cases hs
          · obtain ⟨⟨w, q⟩, hst, rfl⟩ := Option.map_eq_some_iff.mp hs
            exact tasks_advance hP (hstart hst) (fun _ _ _ hu => ih hu) ht
      | resume u x =>
          simp only [Runtime.step] at hs
          split at hs
          · next d e k hu =>
              obtain ⟨⟨w, r⟩, hr, rfl⟩ := Option.map_eq_some_iff.mp hs
              exact tasks_advance hP ((hP d).wait (ih hu) r) (fun _ _ _ hv => ih hv) ht
          · cases hs
      | disturb d =>
          obtain ⟨w, hd, rfl⟩ := Option.map_eq_some_iff.mp hs
          simp only at ht
          split at ht
          · exact ih ht
          · cases ht

theorem idle_advance {F : W → Θ → Prop}
    (hexec : ∀ w t a u, u ≠ t → F w u → F (M.exec w t a).1 u)
    (hfinish : ∀ w t c o u, (u ≠ t → F w u) → F (M.finish w t c o) u) {s : State S W Θ Call O}
    {t : Θ} {c : Call} {w : W} {p : Coroutine S O} (hw : ∀ u, u ≠ t → s.tasks u = none → F w u)
    {u : Θ} (hu : (M.advance s t c w p).tasks u = none) : F (M.advance s t c w p).world u := by
  induction p generalizing w with
  | ret o =>
      refine hfinish w t c (.ok o) u fun hut => hw u hut ?_
      change Function.update s.tasks t none u = none at hu
      rwa [Function.update_of_ne hut] at hu
  | raise e =>
      refine hfinish w t c (.error e) u fun hut => hw u hut ?_
      change Function.update s.tasks t none u = none at hu
      rwa [Function.update_of_ne hut] at hu
  | act a k ih => exact ih _ (fun v hv hs => hexec w t a v hv (hw v hv hs)) hu
  | wait e k _ =>
      change Function.update s.tasks t (some (c, .wait e k)) u = none at hu
      by_cases hut : u = t
      · rw [hut, Function.update_self] at hu
        cases hu
      · rw [Function.update_of_ne hut] at hu
        exact hw u hut hu

/-- What the steps of others keep, and the end of a task establishes, holds of all that do not
run. -/
theorem Runtime.ReachableUnder.idle {C : Condition S W Θ Call Choice} {Init : W → Prop}
    {F : W → Θ → Prop} (hinit : ∀ w t, Init w → F w t)
    (hstart : ∀ {w t c w' p u}, M.start w t c = some (w', p) → u ≠ t → F w u → F w' u)
    (hexec : ∀ w t a u, u ≠ t → F w u → F (M.exec w t a).1 u)
    (hresume : ∀ {w t e x w' r u}, M.resume w t e x = some (w', r) → u ≠ t → F w u → F w' u)
    (hfinish : ∀ w t c o u, (u ≠ t → F w u) → F (M.finish w t c o) u)
    (hdisturb : ∀ {w d w' u}, M.disturb w d = some w' → (M.survives d u = true → F w u) →
      F w' u)
    {s : State S W Θ Call O} (h : M.ReachableUnder C Init s) {t : Θ} (ht : s.tasks t = none) :
    F s.world t := by
  induction h generalizing t with
  | init hw => exact hinit _ t hw
  | @step s s' a _ _ hs ih =>
      cases a with
      | launch u d =>
          simp only [Runtime.step] at hs
          split at hs
          · cases hs
          · obtain ⟨⟨w, q⟩, hst, rfl⟩ := Option.map_eq_some_iff.mp hs
            exact idle_advance hexec hfinish (fun v hv hn => hstart hst hv (ih hn)) ht
      | resume u x =>
          simp only [Runtime.step] at hs
          split at hs
          · next d e k hu =>
              obtain ⟨⟨w, r⟩, hr, rfl⟩ := Option.map_eq_some_iff.mp hs
              exact idle_advance hexec hfinish (fun v hv hn => hresume hr hv (ih hn)) ht
          · cases hs
      | disturb d =>
          obtain ⟨w, hd, rfl⟩ := Option.map_eq_some_iff.mp hs
          refine hdisturb hd fun hsurvives => ih ?_
          simp only [hsurvives, if_true] at ht
          exact ht

/-- The task that an action starts or resumes. -/
def Action.task? : Action Θ Call Choice D → Option Θ
  | .launch t _ => some t
  | .resume t _ => some t
  | .disturb _ => none

theorem tasks_advance_of_ne {s : State S W Θ Call O} {t u : Θ} (hut : u ≠ t) {c : Call} {w : W}
    (p : Coroutine S O) : (M.advance s t c w p).tasks u = s.tasks u := by
  induction p generalizing w with
  | ret o => exact Function.update_of_ne hut _ _
  | raise e => exact Function.update_of_ne hut _ _
  | act a k ih => exact ih _
  | wait e k _ => exact Function.update_of_ne hut _ _

/-- A task that has not been started does not run. -/
theorem Runtime.tasks_step_none {s s' : State S W Θ Call O} {a : Action Θ Call Choice D} {t : Θ}
    (h : M.step s a = some s') (ha : a.task? ≠ some t) (ht : s.tasks t = none) :
    s'.tasks t = none := by
  cases a with
  | launch u c =>
      simp only [Runtime.step] at h
      split at h
      · cases h
      · obtain ⟨⟨w, p⟩, -, rfl⟩ := Option.map_eq_some_iff.mp h
        exact (tasks_advance_of_ne (fun heq => ha (congrArg some heq.symm)) p).trans ht
  | resume u x =>
      simp only [Runtime.step] at h
      split at h
      · obtain ⟨⟨w, r⟩, -, rfl⟩ := Option.map_eq_some_iff.mp h
        exact (tasks_advance_of_ne (fun heq => ha (congrArg some heq.symm)) _).trans ht
      · cases h
  | disturb d =>
      obtain ⟨w, -, rfl⟩ := Option.map_eq_some_iff.mp h
      simp only
      split
      · exact ht
      · rfl

theorem Runtime.tasks_runWhile_none {ok : State S W Θ Call O → Action Θ Call Choice D → Bool}
    {s s' : State S W Θ Call O} {as : List (Action Θ Call Choice D)} {t : Θ}
    (h : M.runWhile ok s as = some s') (has : ∀ a ∈ as, a.task? ≠ some t)
    (ht : s.tasks t = none) :
    s'.tasks t = none := by
  induction as generalizing s with
  | nil =>
      obtain rfl := Option.some.inj h
      exact ht
  | cons a as ih =>
      rw [Runtime.runWhile] at h
      split at h
      · obtain ⟨s₁, hs, h'⟩ := Option.bind_eq_some_iff.mp h
        exact ih h' (fun b hb => has b (.tail _ hb)) (tasks_step_none hs (has a (.head _)) ht)
      · cases h

end Run

namespace Discipline

variable {S T : Signature} {W Θ Call Choice D O : Type} {M : Runtime T W Θ Call Choice D O}
  {C : Condition T W Θ Call Choice} {𝒟 : Discipline M C} {t : Θ} {c : Call} {α : Type}
  {I : Interpretation S T} {F : W → Prop} {X : W → T.Error → Prop} {A : S.Act → Prop}
  {B : S.Wait → Prop} {E : S.Error → Prop}

/-- What the acts in `A` and the waits in `B` keep is kept by what is confined to them. -/
theorem Triple.translate_confined
    (hact : ∀ a, A a → 𝒟.Triple t c F (I.act a) (fun w _ => F w) X)
    (hwait : ∀ e, B e → 𝒟.Triple t c F (I.wait e)
      (fun w r => F w ∧ ∀ err, r = .error err → E err) X)
    (hX : ∀ w e, 𝒟.Inv w → F w → E e → X w (I.error e)) {p : Coroutine S α}
    (hp : p.Confined A B E) : 𝒟.Triple t c F (I.translate p) (fun w _ => F w) X := by
  induction p with
  | ret a => exact .ret fun _ _ h => h
  | raise e => exact .raise fun w hi h => hX w e hi h hp
  | act a k ih => exact .bind (hact a hp.1) fun r => ih r (hp.2 r)
  | wait e k ih =>
      exact .bind (hwait e hp.1) fun r => .pre (.given fun hr => ih r (hp.2 r hr)) fun _ _ h => h

end Discipline

end Async
