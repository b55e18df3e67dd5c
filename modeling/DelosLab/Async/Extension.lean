import DelosLab.Async.RelyGuarantee

/-!
# Adding to a discipline

A further invariant of the world, and further facts that a task may rely on, are added to a
discipline without a new proof for its coroutines: what every act and every end of a wait
keeps is kept by every triple. So is what the errors of the waits and of the code have in
common.
-/

namespace Async

open Async.Runtime

variable {S : Signature} {W Θ Call Choice D O : Type} {M : Runtime S W Θ Call Choice D O}
  {C : Condition S W Θ Call Choice}

/-- What acts and ends of waits keep in the worlds of a discipline. -/
structure Extension (𝒟 : Discipline M C) where
  Inv : W → Prop
  Rely : Θ → W → W → Prop
  rely_refl : ∀ t w, Rely t w w
  rely_trans : ∀ {t w₁ w₂ w₃}, Rely t w₁ w₂ → Rely t w₂ w₃ → Rely t w₁ w₃
  exec : ∀ {w} t a, Inv w → Inv (M.exec w t a).1 ∧ ∀ u, Rely u w (M.exec w t a).1
  resume : ∀ {w t e x w' r}, Inv w → M.resume w t e x = some (w', r) →
    Inv w' ∧ ∀ u, Rely u w w'

namespace Extension

variable {𝒟 : Discipline M C} {t : Θ} {c : Call} {α : Type}

/-- The discipline with what was added. -/
def discipline (E : Extension 𝒟) : Discipline M C where
  Inv := fun w => 𝒟.Inv w ∧ E.Inv w
  Grow := 𝒟.Grow
  Rely := fun t w w' => 𝒟.Rely t w w' ∧ E.Rely t w w'
  grow_refl := 𝒟.grow_refl
  grow_trans := 𝒟.grow_trans
  rely_refl := fun t w => ⟨𝒟.rely_refl t w, E.rely_refl t w⟩
  rely_trans := fun h h' => ⟨𝒟.rely_trans h.1 h'.1, E.rely_trans h.2 h'.2⟩
  exec_grow := 𝒟.exec_grow
  resume_grow := 𝒟.resume_grow
  finish_grow := 𝒟.finish_grow

variable {E : Extension 𝒟}

/-- What was added has been kept since the segment began. -/
def Added (E : Extension 𝒟) (t : Θ) (w₀ w : W) : Prop := E.Inv w ∧ ∀ u, u ≠ t → E.Rely u w₀ w

theorem kept_iff {w₀ w : W} : E.discipline.Kept t w₀ w ↔ 𝒟.Kept t w₀ w ∧ E.Added t w₀ w := by
  constructor
  · exact fun h => ⟨⟨h.1.1, fun u hu => (h.2 u hu).1⟩, h.1.2, fun u hu => (h.2 u hu).2⟩
  · exact fun h => ⟨⟨h.1.1, h.2.1⟩, fun u hu => ⟨h.1.2 u hu, h.2.2 u hu⟩⟩

/-- A coroutine that keeps the discipline keeps what was added. -/
theorem safe {Q : W → W → α → Prop} {X : W → W → S.Error → Prop} {p : Coroutine S α} {w₀ w : W}
    (h : 𝒟.Safe t c Q X w₀ w p) (ha : E.Added t w₀ w) :
    E.discipline.Safe t c (fun w₀ w a => Q w₀ w a ∧ E.Added t w₀ w)
      (fun w₀ w e => X w₀ w e ∧ E.Added t w₀ w) w₀ w p := by
  induction p generalizing w₀ w with
  | ret a => exact ⟨h, ha⟩
  | raise e => exact ⟨h, ha⟩
  | act a k ih =>
      obtain ⟨hi, hr⟩ := E.exec t a ha.1
      exact ih _ h ⟨hi, fun u hu => E.rely_trans (ha.2 u hu) (hr u)⟩
  | wait e k ih =>
      refine ⟨kept_iff.mpr ⟨h.1, ha⟩, fun w₁ hg hr hi x w₂ r hx hs => ?_⟩
      obtain ⟨hi', hr'⟩ := E.resume hi.2 hs
      exact ih r (h.2 w₁ hg hr.1 hi.1 x w₂ r hx hs) ⟨hi', fun u _ => hr' u⟩

theorem triple (E : Extension 𝒟) {F : W → Prop} {Q : W → α → Prop} {X : W → S.Error → Prop}
    {p : Coroutine S α} (h : 𝒟.Triple t c F p Q X) : E.discipline.Triple t c F p Q X := by
  intro w₀ w hk hf
  obtain ⟨hkept, hadded⟩ := kept_iff.mp hk
  refine (safe (h w₀ w hkept hf) hadded).mono ?_ ?_
  · exact fun _ w a hq => ⟨kept_iff.mpr ⟨hq.1.1, hq.2⟩, hq.1.2⟩
  · exact fun _ w e hx => ⟨kept_iff.mpr ⟨hx.1.1, hx.2⟩, hx.1.2⟩

end Extension

/-! ## The errors of a coroutine -/

namespace Coroutine

variable {α β : Type} {E : S.Error → Prop}

/-- Whatever a coroutine raises satisfies `E`, when what its waits raise does. -/
def Raises (E : S.Error → Prop) : Coroutine S α → Prop
  | ret _ => True
  | raise e => E e
  | act _ k => ∀ r, Raises E (k r)
  | wait _ k => ∀ r, (∀ e, r = .error e → E e) → Raises E (k r)

theorem Raises.bind {p : Coroutine S α} {f : α → Coroutine S β} (h : Raises E p)
    (hf : ∀ a, Raises E (f a)) : Raises E (p >>= f) := by
  induction p with
  | ret a => exact hf a
  | raise e => exact h
  | act a k ih => exact fun r => ih r (h r)
  | wait e k ih => exact fun r hr => ih r (h r hr)

theorem raises_ofExcept {r : Except S.Error α} (h : ∀ e, r = .error e → E e) :
    Raises E (ofExcept r) := by
  cases r with
  | ok a => trivial
  | error e => exact h e rfl

theorem raises_perform (a : S.Act) : Raises E (perform a) := fun _ => trivial

theorem raises_await (e : S.Wait) : Raises E (await e) := fun _ hr => raises_ofExcept hr

theorem raises_require {p : Prop} [Decidable p] {e : S.Error} (h : E e) :
    Raises E (require p e) := by
  rw [require]
  split
  · trivial
  · exact h

end Coroutine

namespace Discipline

variable {𝒟 : Discipline M C} {t : Θ} {c : Call} {α : Type} {E : S.Error → Prop}

theorem Safe.raises {Q : W → W → α → Prop} {X : W → W → S.Error → Prop} {p : Coroutine S α}
    {w₀ w : W} (h : 𝒟.Safe t c Q X w₀ w p)
    (hE : ∀ {w t e x w' err}, M.resume w t e x = some (w', .error err) → E err)
    (hp : p.Raises E) : 𝒟.Safe t c Q (fun w₀ w e => X w₀ w e ∧ E e) w₀ w p := by
  induction p generalizing w₀ w with
  | ret a => exact h
  | raise e => exact ⟨h, hp⟩
  | act a k ih => exact ih _ h (hp _)
  | wait e k ih =>
      refine ⟨h.1, fun w₁ hg hr hi x w₂ r hx hs => ?_⟩
      refine ih r (h.2 w₁ hg hr hi x w₂ r hx hs) (hp r fun err he => ?_)
      subst he
      exact hE hs

theorem Triple.raises {F : W → Prop} {Q : W → α → Prop} {X : W → S.Error → Prop}
    {p : Coroutine S α} (h : 𝒟.Triple t c F p Q X)
    (hE : ∀ {w t e x w' err}, M.resume w t e x = some (w', .error err) → E err)
    (hp : p.Raises E) : 𝒟.Triple t c F p Q fun w e => X w e ∧ E e := by
  intro w₀ w hk hf
  refine ((h w₀ w hk hf).raises hE hp).mono (fun _ _ _ hq => hq) ?_
  exact fun _ _ _ hx => ⟨hx.1.1, hx.1.2, hx.2⟩

end Discipline

end Async
