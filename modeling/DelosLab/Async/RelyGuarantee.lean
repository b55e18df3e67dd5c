import DelosLab.Async.Scheduler

/-!
# A rely–guarantee logic for coroutines

A `Discipline` is what the tasks of a system owe each other: a world invariant
that holds whenever no segment is running, a preorder `Grow` that every change
of the world obeys, and for each task a preorder `Rely` that the changes made by
everybody else obey (what a lock protects for its holder).

`Triple P p Q X` says that a coroutine started in a clean segment whose world
satisfies `P` keeps the discipline at each of its waits, returns only in worlds
that satisfy `Q` and raises only in worlds that satisfy `X`. Functions get one
triple each; a caller's proof uses the triple, never the callee's body.
-/

namespace Async

open Async.Runtime

/-- What the tasks of `M` keep in the runs whose steps meet `C`. -/
structure Discipline {S : Signature} {W Θ Call Choice D O : Type}
    (M : Runtime S W Θ Call Choice D O) (C : Condition S W Θ Call Choice) where
  Inv : W → Prop
  Grow : W → W → Prop
  Rely : Θ → W → W → Prop
  grow_refl : ∀ w, Grow w w
  grow_trans : ∀ {w₁ w₂ w₃}, Grow w₁ w₂ → Grow w₂ w₃ → Grow w₁ w₃
  rely_refl : ∀ t w, Rely t w w
  rely_trans : ∀ {t w₁ w₂ w₃}, Rely t w₁ w₂ → Rely t w₂ w₃ → Rely t w₁ w₃
  exec_grow : ∀ w t a, Grow w (M.exec w t a).1
  resume_grow : ∀ {w t e x w' r}, M.resume w t e x = some (w', r) → Grow w w'
  finish_grow : ∀ w t c o, Grow w (M.finish w t c o)

namespace Discipline

variable {S : Signature} {W Θ Call Choice D O : Type} {M : Runtime S W Θ Call Choice D O}
  {C : Condition S W Θ Call Choice} (𝒟 : Discipline M C) {t : Θ} {c : Call} {α β : Type}

/-- From `w` on, task `t` has changed the world to `w'` and kept the discipline. -/
def Kept (t : Θ) (w w' : W) : Prop := 𝒟.Inv w' ∧ ∀ u, u ≠ t → 𝒟.Rely u w w'

/-- `p` keeps the discipline when it runs from `w` in a segment begun at `w₀`. -/
def Safe (t : Θ) (c : Call) (Q : W → W → α → Prop) (X : W → W → S.Error → Prop) :
    W → W → Coroutine S α → Prop
  | w₀, w, .ret a => Q w₀ w a
  | w₀, w, .raise e => X w₀ w e
  | w₀, w, .act a k => Safe t c Q X w₀ (M.exec w t a).1 (k (M.exec w t a).2)
  | w₀, w, .wait e k => 𝒟.Kept t w₀ w ∧
      ∀ w₁, 𝒟.Grow w w₁ → 𝒟.Rely t w w₁ → 𝒟.Inv w₁ →
        ∀ x w₂ r, C.resume w₁ t c e x → M.resume w₁ t e x = some (w₂, r) →
          Safe t c Q X w₁ w₂ (k r)

/-- The Hoare triple of a coroutine. -/
def Triple (t : Θ) (c : Call) (P : W → Prop) (p : Coroutine S α) (Q : W → α → Prop)
    (X : W → S.Error → Prop) : Prop :=
  ∀ w₀ w, 𝒟.Kept t w₀ w → P w →
    𝒟.Safe t c (fun w₀ w a => 𝒟.Kept t w₀ w ∧ Q w a) (fun w₀ w e => 𝒟.Kept t w₀ w ∧ X w e)
      w₀ w p

/-- `F` survives whatever the others do while `t` waits. -/
def Stable (t : Θ) (F : W → Prop) : Prop :=
  ∀ w w', 𝒟.Grow w w' → 𝒟.Rely t w w' → 𝒟.Inv w' → F w → F w'

/-- `F` survives every step of every task. -/
def Persistent (F : W → Prop) : Prop := ∀ w w', 𝒟.Grow w w' → F w → F w'

/-- `F` survives every step that keeps the rely of `t`. -/
def Lasting (t : Θ) (F : W → Prop) : Prop :=
  ∀ w w', 𝒟.Grow w w' → 𝒟.Rely t w w' → F w → F w'

variable {𝒟}

theorem Persistent.lasting {F : W → Prop} (h : 𝒟.Persistent F) : 𝒟.Lasting t F :=
  fun w w' hg _ hF => h w w' hg hF

theorem Lasting.stable {F : W → Prop} (h : 𝒟.Lasting t F) : 𝒟.Stable t F :=
  fun w w' hg hr _ hF => h w w' hg hr hF

theorem Persistent.and {F G : W → Prop} (hF : 𝒟.Persistent F) (hG : 𝒟.Persistent G) :
    𝒟.Persistent fun w => F w ∧ G w :=
  fun w w' hg h => ⟨hF w w' hg h.1, hG w w' hg h.2⟩

theorem Lasting.and {F G : W → Prop} (hF : 𝒟.Lasting t F) (hG : 𝒟.Lasting t G) :
    𝒟.Lasting t fun w => F w ∧ G w :=
  fun w w' hg hr h => ⟨hF w w' hg hr h.1, hG w w' hg hr h.2⟩

theorem persistent_const (p : Prop) : 𝒟.Persistent fun _ => p := fun _ _ _ h => h

theorem Kept.inv {w w' : W} (h : 𝒟.Kept t w w') : 𝒟.Inv w' := h.1

theorem Kept.refl {w : W} (h : 𝒟.Inv w) : 𝒟.Kept t w w := ⟨h, fun u _ => 𝒟.rely_refl u w⟩

theorem Kept.trans {w₁ w₂ w₃ : W} (h : 𝒟.Kept t w₁ w₂) (h' : 𝒟.Kept t w₂ w₃) :
    𝒟.Kept t w₁ w₃ :=
  ⟨h'.1, fun u hu => 𝒟.rely_trans (h.2 u hu) (h'.2 u hu)⟩

/-! ## Rules for `Safe` -/

section Safe

variable {Q Q' : W → W → α → Prop} {X X' : W → W → S.Error → Prop}

theorem Safe.mono {p : Coroutine S α} {w₀ w : W} (h : 𝒟.Safe t c Q X w₀ w p)
    (hQ : ∀ w₀ w a, Q w₀ w a → Q' w₀ w a) (hX : ∀ w₀ w e, X w₀ w e → X' w₀ w e) :
    𝒟.Safe t c Q' X' w₀ w p := by
  induction p generalizing w₀ w with
  | ret a => exact hQ _ _ _ h
  | raise e => exact hX _ _ _ h
  | act a k ih => exact ih _ h
  | wait e k ih =>
      exact ⟨h.1, fun w₁ hg hr hi x w₂ r hc hs => ih r (h.2 w₁ hg hr hi x w₂ r hc hs)⟩

theorem Safe.bind {R : W → W → β → Prop} {p : Coroutine S α} {f : α → Coroutine S β}
    {w₀ w : W} (h : 𝒟.Safe t c Q X w₀ w p)
    (hf : ∀ w₀ w a, Q w₀ w a → 𝒟.Safe t c R X w₀ w (f a)) :
    𝒟.Safe t c R X w₀ w (p >>= f) := by
  induction p generalizing w₀ w with
  | ret a => exact hf _ _ _ h
  | raise e => exact h
  | act a k ih => exact ih _ h
  | wait e k ih =>
      exact ⟨h.1, fun w₁ hg hr hi x w₂ r hc hs => ih r (h.2 w₁ hg hr hi x w₂ r hc hs)⟩

theorem Safe.handle {p : Coroutine S α} {f : S.Error → Coroutine S α} {w₀ w : W}
    (h : 𝒟.Safe t c Q X' w₀ w p)
    (hf : ∀ w₀ w e, X' w₀ w e → 𝒟.Safe t c Q X w₀ w (f e)) :
    𝒟.Safe t c Q X w₀ w (p.handle f) := by
  induction p generalizing w₀ w with
  | ret a => exact h
  | raise e => exact hf _ _ _ h
  | act a k ih => exact ih _ h
  | wait e k ih =>
      exact ⟨h.1, fun w₁ hg hr hi x w₂ r hc hs => ih r (h.2 w₁ hg hr hi x w₂ r hc hs)⟩

/-- A fact that no step of the task and nothing that the others do undoes. -/
theorem Safe.frame {F : W → Prop} {p : Coroutine S α} {w₀ w : W} (h : 𝒟.Safe t c Q X w₀ w p)
    (hF : 𝒟.Stable t F) (hexec : ∀ w a, F w → F (M.exec w t a).1)
    (hresume : ∀ {w e x w' r}, M.resume w t e x = some (w', r) → F w → F w') (hw : F w) :
    𝒟.Safe t c (fun w₀ w a => Q w₀ w a ∧ F w) (fun w₀ w e => X w₀ w e ∧ F w) w₀ w p := by
  induction p generalizing w₀ w with
  | ret a => exact ⟨h, hw⟩
  | raise e => exact ⟨h, hw⟩
  | act a k ih => exact ih _ h (hexec w a hw)
  | wait e k ih =>
      refine ⟨h.1, fun w₁ hg hr hi x w₂ r hc hs => ?_⟩
      exact ih r (h.2 w₁ hg hr hi x w₂ r hc hs) (hresume hs (hF w w₁ hg hr hi hw))

/-- A fact that every end of a wait restores and no act undoes. -/
theorem Safe.restored {F : W → Prop} {p : Coroutine S α} {w₀ w : W} (h : 𝒟.Safe t c Q X w₀ w p)
    (hexec : ∀ w a, F w → F (M.exec w t a).1)
    (hresume : ∀ {w e x w' r}, M.resume w t e x = some (w', r) → F w') (hw : F w) :
    𝒟.Safe t c (fun w₀ w a => Q w₀ w a ∧ F w) (fun w₀ w e => X w₀ w e ∧ F w) w₀ w p := by
  induction p generalizing w₀ w with
  | ret a => exact ⟨h, hw⟩
  | raise e => exact ⟨h, hw⟩
  | act a k ih => exact ih _ h (hexec w a hw)
  | wait e k ih =>
      refine ⟨h.1, fun w₁ hg hr hi x w₂ r hc hs => ?_⟩
      exact ih r (h.2 w₁ hg hr hi x w₂ r hc hs) (hresume hs)

end Safe

/-! ## Rules for triples -/

section Triple

variable {P P' : W → Prop} {Q Q' : W → α → Prop} {X Y : W → S.Error → Prop}

theorem Triple.mono {p : Coroutine S α} (h : 𝒟.Triple t c P' p Q' Y)
    (hP : ∀ w, 𝒟.Inv w → P w → P' w) (hQ : ∀ w a, 𝒟.Inv w → Q' w a → Q w a)
    (hX : ∀ w e, 𝒟.Inv w → Y w e → X w e) : 𝒟.Triple t c P p Q X := by
  intro w₀ w hk hp
  refine (h w₀ w hk (hP w hk.inv hp)).mono ?_ ?_
  · exact fun _ w a hq => ⟨hq.1, hQ w a hq.1.inv hq.2⟩
  · exact fun _ w e hx => ⟨hx.1, hX w e hx.1.inv hx.2⟩

theorem Triple.pre {p : Coroutine S α} (h : 𝒟.Triple t c P' p Q X)
    (hP : ∀ w, 𝒟.Inv w → P w → P' w) : 𝒟.Triple t c P p Q X :=
  h.mono hP (fun _ _ _ hq => hq) (fun _ _ _ hx => hx)

theorem Triple.post {p : Coroutine S α} (h : 𝒟.Triple t c P p Q' X)
    (hQ : ∀ w a, 𝒟.Inv w → Q' w a → Q w a) : 𝒟.Triple t c P p Q X :=
  h.mono (fun _ _ hp => hp) hQ (fun _ _ _ hx => hx)

theorem Triple.ret {a : α} (h : ∀ w, 𝒟.Inv w → P w → Q w a) :
    𝒟.Triple t c P (.ret a) Q X :=
  fun _ w hk hp => ⟨hk, h w hk.inv hp⟩

theorem Triple.raise {e : S.Error} (h : ∀ w, 𝒟.Inv w → P w → X w e) :
    𝒟.Triple t c P (.raise e : Coroutine S α) Q X :=
  fun _ w hk hp => ⟨hk, h w hk.inv hp⟩

theorem Triple.bind {R : W → β → Prop} {p : Coroutine S α} {f : α → Coroutine S β}
    {X : W → S.Error → Prop} (h : 𝒟.Triple t c P p Q X)
    (hf : ∀ a, 𝒟.Triple t c (fun w => Q w a) (f a) R X) : 𝒟.Triple t c P (p >>= f) R X :=
  fun w₀ w hk hp => (h w₀ w hk hp).bind fun w₀ w a hq => hf a w₀ w hq.1 hq.2

theorem Triple.handle {p : Coroutine S α} {f : S.Error → Coroutine S α}
    (h : 𝒟.Triple t c P p Q Y)
    (hf : ∀ e, 𝒟.Triple t c (fun w => Y w e) (f e) Q X) : 𝒟.Triple t c P (p.handle f) Q X :=
  fun w₀ w hk hp => (h w₀ w hk hp).handle fun w₀ w e hx => hf e w₀ w hx.1 hx.2

theorem Triple.act {a : S.Act} {Q : W → S.ActResult a → Prop}
    (h : ∀ w, 𝒟.Inv w → P w → 𝒟.Kept t w (M.exec w t a).1 ∧ Q (M.exec w t a).1 (M.exec w t a).2) :
    𝒟.Triple t c P (Coroutine.perform a) Q X := by
  intro w₀ w hk hp
  obtain ⟨hk', hq⟩ := h w hk.inv hp
  exact ⟨hk.trans hk', hq⟩

theorem Triple.wait {e : S.Wait} {Q : W → S.WaitResult e → Prop} (hstable : 𝒟.Stable t P)
    (h : ∀ w x w' r, 𝒟.Inv w → P w → C.resume w t c e x → M.resume w t e x = some (w', r) →
      𝒟.Kept t w w' ∧ (∀ a, r = .ok a → Q w' a) ∧ ∀ err, r = .error err → X w' err) :
    𝒟.Triple t c P (Coroutine.await e) Q X := by
  intro w₀ w hk hp
  refine ⟨hk, fun w₁ hg hr hi x w₂ r hc hs => ?_⟩
  obtain ⟨hk', hok, herr⟩ := h w₁ x w₂ r hi (hstable w w₁ hg hr hi hp) hc hs
  cases r with
  | ok a => exact ⟨hk', hok a rfl⟩
  | error err => exact ⟨hk', herr err rfl⟩

theorem Triple.frame_own {F : W → Prop} {p : Coroutine S α} (h : 𝒟.Triple t c P p Q X)
    (hF : 𝒟.Stable t F) (hexec : ∀ w a, F w → F (M.exec w t a).1)
    (hresume : ∀ {w e x w' r}, M.resume w t e x = some (w', r) → F w → F w') :
    𝒟.Triple t c (fun w => P w ∧ F w) p (fun w a => Q w a ∧ F w) (fun w e => X w e ∧ F w) := by
  intro w₀ w hk hp
  refine ((h w₀ w hk hp.1).frame hF hexec hresume hp.2).mono ?_ ?_
  · exact fun _ w' a hq => ⟨hq.1.1, hq.1.2, hq.2⟩
  · exact fun _ w' e hx => ⟨hx.1.1, hx.1.2, hx.2⟩

/-- A fact that grows with the world is kept across any coroutine. -/
theorem Triple.frame {F : W → Prop} {p : Coroutine S α} (h : 𝒟.Triple t c P p Q X)
    (hF : 𝒟.Persistent F) :
    𝒟.Triple t c (fun w => P w ∧ F w) p (fun w a => Q w a ∧ F w) (fun w e => X w e ∧ F w) :=
  h.frame_own hF.lasting.stable (fun w a hw => hF w _ (𝒟.exec_grow w t a) hw)
    fun hs hw => hF _ _ (𝒟.resume_grow hs) hw

theorem Triple.restored {F : W → Prop} {p : Coroutine S α} (h : 𝒟.Triple t c P p Q X)
    (hexec : ∀ w a, F w → F (M.exec w t a).1)
    (hresume : ∀ {w e x w' r}, M.resume w t e x = some (w', r) → F w') :
    𝒟.Triple t c (fun w => P w ∧ F w) p (fun w a => Q w a ∧ F w) (fun w e => X w e ∧ F w) := by
  intro w₀ w hk hp
  refine ((h w₀ w hk hp.1).restored hexec hresume hp.2).mono ?_ ?_
  · exact fun _ w' a hq => ⟨hq.1.1, hq.1.2, hq.2⟩
  · exact fun _ w' e hx => ⟨hx.1.1, hx.1.2, hx.2⟩

theorem Triple.require {p : Prop} [Decidable p] {e : S.Error}
    {Q : W → Unit → Prop} (hQ : ∀ w, 𝒟.Inv w → P w → p → Q w ())
    (hX : ∀ w, 𝒟.Inv w → P w → ¬p → X w e) :
    𝒟.Triple t c P (Coroutine.require p e) Q X := by
  unfold Coroutine.require
  split
  · next hp => exact .ret fun w hi h => hQ w hi h hp
  · next hp => exact .raise fun w hi h => hX w hi h hp

/-- A check that passes is known from there on. -/
theorem Triple.check {p : Prop} [Decidable p] {e : S.Error}
    (hX : ∀ w, 𝒟.Inv w → P w → ¬p → X w e) :
    𝒟.Triple t c P (Coroutine.require p e) (fun w _ => P w ∧ p) X :=
  .require (fun _ _ h hp => ⟨h, hp⟩) hX

theorem Triple.orRaise {value : Option α} {e : S.Error}
    (hQ : ∀ w a, 𝒟.Inv w → P w → value = some a → Q w a)
    (hX : ∀ w, 𝒟.Inv w → P w → value = none → X w e) :
    𝒟.Triple t c P (Coroutine.orRaise value e) Q X := by
  cases value with
  | none => exact .raise fun w hi h => hX w hi h rfl
  | some a => exact .ret fun w hi h => hQ w a hi h rfl

theorem Triple.ofExcept {value : Except S.Error α}
    (hQ : ∀ w a, 𝒟.Inv w → P w → value = .ok a → Q w a)
    (hX : ∀ w e, 𝒟.Inv w → P w → value = .error e → X w e) :
    𝒟.Triple t c P (Coroutine.ofExcept value) Q X := by
  cases value with
  | error e => exact .raise fun w hi h => hX w e hi h rfl
  | ok a => exact .ret fun w hi h => hQ w a hi h rfl

/-- The last part takes over what the body leaves, whether that returns or raises. -/
theorem Triple.tryFinally {X' : W → S.Error → Prop} {body : Coroutine S α}
    {last : Coroutine S Unit} (hbody : 𝒟.Triple t c P body Q X)
    (hok : ∀ a, 𝒟.Triple t c (fun w => Q w a) last (fun w _ => Q' w a) X')
    (herr : ∀ e, 𝒟.Triple t c (fun w => X w e) last (fun w _ => X' w e) X') :
    𝒟.Triple t c P (body.tryFinally last) Q' X' := by
  refine .bind (Q := fun w (r : Except S.Error α) =>
    (∀ a, r = .ok a → Q w a) ∧ ∀ e, r = .error e → X w e) ?_ fun result => ?_
  · refine .handle (.bind hbody fun a => .ret fun _ _ h => ⟨?_, ?_⟩) fun e =>
      .ret fun _ _ h => ⟨?_, ?_⟩
    · rintro _ ⟨⟩
      exact h
    · rintro _ ⟨⟩
    · rintro _ ⟨⟩
    · rintro _ ⟨⟩
      exact h
  · cases result with
    | ok a => exact .bind ((hok a).pre fun _ _ h => h.1 a rfl) fun _ => .ret fun _ _ h => h
    | error e => exact .bind ((herr e).pre fun _ _ h => h.2 e rfl) fun _ => .raise fun _ _ h => h

/-- A fact that is not about the world may be assumed. -/
theorem Triple.given {F : Prop} {p : Coroutine S α} (h : F → 𝒟.Triple t c P p Q X) :
    𝒟.Triple t c (fun w => P w ∧ F) p Q X :=
  fun w₀ w hk hp => h hp.2 w₀ w hk hp.1

/-- A triple may be proved for each world that satisfies its precondition. -/
theorem Triple.of_forall {ι : Sort*} {F : ι → W → Prop} {p : Coroutine S α}
    (h : ∀ i, 𝒟.Triple t c (F i) p Q X) : 𝒟.Triple t c (fun w => ∃ i, F i w) p Q X :=
  fun w₀ w hk ⟨i, hp⟩ => h i w₀ w hk hp

/-- Where every act and every end of a wait keeps the discipline, every coroutine does. -/
theorem Triple.any (hexec : ∀ w a, 𝒟.Inv w → 𝒟.Kept t w (M.exec w t a).1)
    (hresume : ∀ {w e x w' r}, 𝒟.Inv w → C.resume w t c e x → M.resume w t e x = some (w', r) →
      𝒟.Kept t w w') (p : Coroutine S α) :
    𝒟.Triple t c (fun _ => True) p (fun _ _ => True) fun _ _ => True := by
  induction p with
  | ret a => exact .ret fun _ _ h => h
  | raise e => exact .raise fun _ _ h => h
  | act a k ih =>
      exact fun w₀ w hk h => ih _ w₀ _ (hk.trans (hexec w a hk.inv)) h
  | wait e k ih =>
      intro w₀ w hk h
      exact ⟨hk, fun w₁ _ _ hi x w₂ r hc hs => ih r w₁ w₂ (hresume hi hc hs) h⟩

end Triple

/-! ## Soundness -/

section Sound

variable [DecidableEq Θ]

/-- What a suspended task has proved about the rest of its run. -/
def Resumable (𝒟 : Discipline M C) (w : W) (t : Θ) (c : Call) (p : Coroutine S O) : Prop :=
  ∃ e k, p = .wait e k ∧
    ∀ w₁, 𝒟.Grow w w₁ → 𝒟.Rely t w w₁ → 𝒟.Inv w₁ →
      ∀ x w₂ r, C.resume w₁ t c e x → M.resume w₁ t e x = some (w₂, r) →
        𝒟.Safe t c (fun w₀ w o => 𝒟.Kept t w₀ (M.finish w t c (.ok o)))
          (fun w₀ w e => 𝒟.Kept t w₀ (M.finish w t c (.error e))) w₁ w₂ (k r)

omit [DecidableEq Θ] in
/-- The triple of a call's coroutine is what `Sound` asks of it, when the end of
the task keeps the discipline too. -/
theorem Triple.safe_finish {P : W → Prop} {Q : W → O → Prop} {X : W → S.Error → Prop}
    {p : Coroutine S O} {w₀ w : W} (h : 𝒟.Triple t c P p Q X) (hk : 𝒟.Kept t w₀ w) (hp : P w)
    (hok : ∀ w o, 𝒟.Inv w → Q w o → 𝒟.Kept t w (M.finish w t c (.ok o)))
    (herr : ∀ w e, 𝒟.Inv w → X w e → 𝒟.Kept t w (M.finish w t c (.error e))) :
    𝒟.Safe t c (fun w₀ w o => 𝒟.Kept t w₀ (M.finish w t c (.ok o)))
      (fun w₀ w e => 𝒟.Kept t w₀ (M.finish w t c (.error e))) w₀ w p := by
  refine (h w₀ w hk hp).mono ?_ ?_
  · exact fun _ w o hq => hq.1.trans (hok w o hq.1.inv hq.2)
  · exact fun _ w e hx => hx.1.trans (herr w e hx.1.inv hx.2)

/-- The calls that a system starts keep the discipline, and so do its disturbances. -/
structure Sound (𝒟 : Discipline M C) : Prop where
  start : ∀ {w t c w' p}, 𝒟.Inv w → C.launch w t c → M.start w t c = some (w', p) →
    𝒟.Grow w w' ∧
    𝒟.Safe t c (fun w₀ w o => 𝒟.Kept t w₀ (M.finish w t c (.ok o)))
      (fun w₀ w e => 𝒟.Kept t w₀ (M.finish w t c (.error e))) w w' p
  disturb : ∀ {w d w'}, 𝒟.Inv w → M.disturb w d = some w' →
    𝒟.Inv w' ∧ 𝒟.Grow w w' ∧ ∀ u, M.survives d u = true → 𝒟.Rely u w w'

/-- The state invariant: the world's own, and what each suspended task relies on. -/
def StateInv (𝒟 : Discipline M C) (s : State S W Θ Call O) : Prop :=
  𝒟.Inv s.world ∧ ∀ t c p, s.tasks t = some (c, p) → 𝒟.Resumable s.world t c p

omit [DecidableEq Θ] in
theorem Resumable.weaken {w w' : W} {p : Coroutine S O} (h : 𝒟.Resumable w t c p)
    (hg : 𝒟.Grow w w') (hr : 𝒟.Rely t w w') : 𝒟.Resumable w' t c p := by
  obtain ⟨e, k, rfl, hk⟩ := h
  exact ⟨e, k, rfl, fun w₁ hg' hr' => hk w₁ (𝒟.grow_trans hg hg') (𝒟.rely_trans hr hr')⟩

/-- One segment of task `t` keeps the state invariant. -/
theorem advance_inv {s : State S W Θ Call O} {w : W} {p : Coroutine S O}
    (hs : 𝒟.StateInv s) (hg : 𝒟.Grow s.world w)
    (hp : 𝒟.Safe t c (fun w₀ w o => 𝒟.Kept t w₀ (M.finish w t c (.ok o)))
      (fun w₀ w e => 𝒟.Kept t w₀ (M.finish w t c (.error e))) s.world w p) :
    𝒟.StateInv (M.advance s t c w p) ∧ 𝒟.Grow s.world (M.advance s t c w p).world := by
  -- The others keep their facts because the segment kept their rely.
  have others : ∀ {w' : W} {u c' q} {v : Option (Call × Coroutine S O)}, 𝒟.Kept t s.world w' →
      𝒟.Grow s.world w' → (v = none ∨ ∃ q', v = some (c, q') ∧ 𝒟.Resumable w' t c q') →
      Function.update s.tasks t v u = some (c', q) → 𝒟.Resumable w' u c' q := by
    intro w' u c' q v hk hg' hv hu
    by_cases hut : u = t
    · subst hut
      rw [Function.update_self] at hu
      rcases hv with rfl | ⟨q', rfl, hq'⟩
      · cases hu
      · cases hu
        exact hq'
    · rw [Function.update_of_ne hut] at hu
      exact (hs.2 u c' q hu).weaken hg' (hk.2 u hut)
  induction p generalizing w with
  | ret o =>
      have hg' := 𝒟.grow_trans hg (𝒟.finish_grow w t c (.ok o))
      exact ⟨⟨hp.inv, fun u c' q hu => others hp hg' (.inl rfl) hu⟩, hg'⟩
  | raise e =>
      have hg' := 𝒟.grow_trans hg (𝒟.finish_grow w t c (.error e))
      exact ⟨⟨hp.inv, fun u c' q hu => others hp hg' (.inl rfl) hu⟩, hg'⟩
  | act a k ih => exact ih _ (𝒟.grow_trans hg (𝒟.exec_grow w t a)) hp
  | wait e k _ =>
      refine ⟨⟨hp.1.inv, fun u c' q hu => others hp.1 hg (.inr ⟨_, rfl, e, k, rfl, ?_⟩) hu⟩, hg⟩
      exact hp.2

/-- What a segment of task `t` leaves of the world keeps the discipline. -/
theorem settle_kept {s : State S W Θ Call O} {w : W} {p : Coroutine S O}
    (hp : 𝒟.Safe t c (fun w₀ w o => 𝒟.Kept t w₀ (M.finish w t c (.ok o)))
      (fun w₀ w e => 𝒟.Kept t w₀ (M.finish w t c (.error e))) s.world w p) :
    𝒟.Kept t s.world (M.advance s t c w p).world := by
  induction p generalizing w with
  | ret o => exact hp
  | raise e => exact hp
  | act a k ih => exact ih _ hp
  | wait e k _ => exact hp.1

/-- The action is none of task `u`, and `u` survives it. -/
def Spares (M : Runtime S W Θ Call Choice D O) (u : Θ) : Action Θ Call Choice D → Prop
  | .launch t _ => u ≠ t
  | .resume t _ => u ≠ t
  | .disturb d => M.survives d u = true

/-- One step of the scheduler keeps the rely of every task that it spares. -/
theorem Sound.step_rely (hS : 𝒟.Sound) {s s' : State S W Θ Call O} {a : Action Θ Call Choice D}
    (hs : 𝒟.StateInv s) (hC : Meets C s a) (h : M.step s a = some s') {u : Θ}
    (hu : Spares M u a) : 𝒟.Rely u s.world s'.world := by
  cases a with
  | launch t c =>
      simp only [Runtime.step] at h
      split at h
      · cases h
      · obtain ⟨⟨w, p⟩, hst, rfl⟩ := Option.map_eq_some_iff.mp h
        exact (settle_kept (hS.start hs.1 hC hst).2).2 u hu
  | resume t x =>
      simp only [Runtime.step] at h
      split at h
      · next c e k ht =>
          obtain ⟨⟨w, r⟩, hr, rfl⟩ := Option.map_eq_some_iff.mp h
          obtain ⟨e', k', heq, hk⟩ := hs.2 t c _ ht
          cases heq
          have hp := hk s.world (𝒟.grow_refl _) (𝒟.rely_refl _ _) hs.1 x w r (hC c e k ht) hr
          exact (settle_kept hp).2 u hu
      · cases h
  | disturb d =>
      obtain ⟨w, hd, rfl⟩ := Option.map_eq_some_iff.mp h
      exact (hS.disturb hs.1 hd).2.2 u hu

/-- One step of the scheduler keeps the state invariant and grows the world. -/
theorem Sound.step (hS : 𝒟.Sound) {s s' : State S W Θ Call O} {a : Action Θ Call Choice D}
    (hs : 𝒟.StateInv s) (hC : Meets C s a) (h : M.step s a = some s') :
    𝒟.StateInv s' ∧ 𝒟.Grow s.world s'.world := by
  cases a with
  | launch t c =>
      simp only [Runtime.step] at h
      split at h
      · exact absurd h (by simp)
      · obtain ⟨⟨w, p⟩, hst, rfl⟩ := Option.map_eq_some_iff.mp h
        obtain ⟨hg, hp⟩ := hS.start hs.1 hC hst
        exact advance_inv hs hg hp
  | resume t x =>
      simp only [Runtime.step] at h
      split at h
      · next c e k ht =>
          obtain ⟨⟨w, r⟩, hr, rfl⟩ := Option.map_eq_some_iff.mp h
          obtain ⟨e', k', heq, hk⟩ := hs.2 t c _ ht
          cases heq
          have hp := hk s.world (𝒟.grow_refl _) (𝒟.rely_refl _ _) hs.1 x w r (hC c e k ht) hr
          exact advance_inv hs (𝒟.resume_grow hr) hp
      · exact absurd h (by simp)
  | disturb d =>
      obtain ⟨w, hd, rfl⟩ := Option.map_eq_some_iff.mp h
      obtain ⟨hi, hg, hr⟩ := hS.disturb hs.1 hd
      refine ⟨⟨hi, fun u c p hu => ?_⟩, hg⟩
      simp only at hu
      split at hu
      · next hsv => exact (hs.2 u c p hu).weaken hg (hr u hsv)
      · cases hu

omit [DecidableEq Θ] in
theorem stateInv_fresh {w : W} (h : 𝒟.Inv w) : 𝒟.StateInv (fresh S Θ Call O w) :=
  ⟨h, fun _ _ _ hu => by cases hu⟩

omit [DecidableEq Θ] in
/-- What somebody else does to the world, who keeps the discipline too. -/
theorem StateInv.moved {s : State S W Θ Call O} (h : 𝒟.StateInv s) {w : W} (hi : 𝒟.Inv w)
    (hg : 𝒟.Grow s.world w) (hr : ∀ u, 𝒟.Rely u s.world w) : 𝒟.StateInv ⟨w, s.tasks⟩ :=
  ⟨hi, fun u c p hu => (h.2 u c p hu).weaken hg (hr u)⟩

/-- **Soundness.** In every run whose steps meet `C` the state invariant holds. -/
theorem Sound.reachable (hS : 𝒟.Sound) {Init : W → Prop} (hI : ∀ w, Init w → 𝒟.Inv w)
    {s : State S W Θ Call O} (h : M.ReachableUnder C Init s) : 𝒟.StateInv s := by
  induction h with
  | init hw => exact stateInv_fresh (hI _ hw)
  | step _ hC hs ih => exact (hS.step ih hC hs).1

/-- From a state of a run on, the world only moves along `Grow`. -/
theorem Sound.grow_later (hS : 𝒟.Sound) {s s' : State S W Θ Call O} (hs : 𝒟.StateInv s)
    (h : M.Later C s s') : 𝒟.StateInv s' ∧ 𝒟.Grow s.world s'.world := by
  induction h with
  | refl => exact ⟨hs, 𝒟.grow_refl _⟩
  | step _ hC hs' ih =>
      obtain ⟨hi, hg⟩ := hS.step ih.1 hC hs'
      exact ⟨hi, 𝒟.grow_trans ih.2 hg⟩

end Sound

end Discipline

end Async
