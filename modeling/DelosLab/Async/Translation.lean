import DelosLab.Async.RelyGuarantee

/-!
# Coroutines over other coroutines

A coroutine that was written against a port runs over an adapter that implements the port:
each act and each wait of the port is a coroutine of the adapter. What the adapter's
coroutines keep is kept by everything that runs over them.
-/

namespace Async

open Coroutine

/-- How an adapter with the signature `T` implements a port with the signature `S`. -/
structure Interpretation (S T : Signature) where
  act : (a : S.Act) → Coroutine T (S.ActResult a)
  wait : (e : S.Wait) → Coroutine T (Except S.Error (S.WaitResult e))
  error : S.Error → T.Error

namespace Coroutine

variable {S : Signature} {α β γ : Type}

theorem bind_assoc (p : Coroutine S α) (f : α → Coroutine S β) (g : β → Coroutine S γ) :
    p >>= f >>= g = p >>= fun a => f a >>= g := by
  induction p with
  | ret a => rfl
  | raise e => rfl
  | act a k ih => exact congrArg (Coroutine.act a) (funext ih)
  | wait e k ih => exact congrArg (Coroutine.wait e) (funext ih)

end Coroutine

namespace Coroutine

variable {S : Signature} {α β : Type}

/-- What `p` comes to, as a value. -/
def attempt (p : Coroutine S α) : Coroutine S (Except S.Error α) :=
  handle (p >>= fun a => ret (.ok a)) fun e => ret (.error e)

theorem attempt_bind (p : Coroutine S α) (f : α → Coroutine S β) :
    (p >>= f).attempt = p.attempt >>= fun r =>
      match r with
      | .ok a => (f a).attempt
      | .error e => ret (.error e) := by
  induction p with
  | ret a => rfl
  | raise e => rfl
  | act a k ih => exact congrArg (Coroutine.act a) (funext ih)
  | wait e k ih => exact congrArg (Coroutine.wait e) (funext ih)

theorem attempt_handle (p : Coroutine S α) (f : S.Error → Coroutine S α) :
    (p.handle f).attempt = p.attempt >>= fun r =>
      match r with
      | .ok a => ret (.ok a)
      | .error e => (f e).attempt := by
  induction p with
  | ret a => rfl
  | raise e => rfl
  | act a k ih => exact congrArg (Coroutine.act a) (funext ih)
  | wait e k ih => exact congrArg (Coroutine.wait e) (funext ih)

theorem attempt_ofExcept (p : Coroutine S α) : p.attempt >>= ofExcept = p := by
  induction p with
  | ret a => rfl
  | raise e => rfl
  | act a k ih => exact congrArg (Coroutine.act a) (funext ih)
  | wait e k ih => exact congrArg (Coroutine.wait e) (funext ih)

end Coroutine

namespace Interpretation

variable {S T : Signature} {α β : Type}

/-- A coroutine of the port, over the adapter. -/
def translate (I : Interpretation S T) : Coroutine S α → Coroutine T α
  | .ret a => .ret a
  | .raise e => .raise (I.error e)
  | .act a k => I.act a >>= fun r => I.translate (k r)
  | .wait e k => I.wait e >>= fun r => I.translate (k r)

variable (I : Interpretation S T)

theorem translate_bind (p : Coroutine S α) (f : α → Coroutine S β) :
    I.translate (p >>= f) = I.translate p >>= fun a => I.translate (f a) := by
  induction p with
  | ret a => rfl
  | raise e => rfl
  | act a k ih =>
      show I.act a >>= (fun r => I.translate (k r >>= f)) = I.act a >>= _ >>= _
      rw [bind_assoc]
      exact congrArg (I.act a >>= ·) (funext ih)
  | wait e k ih =>
      show I.wait e >>= (fun r => I.translate (k r >>= f)) = I.wait e >>= _ >>= _
      rw [bind_assoc]
      exact congrArg (I.wait e >>= ·) (funext ih)

end Interpretation

namespace Discipline

variable {S T : Signature} {W Θ Call Choice D O : Type} {M : Runtime T W Θ Call Choice D O}
  {C : Condition T W Θ Call Choice} {𝒟 : Discipline M C} {t : Θ} {c : Call} {α β : Type}
  {I : Interpretation S T} {F : W → Prop} {X : W → T.Error → Prop}

/-- What every act and every wait of the port keeps is kept by all that runs over it. -/
theorem Triple.translate (hact : ∀ a, 𝒟.Triple t c F (I.act a) (fun w _ => F w) X)
    (hwait : ∀ e, 𝒟.Triple t c F (I.wait e) (fun w _ => F w) X)
    (hX : ∀ w e, 𝒟.Inv w → F w → X w (I.error e)) (p : Coroutine S α) :
    𝒟.Triple t c F (I.translate p) (fun w _ => F w) X := by
  induction p with
  | ret a => exact .ret fun _ _ h => h
  | raise e => exact .raise fun w hi h => hX w e hi h
  | act a k ih => exact .bind (hact a) fun r => ih r
  | wait e k ih => exact .bind (hwait e) fun r => ih r

theorem Triple.translate_bind {Q : W → α → Prop} {R : W → β → Prop} {p : Coroutine S α}
    {f : α → Coroutine S β} (h : 𝒟.Triple t c F (I.translate p) Q X)
    (hf : ∀ a, 𝒟.Triple t c (fun w => Q w a) (I.translate (f a)) R X) :
    𝒟.Triple t c F (I.translate (p >>= f)) R X := by
  rw [I.translate_bind]
  exact .bind h hf

theorem Triple.translate_perform {a : S.Act} {Q : W → S.ActResult a → Prop}
    (h : 𝒟.Triple t c F (I.act a) Q X) :
    𝒟.Triple t c F (I.translate (Coroutine.perform a)) Q X :=
  .bind h fun _ => .ret fun _ _ hq => hq

/-- An exception that ends a wait of the port is raised over the adapter. -/
theorem Triple.translate_await {e : S.Wait} {Q : W → S.WaitResult e → Prop}
    {Y : W → S.Error → Prop}
    (h : 𝒟.Triple t c F (I.wait e)
      (fun w r => (∀ a, r = .ok a → Q w a) ∧ ∀ err, r = .error err → Y w err) X)
    (hX : ∀ w err, 𝒟.Inv w → Y w err → X w (I.error err)) :
    𝒟.Triple t c F (I.translate (Coroutine.await e)) Q X := by
  refine .bind h fun r => ?_
  cases r with
  | ok a => exact .ret fun _ _ hq => hq.1 a rfl
  | error err => exact .raise fun w hi hq => hX w err hi (hq.2 err rfl)

/-- A wait whose exception is kept as a value. -/
theorem Triple.suspend {e : T.Wait} {Q : W → Except T.Error (T.WaitResult e) → Prop}
    (hstable : 𝒟.Stable t F)
    (h : ∀ w x w' r, 𝒟.Inv w → F w → C.resume w t c e x → M.resume w t e x = some (w', r) →
      𝒟.Kept t w w' ∧ Q w' r) :
    𝒟.Triple t c F (Coroutine.wait e .ret) Q X := by
  intro w₀ w hk hf
  exact ⟨hk, fun w₁ hg hr hi x w₂ r hc hs => h w₁ x w₂ r hi (hstable w w₁ hg hr hi hf) hc hs⟩

theorem Triple.translate_require {p : Prop} [Decidable p] {e : S.Error} {Q : W → Unit → Prop}
    (hQ : ∀ w, 𝒟.Inv w → F w → p → Q w ()) (hX : ∀ w, 𝒟.Inv w → F w → ¬p → X w (I.error e)) :
    𝒟.Triple t c F (I.translate (Coroutine.require p e)) Q X := by
  unfold Coroutine.require
  split
  · next hp => exact .ret fun w hi h => hQ w hi h hp
  · next hp => exact .raise fun w hi h => hX w hi h hp

theorem Triple.translate_check {p : Prop} [Decidable p] {e : S.Error}
    (hX : ∀ w, 𝒟.Inv w → F w → X w (I.error e)) :
    𝒟.Triple t c F (I.translate (Coroutine.require p e)) (fun w _ => F w) X :=
  .translate_require (fun _ _ h _ => h) fun w hi h _ => hX w hi h

theorem Triple.translate_orRaise {value : Option α} {e : S.Error}
    (hX : ∀ w, 𝒟.Inv w → F w → X w (I.error e)) :
    𝒟.Triple t c F (I.translate (Coroutine.orRaise value e)) (fun w _ => F w) X := by
  cases value with
  | none => exact .raise fun w hi h => hX w hi h
  | some a => exact .ret fun _ _ h => h

/-! ## Exceptions of the port -/

/-- A triple that tells the exceptions of the port from those of the adapter. -/
def Ported (𝒟 : Discipline M C) (I : Interpretation S T) (t : Θ) (c : Call) (P : W → Prop)
    (p : Coroutine S α) (Q : W → α → Prop) (Y : W → S.Error → Prop) (X : W → T.Error → Prop) :
    Prop :=
  𝒟.Triple t c P (I.translate p.attempt)
    (fun w r => (∀ a, r = .ok a → Q w a) ∧ ∀ e, r = .error e → Y w e) X

namespace Ported

variable {P P' : W → Prop} {Q Q' : W → α → Prop} {Y Y' : W → S.Error → Prop}

theorem mono {p : Coroutine S α} (h : 𝒟.Ported I t c P' p Q' Y' X)
    (hP : ∀ w, 𝒟.Inv w → P w → P' w) (hQ : ∀ w a, 𝒟.Inv w → Q' w a → Q w a)
    (hY : ∀ w e, 𝒟.Inv w → Y' w e → Y w e) : 𝒟.Ported I t c P p Q Y X :=
  Triple.mono h hP
    (fun w _ hi h => ⟨fun a ha => hQ w a hi (h.1 a ha), fun e he => hY w e hi (h.2 e he)⟩)
    fun _ _ _ h => h

theorem pre {p : Coroutine S α} (h : 𝒟.Ported I t c P' p Q Y X)
    (hP : ∀ w, 𝒟.Inv w → P w → P' w) : 𝒟.Ported I t c P p Q Y X :=
  h.mono hP (fun _ _ _ h => h) fun _ _ _ h => h

theorem post {p : Coroutine S α} (h : 𝒟.Ported I t c P p Q' Y X)
    (hQ : ∀ w a, 𝒟.Inv w → Q' w a → Q w a) : 𝒟.Ported I t c P p Q Y X :=
  h.mono (fun _ _ h => h) hQ fun _ _ _ h => h

theorem ret {a : α} (h : ∀ w, 𝒟.Inv w → P w → Q w a) : 𝒟.Ported I t c P (.ret a) Q Y X :=
  Triple.ret fun w hi hp => ⟨fun _ ha => Except.ok.inj ha ▸ h w hi hp, nofun⟩

theorem raise {e : S.Error} (h : ∀ w, 𝒟.Inv w → P w → Y w e) :
    𝒟.Ported I t c P (.raise e : Coroutine S α) Q Y X :=
  Triple.ret fun w hi hp => ⟨nofun, fun _ he => Except.error.inj he ▸ h w hi hp⟩

theorem bind {R : W → β → Prop} {p : Coroutine S α} {f : α → Coroutine S β}
    (h : 𝒟.Ported I t c P p Q Y X) (hf : ∀ a, 𝒟.Ported I t c (fun w => Q w a) (f a) R Y X) :
    𝒟.Ported I t c P (p >>= f) R Y X := by
  rw [Ported, attempt_bind, I.translate_bind]
  refine .bind h fun r => ?_
  cases r with
  | ok a => exact Triple.pre (hf a) fun w _ h => h.1 a rfl
  | error e =>
      refine .ret fun w _ h => ⟨nofun, fun e' he => ?_⟩
      cases he
      exact h.2 e rfl

theorem handle {p : Coroutine S α} {f : S.Error → Coroutine S α}
    (h : 𝒟.Ported I t c P p Q Y' X) (hf : ∀ e, 𝒟.Ported I t c (fun w => Y' w e) (f e) Q Y X) :
    𝒟.Ported I t c P (p.handle f) Q Y X := by
  rw [Ported, attempt_handle, I.translate_bind]
  refine .bind h fun r => ?_
  cases r with
  | ok a =>
      refine .ret fun w _ h => ⟨fun a' ha => ?_, nofun⟩
      cases ha
      exact h.1 a rfl
  | error e => exact Triple.pre (hf e) fun w _ h => h.2 e rfl

theorem perform {a : S.Act} {Q : W → S.ActResult a → Prop} (h : 𝒟.Triple t c P (I.act a) Q X) :
    𝒟.Ported I t c P (Coroutine.perform a) Q Y X :=
  Triple.bind h fun _ => .ret fun _ _ hq => ⟨fun _ ha => Except.ok.inj ha ▸ hq, nofun⟩

theorem await {e : S.Wait} {Q : W → S.WaitResult e → Prop}
    (h : 𝒟.Triple t c P (I.wait e)
      (fun w r => (∀ a, r = .ok a → Q w a) ∧ ∀ err, r = .error err → Y w err) X) :
    𝒟.Ported I t c P (Coroutine.await e) Q Y X := by
  refine Triple.bind h fun r => ?_
  cases r with
  | ok a => exact .ret fun _ _ h => h
  | error err => exact .ret fun _ _ h => h

theorem require {p : Prop} [Decidable p] {e : S.Error} {Q : W → Unit → Prop}
    (hQ : ∀ w, 𝒟.Inv w → P w → p → Q w ()) (hY : ∀ w, 𝒟.Inv w → P w → ¬p → Y w e) :
    𝒟.Ported I t c P (Coroutine.require p e) Q Y X := by
  unfold Coroutine.require
  split
  · next hp => exact .ret fun w hi h => hQ w hi h hp
  · next hp => exact .raise fun w hi h => hY w hi h hp

theorem ofExcept {value : Except S.Error α}
    (hQ : ∀ w a, 𝒟.Inv w → P w → value = .ok a → Q w a)
    (hY : ∀ w e, 𝒟.Inv w → P w → value = .error e → Y w e) :
    𝒟.Ported I t c P (Coroutine.ofExcept value) Q Y X := by
  cases value with
  | error e => exact .raise fun w hi h => hY w e hi h rfl
  | ok a => exact .ret fun w hi h => hQ w a hi h rfl

/-- What the port raises is raised over the adapter. -/
theorem triple {p : Coroutine S α} (h : 𝒟.Ported I t c P p Q Y X)
    (hX : ∀ w e, 𝒟.Inv w → Y w e → X w (I.error e)) : 𝒟.Triple t c P (I.translate p) Q X := by
  rw [← attempt_ofExcept p, I.translate_bind]
  refine .bind h fun r => ?_
  cases r with
  | ok a => exact .ret fun w _ h => h.1 a rfl
  | error e => exact .raise fun w hi h => hX w e hi (h.2 e rfl)

end Ported

end Discipline

end Async
