import DelosLab.Async.Coroutine

/-!
# Running one coroutine alone

A `Handler` answers what a coroutine asks for from a state of its own, at once. It is the
meaning of a coroutine whose task is the only one to run.
-/

namespace Async

variable {S : Signature} {σ α β : Type}

structure Handler (S : Signature) (σ : Type) where
  act : σ → (a : S.Act) → σ × S.ActResult a
  wait : σ → (e : S.Wait) → σ × Except S.Error (S.WaitResult e)

namespace Handler

open Coroutine

variable (H : Handler S σ)

def run : σ → Coroutine S α → σ × Except S.Error α
  | s, .ret a => (s, .ok a)
  | s, .raise e => (s, .error e)
  | s, .act a k => run (H.act s a).1 (k (H.act s a).2)
  | s, .wait e k => run (H.wait s e).1 (k (H.wait s e).2)

variable {H}

@[simp] theorem run_ret (s : σ) (a : α) : H.run s (.ret a) = (s, .ok a) := rfl

@[simp] theorem run_raise (s : σ) (e : S.Error) :
    H.run s (.raise e : Coroutine S α) = (s, .error e) := rfl

@[simp] theorem run_perform (s : σ) (a : S.Act) :
    H.run s (perform a) = ((H.act s a).1, .ok (H.act s a).2) := rfl

@[simp] theorem run_await (s : σ) (e : S.Wait) : H.run s (await e) = H.wait s e := by
  show H.run (H.wait s e).1 (ofExcept (H.wait s e).2) = H.wait s e
  cases hr : (H.wait s e).2 with
  | ok a => exact Prod.ext rfl hr.symm
  | error x => exact Prod.ext rfl hr.symm

theorem run_bind (s : σ) (p : Coroutine S α) (f : α → Coroutine S β) :
    H.run s (p >>= f) =
      match H.run s p with
      | (s', .ok a) => H.run s' (f a)
      | (s', .error e) => (s', .error e) := by
  induction p generalizing s with
  | ret a => rfl
  | raise e => rfl
  | act a k ih => exact ih _ _
  | wait e k ih => exact ih _ _

theorem run_handle (s : σ) (p : Coroutine S α) (h : S.Error → Coroutine S α) :
    H.run s (p.handle h) =
      match H.run s p with
      | (s', .ok a) => (s', .ok a)
      | (s', .error e) => H.run s' (h e) := by
  induction p generalizing s with
  | ret a => rfl
  | raise e => rfl
  | act a k ih => exact ih _ _
  | wait e k ih => exact ih _ _

/-- What runs to a value goes on from there. -/
theorem run_bind_ok {s s' : σ} {p : Coroutine S α} {a : α} (h : H.run s p = (s', .ok a))
    (f : α → Coroutine S β) : H.run s (p >>= f) = H.run s' (f a) := by
  rw [run_bind, h]

theorem run_bind_error {s s' : σ} {p : Coroutine S α} {e : S.Error}
    (h : H.run s p = (s', .error e)) (f : α → Coroutine S β) :
    H.run s (p >>= f) = (s', .error e) := by
  rw [run_bind, h]

theorem run_handle_ok {s s' : σ} {p : Coroutine S α} {a : α} (h : H.run s p = (s', .ok a))
    (f : S.Error → Coroutine S α) : H.run s (p.handle f) = (s', .ok a) := by
  rw [run_handle, h]

theorem run_handle_error {s s' : σ} {p : Coroutine S α} {e : S.Error}
    (h : H.run s p = (s', .error e)) (f : S.Error → Coroutine S α) :
    H.run s (p.handle f) = H.run s' (f e) := by
  rw [run_handle, h]

/-! ## Triples -/

/-- From every state that satisfies `P` the coroutine returns into `Q` or raises into `X`. -/
def Triple (H : Handler S σ) (P : σ → Prop) (p : Coroutine S α) (Q : σ → α → Prop)
    (X : σ → S.Error → Prop) : Prop :=
  ∀ s, P s →
    match H.run s p with
    | (s', .ok a) => Q s' a
    | (s', .error e) => X s' e

section Triple

variable {P P' : σ → Prop} {Q Q' : σ → α → Prop} {X X' : σ → S.Error → Prop}

theorem Triple.ok {p : Coroutine S α} (h : H.Triple P p Q X) {s s' : σ} {a : α} (hs : P s)
    (hr : H.run s p = (s', .ok a)) : Q s' a := by
  have := h s hs
  rwa [hr] at this

theorem Triple.error {p : Coroutine S α} (h : H.Triple P p Q X) {s s' : σ} {e : S.Error}
    (hs : P s) (hr : H.run s p = (s', .error e)) : X s' e := by
  have := h s hs
  rwa [hr] at this

theorem Triple.ret {a : α} (h : ∀ s, P s → Q s a) : H.Triple P (.ret a) Q X := h

theorem Triple.raise {e : S.Error} (h : ∀ s, P s → X s e) :
    H.Triple P (.raise e : Coroutine S α) Q X := h

theorem Triple.mono {p : Coroutine S α} (h : H.Triple P' p Q' X') (hP : ∀ s, P s → P' s)
    (hQ : ∀ s a, Q' s a → Q s a) (hX : ∀ s e, X' s e → X s e) : H.Triple P p Q X := by
  intro s hs
  have hr := h s (hP s hs)
  split at hr
  · exact hQ _ _ hr
  · exact hX _ _ hr

theorem Triple.perform {a : S.Act} {Q : σ → S.ActResult a → Prop}
    (h : ∀ s, P s → Q (H.act s a).1 (H.act s a).2) :
    H.Triple P (Coroutine.perform a) Q X := h

theorem Triple.await {e : S.Wait} {Q : σ → S.WaitResult e → Prop}
    (hq : ∀ s s' a, P s → H.wait s e = (s', .ok a) → Q s' a)
    (hx : ∀ s s' x, P s → H.wait s e = (s', .error x) → X s' x) :
    H.Triple P (Coroutine.await e) Q X := by
  intro s hs
  rw [run_await]
  split
  · next s' a hr => exact hq s s' a hs hr
  · next s' x hr => exact hx s s' x hs hr

theorem Triple.require {p : Prop} [Decidable p] {e : S.Error} {Q : σ → Unit → Prop}
    (hq : ∀ s, P s → p → Q s ()) (hx : ∀ s, P s → ¬p → X s e) :
    H.Triple P (Coroutine.require p e) Q X := by
  rw [Coroutine.require]
  split
  · next hp => exact .ret fun s hs => hq s hs hp
  · next hp => exact .raise fun s hs => hx s hs hp

/-- A fact that is not about the state may be assumed. -/
theorem Triple.given {F : Prop} {p : Coroutine S α} (h : F → H.Triple P p Q X) :
    H.Triple (fun s => P s ∧ F) p Q X :=
  fun s hs => h hs.2 s hs.1

theorem Triple.bind {R : σ → β → Prop} {p : Coroutine S α} {f : α → Coroutine S β}
    (h : H.Triple P p Q X) (hf : ∀ a, H.Triple (fun s => Q s a) (f a) R X) :
    H.Triple P (p >>= f) R X := by
  intro s hs
  have hr := h s hs
  rw [run_bind]
  split at hr
  · exact hf _ _ hr
  · exact hr

theorem Triple.handle {p : Coroutine S α} {f : S.Error → Coroutine S α}
    (h : H.Triple P p Q X') (hf : ∀ e, H.Triple (fun s => X' s e) (f e) Q X) :
    H.Triple P (p.handle f) Q X := by
  intro s hs
  have hr := h s hs
  rw [run_handle]
  split at hr
  · exact hr
  · exact hf _ _ hr

end Triple

end Handler

end Async
