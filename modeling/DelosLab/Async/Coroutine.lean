import Mathlib.Logic.Function.Basic

/-!
# Coroutines

An `async` function is a tree: it computes, performs *acts* that the scheduler
answers at once, and suspends at *waits* that the scheduler answers later, when
other tasks may have run. Code between two waits is one atomic segment, which is
how a single-threaded event loop runs it. Exceptions are part of the tree, so
`try`/`except` is a function on coroutines.

Every coroutine is finite. A loop of the source without a bound of its own takes
the number of its turns as an argument and suspends for ever when they run out;
any finite run of the source is a run with enough turns.
-/

namespace Async

/-- What a family of coroutines may ask for, and the errors it may raise. A wait
is answered with a value or with an exception. -/
structure Signature where
  Act : Type
  ActResult : Act → Type
  Wait : Type
  WaitResult : Wait → Type
  Error : Type

inductive Coroutine (S : Signature) (α : Type) : Type where
  | ret (a : α)
  | raise (e : S.Error)
  | act (a : S.Act) (k : S.ActResult a → Coroutine S α)
  | wait (e : S.Wait) (k : Except S.Error (S.WaitResult e) → Coroutine S α)

namespace Coroutine

variable {S : Signature} {α β : Type}

def bind : Coroutine S α → (α → Coroutine S β) → Coroutine S β
  | ret a, f => f a
  | raise e, _ => raise e
  | act a k, f => act a fun r => bind (k r) f
  | wait e k, f => wait e fun r => bind (k r) f

/-- `try p except error: h error`. -/
def handle : Coroutine S α → (S.Error → Coroutine S α) → Coroutine S α
  | ret a, _ => ret a
  | raise e, h => h e
  | act a k, h => act a fun r => handle (k r) h
  | wait e k, h => wait e fun r => handle (k r) h

instance : Monad (Coroutine S) where
  pure := ret
  bind := bind

@[simp] theorem pure_eq (a : α) : (pure a : Coroutine S α) = ret a := rfl

@[simp] theorem ret_bind (a : α) (f : α → Coroutine S β) : ret a >>= f = f a := rfl

@[simp] theorem raise_bind (e : S.Error) (f : α → Coroutine S β) :
    raise e >>= f = raise e := rfl

@[simp] theorem act_bind (a : S.Act) (k : S.ActResult a → Coroutine S α)
    (f : α → Coroutine S β) : act a k >>= f = act a fun r => k r >>= f := rfl

@[simp] theorem wait_bind (e : S.Wait) (k : Except S.Error (S.WaitResult e) → Coroutine S α)
    (f : α → Coroutine S β) : wait e k >>= f = wait e fun r => k r >>= f := rfl

/-- A call that came back with a value or with an exception. -/
def ofExcept : Except S.Error α → Coroutine S α
  | .ok a => ret a
  | .error e => raise e

/-- Perform one act. -/
def perform (a : S.Act) : Coroutine S (S.ActResult a) := act a ret

/-- Suspend at one wait; the exception it may end with is raised here. -/
def await (e : S.Wait) : Coroutine S (S.WaitResult e) := wait e ofExcept

/-- A check that raises when it fails. -/
def require (p : Prop) [Decidable p] (e : S.Error) : Coroutine S Unit :=
  if p then ret () else raise e

/-- `value`, or raise when it is `None`. -/
def orRaise (value : Option α) (e : S.Error) : Coroutine S α :=
  match value with
  | some a => ret a
  | none => raise e

/-- `try: body finally: last`. -/
def tryFinally (body : Coroutine S α) (last : Coroutine S Unit) : Coroutine S α := do
  let result ← handle (do let a ← body; ret (.ok a)) fun e => ret (Except.error e)
  last
  ofExcept result

/-! ## Running against given answers -/

/-- An answer to everything that a coroutine may ask for. -/
structure Oracle (S : Signature) where
  act : (a : S.Act) → S.ActResult a
  wait : (e : S.Wait) → Except S.Error (S.WaitResult e)

/-- What a coroutine comes to when every question gets the oracle's answer. -/
def run (o : Oracle S) : Coroutine S α → Except S.Error α
  | ret a => .ok a
  | raise e => .error e
  | act a k => run o (k (o.act a))
  | wait e k => run o (k (o.wait e))

variable {o : Oracle S}

@[simp] theorem run_ret (a : α) : run o (ret a : Coroutine S α) = .ok a := rfl

@[simp] theorem run_raise (e : S.Error) : run o (raise e : Coroutine S α) = .error e := rfl

theorem run_bind (p : Coroutine S α) (f : α → Coroutine S β) :
    run o (p >>= f) = (run o p).bind fun a => run o (f a) := by
  induction p with
  | ret a => rfl
  | raise e => rfl
  | act a k ih => exact ih _
  | wait e k ih => exact ih _

theorem run_handle (p : Coroutine S α) (h : S.Error → Coroutine S α) :
    run o (p.handle h) =
      match run o p with
      | .ok a => .ok a
      | .error e => run o (h e) := by
  induction p with
  | ret a => rfl
  | raise e => rfl
  | act a k ih => exact ih _
  | wait e k ih => exact ih _

@[simp] theorem run_perform (a : S.Act) : run o (perform a) = .ok (o.act a) := rfl

@[simp] theorem run_await (e : S.Wait) : run o (await e) = o.wait e := by
  show run o (ofExcept (o.wait e)) = o.wait e
  cases o.wait e with
  | ok a => rfl
  | error e => rfl

/-- What runs to a value runs each of its parts to one. -/
theorem run_bind_ok {p : Coroutine S α} {f : α → Coroutine S β} {b : β}
    (h : run o (p >>= f) = .ok b) : ∃ a, run o p = .ok a ∧ run o (f a) = .ok b := by
  rw [run_bind] at h
  cases hp : run o p with
  | ok a =>
      rw [hp] at h
      exact ⟨a, rfl, h⟩
  | error e =>
      rw [hp] at h
      cases h

/-- What runs to a value goes on with it. -/
theorem run_bind_of_ok {p : Coroutine S α} {a : α} (h : run o p = .ok a)
    (f : α → Coroutine S β) : run o (p >>= f) = run o (f a) := by
  rw [run_bind, h]
  rfl

theorem run_require_of {p : Prop} [Decidable p] {e : S.Error} (h : p) :
    run o (require p e) = .ok () := by
  rw [require, if_pos h]
  rfl

theorem run_require_ok {p : Prop} [Decidable p] {e : S.Error} {u : Unit}
    (h : run o (require p e) = .ok u) : p := by
  unfold require at h
  split at h
  · assumption
  · cases h

end Coroutine

end Async
