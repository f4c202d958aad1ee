import Mathlib.Logic.Basic
import Mathlib.Logic.Function.Basic

/-!
# Coroutines

A coroutine runs between suspension points. At a suspension point it has issued one
operation and waits for its result. `Free S α` is the syntax tree of such a program
over a signature `S`: it has finished with a value, or it waits for one operation and
has a continuation for each result. A program that runs is thus always a program, the
one that is left to run.
-/

namespace Coroutine

/-- The operations a coroutine may issue, each with the type of its result. -/
structure Signature where
  Op : Type
  Res : Op → Type

variable {S : Signature} {α β γ : Type}

/-- Programs over a signature: finished with a value, or waiting for an operation. -/
inductive Free (S : Signature) (α : Type) : Type
  | pure (a : α) : Free S α
  | op (o : S.Op) (next : S.Res o → Free S α) : Free S α

namespace Free

/-- Run `f` on the value the program finishes with. -/
def bind : Free S α → (α → Free S β) → Free S β
  | .pure a, f => f a
  | .op o next, f => .op o fun r => (next r).bind f

instance : Monad (Free S) where
  pure := .pure
  bind := .bind

/-- Issue one operation and return its result. -/
def perform (o : S.Op) : Free S (S.Res o) := .op o .pure

@[simp] theorem pure_eq (a : α) : (Pure.pure a : Free S α) = .pure a := rfl

@[simp] theorem bind_eq (x : Free S α) (f : α → Free S β) : x >>= f = x.bind f := rfl

@[simp] theorem bind_pure (a : α) (f : α → Free S β) : (Free.pure a : Free S α).bind f = f a := rfl

@[simp] theorem bind_op (o : S.Op) (next : S.Res o → Free S α) (f : α → Free S β) :
    (Free.op o next).bind f = .op o fun r => (next r).bind f := rfl

@[simp] theorem perform_bind (o : S.Op) (f : S.Res o → Free S β) :
    (perform o).bind f = .op o f := rfl

theorem bind_assoc (x : Free S α) (f : α → Free S β) (g : β → Free S γ) :
    (x.bind f).bind g = x.bind fun a => (f a).bind g := by
  induction x with
  | pure a => rfl
  | op o next ih =>
    simp only [bind_op]
    congr 1
    funext r
    exact ih r

theorem bind_ret (x : Free S α) : x.bind .pure = x := by
  induction x with
  | pure a => rfl
  | op o next ih =>
    simp only [bind_op]
    congr 1
    funext r
    exact ih r

instance : LawfulMonad (Free S) :=
  LawfulMonad.mk' (Free S) bind_ret (fun _ _ => rfl) bind_assoc

/-- Go on with a value; an error ends the code. -/
def proceed {ε : Type} (f : α → Free S (Except ε β)) : Except ε α → Free S (Except ε β)
  | .ok a => f a
  | .error e => .pure (.error e)

/-- Code that may raise, constructor by constructor. -/
theorem run_bind {ε : Type} (x : ExceptT ε (Free S) α) (f : α → ExceptT ε (Free S) β) :
    (x >>= f).run = x.run.bind (proceed fun a => (f a).run) := by
  change Free.bind _ _ = _
  congr 1
  funext r
  cases r <;> rfl

end Free

end Coroutine
