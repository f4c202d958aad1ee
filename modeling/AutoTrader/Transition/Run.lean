import Mathlib.Logic.Basic
import Mathlib.Data.List.Basic

/-!
# Transition systems and guarded runs

A system is a partial step function: a label either leads from a state to one
successor or is not enabled there. All nondeterminism sits in the labels.

A run may be *guarded*: every step it takes meets a condition on the state before
the step and on the label. A statement about all runs is a statement about runs
with the trivial guard, and a statement that holds only while some behaviour is
avoided is a statement about the runs whose guard excludes it.

* `Run.invariant` is the induction rule: what holds initially and is kept by every
  guarded step holds wherever a guarded run leads.
* `follow` executes a list of labels; `run_of_follow` turns an evaluation into a run.
* `Run.related` compares the two ends of a run.
-/

namespace Transition

/-- A labelled transition system given by its partial step function. -/
structure System (σ ℓ : Type) where
  step : σ → ℓ → Option σ

variable {σ ℓ : Type}

/-- The guard every step meets. -/
def unguarded : σ → ℓ → Prop := fun _ _ => True

instance (a : σ) (b : ℓ) : Decidable (unguarded a b) := .isTrue trivial

/-- A finite run from `s` whose labels are `ls`, each step of which meets `C`. -/
inductive Run (S : System σ ℓ) (C : σ → ℓ → Prop) (s : σ) : List ℓ → σ → Prop
  | nil : Run S C s [] s
  | snoc {ls : List ℓ} {t u : σ} {l : ℓ} (prior : Run S C s ls t) (guard : C t l)
      (step : S.step t l = some u) : Run S C s (ls ++ [l]) u

namespace Run

variable {S : System σ ℓ} {C D : σ → ℓ → Prop} {s t u : σ} {ls ms : List ℓ} {l : ℓ}

theorem mono (hCD : ∀ a b, C a b → D a b) (h : Run S C s ls t) : Run S D s ls t := by
  induction h with
  | nil => exact .nil
  | snoc _ hg hs ih => exact .snoc ih (hCD _ _ hg) hs

theorem unguard (h : Run S C s ls t) : Run S unguarded s ls t :=
  h.mono fun _ _ _ => trivial

/-- **The invariant rule.** -/
theorem invariant {I : σ → Prop} (h : Run S C s ls t) (h0 : I s)
    (hstep : ∀ a b c, I a → C a b → S.step a b = some c → I c) : I t := by
  induction h with
  | nil => exact h0
  | snoc _ hg hs ih => exact hstep _ _ _ ih hg hs

theorem single (hg : C s l) (hs : S.step s l = some t) : Run S C s [l] t :=
  .snoc .nil hg hs

theorem trans (h : Run S C s ls t) (g : Run S C t ms u) : Run S C s (ls ++ ms) u := by
  induction g with
  | nil => simpa using h
  | snoc _ hg hs ih =>
    rw [← List.append_assoc]
    exact .snoc ih hg hs

/-- A relation that is reflexive, transitive and kept by each step relates the two
ends of a run. -/
theorem related {R : σ → σ → Prop} (hrefl : ∀ a, R a a) (htrans : ∀ a b c, R a b → R b c → R a c)
    (hstep : ∀ a b c, C a b → S.step a b = some c → R a c) (h : Run S C s ls t) : R s t := by
  induction h with
  | nil => exact hrefl _
  | snoc _ hg hs ih => exact htrans _ _ _ ih (hstep _ _ _ hg hs)

end Run

namespace System

/-- Execute a list of labels, stopping where one is not enabled or the guard fails. -/
def follow (S : System σ ℓ) (C : σ → ℓ → Prop) [∀ a b, Decidable (C a b)] :
    σ → List ℓ → Option σ
  | s, [] => some s
  | s, l :: ls => if C s l then (S.step s l).bind fun t => S.follow C t ls else none

theorem run_of_follow {S : System σ ℓ} {C : σ → ℓ → Prop} [∀ a b, Decidable (C a b)]
    {s t : σ} {ls : List ℓ} (h : S.follow C s ls = some t) : Run S C s ls t := by
  induction ls generalizing s with
  | nil =>
    simp only [follow, Option.some.injEq] at h
    subst h
    exact .nil
  | cons l ls ih =>
    simp only [follow] at h
    split at h
    · rename_i hg
      obtain ⟨m, hm, hrest⟩ := Option.bind_eq_some_iff.mp h
      exact (Run.single hg hm).trans (ih hrest)
    · cases h

/-- The run that an evaluation found. -/
theorem run_get {S : System σ ℓ} {C : σ → ℓ → Prop} [∀ a b, Decidable (C a b)] {s : σ}
    {ls : List ℓ} (h : (S.follow C s ls).isSome) : Run S C s ls ((S.follow C s ls).get h) :=
  run_of_follow (Option.some_get h).symm

end System

end Transition
