import Mathlib.Logic.Basic

/-!
# Attributes in a unit of work

A session loads a value, may assign a new one, and at flush time writes an assigned
value only if it differs from the value it loaded. The row may have moved on since the
load, so three values meet in a flush: the loaded one, the assigned one and the stored
one.

A flush can fail before it changes anything: the comparison may raise, and a column
takes only some of the values of its type.
-/

namespace UnitOfWork

/-- How the attributes of one type behave: when a session regards a value as unchanged,
which comparisons raise, what the column keeps of a value written to it, and which values
it takes. -/
structure Attribute (α : Type) where
  same : α → α → Bool
  raises : α → α → Bool
  keep : α → α
  holds : α → Bool

variable {α : Type}

/-- An attribute compared by equality and kept as it is, whatever it is. -/
def plain [DecidableEq α] : Attribute α :=
  ⟨fun a b => decide (a = b), fun _ _ => false, id, fun _ => true⟩

namespace Attribute

variable (A : Attribute α)

/-- The same attribute in a column that takes the values of `p`. -/
def within (p : α → Bool) : Attribute α := { A with holds := p }

/-- The column after a flush of `edit` from a copy that was loaded with `loaded`. -/
def flush (loaded : α) (edit : Option α) (stored : α) : α :=
  match edit with
  | none => stored
  | some v => if A.same v loaded then stored else A.keep v

/-- A flush puts the attribute in its UPDATE. -/
def writes (loaded : α) : Option α → Bool
  | none => false
  | some v => !A.same v loaded

/-- A flush raises when it compares the attribute. -/
def incomparable (loaded : α) (edit : Option α) : Bool := edit.any fun v => A.raises v loaded

/-- A flush puts a value in its UPDATE that the column does not take. -/
def overflows (loaded : α) (edit : Option α) : Bool :=
  A.writes loaded edit && !edit.all A.holds

@[simp] theorem flush_none (loaded stored : α) : A.flush loaded none stored = stored := rfl

/-- A value that the column takes does not overflow. -/
theorem overflows_of_holds {v : α} (h : A.holds v = true) (loaded : α) :
    A.overflows loaded (some v) = false := by
  simp [overflows, h]

@[simp] theorem flush_within (p : α → Bool) : (A.within p).flush = A.flush := rfl

/-- The same assignment once more, from a copy loaded after the first flush, changes
nothing. -/
theorem flush_again (loaded : α) (edit : Option α) :
    A.flush (A.flush loaded edit loaded) edit (A.flush loaded edit loaded) =
      A.flush loaded edit loaded := by
  cases edit with
  | none => rfl
  | some v =>
    by_cases hs : A.same v loaded = true
    · simp only [flush, hs, if_true]
    · simp only [flush, hs, if_false, Bool.false_eq_true]
      split <;> rfl

end Attribute

theorem plain_flush [DecidableEq α] (loaded v stored : α) :
    (plain : Attribute α).flush loaded (some v) stored = if v = loaded then stored else v := by
  simp [Attribute.flush, plain]

@[simp] theorem plain_flush_self [DecidableEq α] (v stored : α) :
    (plain : Attribute α).flush stored (some v) stored = v := by
  rw [plain_flush]
  split
  · rename_i h
    exact h.symm
  · rfl

end UnitOfWork
