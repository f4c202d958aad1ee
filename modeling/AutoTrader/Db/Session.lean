import AutoTrader.Core.Exceptions
import AutoTrader.UnitOfWork.Attribute

/-!
# The unit of work

A `Trade` object belongs to the session that loaded it. `Instance` is such an object:
the row as it was loaded or last flushed, the assignments made since, and what reading its
attributes does. Nothing refreshes the copy on commit, because the sessions are built with
`expire_on_commit=False`.

`commit()` issues `UPDATE trades SET ... WHERE id = ?` with the assigned attributes
that differ from the loaded ones, and with `updated_at` when there are any (`flush`), and
then COMMIT. A flush that fails rolls back and expires every attribute; until `rollback()`
is called, reading one raises `PendingRollbackError`. After `rollback()` the attributes are
expired too, and reading one outside an awaited call raises `MissingGreenlet`. A COMMIT
that fails after its flush leaves the object as the flush did.
-/

namespace AutoTrader

open Python UnitOfWork

/-- The attributes handlers assign, each with its pending value. -/
structure Edits where
  status : Option TradeStatus := none
  binanceOrderId : Option (Option Int) := none
  binanceStatus : Option (Option String) := none
  executedQuantity : Option (Option Decimal) := none
  cumulativeQuoteQuantity : Option (Option Decimal) := none
  errorCode : Option (Option String) := none
  errorMessage : Option (Option String) := none
  reconciledAt : Option (Option DateTime) := none
  deriving DecidableEq

/-- `NUMERIC(28, 12)`: compared by value, kept with twelve decimals. `==` raises on a
signaling NaN, which no column ever gives back. -/
def numeric : Attribute (Option Decimal) where
  same
    | some a, some b => a == b
    | none, none => true
    | _, _ => false
  raises
    | some a, some _ => a.isSignaling
    | _, _ => false
  keep := Option.map Decimal.store
  holds d := d.all Decimal.isStorable

/-- `BIGINT`. -/
abbrev bigint : Attribute (Option Int) :=
  plain.within fun n => n.all fun n => -2 ^ 63 ≤ n && n < 2 ^ 63

/-- `TEXT`: no NUL character. -/
abbrev text : Attribute (Option String) :=
  plain.within fun s => s.all fun s => !s.toList.contains '\x00'

/-- `VARCHAR(n)`: a text of at most `n` characters, blanks at its end not counted. (Those
beyond the `n`-th are cut off in the database, which is not modelled.) -/
abbrev varchar (n : Nat) : Attribute (Option String) :=
  plain.within fun s => s.all fun s =>
    !s.toList.contains '\x00' && (s.toList.drop n).all (· == ' ')

/-- How `commit()` fails. -/
inductive CommitError
  /-- In the flush, where an assigned value is compared with the loaded one. -/
  | comparison
  /-- In the flush, where the database refuses the UPDATE or cannot be reached. -/
  | statement (e : SqlError)
  /-- In the COMMIT that follows the flush, made at time `now`. -/
  | commit (e : SqlError) (now : DateTime)
  deriving DecidableEq

/-- The exception that leaves `commit()`. -/
def CommitError.exc : CommitError → Exc
  | comparison => .invalidOperation
  | statement e => .sqlalchemy e
  | commit e _ => .sqlalchemy e

/-- The flush failed, before COMMIT was issued. -/
def CommitError.inFlush : CommitError → Bool
  | commit _ _ => false
  | _ => true

namespace Edits

/-- The object's attributes with the pending assignments. -/
def view (e : Edits) (t : Trade) : Trade :=
  { t with
    status := e.status.getD t.status
    binanceOrderId := e.binanceOrderId.getD t.binanceOrderId
    binanceStatus := e.binanceStatus.getD t.binanceStatus
    executedQuantity := e.executedQuantity.getD t.executedQuantity
    cumulativeQuoteQuantity := e.cumulativeQuoteQuantity.getD t.cumulativeQuoteQuantity
    errorCode := e.errorCode.getD t.errorCode
    errorMessage := e.errorMessage.getD t.errorMessage
    reconciledAt := e.reconciledAt.getD t.reconciledAt }

/-- Some assigned attribute differs from the loaded one. -/
def dirty (e : Edits) (loaded : Trade) : Bool :=
  plain.writes loaded.status e.status ||
    bigint.writes loaded.binanceOrderId e.binanceOrderId ||
    (varchar 32).writes loaded.binanceStatus e.binanceStatus ||
    numeric.writes loaded.executedQuantity e.executedQuantity ||
    numeric.writes loaded.cumulativeQuoteQuantity e.cumulativeQuoteQuantity ||
    (varchar 64).writes loaded.errorCode e.errorCode ||
    text.writes loaded.errorMessage e.errorMessage ||
    plain.writes loaded.reconciledAt e.reconciledAt

/-- The flush compares a signaling NaN with a number. -/
def incomparable (e : Edits) (loaded : Trade) : Bool :=
  numeric.incomparable loaded.executedQuantity e.executedQuantity ||
    numeric.incomparable loaded.cumulativeQuoteQuantity e.cumulativeQuoteQuantity

/-- The UPDATE has a value that its column does not take. -/
def overflows (e : Edits) (loaded : Trade) : Bool :=
  bigint.overflows loaded.binanceOrderId e.binanceOrderId ||
    (varchar 32).overflows loaded.binanceStatus e.binanceStatus ||
    numeric.overflows loaded.executedQuantity e.executedQuantity ||
    numeric.overflows loaded.cumulativeQuoteQuantity e.cumulativeQuoteQuantity ||
    (varchar 64).overflows loaded.errorCode e.errorCode ||
    text.overflows loaded.errorMessage e.errorMessage

/-- The error that a flush of these edits comes to whatever the database does. -/
def flushError? (e : Edits) (loaded : Trade) : Option CommitError :=
  if e.incomparable loaded then some .comparison
  else if e.overflows loaded then some (.statement .other)
  else none

theorem flushError_eq_none {e : Edits} {loaded : Trade} :
    e.flushError? loaded = none ↔ e.incomparable loaded = false ∧ e.overflows loaded = false := by
  unfold flushError?
  cases e.incomparable loaded <;> cases e.overflows loaded <;> simp

/-- The row after the UPDATE that a commit of these edits issues from a copy that was
loaded as `loaded`. -/
def flush (e : Edits) (loaded : Trade) (now : DateTime) (row : Trade) : Trade :=
  { row with
    status := plain.flush loaded.status e.status row.status
    binanceOrderId := bigint.flush loaded.binanceOrderId e.binanceOrderId row.binanceOrderId
    binanceStatus := (varchar 32).flush loaded.binanceStatus e.binanceStatus row.binanceStatus
    executedQuantity := numeric.flush loaded.executedQuantity e.executedQuantity row.executedQuantity
    cumulativeQuoteQuantity :=
      numeric.flush loaded.cumulativeQuoteQuantity e.cumulativeQuoteQuantity
        row.cumulativeQuoteQuantity
    errorCode := (varchar 64).flush loaded.errorCode e.errorCode row.errorCode
    errorMessage := text.flush loaded.errorMessage e.errorMessage row.errorMessage
    reconciledAt := plain.flush loaded.reconciledAt e.reconciledAt row.reconciledAt
    updatedAt := if e.dirty loaded then now else row.updatedAt }

@[simp] theorem terms_flush (e : Edits) (loaded : Trade) (now : DateTime) (row : Trade) :
    (e.flush loaded now row).terms = row.terms := rfl

@[simp] theorem submittedAt_flush (e : Edits) (loaded : Trade) (now : DateTime) (row : Trade) :
    (e.flush loaded now row).submittedAt = row.submittedAt := rfl

@[simp] theorem terms_view (e : Edits) (t : Trade) : (e.view t).terms = t.terms := rfl

@[simp] theorem submittedAt_view (e : Edits) (t : Trade) :
    (e.view t).submittedAt = t.submittedAt := rfl

/-- The flush as an UPDATE of the table: it writes no key column. -/
def update (e : Edits) (loaded : Trade) (now : DateTime) : TradeTable.Update where
  write := e.flush loaded now
  id _ := rfl
  signalId _ := rfl
  clientOrderId _ := rfl

end Edits

/-- What reading an attribute of an object does. -/
inductive Access
  | loaded
  /-- The flush has failed and nobody has called `rollback()`. -/
  | pendingRollback
  /-- `rollback()` was called. -/
  | expired
  deriving DecidableEq

/-- The exception that a read raises. -/
def Access.error? : Access → Option Exc
  | loaded => none
  | pendingRollback => some (.sqlalchemy .pendingRollback)
  | expired => some .missingGreenlet

theorem Access.isRefusal_error {a : Access} {e : Exc} (h : a.error? = some e) :
    e.isRefusal = false := by
  cases a <;> cases h <;> rfl

/-- A `Trade` object in the session of one task. -/
structure Instance where
  loaded : Trade
  edits : Edits
  access : Access

namespace Instance

/-- An object as a query returns it. -/
def fresh (t : Trade) : Instance := ⟨t, {}, .loaded⟩

/-- The attribute values of an object that can be read. -/
def current (i : Instance) : Trade := i.edits.view i.loaded

/-- Assign attributes. -/
def assign (i : Instance) (e : Edits) : Instance :=
  { i with
    edits :=
      { status := e.status <|> i.edits.status
        binanceOrderId := e.binanceOrderId <|> i.edits.binanceOrderId
        binanceStatus := e.binanceStatus <|> i.edits.binanceStatus
        executedQuantity := e.executedQuantity <|> i.edits.executedQuantity
        cumulativeQuoteQuantity := e.cumulativeQuoteQuantity <|> i.edits.cumulativeQuoteQuantity
        errorCode := e.errorCode <|> i.edits.errorCode
        errorMessage := e.errorMessage <|> i.edits.errorMessage
        reconciledAt := e.reconciledAt <|> i.edits.reconciledAt } }

/-- The object after its flush at time `now`: its own values, now regarded as loaded. -/
def flushed (i : Instance) (now : DateTime) : Instance :=
  fresh { i.current with updatedAt := if i.edits.dirty i.loaded then now else i.loaded.updatedAt }

/-- The object after `rollback()`. -/
def rolledBack (i : Instance) : Instance := { i with edits := {}, access := .expired }

/-- The object after a commit that failed. -/
def failed (i : Instance) : CommitError → Instance
  | .commit _ now => i.flushed now
  | _ => { i with edits := {}, access := .pendingRollback }

@[simp] theorem fresh_current (t : Trade) : (fresh t).current = t := rfl

theorem fresh_assign (t : Trade) (e : Edits) : (fresh t).assign e = ⟨t, e, .loaded⟩ := by
  simp [fresh, assign]

end Instance

end AutoTrader
