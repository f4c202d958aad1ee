import AutoTrader.Coroutine.Free
import AutoTrader.Db.Session
import AutoTrader.Services.Http

/-!
# What a coroutine of the service does to the world

Every interaction of the service with something it shares, as one operation: database
statements and commits, the two halves of an HTTP call, the in-memory queue, the owner
cache of the process, the clock, and the log lines that results below speak about.

A call to the exchange is two operations, because others run between the moment a
request leaves and the moment its outcome is known. The conditional UPDATE of a claim is
one operation together with its commit: the database decides both at once.

`App` is code that raises; `OnTrade` is code that works on one `Trade` object of its
session, and keeps what it did to the object also when it raises. `run` and `exec` turn
either into the tree of operations, and the lemmas below compute that tree.
-/

namespace AutoTrader

open Python Coroutine

inductive LogRecord
  /-- The line `place_market_order` writes when it is called. -/
  | orderRequest (path side symbol quantity clientOrderId : String)
  /-- CRITICAL, from `_finalise_success`. -/
  | orderSucceededButUpdateFailed (tradeId : TradeId) (signalId clientOrderId : String)
      (binanceOrderId : Option Int) (binanceStatus : String)
  /-- CRITICAL, from `_finalise_failure`. -/
  | couldNotPersistFailure (tradeId : TradeId) (signalId : String)
  /-- From `_handle_uncertain_outcome`. -/
  | immediateReconciliationFailed (tradeId : TradeId)
  deriving DecidableEq

inductive Op
  | clock
  | cachedOwner
  | cacheOwner (id : UserId)
  | selectOwner (email : String)
  | insert (n : NewTrade)
  | selectBySignal (signalId : String)
  | claim (id : TradeId) (now : DateTime)
  | get (id : TradeId)
  | getForUser (user : UserId) (id : TradeId)
  | selectUnsent (limit : Nat)
  | selectReconcilable (cutoff : DateTime) (limit : Nat)
  | commit (loaded : Trade) (edits : Edits)
  | enqueue (id : TradeId)
  | send (request : HttpRequest)
  | receive (ticket : Nat)
  | log (record : LogRecord)
  deriving DecidableEq

/-- The results; a database call may raise instead, and `commit` says where it failed. -/
abbrev Op.Res : Op → Type
  | clock => DateTime
  | cachedOwner => Option UserId
  | cacheOwner _ => Unit
  | selectOwner _ => Except SqlError (Option UserId)
  | insert _ => Except SqlError Trade
  | selectBySignal _ => Except SqlError (Option TradeId)
  | claim _ _ => Except SqlError Nat
  | get _ => Except SqlError (Option Trade)
  | getForUser _ _ => Except SqlError (Option Trade)
  | selectUnsent _ => Except SqlError (List TradeId)
  | selectReconcilable _ _ => Except SqlError (List Trade)
  | commit _ _ => Except CommitError DateTime
  | enqueue _ => Bool
  | send _ => Nat
  | receive _ => Transport
  | log _ => Unit

abbrev effects : Signature := ⟨Op, Op.Res⟩

abbrev App := ExceptT Exc (Free effects)

abbrev OnTrade := ExceptT Exc (StateT Instance (Free effects))

namespace App

def perform (o : Op) : App o.Res := ExceptT.lift (Free.perform (S := effects) o)

/-- A database call: its error is raised. -/
def db {α : Type} (x : App (Except SqlError α)) : App α := do
  match ← x with
  | .ok a => return a
  | .error e => throw (.sqlalchemy e)

/-- `try: ... except Binance...Error as exc`: the error as a value; others pass. -/
def catchBinance {α : Type} (x : App α) : App (Except BinanceError α) :=
  tryCatch (Except.ok <$> x) fun
    | .binance e => return .error e
    | e => throw e

/-! The code that is left to run, constructor by constructor. -/

section Run

variable {α β : Type}

@[simp] theorem run_pure (a : α) : (pure a : App α).run = .pure (.ok a) := rfl

@[simp] theorem run_throw (e : Exc) : (throw e : App α).run = .pure (.error e) := rfl

@[simp] theorem run_mk (x : Free effects (Except Exc α)) : (ExceptT.mk x : App α).run = x := rfl

@[simp] theorem run_perform (o : Op) :
    @ExceptT.run Exc (Free effects) (no_index o.Res) (perform o) =
      .op o fun r => .pure (.ok r) := rfl

@[simp] theorem run_bind (x : App α) (f : α → App β) :
    (x >>= f).run = x.run.bind fun r =>
      match r with
      | .ok a => (f a).run
      | .error e => .pure (.error e) := by
  change Free.bind _ _ = _
  congr 1
  funext r
  cases r <;> rfl

@[simp] theorem run_db (x : App (Except SqlError α)) :
    (db x).run = x.run.bind fun r =>
      match r with
      | .ok (.ok a) => .pure (.ok a)
      | .ok (.error e) => .pure (.error (.sqlalchemy e))
      | .error e => .pure (.error e) := by
  simp only [db, run_bind]
  congr 1
  funext r
  rcases r with _ | _ | _ <;> rfl

/-- What `catchBinance` makes of the end of a call. -/
def caught : Except Exc α → Except Exc (Except BinanceError α)
  | .ok a => .ok (.ok a)
  | .error (.binance e) => .ok (.error e)
  | .error e => .error e

@[simp] theorem run_catchBinance (x : App α) :
    (catchBinance x).run = x.run.bind fun r => .pure (caught r) := by
  change Free.bind (Free.bind _ _) _ = _
  rw [Free.bind_assoc]
  congr 1
  funext r
  rcases r with e | a
  · cases e <;> rfl
  · rfl

end Run

end App

namespace OnTrade

def lift {α : Type} (x : App α) : OnTrade α :=
  ExceptT.mk fun i => x.run.bind fun r => .pure (r, i)

/-- Read an attribute of the object. -/
def attr {α : Type} (f : Trade → α) : OnTrade α := do
  let i ← get
  match i.access.error? with
  | none => return f i.current
  | some e => throw e

/-- Assign attributes of the object. -/
def assign (e : Edits) : OnTrade Unit := modify fun i => i.assign e

/-- `await db.commit()`. -/
def commit : OnTrade Unit := do
  let i ← get
  match ← lift (App.perform (.commit i.loaded i.edits)) with
  | .ok now => set (i.flushed now)
  | .error e =>
    set (i.failed e)
    throw e.exc

/-- `await db.rollback()`. -/
def rollback : OnTrade Unit := modify Instance.rolledBack

/-- Run on an object. What was done to the object is kept also when the code raises. -/
def exec {α : Type} (x : OnTrade α) (i : Instance) : Free effects (Except Exc α × Instance) :=
  x.run.run i

/-- Work on an object that a query returned. -/
def on {α : Type} (i : Instance) (x : OnTrade α) : App (α × Instance) :=
  ExceptT.mk ((x.exec i).bind fun p =>
    match p with
    | (.ok a, j) => .pure (.ok (a, j))
    | (.error e, _) => .pure (.error e))

section Exec

variable {α β : Type}

@[simp] theorem exec_pure (a : α) (i : Instance) :
    (pure a : OnTrade α).exec i = .pure (.ok a, i) := rfl

@[simp] theorem exec_throw (e : Exc) (i : Instance) :
    (throw e : OnTrade α).exec i = .pure (.error e, i) := rfl

@[simp] theorem exec_lift (x : App α) (i : Instance) :
    (lift x).exec i = x.run.bind fun r => .pure (r, i) := rfl

@[simp] theorem exec_assign (e : Edits) (i : Instance) :
    (assign e).exec i = .pure (.ok (), i.assign e) := rfl

@[simp] theorem exec_rollback (i : Instance) : rollback.exec i = .pure (.ok (), i.rolledBack) := rfl

@[simp] theorem exec_attr_fresh (f : Trade → α) (t : Trade) :
    (attr f).exec (.fresh t) = .pure (.ok (f t), .fresh t) := rfl

@[simp] theorem exec_attr (f : Trade → α) (i : Instance) :
    (attr f).exec i =
      .pure (match i.access.error? with
        | none => .ok (f i.current)
        | some e => .error e, i) := by
  obtain ⟨t, e, access⟩ := i
  cases access <;> rfl

@[simp] theorem exec_bind (x : OnTrade α) (f : α → OnTrade β) (i : Instance) :
    (x >>= f).exec i = (x.exec i).bind fun p =>
      match p with
      | (.ok a, j) => (f a).exec j
      | (.error e, j) => .pure (.error e, j) := by
  change Free.bind _ _ = _
  congr 1
  funext p
  rcases p with ⟨_ | _, j⟩ <;> rfl

@[simp] theorem exec_tryCatch (x : OnTrade α) (handler : Exc → OnTrade α) (i : Instance) :
    (tryCatch x handler).exec i = (x.exec i).bind fun p =>
      match p with
      | (.ok a, j) => .pure (.ok a, j)
      | (.error e, j) => (handler e).exec j := by
  change Free.bind _ _ = _
  congr 1
  funext p
  rcases p with ⟨_ | _, j⟩ <;> rfl

@[simp] theorem exec_commit (i : Instance) :
    commit.exec i = .op (.commit i.loaded i.edits) fun r =>
      match r with
      | .ok now => .pure (.ok (), i.flushed now)
      | .error e => .pure (.error e.exc, i.failed e) := by
  change Free.op _ _ = _
  congr 1
  funext r
  cases r <;> rfl

end Exec

end OnTrade

end AutoTrader
