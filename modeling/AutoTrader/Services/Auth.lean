import AutoTrader.Core.Exceptions
import AutoTrader.Coroutine.Free
import AutoTrader.Db.Users
import AutoTrader.Python.Case
import AutoTrader.Python.Utf8

/-!
# `app/services/auth_service.py`

`get_user_by_email` and `register_user`. What a call does to the world is an operation: the
SELECT by address, the hashing in a worker thread, the INSERT and the COMMIT of one
`db.commit()`, and the ROLLBACK. Closing the session, which rolls back what is open, and handing
the result to the caller are the last one.
-/

namespace AutoTrader.Auth

open Python Coroutine

/-- `BCRYPT_MAX_PASSWORD_BYTES`. -/
def bcryptMaxPasswordBytes : Nat := 72

/-- `password_within_bcrypt_limit`. -/
def passwordWithinBcryptLimit (password : String) : Bool :=
  decide ((Utf8.encode password.toList).length ≤ bcryptMaxPasswordBytes)

/-- The arguments of a registration. Any spelling of an address will do; the password passed
the validator of `UserCreate`. -/
structure UserCreate where
  email : String
  password : String
  password_fits : passwordWithinBcryptLimit password = true
  deriving DecidableEq

inductive Exc
  | emailAlreadyRegistered
  | sqlalchemy (e : SqlError)
  /-- From the worker thread. -/
  | hashing
  deriving DecidableEq

inductive Op
  | selectByEmail (email : String)
  | hashPassword (password : String)
  | insert (email passwordHash : String)
  | commit (user : UserRow)
  | rollback
  | close (form : UserCreate) (result : Except Exc UserRow)

abbrev Op.Res : Op → Type
  | selectByEmail _ => Except SqlError (Option UserRow)
  | hashPassword _ => Option String
  | insert _ _ => Except SqlError UserRow
  | commit _ => Except SqlError Unit
  | rollback => Except SqlError Unit
  | close _ _ => Unit

abbrev effects : Signature := ⟨Op, Op.Res⟩

abbrev App := ExceptT Exc (Free effects)

def perform (o : Op) : App o.Res := ExceptT.lift (Free.perform (S := effects) o)

/-- A database call: its error is raised. -/
def db {α : Type} (x : App (Except SqlError α)) : App α := do
  match ← x with
  | .ok a => return a
  | .error e => throw (.sqlalchemy e)

theorem run_perform (o : Op) : (perform o).run = .op o fun r => .pure (.ok r) := rfl

theorem run_db {α : Type} (x : App (Except SqlError α)) :
    (db x).run = x.run.bind (Free.proceed fun r => .pure (r.mapError .sqlalchemy)) := by
  rw [db, Free.run_bind]
  congr 2
  funext r
  cases r <;> rfl

section Registration

variable (tables : CaseTables)

/-- `email.strip().lower()`. -/
def normaliseEmail (email : String) : String := String.ofList (lower tables (strip email.toList))

/-- `get_user_by_email`. -/
def getUserByEmail (email : String) : App (Option UserRow) :=
  db (perform (.selectByEmail (normaliseEmail tables email)))

/-- `db.add(user)` and `await db.commit()`, up to the error of the database. -/
def commitUser (email passwordHash : String) : App (Except SqlError UserRow) := do
  match ← perform (.insert email passwordHash) with
  | .error e => return .error e
  | .ok user =>
    match ← perform (.commit user) with
    | .error e => return .error e
    | .ok () => return .ok user

/-- `register_user`. -/
def registerUser (email password : String) : App UserRow := do
  let email := normaliseEmail tables email
  if (← getUserByEmail tables email).isSome then throw .emailAlreadyRegistered
  let passwordHash ← match ← perform (.hashPassword password) with
    | some text => pure text
    | none => throw .hashing
  match ← commitUser email passwordHash with
  | .ok user => return user
  | .error .integrity =>
    db (perform .rollback)
    throw .emailAlreadyRegistered
  | .error e => throw (.sqlalchemy e)

/-- A call of `register_user` by the route, with the session it runs in. -/
def UserCreate.program (form : UserCreate) : Free effects Unit :=
  (registerUser tables form.email form.password).run.bind fun result =>
    .op (.close form result) fun _ => .pure ()

/-- Normalising an address again changes nothing. -/
theorem normaliseEmail_idem (email : String) :
    normaliseEmail tables (normaliseEmail tables email) = normaliseEmail tables email := by
  rw [normaliseEmail, normaliseEmail, String.toList_ofList, lower_strip_idem]

end Registration

end AutoTrader.Auth
