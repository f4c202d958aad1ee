import AutoTrader.Core.Security

/-!
# Login and the bearer token

`authenticate_user` and `issue_access_token` of `app/services/auth_service.py`, as `POST
/auth/login` calls them, and `get_current_user` of `app/dependencies/auth.py`. What a call does to
the world is an operation: the SELECTs, the comparison in a worker thread, the clock, `uuid4`, and
handing the result to the caller. Log lines are left out.
-/

namespace AutoTrader.Session

open Python Coroutine Auth

/-- A row of `users`. -/
structure Account extends UserRow where
  isActive : Bool
  deriving DecidableEq

inductive Exc
  | authentication (message : String)
  | sqlalchemy (e : SqlError)
  | conversion (e : ConversionError)
  /-- From the worker thread. -/
  | hashing
  deriving DecidableEq

/-- `HTTPAuthorizationCredentials`. -/
structure Credentials where
  scheme : String
  credentials : String
  deriving DecidableEq

structure TokenResponse where
  accessToken : String
  tokenType : String
  expiresIn : Int
  deriving DecidableEq

/-- What a call gives to its caller. -/
inductive Reply
  | token (r : TokenResponse)
  | user (a : Account)
  deriving DecidableEq

inductive Task
  | login (email password : String)
  /-- A request to a protected route. -/
  | enter (credentials : Option Credentials)
  deriving DecidableEq

inductive Op
  | selectByEmail (email : String)
  | selectById (id : Int)
  | verifyPassword (password passwordHash : String)
  | clock
  | uuid
  | close (task : Task) (result : Except Exc Reply)

abbrev Op.Res : Op → Type
  | selectByEmail _ => Except SqlError (Option Account)
  | selectById _ => Except SqlError (Option Account)
  | verifyPassword _ _ => Option Bool
  | clock => DateTime
  | uuid => String
  | close _ _ => Unit

abbrev effects : Signature := ⟨Op, Op.Res⟩

abbrev App := ExceptT Exc (Free effects)

def perform (o : Op) : App o.Res := ExceptT.lift (Free.perform (S := effects) o)

/-- A database call: its error is raised. -/
def db {α : Type} (x : App (Except SqlError α)) : App α := do
  match ← x with
  | .ok a => return a
  | .error e => throw (.sqlalchemy e)

theorem run_perform (o : Op) : (perform o).run = .op o fun r => .pure (.ok r) := rfl

theorem run_db {α : Type} (x : App (Except SqlError α)) :
    (db x).run = x.run.bind (Free.proceed fun r => .pure (r.mapError .sqlalchemy)) := by
  rw [db, Free.run_bind]
  congr 2
  funext r
  cases r <;> rfl

section Calls

variable (s : Security)

/-- `get_user_by_email`. -/
def getUserByEmail (email : String) : App (Option Account) :=
  db (perform (.selectByEmail (normaliseEmail s.tables email)))

/-- `get_user_by_id`. -/
def getUserById (id : Int) : App (Option Account) := db (perform (.selectById id))

/-- `_verify_password`. -/
def verifyInThread (password passwordHash : String) : App Bool := do
  match ← perform (.verifyPassword password passwordHash) with
  | some verified => return verified
  | none => throw .hashing

/-- `authenticate_user`. -/
def authenticateUser (email password : String) : App Account := do
  match ← getUserByEmail s email with
  | none => throw (.authentication "Incorrect email or password.")
  | some user =>
    if ← verifyInThread password user.passwordHash then
      if user.isActive then return user
      else throw (.authentication "This account is deactivated.")
    else throw (.authentication "Incorrect email or password.")

/-- What `issue_access_token` returns, given the clock and `uuid4().hex`. -/
def tokenResponse (user : Account) (issuedAt : DateTime) (jti : String) : TokenResponse where
  accessToken := (createAccessToken s user.id none issuedAt jti).1
  tokenType := "bearer"
  expiresIn := (createAccessToken s user.id none issuedAt jti).2

/-- `issue_access_token`. -/
def issueAccessToken (user : Account) : App TokenResponse := do
  let issuedAt : DateTime ← perform .clock
  let jti : String ← perform .uuid
  return tokenResponse s user issuedAt jti

/-- `POST /auth/login`, behind the validator of `LoginRequest`. -/
def login (email password : String) : App Reply := do
  let user ← authenticateUser s (normaliseEmail s.tables email) password
  let response ← issueAccessToken s user
  return .token response

/-- The token of the header, if it is a bearer token. -/
def bearerToken (credentials : Option Credentials) : Except Exc String :=
  match credentials with
  | none => .error (.authentication "Missing bearer token.")
  | some c =>
    if c.credentials.isEmpty then .error (.authentication "Missing bearer token.")
    else if lower s.tables c.scheme.toList ≠ "bearer".toList then
      .error (.authentication "Authorization scheme must be Bearer.")
    else .ok c.credentials

/-- `decode_access_token` in the handler of `get_current_user`. -/
def tokenSubject (token : String) (now : DateTime) : Except Exc Int :=
  match decodeAccessToken s.jwt token now with
  | .ok id => .ok id
  | .error (.token reason) => .error (.authentication reason)
  | .error (.conversion e) => .error (.conversion e)

/-- What `get_current_user` makes of the row. -/
def requireActive (found : Option Account) : Except Exc Account :=
  match found with
  | none => .error (.authentication "Invalid authentication token.")
  | some user =>
    if user.isActive then .ok user else .error (.authentication "This account is deactivated.")

/-- `get_current_user`. -/
def getCurrentUser (credentials : Option Credentials) : App Account := do
  let token ← ExceptT.mk (pure (bearerToken s credentials))
  let now : DateTime ← perform .clock
  let userId ← ExceptT.mk (pure (tokenSubject s token now))
  let found ← getUserById userId
  ExceptT.mk (pure (requireActive found))

def Task.app : Task → App Reply
  | .login email password => Session.login s email password
  | .enter credentials => do
    let user ← getCurrentUser s credentials
    return .user user

/-- A request, up to the moment its result is handed over. -/
def Task.program (task : Task) : Free effects Unit :=
  (task.app s).run.bind fun result => .op (.close task result) fun _ => .pure ()

end Calls

/-! The calls as syntax trees. -/

theorem login_run (s : Security) (email password : String) :
    (login s email password).run =
      .op (.selectByEmail (normaliseEmail s.tables (normaliseEmail s.tables email))) fun found =>
      match found with
      | .error e => .pure (.error (.sqlalchemy e))
      | .ok none => .pure (.error (.authentication "Incorrect email or password."))
      | .ok (some user) =>
        .op (.verifyPassword password user.passwordHash) fun verified =>
        match verified with
        | none => .pure (.error .hashing)
        | some false => .pure (.error (.authentication "Incorrect email or password."))
        | some true =>
          if user.isActive then
            .op .clock fun issuedAt => .op .uuid fun jti =>
            .pure (.ok (.token (tokenResponse s user issuedAt jti)))
          else .pure (.error (.authentication "This account is deactivated.")) := by
  change (Free.op (S := effects) (.selectByEmail _) _) = Free.op (S := effects) (.selectByEmail _) _
  congr 1
  funext found
  rcases found with e | _ | user
  · rfl
  · rfl
  · change (Free.op (S := effects) (.verifyPassword _ _) _) =
      Free.op (S := effects) (.verifyPassword _ _) _
    congr 1
    funext verified
    rcases verified with _ | _ | _
    · rfl
    · rfl
    · change Free.bind (ExceptT.run (if user.isActive = true then pure user else throw _)) _ = _
      cases user.isActive <;> rfl

/-- `get_current_user` behind its first two steps. -/
theorem lookUp_run (s : Security) (token : String) (now : DateTime) :
    (do
      let userId ← ExceptT.mk (pure (tokenSubject s token now))
      let found ← getUserById userId
      ExceptT.mk (pure (requireActive found)) : App Account).run =
      match tokenSubject s token now with
      | .error e => .pure (.error e)
      | .ok id => .op (.selectById id) fun found =>
        match found with
        | .error e => .pure (.error (.sqlalchemy e))
        | .ok found => .pure (requireActive found) := by
  rw [Free.run_bind]
  change Free.bind (Free.pure (tokenSubject s token now)) _ = _
  rw [Free.bind_pure]
  cases tokenSubject s token now with
  | error e => rfl
  | ok id =>
    change (Free.op (S := effects) (.selectById id) _) = Free.op (S := effects) (.selectById id) _
    congr 1
    funext found
    rcases found with e | found
    · rfl
    · rfl

theorem enter_run (s : Security) (credentials : Option Credentials) :
    ((Task.enter credentials).app s).run =
      match bearerToken s credentials with
      | .error e => .pure (.error e)
      | .ok token =>
        .op .clock fun now =>
        match tokenSubject s token now with
        | .error e => .pure (.error e)
        | .ok id =>
          .op (.selectById id) fun found =>
          match found with
          | .error e => .pure (.error (.sqlalchemy e))
          | .ok found => .pure ((requireActive found).map .user) := by
  simp only [Task.app, getCurrentUser]
  rw [Free.run_bind, Free.run_bind]
  change Free.bind (Free.bind (Free.pure (bearerToken s credentials)) _) _ = _
  rw [Free.bind_pure]
  cases bearerToken s credentials with
  | error e => rfl
  | ok token =>
    change (Free.op (S := effects) .clock fun now => Free.bind (do
      let userId ← ExceptT.mk (pure (tokenSubject s token now))
      let found ← getUserById userId
      ExceptT.mk (pure (requireActive found)) : App Account).run _) =
      Free.op (S := effects) .clock _
    congr 1
    funext now
    rw [lookUp_run]
    simp only []
    cases tokenSubject s token now with
    | error e => rfl
    | ok id =>
      change (Free.op (S := effects) (.selectById id) _) = Free.op (S := effects) (.selectById id) _
      congr 1
      funext found
      rcases found with e | found
      · rfl
      · change Free.bind (Free.pure (requireActive found)) _ =
          Free.pure ((requireActive found).map Reply.user)
        cases requireActive found <;> rfl

end AutoTrader.Session
