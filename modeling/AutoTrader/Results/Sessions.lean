import AutoTrader.System.Sessions

/-!
# Who gets in

A request to a protected route is let in on the strength of a token. As long as nobody else can
sign one, whoever is let in has logged in before, with the password of the account, not longer ago
than the token is good for; and the account was there and active when it was looked up. The other
way round, a token that was issued lets in exactly while it is good and the account is active, and
a login succeeds exactly with the password that the address was registered with.
-/

namespace AutoTrader.Session

open Python Coroutine Transition Auth

variable {s : Security} {w w' : Store} {i : Nat}

/-! ## Tokens that were issued -/

/-- A login has issued the token. -/
def Store.Issued (w : Store) (token : String) : Prop :=
  ∃ i address password r, .returned i (.login address password) (.ok (.token r)) ∈ w.history ∧
    r.accessToken = token

/-- The condition: a token that verifies, at whatever time, was issued before it is presented. -/
def Unforged (P : Pool (sessions s)) (l : Label (sessions s)) : Prop :=
  ∀ credentials token, l = .event (.request (.enter credentials)) →
    bearerToken s credentials = .ok token →
      ∀ now payload, s.jwt.decode token now = .ok payload → P.shared.Issued token

theorem Store.Issued.mono {token : String} (h : w.Issued token) (hw : w.history ⊆ w'.history) :
    w'.Issued token := by
  obtain ⟨i, address, password, r, hreturned, htoken⟩ := h
  exact ⟨i, address, password, r, hw hreturned, htoken⟩

/-- An operation adds to the history, and never that a request was asked. -/
theorem history_exec {o : Op} {c : Choice} {r : o.Res} (hx : exec s i w o c = some (r, w')) :
    w.history ⊆ w'.history ∧ ∀ task, .asked task ∈ w'.history → .asked task ∈ w.history := by
  have hsame : w.history ⊆ w.history ∧ ∀ task, .asked task ∈ w.history → .asked task ∈ w.history :=
    ⟨List.Subset.refl _, fun _ h => h⟩
  have hnote : ∀ e : Entry, (∀ task, e ≠ .asked task) → w.history ⊆ (w.note e).history ∧
      ∀ task, .asked task ∈ (w.note e).history → .asked task ∈ w.history := by
    intro e he
    refine ⟨List.subset_append_left _ _, fun task htask => ?_⟩
    rcases List.mem_append.mp htask with htask | htask
    · exact htask
    · exact absurd (List.mem_singleton.mp htask).symm (he task)
  cases o with
  | selectById id =>
    cases c with
    | done =>
      simp only [exec] at hx
      split at hx
      · cases hx
        exact hnote _ fun _ he => (by cases he)
      · cases hx
        exact hsame
    | failed =>
      cases hx
      exact hsame
    | named _ => cases hx
  | clock | close =>
    cases c with
    | done =>
      cases hx
      exact hnote _ fun _ he => (by cases he)
    | failed | named _ => cases hx
  | selectByEmail | verifyPassword | uuid =>
    cases c <;> cases hx <;> exact hsame

theorem asked_event {e : Event} {x : Reaction Store Task} (hx : react s w e = some x) {task : Task}
    (h : .asked task ∈ x.shared.history) : .asked task ∈ w.history ∨ e = .request task := by
  cases e with
  | register id form salt =>
    obtain ⟨passwordHash, -, hx⟩ := Option.bind_eq_some_iff.mp hx
    split at hx
    · cases hx
      rcases List.mem_append.mp h with h | h
      · exact Or.inl h
      · cases List.mem_singleton.mp h
    · cases hx
  | activate | remove =>
    cases hx
    rcases List.mem_append.mp h with h | h
    · exact Or.inl h
    · cases List.mem_singleton.mp h
  | tick d =>
    cases hx
    exact Or.inl h
  | request task' =>
    cases hx
    rcases List.mem_append.mp h with h | h
    · exact Or.inl h
    · cases List.mem_singleton.mp h
      exact Or.inr rfl

/-- Every token that was presented and ever verifies was issued. -/
def Vouched (s : Security) (w : Store) : Prop :=
  ∀ credentials token, .asked (.enter credentials) ∈ w.history →
    bearerToken s credentials = .ok token →
      ∀ now payload, s.jwt.decode token now = .ok payload → w.Issued token

theorem vouched_of_run {clock : DateTime} {ls : List (Label (sessions s))} {P : Pool (sessions s)}
    (h : Run (sessions s).system Unforged ⟨.initial clock, []⟩ ls P) : Vouched s P.shared := by
  refine h.invariant (I := fun P => Vouched s P.shared) (fun _ _ hasked => (by cases hasked)) ?_
  intro P l Q hP hD hstep credentials token hasked htoken now payload hdecode
  cases l with
  | act i c =>
    obtain ⟨tag, o, next, r, w, -, hx, rfl⟩ := Host.step_act hstep
    obtain ⟨hgrows, hold⟩ := history_exec hx
    exact (hP credentials token (hold _ hasked) htoken now payload hdecode).mono hgrows
  | event e =>
    obtain ⟨x, hx, rfl⟩ := Host.step_event hstep
    have hgrows : P.shared.history ⊆ x.shared.history := by
      cases e with
      | register id form salt =>
        obtain ⟨passwordHash, -, hx⟩ := Option.bind_eq_some_iff.mp hx
        split at hx
        · cases hx
          exact Store.subset_perform _ _
        · cases hx
      | activate | remove | request =>
        cases hx
        exact List.subset_append_left _ _
      | tick d =>
        cases hx
        exact List.Subset.refl _
    rcases asked_event hx hasked with hold | rfl
    · exact (hP credentials token hold htoken now payload hdecode).mono hgrows
    · exact (hD credentials token rfl htoken now payload hdecode).mono hgrows

/-! ## What a token stands for -/

/-- The second of its issue has begun, and the token has not expired. -/
def Good (s : Security) (issuedAt now : DateTime) : Prop :=
  seconds issuedAt * 1000000 ≤ now ∧
    now < (seconds issuedAt + s.accessTokenExpireMinutes * 60) * 1000000

/-- The login got its token at that time for the account, which was registered under its address
and with its password. -/
structure Store.LoggedIn (s : Security) (w : Store) (i : Nat) (address password : String)
    (id : UserId) (issuedAt : DateTime) : Prop where
  clocked : .clocked i issuedAt ∈ w.history
  account : ∃ row form, .registered row form ∈ w.history ∧ row.id = id ∧
    row.email = normaliseEmail s.tables address ∧
      normaliseEmail s.tables form.email = normaliseEmail s.tables address ∧
      (Auth.NulFree form.password → Auth.NulFree password → password = form.password)

theorem Store.Sane.loggedIn (h : w.Sane s) {address password : String} {r : TokenResponse}
    (hreturned : .returned i (.login address password) (.ok (.token r)) ∈ w.history) :
    ∃ user issuedAt jti, r = tokenResponse s user issuedAt jti ∧ user.id < idLimit ∧
      w.LoggedIn s i address password user.id issuedAt := by
  obtain ⟨-, user, issuedAt, jti, hproves, -, hclock, rfl⟩ := h.returned _ _ _ hreturned
  obtain ⟨address', password', htask, ⟨row, form, hrow, hid, hemail, hhash⟩, haddress,
    hverified⟩ := hproves
  cases htask
  obtain ⟨hlimit, hform, salt, hsalt⟩ := h.rows row form hrow
  refine ⟨user, issuedAt, jti, rfl, hid ▸ hlimit, hclock, row, form, hrow, hid.symm,
    hemail ▸ haddress, hform ▸ hemail ▸ haddress, fun hnul hnul' => ?_⟩
  rw [hhash] at hverified
  exact (verifyPassword_hash hnul hnul' hsalt).mp hverified

theorem length_natDigits_id {id : UserId} (h : id < idLimit) :
    (natDigits id).length ≤ maxIntDigits := by
  refine le_trans (length_natDigits_le (k := 10) (by omega) (lt_trans h ?_)) ?_
  · rw [idLimit]
    omega
  · rw [maxIntDigits]
    omega

/-- What `get_current_user` reads from a token of the service. -/
theorem tokenSubject_issued {user : Account} (hid : user.id < idLimit) (issuedAt now : DateTime)
    (jti : String) (userId : Int) :
    tokenSubject s (tokenResponse s user issuedAt jti).accessToken now = .ok userId ↔
      Good s issuedAt now ∧ userId = user.id := by
  have hexp := accessClaims_exp s user.id issuedAt jti
  simp only [accessClaims] at hexp
  simp only [tokenSubject, tokenResponse, decodeAccessToken_issued (length_natDigits_id hid), Good,
    ← hexp]
  by_cases hearly : now < seconds issuedAt * 1000000
  · rw [if_pos hearly]
    simp [not_le.mpr hearly]
  · rw [if_neg hearly]
    by_cases hlate : seconds (issuedAt + lifetime s none) * 1000000 ≤ now
    · rw [if_pos hlate]
      simp [not_lt.mpr hlate]
    · rw [if_neg hlate]
      simp [not_lt.mp hearly, not_le.mp hlate, eq_comm]

theorem decode_of_subject {token : String} {now : DateTime} {id : Int}
    (h : tokenSubject s token now = .ok id) : ∃ payload, s.jwt.decode token now = .ok payload := by
  simp only [tokenSubject, decodeAccessToken] at h
  cases hdecode : s.jwt.decode token now with
  | ok payload => exact ⟨payload, rfl⟩
  | error e =>
    rw [hdecode] at h
    cases e <;> cases h

/-! ## A run -/

namespace Sample

theorem password_fits : passwordWithinBcryptLimit "password" = true := by decide

def alice : UserCreate := ⟨"Alice@x.com", "password", password_fits⟩

def account : Account :=
  { id := 1, email := "alice@x.com", passwordHash := Auth.Sample.hashpw (octets "password") "salt",
    isActive := true }

/-- The token of a login in the first second. -/
def token : String := (tokenResponse Auth.Sample.security account 0 "id").accessToken

/-- A registration, a login, and half a minute later a request with the token. -/
def visit : List (Label (sessions Auth.Sample.security)) :=
  [.event (.register 1 alice "salt"), .event (.request (.login " alice@X.com" "password")),
    .act 0 .done, .act 0 .done, .act 0 .done, .act 0 (.named "id"), .act 0 .done,
    .event (.tick 30000000), .event (.request (.enter (some ⟨"Bearer", token⟩))),
    .act 1 .done, .act 1 .done, .act 1 .done]

def start : Pool (sessions Auth.Sample.security) := ⟨.initial 0, []⟩

def issued? : Entry → Option String
  | .returned _ (.login _ _) (.ok (.token r)) => some r.accessToken
  | _ => none

/-- What is presented has been issued. -/
def presents (P : Pool (sessions Auth.Sample.security)) :
    Label (sessions Auth.Sample.security) → Bool
  | .event (.request (.enter (some c))) =>
    (P.shared.history.filterMap issued?).contains c.credentials
  | _ => true

theorem unforged_of_presents {P : Pool (sessions Auth.Sample.security)}
    {l : Label (sessions Auth.Sample.security)} (h : presents P l = true) : Unforged P l := by
  rintro credentials token rfl hbearer now payload -
  cases credentials with
  | none => cases hbearer
  | some c =>
    simp only [bearerToken] at hbearer
    split at hbearer
    · cases hbearer
    · split at hbearer
      · cases hbearer
      · cases hbearer
        obtain ⟨e, he, hissued⟩ := List.mem_filterMap.mp (List.contains_iff_mem.mp h)
        unfold issued? at hissued
        split at hissued
        · exact ⟨_, _, _, _, he, Option.some.inj hissued⟩
        · cases hissued

theorem visit_follows :
    ((sessions Auth.Sample.security).system.follow (fun P l => presents P l = true) start
      visit).isSome := by
  decide +kernel

theorem visit_returned : .returned 1 (.enter (some ⟨"Bearer", token⟩))
    (.ok (.user account)) ∈
      (((sessions Auth.Sample.security).system.follow (fun P l => presents P l = true) start
        visit).get visit_follows).shared.history := by
  decide +kernel

theorem visit_issued : .returned 0 (.login " alice@X.com" "password")
    (.ok (.token (tokenResponse Auth.Sample.security account 0 "id"))) ∈
      (((sessions Auth.Sample.security).system.follow (fun P l => presents P l = true) start
        visit).get visit_follows).shared.history := by
  decide +kernel

def form? : Entry → Option UserCreate
  | .registered _ form => some form
  | _ => none

theorem visit_forms : ∀ row form, .registered row form ∈
    (((sessions Auth.Sample.security).system.follow (fun P l => presents P l = true) start
      visit).get visit_follows).shared.history → form = alice := by
  have hforms : ∀ e ∈ (((sessions Auth.Sample.security).system.follow
      (fun P l => presents P l = true) start visit).get visit_follows).shared.history,
      ((form? e).all fun form => decide (form = alice)) = true := by
    decide +kernel
  intro row form hrow
  exact of_decide_eq_true (hforms _ hrow)

end Sample

/-- **Who is let in has logged in.** In every run in which no token is forged, whatever happens to
the accounts and the clock meanwhile: if a request was let in as `user`, then

* a login has issued its token, for the account with this id, which had been registered under the
  address of the login and, unless one of the two has a NUL, with its password;
* the token was good when the request looked at the clock;
* the account was in the table and active when the request looked it up. -/
theorem admitted_has_logged_in {clock : DateTime} {ls : List (Label (sessions s))}
    {P : Pool (sessions s)} (h : Run (sessions s).system Unforged ⟨.initial clock, []⟩ ls P)
    {j : Nat} {credentials : Option Credentials} {user : Account}
    (hin : .returned j (.enter credentials) (.ok (.user user)) ∈ P.shared.history) :
    ∃ token now, bearerToken s credentials = .ok token ∧ .clocked j now ∈ P.shared.history ∧
      (∃ i address password r issuedAt,
        .returned i (.login address password) (.ok (.token r)) ∈ P.shared.history ∧
        r.accessToken = token ∧ P.shared.LoggedIn s i address password user.id issuedAt ∧
        Good s issuedAt now) ∧
      ∃ pre post, P.shared.history = pre ++ .read j user.id (some user) :: post ∧
        user ∈ replay pre ∧ user.isActive = true := by
  obtain ⟨-, -, hs, -⟩ := sane_of_run h
  obtain ⟨hasked, token, now, ⟨credentials', htask, htoken⟩, hclock, hsubject, hread, hactive⟩ :=
    hs.returned _ _ _ hin
  cases htask
  obtain ⟨payload, hdecode⟩ := decode_of_subject hsubject
  obtain ⟨i, address, password, r, hreturned, rfl⟩ :=
    vouched_of_run h credentials token hasked htoken now payload hdecode
  obtain ⟨user', issuedAt, jti, rfl, hlimit, hlogin⟩ := hs.loggedIn hreturned
  obtain ⟨hgood, hid⟩ := (tokenSubject_issued hlimit issuedAt now jti user.id).mp hsubject
  have hid : user.id = user'.id := by exact_mod_cast hid
  obtain ⟨pre, post, hsplit⟩ := List.append_of_mem hread
  have hfound := hs.reads pre post j user.id (some user) hsplit
  exact ⟨_, now, htoken, hclock, ⟨i, address, password, _, issuedAt, hreturned, rfl, hid ▸ hlogin,
    hgood⟩, pre, post, hsplit, (findById_eq_some hfound.symm).1, hactive⟩

theorem admitted_has_logged_in_visit : ∃ P,
    Run (sessions Auth.Sample.security).system Unforged Sample.start Sample.visit P ∧
      ∃ i address password r issuedAt,
        .returned i (.login address password) (.ok (.token r)) ∈ P.shared.history ∧
          r.accessToken = Sample.token ∧
          P.shared.LoggedIn Auth.Sample.security i address password Sample.account.id issuedAt := by
  have h := (System.run_get Sample.visit_follows).mono fun _ _ => Sample.unforged_of_presents
  obtain ⟨token, -, htoken, -, ⟨i, address, password, r, issuedAt, hreturned, hr, hlogin, -⟩, -⟩ :=
    admitted_has_logged_in h Sample.visit_returned
  have hbearer : bearerToken Auth.Sample.security (some ⟨"Bearer", Sample.token⟩) =
      .ok Sample.token := by decide +kernel
  rw [hbearer] at htoken
  cases htoken
  exact ⟨_, h, i, address, password, r, issuedAt, hreturned, hr, hlogin⟩

/-! ## A request alone -/

section Alone

variable (s)

/-- The environment lets every operation through, and `uuid4().hex` is the text. -/
def undisturbed (jti : String) : Store → Op → Choice
  | _, .uuid => .named jti
  | _, _ => .done

/-- The result of a request that nothing disturbs, and the store it leaves. -/
def alone (jti : String) (i : Nat) (task : Task) (w : Store) :
    Option (Except Exc Reply × Store) :=
  (sessions s).drive (undisturbed jti) i task (task.app s).run w

/-- What `authenticate_user` makes of the row under the address. -/
def verdict (found : Option Account) (password : String) : Except Exc Account :=
  match found with
  | none => .error (.authentication "Incorrect email or password.")
  | some user =>
    if Auth.verifyPassword s.bcrypt password user.passwordHash then
      if user.isActive then .ok user else .error (.authentication "This account is deactivated.")
    else .error (.authentication "Incorrect email or password.")

variable {s}

theorem alone_login (jti : String) (i : Nat) (address password : String) (w : Store) :
    ∃ w', alone s jti i (.login address password) w =
        some ((verdict s (findByEmail w.accounts (normaliseEmail s.tables address)) password).map
          fun user => .token (tokenResponse s user w.clock jti), w') ∧
      w'.accounts = w.accounts := by
  simp only [alone, Task.app, login_run, normaliseEmail_idem, Host.drive_op, undisturbed, exec,
    Option.bind_some]
  cases findByEmail w.accounts (normaliseEmail s.tables address) with
  | none => exact ⟨w, rfl, rfl⟩
  | some user =>
    simp only [Host.drive_op, undisturbed, exec, Option.bind_some, verdict]
    cases Auth.verifyPassword s.bcrypt password user.passwordHash with
    | false => exact ⟨w, rfl, rfl⟩
    | true =>
      cases user.isActive with
      | false => exact ⟨w, rfl, rfl⟩
      | true => exact ⟨_, rfl, rfl⟩

theorem alone_enter (jti : String) (i : Nat) {scheme token : String}
    (hscheme : lower s.tables scheme.toList = "bearer".toList) (htoken : token.isEmpty = false)
    {w : Store} (hfits : ∀ id, tokenSubject s token w.clock = .ok id →
      -(idLimit : Int) ≤ id ∧ id < idLimit) :
    ∃ w', alone s jti i (.enter (some ⟨scheme, token⟩)) w =
        some ((tokenSubject s token w.clock).bind fun id =>
          (requireActive (findById w.accounts id)).map .user, w') ∧
      w'.accounts = w.accounts := by
  have hbearer : bearerToken s (some ⟨scheme, token⟩) = .ok token := by
    simp [bearerToken, htoken, hscheme]
  simp only [alone, enter_run, hbearer, Host.drive_op, undisturbed, exec, Option.bind_some]
  cases hsubject : tokenSubject s token w.clock with
  | error e => exact ⟨_, rfl, rfl⟩
  | ok id =>
    simp only [Host.drive_op, undisturbed, exec, if_pos (hfits id hsubject), Option.bind_some,
      Host.drive_pure]
    exact ⟨_, rfl, rfl⟩

end Alone

/-- The one account with this address. -/
theorem Store.Sane.findByEmail_of_mem (h : w.Sane s) {user : Account} (huser : user ∈ w.accounts) :
    findByEmail w.accounts user.email = some user := by
  cases hfind : findByEmail w.accounts user.email with
  | none => exact absurd (List.find?_eq_none.mp hfind user huser) (by simp)
  | some a =>
    obtain ⟨ha, hemail⟩ := findByEmail_eq_some hfind
    rw [List.inj_on_of_nodup_map h.emails ha huser hemail]

variable (s) in
/-- The account has this address and was registered with this password. -/
def Store.Opens (w : Store) (user : Account) (address password : String) : Prop :=
  user ∈ w.accounts ∧ user.email = normaliseEmail s.tables address ∧
    ∃ row form, .registered row form ∈ w.history ∧ row.id = user.id ∧ form.password = password

/-- An account has one registration, and `bcrypt` tells its password from others. -/
theorem Store.Sane.opens_iff (h : w.Sane s) {address password : String}
    (hnul : Auth.NulFree password)
    (hforms : ∀ row form, .registered row form ∈ w.history →
      normaliseEmail s.tables form.email = normaliseEmail s.tables address → Auth.NulFree form.password)
    {user : Account} : w.Opens s user address password ↔
      findByEmail w.accounts (normaliseEmail s.tables address) = some user ∧
        Auth.verifyPassword s.bcrypt password user.passwordHash = true := by
  have hhash : ∀ row form, .registered row form ∈ w.history → row.id = user.id →
      user ∈ w.accounts → user.email = normaliseEmail s.tables address →
        (Auth.verifyPassword s.bcrypt password user.passwordHash = true ↔
          password = form.password) := by
    intro row form hrow hid huser hemail
    obtain ⟨row', form', hrow', hid', hemail', hhash'⟩ := h.known user huser
    obtain ⟨-, hform, salt, hsalt⟩ := h.rows row form hrow
    obtain rfl := h.row_eq hrow hrow' (hid.trans hid')
    rw [hhash']
    exact verifyPassword_hash (hforms row form hrow (by rw [← hform, ← hemail', hemail])) hnul
      hsalt
  constructor
  · rintro ⟨huser, hemail, row, form, hrow, hid, rfl⟩
    exact ⟨hemail ▸ h.findByEmail_of_mem huser, (hhash row form hrow hid huser hemail).mpr rfl⟩
  · rintro ⟨hfind, hverified⟩
    obtain ⟨huser, hemail⟩ := findByEmail_eq_some hfind
    obtain ⟨row, form, hrow, hid, -⟩ := h.known user huser
    exact ⟨huser, hemail, row, form, hrow, hid.symm,
      ((hhash row form hrow hid.symm huser hemail).mp hverified).symm⟩

/-- **Who can log in.** After every run of requests and changes to the accounts, a login that
nothing disturbs

* issues a token exactly if there is an active account with this address that was registered with
  this password, and then the token of this account;
* says that the account is deactivated exactly if there is such an account and it is not active;
* otherwise gives the one answer that does not tell an unknown address from a wrong password;

and leaves the accounts as they are. Passwords are those without a NUL. -/
theorem login_iff {D : Pool (sessions s) → Label (sessions s) → Prop} {clock : DateTime}
    {ls : List (Label (sessions s))} {P : Pool (sessions s)}
    (h : Run (sessions s).system D ⟨.initial clock, []⟩ ls P) {address password : String}
    (hnul : Auth.NulFree password)
    (hforms : ∀ row form, .registered row form ∈ P.shared.history →
      normaliseEmail s.tables form.email = normaliseEmail s.tables address → Auth.NulFree form.password)
    (jti : String) (i : Nat) :
    ∃ result w, alone s jti i (.login address password) P.shared = some (result, w) ∧
      w.accounts = P.shared.accounts ∧
      (∀ r, result = .ok (.token r) ↔ ∃ user, P.shared.Opens s user address password ∧
        user.isActive = true ∧ r = tokenResponse s user P.shared.clock jti) ∧
      (result = .error (.authentication "This account is deactivated.") ↔
        ∃ user, P.shared.Opens s user address password ∧ user.isActive = false) ∧
      (result = .error (.authentication "Incorrect email or password.") ↔
        ∀ user, ¬ P.shared.Opens s user address password) := by
  obtain ⟨-, -, hs, -⟩ := sane_of_run h
  obtain ⟨w, halone, haccounts⟩ := alone_login (s := s) jti i address password P.shared
  refine ⟨_, w, halone, haccounts, ?_⟩
  simp only [hs.opens_iff hnul hforms]
  cases hfind : findByEmail P.shared.accounts (normaliseEmail s.tables address) with
  | none => simp [verdict, Except.map]
  | some user =>
    cases hverified : Auth.verifyPassword s.bcrypt password user.passwordHash with
    | false => simp [verdict, hverified, Except.map]
    | true =>
      have hpassed : verdict s (some user) password =
          if user.isActive then .ok user
          else .error (.authentication "This account is deactivated.") := by
        simp only [verdict, hverified, if_true]
      rw [hpassed]
      cases hactive : user.isActive with
      | false => simp [Except.map, hverified, hactive]
      | true =>
        refine ⟨fun r => ⟨?_, ?_⟩, ?_⟩
        · intro hr
          cases hr
          exact ⟨user, ⟨rfl, hverified⟩, hactive, rfl⟩
        · rintro ⟨user', ⟨hsame, -⟩, -, rfl⟩
          cases hsame
          rfl
        · simp [Except.map, hverified, hactive]

theorem login_iff_visit : ∃ P,
    Run (sessions Auth.Sample.security).system Unforged Sample.start Sample.visit P ∧
      ∃ result w, alone Auth.Sample.security "other" 2 (.login "ALICE@x.com" "passwort") P.shared =
          some (result, w) ∧
        (result = .error (.authentication "Incorrect email or password.") ↔
          ∀ user, ¬ P.shared.Opens Auth.Sample.security user "ALICE@x.com" "passwort") := by
  have h := (System.run_get Sample.visit_follows).mono fun _ _ => Sample.unforged_of_presents
  have hnul : Auth.NulFree "passwort" := by decide +kernel
  have halice : Auth.NulFree Sample.alice.password := by decide +kernel
  have hforms := fun row form hrow
      (_ : normaliseEmail Auth.Sample.security.tables form.email =
        normaliseEmail Auth.Sample.security.tables "ALICE@x.com") =>
    show Auth.NulFree form.password from Sample.visit_forms row form hrow ▸ halice
  obtain ⟨result, w, halone, -, -, -, hrefused⟩ := login_iff h hnul hforms "other" 2
  exact ⟨_, h, result, w, halone, hrefused⟩

/-! ## What a token opens -/

theorem tokenSubject_expired {user : Account} (hid : user.id < idLimit) (issuedAt now : DateTime)
    (jti : String) :
    tokenSubject s (tokenResponse s user issuedAt jti).accessToken now =
        .error (.authentication "Token has expired") ↔
      (seconds issuedAt + s.accessTokenExpireMinutes * 60) * 1000000 ≤ now := by
  have hexp := accessClaims_exp s user.id issuedAt jti
  have hge := s.expire_ge
  simp only [accessClaims] at hexp
  simp only [tokenSubject, tokenResponse, decodeAccessToken_issued (length_natDigits_id hid),
    ← hexp]
  by_cases hearly : now < seconds issuedAt * 1000000
  · rw [if_pos hearly]
    refine iff_of_false (by simp) (not_le.mpr (lt_of_lt_of_le hearly ?_))
    rw [hexp]
    omega
  · rw [if_neg hearly]
    by_cases hlate : seconds (issuedAt + lifetime s none) * 1000000 ≤ now
    · rw [if_pos hlate]
      simp [hlate]
    · rw [if_neg hlate]
      simp [hlate]

/-- No token is refused as one of a deactivated account. -/
theorem tokenSubject_error {token : String} {now : DateTime} {e : Exc}
    (h : tokenSubject s token now = .error e) :
    e = .authentication "Token has expired" ∨ e = .authentication "Invalid authentication token" ∨
      e = .conversion .overflowError := by
  simp only [tokenSubject] at h
  cases hdecode : decodeAccessToken s.jwt token now with
  | ok id =>
    rw [hdecode] at h
    cases h
  | error e' =>
    rw [hdecode] at h
    simp only [decodeAccessToken] at hdecode
    split at hdecode
    · cases hdecode
      cases h
      exact Or.inl rfl
    · cases hdecode
      cases h
      exact Or.inr (Or.inl rfl)
    · split at hdecode
      · split at hdecode
        · split at hdecode
          · cases hdecode
          · cases hdecode
            cases h
            exact Or.inr (Or.inr rfl)
          · cases hdecode
            cases h
            exact Or.inr (Or.inl rfl)
        · cases hdecode
          cases h
          exact Or.inr (Or.inl rfl)
      · cases hdecode
        cases h
        exact Or.inr (Or.inl rfl)

/-- The one account with this id. -/
theorem Store.Sane.findById_iff (h : w.Sane s) {id : UserId} {user : Account} :
    findById w.accounts id = some user ↔ user ∈ w.accounts ∧ user.id = id := by
  constructor
  · intro hfind
    obtain ⟨huser, hid⟩ := findById_eq_some hfind
    exact ⟨huser, by exact_mod_cast hid⟩
  · rintro ⟨huser, rfl⟩
    cases hfind : findById w.accounts user.id with
    | none => exact absurd (List.find?_eq_none.mp hfind user huser) (by simp)
    | some a =>
      obtain ⟨ha, hid⟩ := findById_eq_some hfind
      rw [List.inj_on_of_nodup_map h.ids ha huser (by exact_mod_cast hid)]

/-- **What a token opens.** A token that a login has issued stands for an account, which was
registered under the address of the login. After every run from there, a request with it that
nothing disturbs

* is let in exactly from the second of the issue on, before the minutes of the settings are over,
  while the account is there and active, and as this account, still under the same address;
* is told that the token has expired exactly when these minutes are over;
* is told that the account is deactivated exactly while the token is good and the account is not
  active. -/
theorem token_admits_iff {D : Pool (sessions s) → Label (sessions s) → Prop} {clock : DateTime}
    {ls : List (Label (sessions s))} {P : Pool (sessions s)}
    (h : Run (sessions s).system D ⟨.initial clock, []⟩ ls P) {address password : String}
    {r : TokenResponse}
    (hissued : .returned i (.login address password) (.ok (.token r)) ∈ P.shared.history)
    {scheme : String} (hscheme : lower s.tables scheme.toList = "bearer".toList)
    (jti : String) (j : Nat) :
    ∃ id issuedAt, P.shared.LoggedIn s i address password id issuedAt ∧
      r.tokenType = "bearer" ∧ r.expiresIn = s.accessTokenExpireMinutes * 60 ∧
      (∀ user ∈ P.shared.accounts, user.id = id → user.email = normaliseEmail s.tables address) ∧
      ∃ result w, alone s jti j (.enter (some ⟨scheme, r.accessToken⟩)) P.shared =
          some (result, w) ∧ w.accounts = P.shared.accounts ∧
        (∀ user, result = .ok (.user user) ↔ Good s issuedAt P.shared.clock ∧
          user ∈ P.shared.accounts ∧ user.id = id ∧ user.isActive = true) ∧
        (result = .error (.authentication "Token has expired") ↔
          (seconds issuedAt + s.accessTokenExpireMinutes * 60) * 1000000 ≤ P.shared.clock) ∧
        (result = .error (.authentication "This account is deactivated.") ↔
          Good s issuedAt P.shared.clock ∧ ∃ user ∈ P.shared.accounts, user.id = id ∧
            user.isActive = false) := by
  obtain ⟨-, -, hs, -⟩ := sane_of_run h
  obtain ⟨user, issuedAt, jti', rfl, hlimit, hlogin⟩ := hs.loggedIn hissued
  obtain ⟨row, form, hrow, hid, hemail, -⟩ := hlogin.account
  have hsubject := tokenSubject_issued (s := s) hlimit issuedAt P.shared.clock jti'
  have hnonempty : (tokenResponse s user issuedAt jti').accessToken.isEmpty = false :=
    s.jwt.encode_nonempty _
  obtain ⟨w, halone, haccounts⟩ := alone_enter (s := s) jti j hscheme hnonempty (w := P.shared)
    (fun id hok => by
      obtain ⟨-, rfl⟩ := (hsubject id).mp hok
      exact ⟨by omega, by exact_mod_cast hlimit⟩)
  refine ⟨user.id, issuedAt, hlogin, rfl, ?_, ?_, _, w, halone, haccounts, ?_⟩
  · change (s.accessTokenExpireMinutes * 60000000).tdiv 1000000 = _
    rw [show s.accessTokenExpireMinutes * 60000000 = s.accessTokenExpireMinutes * 60 * 1000000 by
      omega, Int.mul_tdiv_cancel _ (by omega)]
  · intro a ha hsame
    obtain ⟨row', form', hrow', hid', hemail', -⟩ := hs.known a ha
    obtain rfl := hs.row_eq hrow hrow' (hid.trans (hsame.symm.trans hid'))
    exact hemail'.trans hemail
  · have hexpired := tokenSubject_expired (s := s) hlimit issuedAt P.shared.clock jti'
    by_cases hgood : Good s issuedAt P.shared.clock
    · have hok := (hsubject user.id).mpr ⟨hgood, rfl⟩
      have hnot := not_le.mpr hgood.2
      rw [hok]
      simp only [hgood, hnot, true_and, ← and_assoc, ← hs.findById_iff, Except.bind]
      cases hfind : findById P.shared.accounts user.id with
      | none => simp [requireActive, Except.map]
      | some a =>
        cases hactive : a.isActive with
        | false => simp [requireActive, hactive, Except.map]
        | true =>
          simp only [requireActive, hactive, Except.map, if_true, Except.ok.injEq, Reply.user.injEq,
            Option.some_inj, iff_self_and, reduceCtorEq, false_iff, not_exists]
          refine ⟨⟨?_, trivial⟩, ?_⟩
          · rintro b rfl
            exact hactive
          rintro b ⟨rfl, hinactive⟩
          rw [hactive] at hinactive
          cases hinactive
    · cases hfail : tokenSubject s (tokenResponse s user issuedAt jti').accessToken
          P.shared.clock with
      | ok id => exact absurd ((hsubject id).mp hfail).1 hgood
      | error e =>
        rw [hfail] at hexpired
        have hother : e ≠ .authentication "This account is deactivated." := by
          rcases tokenSubject_error hfail with rfl | rfl | rfl <;> simp
        simp [hgood, Except.bind, ← hexpired, hother]

theorem token_admits_iff_visit : ∃ P,
    Run (sessions Auth.Sample.security).system Unforged Sample.start Sample.visit P ∧
      ∃ id issuedAt,
        P.shared.LoggedIn Auth.Sample.security 0 " alice@X.com" "password" id issuedAt ∧
        ∀ user ∈ P.shared.accounts, user.id = id → user.email = "alice@x.com" := by
  have h := (System.run_get Sample.visit_follows).mono fun _ _ => Sample.unforged_of_presents
  have hemail : normaliseEmail Auth.Sample.security.tables " alice@X.com" = "alice@x.com" := by
    decide +kernel
  have hscheme : lower Auth.Sample.security.tables "BEARER".toList = "bearer".toList := by
    decide +kernel
  obtain ⟨id, issuedAt, hlogin, -, -, haccount, -⟩ :=
    token_admits_iff h Sample.visit_issued hscheme "other" 2
  exact ⟨_, h, id, issuedAt, hlogin, hemail ▸ haccount⟩

end AutoTrader.Session
