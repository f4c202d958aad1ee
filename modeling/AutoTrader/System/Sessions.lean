import AutoTrader.Coroutine.Pool
import AutoTrader.Services.Session

/-!
# Logins and sessions at once

Any number of logins and of requests to protected routes over one table of accounts, each a
thread. Between their operations accounts are registered, deactivated, activated again and
removed, and the clock is set to whatever the machine has; the environment may fail every
operation.

Every request keeps a contract (`conduct`), whose phases say how far it has come, and an
invariant relates the phases to the history (`Sane`). What a registration adds is the row that
`register_user` commits, with the id that the sequence has given to it.
-/

namespace AutoTrader.Session

open Python Coroutine Transition Auth

/-! ## The store -/

/-- What happened so far, oldest first. Nothing reads it. -/
inductive Entry
  | registered (row : Account) (form : UserCreate)
  | activated (id : UserId) (active : Bool)
  | removed (id : UserId)
  | asked (task : Task)
  | clocked (call : Nat) (now : DateTime)
  | read (call : Nat) (id : Int) (found : Option Account)
  | returned (call : Nat) (task : Task) (result : Except Exc Reply)
  deriving DecidableEq

structure Store where
  accounts : List Account
  clock : DateTime
  history : List Entry

/-- The integers of the column `users.id`. -/
def idLimit : Nat := 2147483648

def findById (accounts : List Account) (id : Int) : Option Account :=
  accounts.find? fun a => (a.id : Int) = id

def findByEmail (accounts : List Account) (email : String) : Option Account :=
  accounts.find? fun a => a.email = email

namespace Entry

def account? : Entry → Option Account
  | registered row _ => some row
  | _ => none

/-- What an entry makes of the accounts. -/
def apply (accounts : List Account) : Entry → List Account
  | registered row _ => accounts ++ [row]
  | activated id active =>
    accounts.map fun a => if a.id = id then { a with isActive := active } else a
  | removed id => accounts.filter fun a => a.id ≠ id
  | _ => accounts

end Entry

/-- The accounts after what happened. -/
def replay (es : List Entry) : List Account := es.foldl Entry.apply []

namespace Store

def note (w : Store) (e : Entry) : Store := { w with history := w.history ++ [e] }

/-- An entry that is carried out. -/
def perform (w : Store) (e : Entry) : Store :=
  { w with accounts := e.apply w.accounts, history := w.history ++ [e] }

/-- The id is fresh and fits its column, and no account has the address. -/
def admits (w : Store) (row : Account) : Bool :=
  row.id < idLimit && (w.history.filterMap Entry.account?).all (fun a => a.id ≠ row.id) &&
    w.accounts.all fun a => a.email ≠ row.email

end Store

/-- How the environment resolves an operation. -/
inductive Choice
  | done
  | failed
  | named (jti : String)

inductive Event
  | register (id : UserId) (form : UserCreate) (salt : String)
  | activate (id : UserId) (active : Bool)
  | remove (id : UserId)
  | tick (d : Int)
  | request (task : Task)

def exec (s : Security) (call : Nat) (w : Store) : (o : Op) → Choice → Option (o.Res × Store)
  | .selectByEmail email, .done => some (.ok (findByEmail w.accounts email), w)
  | .selectByEmail _, .failed => some (.error .other, w)
  | .selectById id, .done =>
    if -idLimit ≤ id ∧ id < idLimit then
      some (.ok (findById w.accounts id), w.note (.read call id (findById w.accounts id)))
    else some (.error .other, w)
  | .selectById _, .failed => some (.error .other, w)
  | .verifyPassword password passwordHash, .done =>
    some (some (Auth.verifyPassword s.bcrypt password passwordHash), w)
  | .verifyPassword _ _, .failed => some (none, w)
  | .clock, .done => some (w.clock, w.note (.clocked call w.clock))
  | .uuid, .named jti => some (jti, w)
  | .close task result, .done => some ((), w.note (.returned call task result))
  | _, _ => none

/-- The row that a registration commits. -/
def registeredRow (s : Security) (id : UserId) (form : UserCreate) (passwordHash : String) :
    Account :=
  { id := id, email := normaliseEmail s.tables form.email, passwordHash := passwordHash,
    isActive := true }

def outside (w : Store) : Reaction Store Task := ⟨w, none, fun _ _ => false⟩

def react (s : Security) (w : Store) : Event → Option (Reaction Store Task)
  | .register id form salt =>
    (hashPassword s.bcrypt form.password salt).bind fun passwordHash =>
      if w.admits (registeredRow s id form passwordHash) then
        some (outside (w.perform (.registered (registeredRow s id form passwordHash) form)))
      else none
  | .activate id active => some (outside (w.perform (.activated id active)))
  | .remove id => some (outside (w.perform (.removed id)))
  | .tick d => some (outside { w with clock := w.clock + d })
  | .request task => some ⟨w.note (.asked task), some task, fun _ _ => false⟩

/-- The requests as a host of their coroutines. -/
abbrev sessions (s : Security) : Host effects where
  Shared := Store
  Tag := Task
  Choice := Choice
  Event := Event
  program := Task.program s
  exec call _ w := exec s call w
  react w _ e := react s w e

def Store.initial (clock : DateTime) : Store := ⟨[], clock, []⟩

/-! ## The contract of a request -/

inductive Phase
  | started
  | found (user : Account)
  | verified (user : Account)
  | timed (user : Account) (issuedAt : DateTime)
  | named (user : Account) (issuedAt : DateTime) (jti : String)
  /-- A request with a token has read the clock. -/
  | heard (now : DateTime)
  | loaded (now : DateTime) (found : Option Account)
  | refused
  | ended

structure Stance where
  task : Task
  phase : Phase

/-- Where an operation leads. -/
def Phase.after (p : Phase) : (o : Op) → o.Res → Phase
  | .selectByEmail _, .ok (some user) => .found user
  | .selectByEmail _, _ => .refused
  | .verifyPassword _ _, some true =>
    match p with
    | .found user => .verified user
    | _ => .refused
  | .verifyPassword _ _, _ => .refused
  | .clock, now =>
    match p with
    | .verified user => .timed user now
    | _ => .heard now
  | .uuid, jti =>
    match p with
    | .timed user issuedAt => .named user issuedAt jti
    | _ => .refused
  | .selectById _, .ok row =>
    match p with
    | .heard now => .loaded now row
    | _ => .refused
  | .selectById _, .error _ => .refused
  | .close _ _, _ => .ended

section Contract

variable (s : Security)

/-- The task is a request with this token. -/
def Task.Bears (task : Task) (token : String) : Prop :=
  ∃ credentials, task = .enter credentials ∧ bearerToken s credentials = .ok token

/-- How a request may end from here. -/
def Stance.mayReturn (q : Stance) : Except Exc Reply → Prop
  | .ok (.token r) => ∃ user issuedAt jti, q.phase = .named user issuedAt jti ∧
      r = tokenResponse s user issuedAt jti
  | .ok (.user user) => ∃ now, q.phase = .loaded now (some user) ∧ user.isActive = true
  | .error _ => True

def Stance.permits (q : Stance) : Op → Prop
  | .selectByEmail email => q.phase = .started ∧ ∃ address password,
      q.task = .login address password ∧ email = normaliseEmail s.tables address
  | .verifyPassword password passwordHash => ∃ address user, q.task = .login address password ∧
      q.phase = .found user ∧ passwordHash = user.passwordHash
  | .clock => (∃ user, q.phase = .verified user ∧ user.isActive = true) ∨
      (q.phase = .started ∧ ∃ token, q.task.Bears s token)
  | .uuid => ∃ user issuedAt, q.phase = .timed user issuedAt
  | .selectById id => ∃ token now, q.task.Bears s token ∧ q.phase = .heard now ∧
      tokenSubject s token now = .ok id
  | .close task result => task = q.task ∧ q.mayReturn s result

abbrev conduct : Contract effects where
  State := Stance
  Move := Unit
  permits q _ o := q.permits s o
  answers _ _ _ := True
  next q _ o r := { q with phase := q.phase.after o r }
  final q := q.phase = .ended

end Contract

/-! ## Every request keeps the contract -/

variable {s : Security} {q : Stance}

theorem meets_login {address password : String} (htask : q.task = .login address password)
    (hq : q.phase = .started) :
    (Session.login s address password).run.Meets (conduct s) q fun result q' =>
      q'.task = q.task ∧ q'.mayReturn s result := by
  rw [login_run]
  refine Free.meets_op_of ()
    ⟨hq, address, password, htask, normaliseEmail_idem _ _⟩ fun found _ => ?_
  rcases found with e | _ | user
  · exact ⟨rfl, trivial⟩
  · exact ⟨rfl, trivial⟩
  · refine Free.meets_op_of () ⟨address, user, htask, rfl, rfl⟩ fun verified _ => ?_
    rcases verified with _ | _ | _
    · exact ⟨rfl, trivial⟩
    · exact ⟨rfl, trivial⟩
    · simp only []
      split
      · rename_i hactive
        refine Free.meets_op_of () (Or.inl ⟨user, rfl, hactive⟩) fun issuedAt _ => ?_
        refine Free.meets_op_of () ⟨user, issuedAt, rfl⟩ fun jti _ => ?_
        exact ⟨rfl, user, issuedAt, jti, rfl, rfl⟩
      · exact ⟨rfl, trivial⟩

theorem requireActive_eq_ok {found : Option Account} {user : Account}
    (h : requireActive found = .ok user) :
    found = some user ∧ user.isActive = true := by
  cases found with
  | none => cases h
  | some a =>
    simp only [requireActive] at h
    split at h
    · rename_i hactive
      cases h
      exact ⟨rfl, hactive⟩
    · cases h

theorem meets_enter {credentials : Option Credentials} (htask : q.task = .enter credentials)
    (hq : q.phase = .started) :
    ((Task.enter credentials).app s).run.Meets (conduct s) q fun result q' =>
      q'.task = q.task ∧ q'.mayReturn s result := by
  rw [enter_run]
  cases htoken : bearerToken s credentials with
  | error e => exact ⟨rfl, trivial⟩
  | ok token =>
    have hbears : q.task.Bears s token := ⟨credentials, htask, htoken⟩
    refine Free.meets_op_of () (Or.inr ⟨hq, token, hbears⟩) fun now _ => ?_
    have hphase : q.phase.after .clock now = .heard now := by rw [hq]; rfl
    simp only []
    cases hsubject : tokenSubject s token now with
    | error e => exact ⟨rfl, trivial⟩
    | ok id =>
      refine Free.meets_op_of () ⟨token, now, hbears, hphase, hsubject⟩ fun found _ => ?_
      rcases found with e | found
      · exact ⟨rfl, trivial⟩
      · refine ⟨rfl, ?_⟩
        have hloaded : (q.phase.after .clock now).after (.selectById id) (.ok found) =
            .loaded now found := by rw [hphase]; rfl
        cases hadmit : requireActive found with
        | error e => exact trivial
        | ok user =>
          obtain ⟨rfl, hactive⟩ := requireActive_eq_ok hadmit
          exact ⟨now, hloaded, hactive⟩

def Stance.start (task : Task) : Stance := ⟨task, .started⟩

theorem keeps_conduct (task : Task) : (task.program s).Keeps (conduct s) (.start task) := by
  have hmeets : (task.app s).run.Meets (conduct s) (.start task) fun result q' =>
      q'.task = task ∧ q'.mayReturn s result := by
    cases task with
    | login address password => exact meets_login rfl rfl
    | enter credentials => exact meets_enter rfl rfl
  refine Free.Meets.bind hmeets ?_
  rintro result q' ⟨htask, hreturn⟩
  exact Free.meets_op_of () ⟨htask.symm, hreturn⟩ fun _ _ => rfl

/-! ## What the history says -/

namespace Store

/-- The account was registered; only its activity may have changed since. -/
def Knows (w : Store) (user : Account) : Prop :=
  ∃ row form, .registered row form ∈ w.history ∧ user.id = row.id ∧ user.email = row.email ∧
    user.passwordHash = row.passwordHash

variable (s : Security)

/-- The task is a login to this account, with a password that was verified. -/
def Proves (w : Store) (task : Task) (user : Account) : Prop :=
  ∃ address password, task = .login address password ∧ w.Knows user ∧
    user.email = normaliseEmail s.tables address ∧
    Auth.verifyPassword s.bcrypt password user.passwordHash = true

/-- What stands behind the result of a request. -/
def Outcome (w : Store) (i : Nat) (task : Task) : Except Exc Reply → Prop
  | .ok (.token r) => ∃ user issuedAt jti, w.Proves s task user ∧ user.isActive = true ∧
      .clocked i issuedAt ∈ w.history ∧ r = tokenResponse s user issuedAt jti
  | .ok (.user user) => ∃ token now, task.Bears s token ∧ .clocked i now ∈ w.history ∧
      tokenSubject s token now = .ok (user.id : Int) ∧ .read i user.id (some user) ∈ w.history ∧
      user.isActive = true
  | .error _ => True

/-- What a phase says about the store. -/
def Stands (w : Store) (i : Nat) (q : Stance) : Prop :=
  match q.phase with
  | .started | .refused | .ended => True
  | .found user => w.Knows user ∧ ∃ address password, q.task = .login address password ∧
      user.email = normaliseEmail s.tables address
  | .verified user => w.Proves s q.task user
  | .timed user issuedAt | .named user issuedAt _ => w.Proves s q.task user ∧
      user.isActive = true ∧ .clocked i issuedAt ∈ w.history
  | .heard now => .clocked i now ∈ w.history
  | .loaded now found => .clocked i now ∈ w.history ∧ ∃ token id, q.task.Bears s token ∧
      tokenSubject s token now = .ok id ∧ .read i id found ∈ w.history ∧
      ∀ user, found = some user → (user.id : Int) = id

variable {s} {w w' : Store} {i : Nat}

theorem Knows.mono {user : Account} (h : w.Knows user) (hw : w.history ⊆ w'.history) :
    w'.Knows user := by
  obtain ⟨row, form, hrow, hsame⟩ := h
  exact ⟨row, form, hw hrow, hsame⟩

theorem Proves.mono {task : Task} {user : Account} (h : w.Proves s task user)
    (hw : w.history ⊆ w'.history) : w'.Proves s task user := by
  obtain ⟨address, password, htask, hknown, hrest⟩ := h
  exact ⟨address, password, htask, hknown.mono hw, hrest⟩

theorem Outcome.mono {task : Task} {result : Except Exc Reply} (h : w.Outcome s i task result)
    (hw : w.history ⊆ w'.history) : w'.Outcome s i task result := by
  rcases result with e | r | user
  · exact trivial
  · obtain ⟨user, issuedAt, jti, hproves, hactive, hclock, hr⟩ := h
    exact ⟨user, issuedAt, jti, hproves.mono hw, hactive, hw hclock, hr⟩
  · obtain ⟨token, now, hbears, hclock, hsubject, hread, hactive⟩ := h
    exact ⟨token, now, hbears, hw hclock, hsubject, hw hread, hactive⟩

theorem Stands.mono {q : Stance} (h : w.Stands s i q) (hw : w.history ⊆ w'.history) :
    w'.Stands s i q := by
  obtain ⟨task, phase⟩ := q
  cases phase with
  | started | refused | ended => exact trivial
  | found user => exact ⟨Knows.mono h.1 hw, h.2⟩
  | verified user => exact Proves.mono h hw
  | timed user issuedAt => exact ⟨h.1.mono hw, h.2.1, hw h.2.2⟩
  | named user issuedAt jti => exact ⟨h.1.mono hw, h.2.1, hw h.2.2⟩
  | heard now => exact hw h
  | loaded now found =>
    obtain ⟨hclock, token, id, hbears, hsubject, hread, hid⟩ := h
    exact ⟨hw hclock, token, id, hbears, hsubject, hw hread, hid⟩

/-! ## The invariant -/

/-- The accounts are what the history makes of them, and the history says what stands behind its
entries. -/
structure Sane (s : Security) (w : Store) : Prop where
  replayed : w.accounts = replay w.history
  known : ∀ a ∈ w.accounts, w.Knows a
  rows : ∀ row form, .registered row form ∈ w.history → row.id < idLimit ∧
    row.email = normaliseEmail s.tables form.email ∧
    ∃ salt, hashPassword s.bcrypt form.password salt = some row.passwordHash
  fresh : ((w.history.filterMap Entry.account?).map fun a => a.id).Nodup
  ids : (w.accounts.map fun a => a.id).Nodup
  emails : (w.accounts.map fun a => a.email).Nodup
  returned : ∀ i task result, .returned i task result ∈ w.history →
    .asked task ∈ w.history ∧ w.Outcome s i task result
  reads : ∀ pre post i id found, w.history = pre ++ .read i id found :: post →
    found = findById (replay pre) id

/-- What an entry needs to be added. -/
structure Fits (s : Security) (w : Store) (e : Entry) : Prop where
  row : ∀ row form, e = .registered row form → w.admits row = true ∧
    row.email = normaliseEmail s.tables form.email ∧
    ∃ salt, hashPassword s.bcrypt form.password salt = some row.passwordHash
  outcome : ∀ i task result, e = .returned i task result →
    .asked task ∈ w.history ∧ w.Outcome s i task result
  found : ∀ i id found, e = .read i id found → found = findById w.accounts id

theorem admits_eq_true {row : Account} (h : w.admits row = true) : row.id < idLimit ∧
    (∀ row' form, .registered row' form ∈ w.history → row'.id ≠ row.id) ∧
      ∀ a ∈ w.accounts, a.email ≠ row.email := by
  simp only [admits, Bool.and_eq_true, decide_eq_true_eq, List.all_eq_true] at h
  refine ⟨h.1.1, fun row' form hrow => ?_, h.2⟩
  exact h.1.2 row' (List.mem_filterMap.mpr ⟨_, hrow, rfl⟩)

theorem note_eq {e : Entry} (h : e.apply w.accounts = w.accounts) : w.note e = w.perform e := by
  rw [note, Store.perform, h]

theorem subset_perform (w : Store) (e : Entry) : w.history ⊆ (w.perform e).history :=
  List.subset_append_left _ _

/-- An account after an entry is one before it, up to its activity, or the new row. -/
theorem mem_apply {accounts : List Account} {e : Entry} {a : Account} (h : a ∈ e.apply accounts) :
    (∃ b ∈ accounts, a.id = b.id ∧ a.email = b.email ∧ a.passwordHash = b.passwordHash) ∨
      ∃ form, e = .registered a form := by
  cases e with
  | registered row form =>
    rcases List.mem_append.mp h with h | h
    · exact Or.inl ⟨a, h, rfl, rfl, rfl⟩
    · rw [List.mem_singleton.mp h]
      exact Or.inr ⟨form, rfl⟩
  | activated id active =>
    obtain ⟨b, hb, rfl⟩ := List.mem_map.mp h
    refine Or.inl ⟨b, hb, ?_⟩
    split <;> exact ⟨rfl, rfl, rfl⟩
  | removed id => exact Or.inl ⟨a, List.mem_of_mem_filter h, rfl, rfl, rfl⟩
  | asked | clocked | read | returned => exact Or.inl ⟨a, h, rfl, rfl, rfl⟩

/-- A key that no entry changes stays unique. -/
theorem nodup_apply {β : Type} (f : Account → β)
    (hf : ∀ a : Account, ∀ active, f { a with isActive := active } = f a) {accounts : List Account}
    {e : Entry} (h : (accounts.map f).Nodup)
    (hnew : ∀ row form, e = .registered row form → ∀ a ∈ accounts, f a ≠ f row) :
    ((e.apply accounts).map f).Nodup := by
  cases e with
  | registered row form =>
    change ((accounts ++ [row]).map f).Nodup
    exact TradeTable.nodup_concat h (hnew row form rfl)
  | activated id active =>
    change ((accounts.map fun a => if a.id = id then { a with isActive := active } else a).map
      f).Nodup
    rw [List.map_map, List.map_congr_left (g := f)]
    · exact h
    · intro a _
      simp only [Function.comp_apply]
      split
      · exact hf a active
      · rfl
  | removed id => exact h.sublist (List.filter_sublist.map f)
  | asked | clocked | read | returned => exact h

theorem replay_concat (es : List Entry) (e : Entry) : replay (es ++ [e]) = e.apply (replay es) := by
  rw [replay, List.foldl_append]
  rfl

namespace Sane

theorem perform (h : w.Sane s) {e : Entry} (he : w.Fits s e) : (w.perform e).Sane s where
  replayed := by
    change e.apply w.accounts = replay (w.history ++ [e])
    rw [replay_concat, h.replayed]
  known := by
    intro a ha
    rcases mem_apply ha with ⟨b, hb, hid, hemail, hhash⟩ | ⟨form, rfl⟩
    · obtain ⟨row, form, hrow, hid', hemail', hhash'⟩ := h.known b hb
      exact ⟨row, form, subset_perform w e hrow, hid.trans hid', hemail.trans hemail',
        hhash.trans hhash'⟩
    · exact ⟨a, form, List.mem_append_right _ List.mem_cons_self, rfl, rfl, rfl⟩
  rows := by
    intro row form hrow
    rcases List.mem_append.mp hrow with hrow | hrow
    · exact h.rows row form hrow
    · obtain ⟨hadmits, hrest⟩ := he.row row form (List.mem_singleton.mp hrow).symm
      exact ⟨(admits_eq_true hadmits).1, hrest⟩
  fresh := by
    change (((w.history ++ [e]).filterMap Entry.account?).map fun a => a.id).Nodup
    rw [List.filterMap_append]
    cases e with
    | registered row form =>
      refine TradeTable.nodup_concat h.fresh fun a ha => ?_
      obtain ⟨x, hx, hxa⟩ := List.mem_filterMap.mp ha
      cases x with
      | registered row' form' =>
        cases hxa
        exact (admits_eq_true (he.row row form rfl).1).2.1 _ form' hx
      | activated | removed | asked | clocked | read | returned => cases hxa
    | activated | removed | asked | clocked | read | returned =>
      simpa [List.filterMap_cons, Entry.account?] using h.fresh
  ids := by
    refine nodup_apply (fun a => a.id) (fun _ _ => rfl) h.ids fun row form heq a ha => ?_
    obtain ⟨row', form', hrow', hid, -⟩ := h.known a ha
    rw [hid]
    exact (admits_eq_true (he.row row form heq).1).2.1 row' form' hrow'
  emails := nodup_apply (fun a => a.email) (fun _ _ => rfl) h.emails fun row form heq a ha =>
    (admits_eq_true (he.row row form heq).1).2.2 a ha
  returned := by
    intro i task result hreturned
    rcases List.mem_append.mp hreturned with hold | hnew
    · obtain ⟨hasked, houtcome⟩ := h.returned i task result hold
      exact ⟨subset_perform w e hasked, houtcome.mono (subset_perform w e)⟩
    · obtain ⟨hasked, houtcome⟩ := he.outcome i task result (List.mem_singleton.mp hnew).symm
      exact ⟨subset_perform w e hasked, houtcome.mono (subset_perform w e)⟩
  reads := by
    intro pre post i id found hsplit
    change w.history ++ [e] = _ at hsplit
    rcases List.eq_nil_or_concat post with rfl | ⟨post', e', rfl⟩
    · -- the entry itself
      obtain ⟨rfl, heq⟩ := List.append_inj' hsplit rfl
      rw [← h.replayed]
      exact he.found i id found (List.cons.inj heq).1
    · rw [List.concat_eq_append, ← List.cons_append, ← List.append_assoc] at hsplit
      exact h.reads pre post' i id found (List.append_inj' hsplit rfl).1

theorem tick (h : w.Sane s) (d : Int) : ({ w with clock := w.clock + d } : Store).Sane s :=
  ⟨h.replayed, h.known, h.rows, h.fresh, h.ids, h.emails, h.returned, h.reads⟩

theorem row_eq (h : w.Sane s) {row row' : Account} {form form' : UserCreate}
    (hrow : .registered row form ∈ w.history) (hrow' : .registered row' form' ∈ w.history)
    (hid : row.id = row'.id) : row = row' :=
  List.inj_on_of_nodup_map h.fresh (List.mem_filterMap.mpr ⟨_, hrow, rfl⟩)
    (List.mem_filterMap.mpr ⟨_, hrow', rfl⟩) hid

end Sane

end Store

/-! ## One step -/

section Steps

variable {w w' : Store} {i : Nat}

theorem findById_eq_some {accounts : List Account} {id : Int} {user : Account}
    (h : findById accounts id = some user) : user ∈ accounts ∧ (user.id : Int) = id :=
  ⟨List.mem_of_find?_eq_some h, by simpa using List.find?_some h⟩

theorem findByEmail_eq_some {accounts : List Account} {email : String} {user : Account}
    (h : findByEmail accounts email = some user) : user ∈ accounts ∧ user.email = email :=
  ⟨List.mem_of_find?_eq_some h, by simpa using List.find?_some h⟩

/-- **One operation keeps the invariant**, and leads to a phase that says what is so. -/
theorem Store.Sane.act (h : w.Sane s) (hasked : .asked q.task ∈ w.history)
    (hstands : w.Stands s i q) {o : Op} (hp : q.permits s o) {c : Choice} {r : o.Res}
    (hx : exec s i w o c = some (r, w')) :
    w'.Sane s ∧ w.history ⊆ w'.history ∧ w'.Stands s i { q with phase := q.phase.after o r } := by
  cases o with
  | selectByEmail email =>
    obtain ⟨hphase, address, password, htask, rfl⟩ := hp
    cases c with
    | done =>
      cases hx
      refine ⟨h, List.Subset.refl _, ?_⟩
      cases hfind : findByEmail w.accounts (normaliseEmail s.tables address) with
      | none => exact trivial
      | some user =>
        obtain ⟨huser, hemail⟩ := findByEmail_eq_some hfind
        exact ⟨h.known user huser, address, password, htask, hemail⟩
    | failed =>
      cases hx
      exact ⟨h, List.Subset.refl _, trivial⟩
    | named _ => cases hx
  | selectById id =>
    obtain ⟨token, now, hbears, hphase, hsubject⟩ := hp
    rw [Store.Stands, hphase] at hstands
    cases c with
    | done =>
      simp only [exec] at hx
      split at hx
      · cases hx
        have hfits : w.Fits s (.read i id (findById w.accounts id)) :=
          ⟨fun _ _ he => (by cases he), fun _ _ _ he => (by cases he), fun _ _ _ he => by
            cases he; rfl⟩
        rw [Store.note_eq rfl]
        refine ⟨h.perform hfits, Store.subset_perform _ _, ?_⟩
        simp only [Phase.after, hphase]
        exact ⟨Store.subset_perform _ _ hstands, token, id, hbears, hsubject,
          List.mem_append_right _ List.mem_cons_self, fun user hfind => (findById_eq_some hfind).2⟩
      · cases hx
        exact ⟨h, List.Subset.refl _, trivial⟩
    | failed =>
      cases hx
      exact ⟨h, List.Subset.refl _, trivial⟩
    | named _ => cases hx
  | verifyPassword password passwordHash =>
    obtain ⟨address, user, htask, hphase, rfl⟩ := hp
    rw [Store.Stands, hphase] at hstands
    obtain ⟨hknown, address', password', htask', hemail⟩ := hstands
    rw [htask] at htask'
    cases htask'
    cases c with
    | done =>
      cases hx
      refine ⟨h, List.Subset.refl _, ?_⟩
      cases hverified : Auth.verifyPassword s.bcrypt password user.passwordHash with
      | false => exact trivial
      | true =>
        simp only [Phase.after, hphase]
        exact ⟨address, password, htask, hknown, hemail, hverified⟩
    | failed =>
      cases hx
      exact ⟨h, List.Subset.refl _, trivial⟩
    | named _ => cases hx
  | clock =>
    cases c with
    | done =>
      cases hx
      have hfits : w.Fits s (.clocked i w.clock) :=
        ⟨fun _ _ he => (by cases he), fun _ _ _ he => (by cases he), fun _ _ _ he => (by cases he)⟩
      have hclocked : .clocked i w.clock ∈ (w.perform (.clocked i w.clock)).history :=
        List.mem_append_right _ List.mem_cons_self
      rw [Store.note_eq rfl]
      refine ⟨h.perform hfits, Store.subset_perform _ _, ?_⟩
      rcases hp with ⟨user, hphase, hactive⟩ | ⟨hphase, token, hbears⟩
      · rw [Store.Stands, hphase] at hstands
        simp only [Phase.after, hphase]
        exact ⟨hstands.mono (Store.subset_perform _ _), hactive, hclocked⟩
      · simp only [Phase.after, hphase]
        exact hclocked
    | failed | named _ => cases hx
  | uuid =>
    obtain ⟨user, issuedAt, hphase⟩ := hp
    rw [Store.Stands, hphase] at hstands
    cases c with
    | named jti =>
      cases hx
      refine ⟨h, List.Subset.refl _, ?_⟩
      simp only [Phase.after, hphase]
      exact hstands
    | done | failed => cases hx
  | close task result =>
    obtain ⟨rfl, hreturn⟩ := hp
    cases c with
    | done =>
      cases hx
      have houtcome : w.Outcome s i q.task result := by
        rcases result with e | r | user
        · exact trivial
        · obtain ⟨user, issuedAt, jti, hphase, hr⟩ := hreturn
          rw [Store.Stands, hphase] at hstands
          exact ⟨user, issuedAt, jti, hstands.1, hstands.2.1, hstands.2.2, hr⟩
        · obtain ⟨now, hphase, hactive⟩ := hreturn
          rw [Store.Stands, hphase] at hstands
          obtain ⟨hclock, token, id, hbears, hsubject, hread, hid⟩ := hstands
          obtain rfl := hid user rfl
          exact ⟨token, now, hbears, hclock, hsubject, hread, hactive⟩
      have hfits : w.Fits s (.returned i q.task result) :=
        ⟨fun _ _ he => (by cases he), fun _ _ _ he => (by cases he; exact ⟨hasked, houtcome⟩),
          fun _ _ _ he => (by cases he)⟩
      rw [Store.note_eq rfl]
      exact ⟨h.perform hfits, Store.subset_perform _ _, trivial⟩
    | failed | named _ => cases hx

/-- A request that starts was asked. -/
theorem asked_of_react {e : Event} {x : Reaction Store Task} (hx : react s w e = some x)
    {task : Task} (htask : x.spawn = some task) :
    e = .request task ∧ .asked task ∈ x.shared.history := by
  cases e with
  | request task' =>
    cases hx
    cases htask
    exact ⟨rfl, List.mem_append_right _ List.mem_cons_self⟩
  | register id form salt =>
    obtain ⟨passwordHash, -, hx⟩ := Option.bind_eq_some_iff.mp hx
    split at hx
    · cases hx
      cases htask
    · cases hx
  | activate | remove | tick =>
    cases hx
    cases htask

theorem Store.Sane.event (h : w.Sane s) {e : Event} {x : Reaction Store Task}
    (hx : react s w e = some x) : x.shared.Sane s ∧ w.history ⊆ x.shared.history := by
  have hplain : ∀ y : Entry, (∀ row form, y ≠ .registered row form) →
      (∀ i task result, y ≠ .returned i task result) → (∀ i id found, y ≠ .read i id found) →
        (w.perform y).Sane s ∧ w.history ⊆ (w.perform y).history := fun y hrow hret hread =>
    ⟨h.perform ⟨fun row form he => absurd he (hrow row form), fun i task r he =>
      absurd he (hret i task r), fun i id found he => absurd he (hread i id found)⟩,
      Store.subset_perform _ _⟩
  cases e with
  | register id form salt =>
    obtain ⟨passwordHash, hhash, hx⟩ := Option.bind_eq_some_iff.mp hx
    split at hx
    · rename_i hadmits
      cases hx
      refine ⟨h.perform ⟨?_, fun _ _ _ he => (by cases he), fun _ _ _ he => (by cases he)⟩,
        Store.subset_perform _ _⟩
      intro row form' he
      cases he
      exact ⟨hadmits, rfl, salt, hhash⟩
    · cases hx
  | activate id active | remove id =>
    cases hx
    exact hplain _ (fun _ _ he => (by cases he)) (fun _ _ _ he => (by cases he))
      (fun _ _ _ he => (by cases he))
  | tick d =>
    cases hx
    exact ⟨h.tick d, List.Subset.refl _⟩
  | request task =>
    cases hx
    rw [show w.note (.asked task) = w.perform (.asked task) from Store.note_eq rfl]
    exact hplain _ (fun _ _ he => (by cases he)) (fun _ _ _ he => (by cases he))
      (fun _ _ _ he => (by cases he))

end Steps

/-! ## Runs -/

theorem sane_initial (clock : DateTime) : (Store.initial clock).Sane s where
  replayed := rfl
  known _ ha := by cases ha
  rows _ _ hrow := by cases hrow
  fresh := List.nodup_nil
  ids := List.nodup_nil
  emails := List.nodup_nil
  returned _ _ _ hreturned := by cases hreturned
  reads pre post _ _ _ hsplit := by
    have hlength := congrArg List.length hsplit
    simp [Store.initial] at hlength

/-- **In every run** the history says what stands behind each request, and each phase what is
so. -/
theorem sane_of_run {D : Pool (sessions s) → Label (sessions s) → Prop} {clock : DateTime}
    {ls : List (Label (sessions s))} {P : Pool (sessions s)}
    (h : Run (sessions s).system D ⟨.initial clock, []⟩ ls P) :
    ∃ g, Ghosted (conduct s) P g ∧ P.shared.Sane s ∧
      ∀ i q, g i = some q → .asked q.task ∈ P.shared.history ∧ P.shared.Stands s i q := by
  refine Coroutine.ghosts (K := conduct s)
    (I := fun (w : Store) (g : Nat → Option Stance) => w.Sane s ∧
      ∀ i q, g i = some q → .asked q.task ∈ w.history ∧ w.Stands s i q) Stance.start
    keeps_conduct ?_ ?_ h
    ⟨fun _ => none, fun _ => .none, sane_initial clock, fun i q hi => (by cases hi)⟩
  · rintro P g i c tag o r w q m - hg ⟨hs, hstands⟩ hpend htag hq hp hx
    obtain ⟨hasked, hphase⟩ := hstands i q hq
    obtain ⟨hs', hgrows, hnew⟩ := hs.act hasked hphase hp hx
    refine ⟨trivial, hs', fun j p hj => ?_⟩
    rcases update_eq_some hj with ⟨rfl, rfl⟩ | ⟨-, hj⟩
    · exact ⟨hgrows hasked, hnew⟩
    · exact ⟨hgrows (hstands j p hj).1, (hstands j p hj).2.mono hgrows⟩
  · rintro P g e x - hg ⟨hs, hstands⟩ hx
    obtain ⟨hs', hgrows⟩ := hs.event hx
    refine ⟨hs', fun j p hj => ?_⟩
    rcases ghostsAfter_some hj with hold | ⟨task, hspawn, rfl⟩
    · exact ⟨hgrows (hstands j p hold).1, (hstands j p hold).2.mono hgrows⟩
    · exact ⟨(asked_of_react hx hspawn).2, trivial⟩

end AutoTrader.Session
