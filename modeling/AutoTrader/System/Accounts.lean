import AutoTrader.Coroutine.Pool
import AutoTrader.Services.Auth

/-!
# Registrations at once

Any number of calls of `register_user` over one table of users, each a thread. An INSERT of an
address that another open transaction has inserted waits until that one has ended; the
environment may fail every operation.

Every call keeps a contract (`registration`), whose phases say how far it has come, and an
invariant relates the phases to the table (`Consistent`).
-/

namespace AutoTrader.Auth

open Python Coroutine Transition

/-! ## The registry -/

/-- What happened so far, oldest first. Nothing reads it. -/
inductive Entry
  | committed (call : Nat) (row : UserRow)
  /-- The database or the worker thread failed the call. -/
  | faulted (call : Nat)
  | returned (call : Nat) (form : UserCreate) (result : Except Exc UserRow)
  deriving DecidableEq

def Entry.call : Entry → Nat
  | committed i _ | faulted i | returned i _ _ => i

def Entry.row? : Entry → Option UserRow
  | committed _ row => some row
  | _ => none

structure Registry where
  users : UsersTable
  nextUserId : UserId
  history : List Entry

/-- How the environment resolves an operation. -/
inductive Choice
  | done
  | hashed (passwordHash : String)
  /-- The operation fails and has no effect. -/
  | failed
  /-- A COMMIT takes effect, but the caller sees an error. -/
  | unacknowledged

namespace Registry

def note (w : Registry) (e : Entry) : Registry := { w with history := w.history ++ [e] }

def commit (w : Registry) (call : Nat) (row : UserRow) : Registry :=
  if h : (call, row) ∈ w.users.uncommitted then
    { w with
      users := w.users.commit call row h
      history := w.history ++ [.committed call row] }
  else w

def rollback (w : Registry) (call : Nat) : Registry := { w with users := w.users.rollback call }

end Registry

/-- The sequence of the ids advances also where the row is refused. -/
def execInsert (call : Nat) (w : Registry) (email passwordHash : String) :
    Option (Except SqlError UserRow × Registry) :=
  if w.users.isInserted email then none
  else
    let row : UserRow := { id := w.nextUserId, email := email, passwordHash := passwordHash }
    if h : w.users.Fits row.email then
      some (.ok row, { w with users := w.users.insert call row h, nextUserId := w.nextUserId + 1 })
    else some (.error .integrity, { w with nextUserId := w.nextUserId + 1 })

def exec (call : Nat) (w : Registry) : (o : Op) → Choice → Option (o.Res × Registry)
  | .selectByEmail email, .done => some (.ok (w.users.find? email), w)
  | .selectByEmail _, .failed => some (.error .other, w.note (.faulted call))
  | .hashPassword _, .hashed passwordHash => some (some passwordHash, w)
  | .hashPassword _, .failed => some (none, w.note (.faulted call))
  | .insert email passwordHash, .done => execInsert call w email passwordHash
  | .insert _ _, .failed => some (.error .other, w.note (.faulted call))
  | .commit user, .done => some (.ok (), w.commit call user)
  | .commit _, .failed => some (.error .other, w.note (.faulted call))
  | .commit user, .unacknowledged =>
    some (.error .other, (w.commit call user).note (.faulted call))
  | .rollback, .done => some (.ok (), w.rollback call)
  | .rollback, .failed => some (.error .other, w.note (.faulted call))
  | .close form result, .done =>
    some ((), (w.rollback call).note (.returned call form result))
  | _, _ => none

/-- An event is the start of a call. -/
abbrev registrations (tables : CaseTables) : Host effects where
  Shared := Registry
  Tag := UserCreate
  Choice := Choice
  Event := UserCreate
  program := UserCreate.program tables
  exec call _ w := exec call w
  react w _ form := some ⟨w, some form, fun _ _ => false⟩

/-! ## The contract of a call -/

inductive Phase
  | started
  /-- No row had the address. -/
  | free
  | hashed (passwordHash : String)
  | inserted (row : UserRow)
  /-- The index refused the row. -/
  | conflicted
  | committed (row : UserRow)
  | refused
  | faulted
  | ended (result : Except Exc UserRow)

structure Standing where
  form : UserCreate
  phase : Phase

/-- Where an operation leads. -/
def Phase.after : (o : Op) → o.Res → Phase
  | .selectByEmail _, .ok none => .free
  | .selectByEmail _, .ok (some _) => .refused
  | .selectByEmail _, .error _ => .faulted
  | .hashPassword _, some passwordHash => .hashed passwordHash
  | .hashPassword _, none => .faulted
  | .insert _ _, .ok row => .inserted row
  | .insert _ _, .error .integrity => .conflicted
  | .insert _ _, .error _ => .faulted
  | .commit user, .ok _ => .committed user
  | .commit _, .error _ => .faulted
  | .rollback, .ok _ => .refused
  | .rollback, .error _ => .faulted
  | .close _ result, _ => .ended result

section Contract

variable (tables : CaseTables)

/-- The address of the call, normalised. -/
def Standing.email (q : Standing) : String := normaliseEmail tables q.form.email

/-- How a call may end from here. -/
def Standing.mayReturn (q : Standing) (result : Except Exc UserRow) : Prop :=
  (q.phase = .refused ∧ result = .error .emailAlreadyRegistered) ∨
    (∃ row, q.phase = .committed row ∧ result = .ok row) ∨
    (q.phase = .faulted ∧ ∃ e, result = .error e ∧ e ≠ .emailAlreadyRegistered)

def Standing.permits (q : Standing) : Op → Prop
  | .selectByEmail email => q.phase = .started ∧ email = q.email tables
  | .hashPassword _ => q.phase = .free
  | .insert email passwordHash => q.phase = .hashed passwordHash ∧ email = q.email tables
  | .commit user => q.phase = .inserted user
  | .rollback => q.phase = .conflicted
  | .close form result => form = q.form ∧ q.mayReturn result

/-- An error at the COMMIT is not about the address. -/
def Op.Reliable : (o : Op) → o.Res → Prop
  | .commit _, r => r ≠ .error .integrity
  | _, _ => True

abbrev registration : Contract effects where
  State := Standing
  Move := Unit
  permits q _ o := q.permits tables o
  answers _ o r := o.Reliable r
  next q _ o r := { q with phase := Phase.after o r }
  final q := ∃ result, q.phase = .ended result

end Contract

/-! ## Every call keeps the contract -/

variable {tables : CaseTables} {q : Standing}

theorem meets_getUserByEmail {email : String} (hq : q.phase = .started)
    (hemail : normaliseEmail tables email = q.email tables) :
    (getUserByEmail tables email).run.Meets (registration tables) q fun r q' =>
      q'.form = q.form ∧ ((r = .ok none ∧ q'.phase = .free) ∨
        ((∃ u, r = .ok (some u)) ∧ q'.phase = .refused) ∨
        ((∃ e, r = .error (.sqlalchemy e)) ∧ q'.phase = .faulted)) := by
  rw [getUserByEmail, run_db, run_perform]
  refine Free.meets_op_of () ⟨hq, hemail⟩ fun r _ => ?_
  rcases r with e | _ | u
  · exact ⟨rfl, Or.inr (Or.inr ⟨⟨e, rfl⟩, rfl⟩)⟩
  · exact ⟨rfl, Or.inl ⟨rfl, rfl⟩⟩
  · exact ⟨rfl, Or.inr (Or.inl ⟨⟨u, rfl⟩, rfl⟩)⟩

theorem meets_commitUser {email passwordHash : String} (hq : q.phase = .hashed passwordHash)
    (hemail : email = q.email tables) :
    (commitUser email passwordHash).run.Meets (registration tables) q fun r q' =>
      q'.form = q.form ∧ ((∃ row, r = .ok (.ok row) ∧ q'.phase = .committed row) ∨
        (r = .ok (.error .integrity) ∧ q'.phase = .conflicted) ∨
        ((∃ e, e ≠ .integrity ∧ r = .ok (.error e)) ∧ q'.phase = .faulted)) := by
  rw [commitUser, Free.run_bind, run_perform]
  refine Free.meets_op_of () ⟨hq, hemail⟩ fun r _ => ?_
  rcases r with (_ | _ | _) | row
  · exact ⟨rfl, Or.inr (Or.inl ⟨rfl, rfl⟩)⟩
  · exact ⟨rfl, Or.inr (Or.inr ⟨⟨.pendingRollback, SqlError.noConfusion, rfl⟩, rfl⟩)⟩
  · exact ⟨rfl, Or.inr (Or.inr ⟨⟨.other, SqlError.noConfusion, rfl⟩, rfl⟩)⟩
  · refine Free.meets_op_of () rfl fun r hr => ?_
    cases r with
    | error e => exact ⟨rfl, Or.inr (Or.inr ⟨⟨e, fun he => hr (by rw [he]), rfl⟩, rfl⟩)⟩
    | ok _ => exact ⟨rfl, Or.inl ⟨row, rfl, rfl⟩⟩

theorem meets_registerUser (hq : q.phase = .started) :
    (registerUser tables q.form.email q.form.password).run.Meets (registration tables) q
      fun result q' => q'.form = q.form ∧ q'.mayReturn result := by
  rw [registerUser, Free.run_bind]
  refine Free.Meets.bind (meets_getUserByEmail hq (normaliseEmail_idem tables _)) ?_
  rintro r q' ⟨hform, ⟨rfl, hphase⟩ | ⟨⟨u, rfl⟩, hphase⟩ | ⟨⟨e, rfl⟩, hphase⟩⟩
  · refine Free.meets_op_of () hphase fun r _ => ?_
    cases r with
    | none => exact ⟨hform, Or.inr (Or.inr ⟨rfl, _, rfl, Exc.noConfusion⟩)⟩
    | some passwordHash =>
      refine Free.Meets.bind (x := (commitUser _ passwordHash).run) (meets_commitUser rfl ?_) ?_
      · rw [Standing.email, hform]
      · rintro r q'' ⟨hform', ⟨row, rfl, hphase'⟩ | ⟨rfl, hphase'⟩ | ⟨⟨e, he, rfl⟩, hphase'⟩⟩
        · exact ⟨hform'.trans hform, Or.inr (Or.inl ⟨row, hphase', rfl⟩)⟩
        · refine Free.meets_op_of () hphase' fun r _ => ?_
          cases r with
          | ok _ => exact ⟨hform'.trans hform, Or.inl ⟨rfl, rfl⟩⟩
          | error e => exact ⟨hform'.trans hform, Or.inr (Or.inr ⟨rfl, _, rfl, Exc.noConfusion⟩)⟩
        · have hreturn : q''.mayReturn (.error (.sqlalchemy e)) :=
            Or.inr (Or.inr ⟨hphase', _, rfl, Exc.noConfusion⟩)
          cases e with
          | integrity => exact absurd rfl he
          | pendingRollback | other => exact ⟨hform'.trans hform, hreturn⟩
  · exact ⟨hform, Or.inl ⟨hphase, rfl⟩⟩
  · exact ⟨hform, Or.inr (Or.inr ⟨hphase, _, rfl, Exc.noConfusion⟩)⟩

def Standing.start (form : UserCreate) : Standing := ⟨form, .started⟩

theorem keeps_registration (form : UserCreate) :
    (form.program tables).Keeps (registration tables) (.start form) := by
  refine Free.Meets.bind (meets_registerUser (q := .start form) rfl) ?_
  rintro result q' ⟨hform, hreturn⟩
  exact Free.meets_op_of () ⟨hform.symm, hreturn⟩ fun _ _ => ⟨result, rfl⟩

/-! ## The invariant -/

namespace Registry

/-- The call has committed no row. -/
def Untouched (w : Registry) (i : Nat) : Prop := ∀ row, .committed i row ∉ w.history

/-- The row is in the table, and it is the one row that the call has committed. -/
structure Owns (w : Registry) (i : Nat) (row : UserRow) : Prop where
  committed : .committed i row ∈ w.history
  only : ∀ row', .committed i row' ∈ w.history → row' = row
  mem : row ∈ w.users.rows

/-- A call for the address may end with the result. -/
def Outcome (w : Registry) (i : Nat) (email : String) : Except Exc UserRow → Prop
  | .ok row => w.Owns i row ∧ row.email = email
  | .error .emailAlreadyRegistered => w.Untouched i ∧ ∃ u ∈ w.users.rows, u.email = email
  | .error _ => .faulted i ∈ w.history

/-- What a phase says about the registry. -/
def Stands (tables : CaseTables) (w : Registry) (i : Nat) (q : Standing) : Prop :=
  match q.phase with
  | .started | .free | .hashed _ => w.Untouched i
  | .inserted row =>
    w.Untouched i ∧ (i, row) ∈ w.users.uncommitted ∧ row.email = q.email tables
  | .conflicted | .refused => w.Outcome i (q.email tables) (.error .emailAlreadyRegistered)
  | .committed row => w.Outcome i (q.email tables) (.ok row)
  | .faulted => .faulted i ∈ w.history
  | .ended result =>
    .returned i q.form result ∈ w.history ∧ w.Outcome i (q.email tables) result

/-- Nothing is taken back, and call `i` commits nothing. -/
structure Grows (w w' : Registry) (i : Nat) : Prop where
  rows : w.users.rows ⊆ w'.users.rows
  history : w.history ⊆ w'.history
  own : ∀ row, .committed i row ∈ w'.history → .committed i row ∈ w.history

variable {w w' : Registry} {i : Nat}

theorem Grows.untouched (hw : Grows w w' i) (h : w.Untouched i) : w'.Untouched i :=
  fun row hrow => h row (hw.own row hrow)

theorem Grows.owns (hw : Grows w w' i) {row : UserRow} (h : w.Owns i row) : w'.Owns i row where
  committed := hw.history h.committed
  only row' hrow' := h.only row' (hw.own row' hrow')
  mem := hw.rows h.mem

theorem Grows.outcome (hw : Grows w w' i) {email : String} {result : Except Exc UserRow}
    (h : w.Outcome i email result) : w'.Outcome i email result := by
  rcases result with (_ | e | _) | row
  · obtain ⟨huntouched, u, hu, hemail⟩ := h
    exact ⟨hw.untouched huntouched, u, hw.rows hu, hemail⟩
  · exact hw.history h
  · exact hw.history h
  · exact ⟨hw.owns h.1, h.2⟩

theorem Grows.stands (hw : Grows w w' i)
    (hinserted : ∀ row, (i, row) ∈ w.users.uncommitted → (i, row) ∈ w'.users.uncommitted)
    {q : Standing} (h : w.Stands tables i q) : w'.Stands tables i q := by
  obtain ⟨form, phase⟩ := q
  cases phase with
  | started | free | hashed _ => exact hw.untouched h
  | inserted row =>
    obtain ⟨huntouched, hrow, hemail⟩ := h
    exact ⟨hw.untouched huntouched, hinserted row hrow, hemail⟩
  | conflicted | refused =>
    change w'.Outcome i _ (.error .emailAlreadyRegistered)
    exact hw.outcome h
  | committed row =>
    change w'.Outcome i _ (.ok row)
    exact hw.outcome h
  | ended result => exact ⟨hw.history h.1, hw.outcome h.2⟩
  | faulted => exact hw.history h

end Registry

/-- The table is the initial one and what was committed since, in normal form, and every call
stands as its phase says. -/
structure Consistent (tables : CaseTables) (initial : List UserRow) (w : Registry)
    (g : Nat → Option Standing) : Prop where
  rows : w.users.rows = initial ++ w.history.filterMap Entry.row?
  normal : ∀ u ∈ w.users.rows, normaliseEmail tables u.email = u.email
  inserted : ∀ i row, (i, row) ∈ w.users.uncommitted →
    ∃ q, g i = some q ∧ row.email = q.email tables ∧
      (q.phase = .inserted row ∨ q.phase = .faulted)
  stands : ∀ i q, g i = some q → w.Stands tables i q
  returned : ∀ i form result, .returned i form result ∈ w.history →
    g i = some ⟨form, .ended result⟩
  known : ∀ e ∈ w.history, (g e.call).isSome

/-- One step of a call that has not ended: it adds entries of its own to the history, and
rows only with them. -/
structure Moves (tables : CaseTables) (w w' : Registry) (i : Nat) (q : Standing) (phase : Phase)
    (es : List Entry) : Prop where
  history : w'.history = w.history ++ es
  own : ∀ e ∈ es, e.call = i
  rows : w'.users.rows = w.users.rows ++ es.filterMap Entry.row?
  normal : ∀ u ∈ es.filterMap Entry.row?, normaliseEmail tables u.email = u.email
  others : ∀ j row, j ≠ i → ((j, row) ∈ w'.users.uncommitted ↔ (j, row) ∈ w.users.uncommitted)
  inserted : ∀ row, (i, row) ∈ w'.users.uncommitted →
    row.email = q.email tables ∧ (phase = .inserted row ∨ phase = .faulted)
  stands : w'.Stands tables i ⟨q.form, phase⟩
  returned : ∀ form result, .returned i form result ∈ es → form = q.form ∧ phase = .ended result

section Invariant

variable {initial : List UserRow} {w w' : Registry} {g : Nat → Option Standing} {i : Nat}

theorem Moves.grows {phase : Phase} {es : List Entry} (hm : Moves tables w w' i q phase es)
    {j : Nat} (hj : j ≠ i) : w.Grows w' j where
  rows := by
    rw [hm.rows]
    exact List.subset_append_left _ _
  history := by
    rw [hm.history]
    exact List.subset_append_left _ _
  own row hrow := by
    rw [hm.history] at hrow
    refine (List.mem_append.mp hrow).resolve_right fun hrow => hj ?_
    exact hm.own _ hrow

theorem Consistent.move (h : Consistent tables initial w g) (hi : g i = some q)
    (hopen : ∀ result, q.phase ≠ .ended result) {phase : Phase} {es : List Entry}
    (hm : Moves tables w w' i q phase es) :
    Consistent tables initial w' (Function.update g i (some ⟨q.form, phase⟩)) := by
  constructor
  · rw [hm.rows, h.rows, hm.history, List.filterMap_append, List.append_assoc]
  · intro u hu
    rw [hm.rows] at hu
    exact (List.mem_append.mp hu).elim (h.normal u) (hm.normal u)
  · intro j row hrow
    by_cases hj : j = i
    · subst hj
      rw [Function.update_self]
      exact ⟨_, rfl, hm.inserted row hrow⟩
    · rw [Function.update_of_ne hj]
      exact h.inserted j row ((hm.others j row hj).mp hrow)
  · intro j p hp
    rcases update_eq_some hp with ⟨rfl, rfl⟩ | ⟨hj, hp⟩
    · exact hm.stands
    · exact (hm.grows hj).stands (fun row hrow => (hm.others j row hj).mpr hrow) (h.stands j p hp)
  · intro j form result hj
    rw [hm.history] at hj
    rcases List.mem_append.mp hj with hj | hj
    · have hended := h.returned j form result hj
      have hne : j ≠ i := by
        rintro rfl
        rw [hi, Option.some_inj] at hended
        exact hopen result (congrArg Standing.phase hended)
      rw [Function.update_of_ne hne]
      exact hended
    · have hcall : j = i := hm.own _ hj
      subst hcall
      obtain ⟨rfl, rfl⟩ := hm.returned form result hj
      rw [Function.update_self]
  · intro e he
    by_cases hcall : e.call = i
    · rw [hcall, Function.update_self]
      rfl
    · rw [Function.update_of_ne hcall]
      rw [hm.history] at he
      exact h.known e ((List.mem_append.mp he).resolve_right fun he => hcall (hm.own e he))

/-! ### What the operations do -/

/-- A call waits. -/
theorem Consistent.idle (h : Consistent tables initial w g) (hi : g i = some q) :
    Moves tables w w i q q.phase [] where
  history := (List.append_nil _).symm
  own _ he := by cases he
  rows := (List.append_nil _).symm
  normal _ hu := by cases hu
  others _ _ _ := Iff.rfl
  inserted row hrow := by
    obtain ⟨p, hp, hemail, hphase⟩ := h.inserted i row hrow
    rw [hi, Option.some_inj] at hp
    subst hp
    exact ⟨hemail, hphase⟩
  stands := h.stands i q hi
  returned _ _ he := by cases he

theorem Consistent.not_inserted (h : Consistent tables initial w g) (hi : g i = some q)
    (hphase : (∀ row, q.phase ≠ .inserted row) ∧ q.phase ≠ .faulted) (row : UserRow) :
    (i, row) ∉ w.users.uncommitted := fun hrow =>
  ((h.idle hi).inserted row hrow).2.elim (hphase.1 row) hphase.2

/-- The table is left alone. -/
theorem Moves.stay {phase : Phase} (husers : w'.users = w.users) (hhistory : w'.history = w.history)
    (hnone : ∀ row, (i, row) ∉ w.users.uncommitted) (hstands : w'.Stands tables i ⟨q.form, phase⟩) :
    Moves tables w w' i q phase [] where
  history := by rw [hhistory, List.append_nil]
  own _ he := by cases he
  rows := by rw [husers, List.filterMap_nil, List.append_nil]
  normal _ hu := by cases hu
  others _ _ _ := by rw [husers]
  inserted row hrow := absurd (husers ▸ hrow) (hnone row)
  stands := hstands
  returned _ _ he := by cases he

/-- The operation fails, with what it has done so far. -/
theorem Moves.fault {phase : Phase} {es : List Entry} (hm : Moves tables w w' i q phase es)
    (hes : ∀ form result, .returned i form result ∉ es) :
    Moves tables w (w'.note (.faulted i)) i q .faulted (es ++ [.faulted i]) where
  history := by rw [Registry.note, hm.history, List.append_assoc]
  own e he := by
    rcases List.mem_append.mp he with he | he
    · exact hm.own e he
    · rw [List.mem_singleton.mp he]
      rfl
  rows := by
    rw [List.filterMap_append]
    exact hm.rows.trans (congrArg _ (List.append_nil _).symm)
  normal := by
    rw [List.filterMap_append]
    exact fun u hu => hm.normal u ((List.mem_append.mp hu).resolve_right fun hu => (by cases hu))
  others := hm.others
  inserted row hrow := ⟨(hm.inserted row hrow).1, Or.inr rfl⟩
  stands := List.mem_append_right _ List.mem_cons_self
  returned form result he := by
    rcases List.mem_append.mp he with he | he
    · exact absurd he (hes form result)
    · cases List.mem_singleton.mp he

/-- The row gets into the index. -/
theorem Moves.insert (row : UserRow) (hfits : w.users.Fits row.email)
    (hemail : row.email = q.email tables) (hnone : ∀ row, (i, row) ∉ w.users.uncommitted)
    (huntouched : w.Untouched i) (n : UserId) :
    Moves tables w { w with users := w.users.insert i row hfits, nextUserId := n } i q
      (.inserted row) [] where
  history := (List.append_nil _).symm
  own _ he := by cases he
  rows := (List.append_nil _).symm
  normal _ hu := by cases hu
  others j row' hj := by
    refine List.mem_append.trans (or_iff_left fun hrow => hj ?_)
    exact congrArg Prod.fst (List.mem_singleton.mp hrow)
  inserted row' hrow := by
    have hlast := (List.mem_append.mp hrow).resolve_left (hnone row')
    cases List.mem_singleton.mp hlast
    exact ⟨hemail, Or.inl rfl⟩
  stands := ⟨huntouched, List.mem_append_right _ List.mem_cons_self, hemail⟩
  returned _ _ he := by cases he

theorem nodup_uncommitted (t : UsersTable) : t.uncommitted.Nodup := by
  have hemails := t.uniqueEmail
  rw [List.map_append] at hemails
  exact ((List.nodup_append.mp hemails).2.1.of_map _).of_map _

/-- The row leaves the transaction for the table. -/
theorem Consistent.commit (h : Consistent tables initial w g) (hi : g i = some q) {row : UserRow}
    (hphase : q.phase = .inserted row) :
    Moves tables w (w.commit i row) i q (.committed row) [.committed i row] := by
  have hstands := h.stands i q hi
  rw [Registry.Stands, hphase] at hstands
  obtain ⟨huntouched, hrow, hemail⟩ := hstands
  have hcommit : w.commit i row =
      { w with
        users := w.users.commit i row hrow
        history := w.history ++ [.committed i row] } := dif_pos hrow
  rw [hcommit]
  constructor
  · rfl
  · intro e he
    rw [List.mem_singleton.mp he]
    rfl
  · rfl
  · intro u hu
    rw [List.mem_singleton.mp hu, hemail]
    exact normaliseEmail_idem tables _
  · intro j row' hj
    refine List.mem_erase_of_ne fun heq => hj ?_
    exact congrArg Prod.fst heq
  · intro row' hrow'
    obtain ⟨hne, hrow'⟩ := (nodup_uncommitted w.users).mem_erase_iff.mp hrow'
    rcases ((h.idle hi).inserted row' hrow').2 with hphase' | hphase'
    · rw [hphase, Phase.inserted.injEq] at hphase'
      exact absurd (congrArg (Prod.mk i) hphase'.symm) hne
    · rw [hphase] at hphase'
      cases hphase'
  · refine ⟨⟨List.mem_append_right _ List.mem_cons_self, ?_,
      List.mem_append_right _ List.mem_cons_self⟩, hemail⟩
    intro row' hrow'
    have hlast := (List.mem_append.mp hrow').resolve_left (huntouched row')
    cases List.mem_singleton.mp hlast
    rfl
  · intro form result he
    cases List.mem_singleton.mp he

/-- What the call has inserted and not committed is taken out. -/
theorem Moves.rollback {phase : Phase} (hstands : (w.rollback i).Stands tables i ⟨q.form, phase⟩) :
    Moves tables w (w.rollback i) i q phase [] where
  history := (List.append_nil _).symm
  own _ he := by cases he
  rows := (List.append_nil _).symm
  normal _ hu := by cases hu
  others j row hj := List.mem_filter.trans (and_iff_left (decide_eq_true hj))
  inserted row hrow := absurd rfl (of_decide_eq_true (List.mem_filter.mp hrow).2)
  stands := hstands
  returned _ _ he := by cases he

/-- The session is closed and the call ends. -/
theorem Moves.close {result : Except Exc UserRow} (h : w.Outcome i (q.email tables) result) :
    Moves tables w ((w.rollback i).note (.returned i q.form result)) i q (.ended result)
      [.returned i q.form result] where
  history := rfl
  own e he := by
    rw [List.mem_singleton.mp he]
    rfl
  rows := (List.append_nil _).symm
  normal _ hu := by cases hu
  others j row hj := List.mem_filter.trans (and_iff_left (decide_eq_true hj))
  inserted row hrow := absurd rfl (of_decide_eq_true (List.mem_filter.mp hrow).2)
  stands := by
    have hgrows : w.Grows ((w.rollback i).note (.returned i q.form result)) i :=
      ⟨List.Subset.refl _, List.subset_append_left _ _, fun row hrow => by
        rcases List.mem_append.mp hrow with hrow | hrow
        · exact hrow
        · cases List.mem_singleton.mp hrow⟩
    exact ⟨List.mem_append_right _ List.mem_cons_self, hgrows.outcome h⟩
  returned form result' he := by
    cases List.mem_singleton.mp he
    exact ⟨rfl, rfl⟩

/-- A call ends as its phase says. -/
theorem Consistent.outcome (h : Consistent tables initial w g) (hi : g i = some q)
    {result : Except Exc UserRow} (hreturn : q.mayReturn result) :
    w.Outcome i (q.email tables) result := by
  have hstands := h.stands i q hi
  rcases hreturn with ⟨hphase, rfl⟩ | ⟨row, hphase, rfl⟩ | ⟨hphase, e, rfl, he⟩
  · rwa [Registry.Stands, hphase] at hstands
  · rwa [Registry.Stands, hphase] at hstands
  · rw [Registry.Stands, hphase] at hstands
    cases e with
    | emailAlreadyRegistered => exact absurd rfl he
    | sqlalchemy _ | hashing => exact hstands

theorem Standing.open_of_permits {o : Op} (hp : q.permits tables o) (result : Except Exc UserRow) :
    q.phase ≠ .ended result := by
  intro hphase
  cases o with
  | close form result' =>
    obtain ⟨-, ⟨hphase', -⟩ | ⟨row, hphase', -⟩ | ⟨hphase', -⟩⟩ := hp <;>
    · rw [hphase] at hphase'
      cases hphase'
  | selectByEmail _ | insert _ _ =>
    have hphase' := hp.1
    rw [hphase] at hphase'
    cases hphase'
  | hashPassword _ | commit _ | rollback =>
    have hphase' : q.phase = _ := hp
    rw [hphase] at hphase'
    cases hphase'

/-- Every operation fails in the same way. -/
theorem exec_failed {o : Op} {r : o.Res} (hx : exec i w o .failed = some (r, w')) :
    w' = w.note (.faulted i) ∧ Phase.after o r = .faulted ∧ o.Reliable r := by
  cases o with
  | commit user =>
    cases hx
    exact ⟨rfl, rfl, fun heq => (by cases heq)⟩
  | close _ _ => cases hx
  | selectByEmail _ | hashPassword _ | insert _ _ | rollback =>
    cases hx
    exact ⟨rfl, rfl, trivial⟩

/-- The INSERT of a call that has inserted nothing yet. -/
theorem Consistent.inserts (h : Consistent tables initial w g) (hi : g i = some q)
    {passwordHash : String} (hphase : q.phase = .hashed passwordHash) {r : Except SqlError UserRow}
    (hx : execInsert i w (q.email tables) passwordHash = some (r, w')) :
    Moves tables w w' i q (Phase.after (.insert (q.email tables) passwordHash) r) [] := by
  have hnone := h.not_inserted hi (by simp [hphase])
  have huntouched : w.Untouched i := by
    have hstands := h.stands i q hi
    rwa [Registry.Stands, hphase] at hstands
  simp only [execInsert] at hx
  split at hx
  · cases hx
  · rename_i hinserted
    split at hx
    · rename_i hfits
      cases hx
      exact .insert ⟨⟨w.nextUserId, _⟩, passwordHash⟩ hfits rfl hnone huntouched _
    · rename_i hfits
      cases hx
      have hrow := UsersTable.exists_of_not_fits (Bool.eq_false_of_not_eq_true hinserted) hfits
      exact .stay rfl rfl hnone ⟨huntouched, hrow⟩

/-- **One operation keeps the invariant.** -/
theorem Consistent.act (h : Consistent tables initial w g) (hi : g i = some q) {o : Op}
    (hp : q.permits tables o) {c : Choice} {r : o.Res} (hx : exec i w o c = some (r, w')) :
    o.Reliable r ∧
      Consistent tables initial w' (Function.update g i (some ⟨q.form, Phase.after o r⟩)) := by
  have hopen := Standing.open_of_permits hp
  have hstands := h.stands i q hi
  by_cases hfailed : c = .failed
  · subst hfailed
    obtain ⟨rfl, hphase, hreliable⟩ := exec_failed hx
    rw [hphase]
    exact ⟨hreliable, h.move hi hopen ((h.idle hi).fault fun _ _ he => (by cases he))⟩
  cases o with
  | selectByEmail email =>
    obtain ⟨hphase, rfl⟩ := hp
    have hnone := h.not_inserted hi (by simp [hphase])
    rw [Registry.Stands, hphase] at hstands
    cases c with
    | done =>
      cases hx
      refine ⟨trivial, ?_⟩
      cases hfind : w.users.find? (q.email tables) with
      | none => exact h.move hi hopen (.stay rfl rfl hnone hstands)
      | some u => exact h.move hi hopen (.stay rfl rfl hnone ⟨hstands, u, UsersTable.mem_of_find? hfind⟩)
    | failed => exact absurd rfl hfailed
    | hashed _ | unacknowledged => cases hx
  | hashPassword password =>
    have hphase : q.phase = .free := hp
    have hnone := h.not_inserted hi (by simp [hphase])
    rw [Registry.Stands, hphase] at hstands
    cases c with
    | hashed passwordHash =>
      cases hx
      exact ⟨trivial, h.move hi hopen (.stay rfl rfl hnone hstands)⟩
    | failed => exact absurd rfl hfailed
    | done | unacknowledged => cases hx
  | insert email passwordHash =>
    obtain ⟨hphase, rfl⟩ := hp
    cases c with
    | done => exact ⟨trivial, h.move hi hopen (h.inserts hi hphase hx)⟩
    | failed => exact absurd rfl hfailed
    | hashed _ | unacknowledged => cases hx
  | commit user =>
    have hmoves := h.commit hi (show q.phase = .inserted user from hp)
    cases c with
    | done =>
      cases hx
      exact ⟨fun heq => (by cases heq), h.move hi hopen hmoves⟩
    | unacknowledged =>
      cases hx
      refine ⟨fun heq => (by cases heq), h.move hi hopen (hmoves.fault fun _ _ he => ?_)⟩
      cases List.mem_singleton.mp he
    | failed => exact absurd rfl hfailed
    | hashed _ => cases hx
  | rollback =>
    have hphase : q.phase = .conflicted := hp
    rw [Registry.Stands, hphase] at hstands
    have hgrows : w.Grows (w.rollback i) i :=
      ⟨List.Subset.refl _, List.Subset.refl _, fun _ hrow => hrow⟩
    have houtcome : (w.rollback i).Outcome i (q.email tables) (.error .emailAlreadyRegistered) :=
      hgrows.outcome hstands
    cases c with
    | done =>
      cases hx
      exact ⟨trivial, h.move hi hopen (.rollback houtcome)⟩
    | failed => exact absurd rfl hfailed
    | hashed _ | unacknowledged => cases hx
  | close form result =>
    obtain ⟨rfl, hreturn⟩ := hp
    cases c with
    | done =>
      cases hx
      exact ⟨trivial, h.move hi hopen (.close (h.outcome hi hreturn))⟩
    | hashed _ | failed | unacknowledged => cases hx

/-- A call starts. -/
theorem Consistent.start (h : Consistent tables initial w g) {j : Nat} (hj : g j = none)
    (form : UserCreate) :
    Consistent tables initial w (Function.update g j (some (.start form))) := by
  have hother : ∀ {k p}, g k = some p → k ≠ j := by
    rintro k p hk rfl
    rw [hj] at hk
    cases hk
  constructor
  · exact h.rows
  · exact h.normal
  · intro k row hrow
    obtain ⟨p, hp, hphase⟩ := h.inserted k row hrow
    rw [Function.update_of_ne (hother hp)]
    exact ⟨p, hp, hphase⟩
  · intro k p hp
    rcases update_eq_some hp with ⟨rfl, rfl⟩ | ⟨-, hp⟩
    · intro row hrow
      have hknown := h.known _ hrow
      rw [show g (Entry.committed k row).call = none from hj] at hknown
      cases hknown
    · exact h.stands k p hp
  · intro k form' result hk
    have hended := h.returned k form' result hk
    rw [Function.update_of_ne (hother hended)]
    exact hended
  · intro e he
    obtain ⟨p, hp⟩ := Option.isSome_iff_exists.mp (h.known e he)
    rw [Function.update_of_ne (hother hp)]
    exact h.known e he

end Invariant

/-- Before any call. -/
def Registry.initial (rows : List UserRow) (h : (rows.map fun u => u.email).Nodup)
    (nextUserId : UserId) : Registry where
  users := ⟨rows, [], by rwa [List.map_nil, List.append_nil]⟩
  nextUserId := nextUserId
  history := []

def idle (tables : CaseTables) (w : Registry) : Pool (registrations tables) := ⟨w, []⟩

section Runs

variable {rows : List UserRow} {hunique : (rows.map fun u => u.email).Nodup} {next : UserId}
  {ls : List (Label (registrations tables))} {P : Pool (registrations tables)}

/-- Along every run each call has a standing, with the arguments it was started with. -/
theorem consistent_of_run (hnormal : ∀ u ∈ rows, normaliseEmail tables u.email = u.email)
    (h : Run (registrations tables).system unguarded (idle tables (.initial rows hunique next))
      ls P) :
    ∃ g, Ghosted (registration tables) P g ∧ Consistent tables rows P.shared g ∧
      ∀ i q, g i = some q → P.tag? i = some q.form := by
  refine h.invariant (I := fun P => ∃ g, Ghosted (registration tables) P g ∧
    Consistent tables rows P.shared g ∧ ∀ i q, g i = some q → P.tag? i = some q.form) ?_ ?_
  · refine ⟨fun _ => none, fun _ => .none, ?_, fun i q hq => (by cases hq)⟩
    constructor
    · exact (List.append_nil _).symm
    · exact hnormal
    · intro i row hrow
      cases hrow
    · intro i q hq
      cases hq
    · intro i form result he
      cases he
    · intro e he
      cases he
  · rintro P l Q ⟨g, hg, hI, htag⟩ - hstep
    cases l with
    | act i c =>
      obtain ⟨tag, o, k, r, w, hi, hx, rfl⟩ := Host.step_act (H := registrations tables) hstep
      obtain ⟨q, m, hq, hpermits, hnext⟩ := hg.act hi
      obtain ⟨hreliable, hI'⟩ := hI.act hq hpermits hx
      refine ⟨_, hnext r w hreliable, hI', fun j p hp => ?_⟩
      have hform : g j = some p ∨ j = i ∧ p.form = q.form := by
        rcases update_eq_some hp with ⟨rfl, rfl⟩ | ⟨-, hp⟩
        · exact Or.inr ⟨rfl, rfl⟩
        · exact Or.inl hp
      have htag' : P.tag? j = some p.form := by
        rcases hform with hp | ⟨rfl, hform⟩
        · exact htag j p hp
        · rw [hform]
          exact htag j q hq
      rw [← htag']
      exact Pool.tag?_set hi j
    | event form =>
      obtain ⟨x, hx, rfl⟩ := Host.step_event (H := registrations tables) hstep
      cases hx
      refine ⟨_, hg.event keeps_registration _, ?_, ?_⟩
      · rw [hg.after_spawn]
        exact hI.start hg.fresh form
      · rw [hg.after_spawn]
        intro j p hp
        rw [Pool.tag?_afterSpawn]
        rcases update_eq_some hp with ⟨rfl, rfl⟩ | ⟨-, hp⟩
        · rw [if_neg (lt_irrefl _), if_pos rfl]
          rfl
        · rw [if_pos (hg.lt_length hp)]
          exact htag j p hp

/-- No call is stopped from outside. -/
theorem program_of_run
    (h : Run (registrations tables).system unguarded (idle tables (.initial rows hunique next))
      ls P) : ∀ t ∈ P.threads, t.program.isSome := by
  refine h.invariant (I := fun P => ∀ t ∈ P.threads, t.program.isSome) (fun t ht => (by cases ht)) ?_
  intro P l Q hP _ hstep t ht
  cases l with
  | act i c =>
    obtain ⟨tag, o, k, r, w, hi, hx, rfl⟩ := Host.step_act (H := registrations tables) hstep
    rcases List.mem_or_eq_of_mem_set ht with ht | rfl
    · exact hP t ht
    · rfl
  | event form =>
    obtain ⟨x, hx, rfl⟩ := Host.step_event (H := registrations tables) hstep
    cases hx
    rcases List.mem_append.mp ht with ht | ht
    · obtain ⟨i, hi, rfl⟩ := List.mem_mapIdx.mp ht
      exact hP _ (List.getElem_mem hi)
    · cases List.mem_singleton.mp ht
      rfl

end Runs

/-! ## Waiting -/

/-- Only an INSERT ever waits. -/
theorem exists_exec (i : Nat) (w : Registry) {o : Op}
    (h : ∀ email passwordHash, o = .insert email passwordHash → w.users.isInserted email = false) :
    ∃ c x, exec i w o c = some x := by
  cases o with
  | hashPassword password => exact ⟨.hashed "", _, rfl⟩
  | selectByEmail _ | commit _ | rollback | close _ _ => exact ⟨.done, _, rfl⟩
  | insert email passwordHash =>
    refine ⟨.done, ?_⟩
    have hinserted := h email passwordHash rfl
    simp only [exec, execInsert, hinserted, Bool.false_eq_true, if_false]
    split <;> exact ⟨_, rfl⟩

theorem exists_step {P : Pool (registrations tables)} {i : Nat} {o : Op}
    (hi : P.pending? i = some o)
    (h : ∀ email passwordHash, o = .insert email passwordHash →
      P.shared.users.isInserted email = false) :
    ∃ c Q, (registrations tables).system.step P (.act i c) = some Q := by
  obtain ⟨c, x, hx⟩ := exists_exec i P.shared h
  obtain ⟨tag, next, ht⟩ := Pool.thread_of_pending hi
  refine ⟨c, ⟨x.2, P.threads.set i ⟨tag, some (next x.1)⟩⟩, ?_⟩
  simp [Host.system, Host.step, ht, hx]

/-- **No call waits for ever**: the one that an INSERT waits for can go on. -/
theorem exists_step_of_pending {initial : List UserRow} {P : Pool (registrations tables)}
    {g : Nat → Option Standing} (hg : Ghosted (registration tables) P g)
    (h : Consistent tables initial P.shared g) {i : Nat} (hi : (P.pending? i).isSome) :
    ∃ j c Q, (registrations tables).system.step P (.act j c) = some Q := by
  obtain ⟨o, ho⟩ := Option.isSome_iff_exists.mp hi
  by_cases hwaits : ∃ email passwordHash, o = .insert email passwordHash ∧
      P.shared.users.isInserted email = true
  · obtain ⟨email, passwordHash, rfl, hinserted⟩ := hwaits
    obtain ⟨⟨j, row⟩, hrow, -⟩ := List.any_eq_true.mp hinserted
    obtain ⟨q, hq, -, hphase⟩ := h.inserted j row hrow
    have hfinal : ¬ ∃ result, q.phase = .ended result := by
      rintro ⟨result, hended⟩
      rcases hphase with hphase | hphase <;>
      · rw [hended] at hphase
        cases hphase
    obtain ⟨o', ho'⟩ := Option.isSome_iff_exists.mp (hg.pending hq hfinal)
    refine ⟨j, exists_step ho' ?_⟩
    rintro email' passwordHash' rfl
    -- the other call is behind its own INSERT
    obtain ⟨tag, next, ht⟩ := Pool.thread_of_pending ho'
    obtain ⟨q', m, hq', hpermits, -⟩ := hg.act ht
    rw [hq, Option.some_inj] at hq'
    subst hq'
    have hhashed := hpermits.1
    rcases hphase with hphase | hphase <;>
    · rw [hphase] at hhashed
      cases hhashed
  · refine ⟨i, exists_step ho ?_⟩
    intro email passwordHash heq
    rw [← Bool.not_eq_true]
    exact fun hinserted => hwaits ⟨email, passwordHash, heq, hinserted⟩

end AutoTrader.Auth
