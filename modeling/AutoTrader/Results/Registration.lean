import AutoTrader.System.Accounts

/-!
# One account for one address

Between the check and the INSERT of a registration lies the hashing of the password, in which any
number of other calls can pass the same check. Still no address gets two rows: every call writes
the normal form of its address, the index lets one of them in, and the others roll back and end as
if the check had refused them. The row is then found under every spelling of the address.
-/

namespace AutoTrader.Auth

open Python Coroutine Transition

variable {tables : CaseTables}

/-- `get_user_by_email`, called on a database that answers, returns the row. -/
def Finds (tables : CaseTables) (w : Registry) (spelling : String) (row : UserRow) : Prop :=
  ∀ i form, (registrations tables).drive (fun _ _ => .done) i form
    (getUserByEmail tables spelling).run w = some (.ok (some row), w)

theorem finds_of_mem {w : Registry} {spelling : String} {row : UserRow} (h : row ∈ w.users.rows)
    (hspelling : normaliseEmail tables spelling = row.email) : Finds tables w spelling row := by
  intro i form
  rw [getUserByEmail, run_db, run_perform, hspelling, Free.bind_op, Host.drive_op]
  change (exec i w (.selectByEmail row.email) .done).bind _ = _
  rw [exec, UsersTable.find?_eq_some h]
  rfl

/-- A call that was not failed ends with a row in the table for its address, its own if it
returns one. -/
theorem Registry.Outcome.exists_row {w : Registry} {i : Nat} {email : String}
    {result : Except Exc UserRow} (h : w.Outcome i email result) (hfault : .faulted i ∉ w.history) :
    ∃ row ∈ w.users.rows, row.email = email ∧ ∀ own, result = .ok own → own = row := by
  rcases result with (_ | _ | _) | own
  · obtain ⟨-, row, hrow, hemail⟩ := h
    exact ⟨row, hrow, hemail, fun own hown => (by cases hown)⟩
  · exact absurd h hfault
  · exact absurd h hfault
  · refine ⟨own, h.1.mem, h.2, fun own' hown => ?_⟩
    cases hown
    rfl

/-- **One account for one address.** In every run of registrations, from a table whose addresses
are in normal form and with any spelling in every call:

* no two rows have the same normalised address;
* the table is the initial one and what the calls have committed;
* a call that returned has committed the row that it returned, for its address and no other; a call
  that raised `EmailAlreadyRegisteredError` has committed nothing, and a row with its address is
  there; any other error is one of the database or of the hashing;
* a call that was not failed so leaves a row that is found under every spelling of its address;
* a call that has not ended is running, and as long as one is running, some call can go on. -/
theorem one_account_per_address (tables : CaseTables) {rows : List UserRow}
    (hunique : (rows.map fun u => u.email).Nodup)
    (hnormal : ∀ u ∈ rows, normaliseEmail tables u.email = u.email) (next : UserId)
    {ls : List (Label (registrations tables))} {P : Pool (registrations tables)}
    (h : Run (registrations tables).system unguarded (idle tables (.initial rows hunique next))
      ls P) :
    (∀ u ∈ P.shared.users.rows, ∀ v ∈ P.shared.users.rows,
      normaliseEmail tables u.email = normaliseEmail tables v.email → u = v) ∧
    P.shared.users.rows = rows ++ P.shared.history.filterMap Entry.row? ∧
    (∀ i form result, .returned i form result ∈ P.shared.history → P.tag? i = some form ∧
      P.shared.Outcome i (normaliseEmail tables form.email) result) ∧
    (∀ i form result, .returned i form result ∈ P.shared.history → .faulted i ∉ P.shared.history →
      ∃ row ∈ P.shared.users.rows, (∀ own, result = .ok own → own = row) ∧
        ∀ spelling, normaliseEmail tables spelling = normaliseEmail tables form.email →
          Finds tables P.shared spelling row) ∧
    (∀ i form, P.tag? i = some form →
      (P.pending? i).isSome ∨ ∃ result, .returned i form result ∈ P.shared.history) ∧
    ∀ i, (P.pending? i).isSome →
      ∃ j c Q, (registrations tables).system.step P (.act j c) = some Q := by
  obtain ⟨g, hg, hc, htag⟩ := consistent_of_run hnormal h
  have hended : ∀ i form result, .returned i form result ∈ P.shared.history →
      P.tag? i = some form ∧ P.shared.Outcome i (normaliseEmail tables form.email) result := by
    intro i form result he
    have hi := hc.returned i form result he
    exact ⟨htag i _ hi, (hc.stands i _ hi).2⟩
  refine ⟨?_, hc.rows, hended, ?_, ?_, fun i hi => exists_step_of_pending hg hc hi⟩
  · intro u hu v hv huv
    have hemail : u.email = v.email := by rwa [hc.normal u hu, hc.normal v hv] at huv
    have hfind := UsersTable.find?_eq_some hu
    rw [hemail, UsersTable.find?_eq_some hv] at hfind
    exact (Option.some.inj hfind).symm
  · intro i form result he hfault
    obtain ⟨row, hrow, hemail, hown⟩ := (hended i form result he).2.exists_row hfault
    exact ⟨row, hrow, hown, fun spelling hspelling =>
      finds_of_mem hrow (hspelling.trans hemail.symm)⟩
  · intro i form hi
    obtain ⟨t, ht, rfl⟩ := Option.map_eq_some_iff.mp hi
    obtain ⟨x, hx⟩ := Option.isSome_iff_exists.mp
      (program_of_run h t (List.mem_of_getElem? ht))
    have hprogram : P.program? i = some x := by rw [Pool.program?, ht, Option.bind_some, hx]
    cases x with
    | op o next =>
      left
      rw [Pool.pending?, hprogram]
      rfl
    | pure a =>
      right
      have hrel := hg i
      rw [hprogram] at hrel
      cases hq : g i with
      | none =>
        rw [hq] at hrel
        cases hrel
      | some q =>
        rw [hq] at hrel
        cases hrel with
        | some hfinal =>
          obtain ⟨result, hphase⟩ := hfinal
          have hstands := hc.stands i q hq
          rw [Registry.Stands, hphase] at hstands
          have hform : t.tag = q.form := Option.some.inj (hi.symm.trans (htag i q hq))
          exact ⟨result, hform ▸ hstands.1⟩

/-! ## Two calls at once -/

namespace Sample

def alice : UserCreate := ⟨"Alice@x.com", "password", by decide⟩

def aliceAgain : UserCreate := ⟨" alice@X.com", "password", by decide⟩

/-- Both calls pass the check, the first commits its row, and the index refuses the second. -/
def race : List (Label (registrations asciiTables)) :=
  [.event alice, .event aliceAgain, .act 0 .done, .act 1 .done, .act 0 (.hashed "$2b$12$a"),
    .act 1 (.hashed "$2b$12$b"), .act 0 .done, .act 0 .done, .act 1 .done, .act 1 .done,
    .act 1 .done, .act 0 .done]

def start : Pool (registrations asciiTables) := idle asciiTables (.initial [] List.nodup_nil 1)

theorem race_follows : ((registrations asciiTables).system.follow unguarded start race).isSome := by
  decide +kernel

end Sample

theorem one_account_per_address_race : ∃ P,
    Run (registrations asciiTables).system unguarded Sample.start Sample.race P ∧
      P.tag? 1 = some Sample.aliceAgain ∧
      P.shared.Outcome 1 (normaliseEmail asciiTables " alice@X.com")
        (.error .emailAlreadyRegistered) := by
  have h := System.run_get Sample.race_follows
  have hrefused : .returned 1 Sample.aliceAgain (.error .emailAlreadyRegistered) ∈
      (((registrations asciiTables).system.follow unguarded Sample.start Sample.race).get
        Sample.race_follows).shared.history := by decide +kernel
  have hunique : (([] : List UserRow).map fun u => u.email).Nodup := List.nodup_nil
  obtain ⟨-, -, hended, -⟩ :=
    one_account_per_address asciiTables hunique (fun u hu => (by cases hu)) 1 h
  obtain ⟨htag, houtcome⟩ := hended 1 _ _ hrefused
  exact ⟨_, h, htag, houtcome⟩

end AutoTrader.Auth
