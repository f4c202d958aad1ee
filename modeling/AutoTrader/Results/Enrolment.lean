import AutoTrader.Results.Sessions
import AutoTrader.System.Accounts

/-!
# From a registration to a login

The accounts that logins are about come from `register_user`, any number of calls of it at once.
To the store of accounts such a run is one registration after the other, in the order of the
COMMITs, and each with a hash of the password that its call was given. So who has registered can
log in, under every spelling of the address, and with no other password.
-/

namespace AutoTrader.Enrolment

open Python Coroutine Transition
open Auth (UserCreate Registry registrations normaliseEmail hashPassword Security)
open Session (Account Store sessions alone)

/-! ## What a call writes -/

inductive Phase
  | unhashed
  | hashed (passwordHash : String)
  | inserted (row : UserRow)
  | past

structure Standing where
  form : UserCreate
  phase : Phase

def Phase.after (p : Phase) : (o : Auth.Op) → o.Res → Phase
  | .hashPassword _, some passwordHash => .hashed passwordHash
  | .insert _ _, .ok row => .inserted row
  | .commit _, _ => .past
  | _, _ => p

variable {tables : CaseTables}

variable (tables) in
def Standing.permits (q : Standing) : Auth.Op → Prop
  | .hashPassword password => password = q.form.password
  | .insert email passwordHash => q.phase = .hashed passwordHash ∧
      email = normaliseEmail tables q.form.email
  | .commit user => q.phase = .inserted user
  | _ => True

variable (tables) in
/-- A call hashes its own password, inserts this hash and commits what it has inserted. -/
abbrev enrolment : Contract Auth.effects where
  State := Standing
  Move := Unit
  permits q _ o := q.permits tables o
  answers _ _ _ := True
  next q _ o r := { q with phase := q.phase.after o r }
  final _ := True

def Standing.start (form : UserCreate) : Standing := ⟨form, .unhashed⟩

theorem meets_commitUser {form : UserCreate} {passwordHash : String} :
    (Auth.commitUser (normaliseEmail tables form.email) passwordHash).run.Meets (enrolment tables)
      ⟨form, .hashed passwordHash⟩ fun _ _ => True := by
  rw [Auth.commitUser, Free.run_bind, Auth.run_perform]
  refine Free.meets_op_of () ⟨rfl, rfl⟩ fun r _ => ?_
  rcases r with e | row
  · exact trivial
  · refine Free.meets_op_of () rfl fun r _ => ?_
    rcases r with e | _
    · exact trivial
    · exact trivial

theorem meets_registerUser (form : UserCreate) :
    (Auth.registerUser tables form.email form.password).run.Meets (enrolment tables) (.start form)
      fun _ _ => True := by
  rw [Auth.registerUser, Free.run_bind, Auth.getUserByEmail, Auth.run_db, Auth.run_perform]
  refine Free.meets_op_of () trivial fun r _ => ?_
  rcases r with e | _ | u
  · exact trivial
  · refine Free.meets_op_of () rfl fun r _ => ?_
    cases r with
    | none => exact trivial
    | some passwordHash =>
      refine Free.Meets.bind (x := (Auth.commitUser _ passwordHash).run) meets_commitUser ?_
      rintro r q' -
      rcases r with e | (_ | _ | _) | user
      · exact trivial
      · refine Free.meets_op_of () trivial fun r _ => ?_
        rcases r with e | _
        · exact trivial
        · exact trivial
      · exact trivial
      · exact trivial
      · exact trivial
  · exact trivial

theorem keeps_enrolment (form : UserCreate) :
    (form.program tables).Keeps (enrolment tables) (.start form) := by
  refine Free.Meets.bind (meets_registerUser form) ?_
  rintro result q' -
  exact Free.meets_op_of () trivial fun _ _ => trivial

/-! ## The store of accounts -/

/-- The account of a row that was committed. -/
def enrolled (row : UserRow) : Account := { row with isActive := true }

/-- The committed rows and those that open transactions have inserted. -/
def entries (w : Registry) : List UserRow := w.users.rows ++ w.users.uncommitted.map Prod.snd

def formOf (g : Nat → Option Standing) (i : Nat) : Option UserCreate :=
  (g i).map fun q => q.form

variable (s : Security)

/-- A hash of the password of the form. -/
def HashOf (form : UserCreate) (passwordHash : String) : Prop :=
  ∃ salt, hashPassword s.bcrypt form.password salt = some passwordHash

/-- The store has one registration for each row that was committed. -/
structure Projects (clock : DateTime) (w : Registry) (g : Nat → Option Standing) (v : Store) :
    Prop where
  run : ∃ ms, Run (sessions s).system unguarded ⟨.initial clock, []⟩ ms ⟨v, []⟩
  clock : v.clock = clock
  accounts : v.accounts = w.users.rows.map enrolled
  registered : ∀ row form, .registered row form ∈ v.history ↔
    ∃ i u, .committed i u ∈ w.history ∧ row = enrolled u ∧ formOf g i = some form

structure Enrolled (clock : DateTime) (w : Registry) (g : Nat → Option Standing) : Prop where
  ids : ((entries w).map fun u => u.id).Nodup
  below : ∀ u ∈ entries w, u.id < w.nextUserId ∧ u.id < Session.idLimit
  committed : ∀ i u, .committed i u ∈ w.history → u ∈ w.users.rows ∧ (g i).isSome
  hashed : ∀ i q passwordHash, g i = some q → q.phase = .hashed passwordHash →
    HashOf s q.form passwordHash
  inserted : ∀ i row, (i, row) ∈ w.users.uncommitted → ∃ form, formOf g i = some form ∧
    row.email = normaliseEmail s.tables form.email ∧ HashOf s form row.passwordHash
  projects : ∃ v, Projects s clock w g v

section Steps

variable {s} {clock : DateTime} {w w' : Registry} {g g' : Nat → Option Standing} {i : Nat}

/-- No row is committed, and the calls keep their forms. -/
theorem Enrolled.calm (h : Enrolled s clock w g) (hrows : w'.users.rows = w.users.rows)
    (hopen : w'.users.uncommitted.Sublist w.users.uncommitted)
    (hnext : w.nextUserId ≤ w'.nextUserId)
    (hhistory : ∀ i u, .committed i u ∈ w'.history ↔ .committed i u ∈ w.history)
    (hforms : ∀ i form, formOf g i = some form → formOf g' i = some form)
    (hhashed : ∀ i q passwordHash, g' i = some q → q.phase = .hashed passwordHash →
      HashOf s q.form passwordHash) :
    Enrolled s clock w' g' := by
  have hentries : (entries w').Sublist (entries w) := by
    rw [entries, entries, hrows]
    exact (hopen.map _).append_left _
  have hsome : ∀ i, (g i).isSome → ∃ form, formOf g i = some form ∧ formOf g' i = some form := by
    intro i hi
    obtain ⟨q, hq⟩ := Option.isSome_iff_exists.mp hi
    have hform : formOf g i = some q.form := by rw [formOf, hq, Option.map_some]
    exact ⟨q.form, hform, hforms i _ hform⟩
  refine ⟨h.ids.sublist (hentries.map _), ?_, ?_, hhashed, ?_, ?_⟩
  · intro u hu
    obtain ⟨hid, hlimit⟩ := h.below u (hentries.subset hu)
    exact ⟨lt_of_lt_of_le hid hnext, hlimit⟩
  · intro i u hu
    obtain ⟨hrow, hi⟩ := h.committed i u ((hhistory i u).mp hu)
    obtain ⟨form, -, hform⟩ := hsome i hi
    obtain ⟨q, hq, -⟩ := Option.map_eq_some_iff.mp hform
    exact ⟨hrows ▸ hrow, by rw [hq]; rfl⟩
  · intro i row hrow
    obtain ⟨form, hform, hrest⟩ := h.inserted i row (hopen.subset hrow)
    exact ⟨form, hforms i form hform, hrest⟩
  · obtain ⟨v, hrun, hclock, haccounts, hregistered⟩ := h.projects
    refine ⟨v, hrun, hclock, by rw [haccounts, hrows], fun row form => ?_⟩
    rw [hregistered row form]
    constructor
    · rintro ⟨i, u, hu, hrow, hform⟩
      exact ⟨i, u, (hhistory i u).mpr hu, hrow, hforms i form hform⟩
    · rintro ⟨i, u, hu, hrow, hform⟩
      have hu' := (hhistory i u).mp hu
      obtain ⟨form', hform', hnew⟩ := hsome i (h.committed i u hu').2
      rw [hform, Option.some_inj] at hnew
      exact ⟨i, u, hu', hrow, hnew ▸ hform'⟩

/-- A row gets into the index. -/
theorem Enrolled.insert (h : Enrolled s clock w g) {form : UserCreate} {passwordHash : String}
    (hform : formOf g i = some form) (hhash : HashOf s form passwordHash)
    (hlimit : w.nextUserId < Session.idLimit)
    (hfits : w.users.Fits (normaliseEmail s.tables form.email)) :
    Enrolled s clock { w with
      users := w.users.insert i ⟨⟨w.nextUserId, normaliseEmail s.tables form.email⟩, passwordHash⟩ hfits
      nextUserId := w.nextUserId + 1 } g := by
  have hentries : entries { w with
      users := w.users.insert i ⟨⟨w.nextUserId, normaliseEmail s.tables form.email⟩, passwordHash⟩ hfits
      nextUserId := w.nextUserId + 1 } =
      entries w ++ [⟨⟨w.nextUserId, normaliseEmail s.tables form.email⟩, passwordHash⟩] := by
    simp only [entries, UsersTable.insert, List.map_append, List.map_cons, List.map_nil,
      List.append_assoc]
  refine ⟨?_, ?_, h.committed, h.hashed, ?_, h.projects.imp fun v hv => ⟨hv.run, hv.clock,
    hv.accounts, hv.registered⟩⟩
  · rw [hentries]
    exact TradeTable.nodup_concat h.ids fun u hu => ne_of_lt (h.below u hu).1
  · rw [hentries]
    intro u hu
    rcases List.mem_append.mp hu with hu | hu
    · exact ⟨lt_trans (h.below u hu).1 (Nat.lt_succ_self _), (h.below u hu).2⟩
    · rw [List.mem_singleton.mp hu]
      exact ⟨Nat.lt_succ_self _, hlimit⟩
  · intro j row hrow
    rcases List.mem_append.mp hrow with hrow | hrow
    · exact h.inserted j row hrow
    · cases List.mem_singleton.mp hrow
      exact ⟨form, hform, rfl, hhash⟩

/-- The registration of the row in the store of accounts. -/
theorem Projects.register (hv : ∃ v, Projects s clock w g v)
    (h : Enrolled s clock w g) {row : UserRow} (hrow : (i, row) ∈ w.users.uncommitted) :
    ∃ v, Projects s clock { w with
      users := w.users.commit i row hrow
      history := w.history ++ [.committed i row] } g v := by
  obtain ⟨v, ⟨ms, hrun⟩, hclock, haccounts, hregistered⟩ := hv
  obtain ⟨form, hform, hemail, salt, hsalt⟩ := h.inserted i row hrow
  have hopen : row ∈ w.users.uncommitted.map Prod.snd := List.mem_map.mpr ⟨_, hrow, rfl⟩
  have hids : ∀ u ∈ w.users.rows, u.id ≠ row.id := by
    have hnodup := h.ids
    rw [entries, List.map_append] at hnodup
    intro u hu heq
    exact (List.nodup_append.mp hnodup).2.2 _ (List.mem_map.mpr ⟨u, hu, rfl⟩) _
      (List.mem_map.mpr ⟨row, hopen, rfl⟩) heq
  have hemails : ∀ u ∈ w.users.rows, u.email ≠ row.email := by
    have hnodup := w.users.uniqueEmail
    rw [List.map_append] at hnodup
    intro u hu heq
    exact (List.nodup_append.mp hnodup).2.2 _ (List.mem_map.mpr ⟨u, hu, rfl⟩) _
      (List.mem_map.mpr ⟨row, hopen, rfl⟩) heq
  have hsame : Session.registeredRow s row.id form row.passwordHash = enrolled row := by
    rw [Session.registeredRow, ← hemail]
    rfl
  have hadmits : v.admits (enrolled row) = true := by
    simp only [Store.admits, Bool.and_eq_true, decide_eq_true_eq, List.all_eq_true]
    refine ⟨⟨(h.below row (List.mem_append_right _ hopen)).2, ?_⟩, ?_⟩
    · intro a ha
      obtain ⟨e, he, hea⟩ := List.mem_filterMap.mp ha
      cases e with
      | registered row' form' =>
        cases hea
        obtain ⟨j, u, hu, rfl, -⟩ := (hregistered _ form').mp he
        exact hids u (h.committed j u hu).1
      | activated | removed | asked | clocked | read | returned => cases hea
    · rw [haccounts]
      intro a ha
      obtain ⟨u, hu, rfl⟩ := List.mem_map.mp ha
      exact hemails u hu
  have hstep : (sessions s).system.step ⟨v, []⟩ (.event (.register row.id form salt)) =
      some ⟨v.perform (.registered (enrolled row) form), []⟩ := by
    simp [Host.system, Host.step, Session.react, hsalt, hsame, hadmits, Session.outside,
      Pool.afterEvent]
  refine ⟨_, ⟨_, hrun.trans (.single trivial hstep)⟩, hclock, ?_, fun row' form' => ?_⟩
  · change v.accounts ++ [enrolled row] = (w.users.rows ++ [row]).map enrolled
    rw [haccounts, List.map_append]
    rfl
  · change .registered row' form' ∈ v.history ++ [.registered (enrolled row) form] ↔
      ∃ j u, .committed j u ∈ w.history ++ [.committed i row] ∧ _
    simp only [List.mem_append, List.mem_singleton, hregistered]
    constructor
    · rintro (⟨j, u, hu, hrest⟩ | heq)
      · exact ⟨j, u, Or.inl hu, hrest⟩
      · cases heq
        exact ⟨i, row, Or.inr rfl, rfl, hform⟩
    · rintro ⟨j, u, hu | heq, rfl, hform'⟩
      · exact Or.inl ⟨j, u, hu, rfl, hform'⟩
      · cases heq
        rw [hform, Option.some_inj] at hform'
        rw [hform']
        exact Or.inr rfl

/-- **The COMMIT of a row is its registration.** -/
theorem Enrolled.commit (h : Enrolled s clock w g) (row : UserRow) :
    Enrolled s clock (w.commit i row) g := by
  by_cases hrow : (i, row) ∈ w.users.uncommitted
  · rw [Registry.commit, dif_pos hrow]
    obtain ⟨form, hform, -⟩ := h.inserted i row hrow
    have hperm : (entries w).Perm (entries { w with
        users := w.users.commit i row hrow
        history := w.history ++ [.committed i row] }) := by
      have herase := ((List.perm_cons_erase hrow).map Prod.snd).append_left w.users.rows
      rwa [entries, entries, UsersTable.commit, List.append_assoc, List.singleton_append]
    refine ⟨(hperm.map _).nodup_iff.mp h.ids, fun u hu => h.below u (hperm.mem_iff.mpr hu), ?_,
      h.hashed, fun j row' hrow' => h.inserted j row' (List.mem_of_mem_erase hrow'),
      Projects.register h.projects h hrow⟩
    intro j u hu
    rcases List.mem_append.mp hu with hu | hu
    · obtain ⟨hmem, hj⟩ := h.committed j u hu
      exact ⟨List.mem_append_left _ hmem, hj⟩
    · cases List.mem_singleton.mp hu
      obtain ⟨q, hq, -⟩ := Option.map_eq_some_iff.mp hform
      exact ⟨List.mem_append_right _ List.mem_cons_self, by rw [hq]; rfl⟩
  · rw [Registry.commit, dif_neg hrow]
    exact h

/-- A call goes on. -/
theorem Enrolled.turn (h : Enrolled s clock w g) {q : Standing} (hi : g i = some q) {phase : Phase}
    (hphase : ∀ passwordHash, phase = .hashed passwordHash → HashOf s q.form passwordHash) :
    Enrolled s clock w (Function.update g i (some ⟨q.form, phase⟩)) := by
  refine h.calm rfl (List.Sublist.refl _) le_rfl (fun _ _ => Iff.rfl) ?_ ?_
  · intro j form hform
    by_cases hj : j = i
    · subst hj
      rw [formOf, hi] at hform
      rw [formOf, Function.update_self]
      exact hform
    · rw [formOf, Function.update_of_ne hj]
      exact hform
  · intro j p passwordHash hp hhashed
    rcases update_eq_some hp with ⟨rfl, rfl⟩ | ⟨-, hp⟩
    · exact hphase passwordHash hhashed
    · exact h.hashed j p passwordHash hp hhashed

/-- The phase is left alone. -/
theorem Enrolled.stay (h : Enrolled s clock w g) {q : Standing} (hi : g i = some q) :
    Enrolled s clock w (Function.update g i (some ⟨q.form, q.phase⟩)) :=
  h.turn hi fun passwordHash hphase => h.hashed i q passwordHash hi hphase

theorem Enrolled.note (h : Enrolled s clock w g) {e : Auth.Entry} (he : ∀ i u, e ≠ .committed i u) :
    Enrolled s clock (w.note e) g := by
  refine h.calm rfl (List.Sublist.refl _) le_rfl (fun j u => ?_) (fun _ _ hform => hform) h.hashed
  refine List.mem_append.trans (or_iff_left fun hlast => ?_)
  exact he j u (List.mem_singleton.mp hlast).symm

theorem Enrolled.rollback (h : Enrolled s clock w g) : Enrolled s clock (w.rollback i) g :=
  h.calm rfl List.filter_sublist le_rfl (fun _ _ => Iff.rfl) (fun _ _ hform => hform) h.hashed

theorem Enrolled.execInsert (h : Enrolled s clock w g) {form : UserCreate} {passwordHash : String}
    (hform : formOf g i = some form) (hhash : HashOf s form passwordHash)
    (hlimit : w.nextUserId < Session.idLimit) {r : Except SqlError UserRow}
    (hx : Auth.execInsert i w (normaliseEmail s.tables form.email) passwordHash = some (r, w')) :
    Enrolled s clock w' g := by
  simp only [Auth.execInsert] at hx
  split at hx
  · cases hx
  · split at hx
    · rename_i hfits
      cases hx
      exact h.insert hform hhash hlimit hfits
    · cases hx
      exact h.calm rfl (List.Sublist.refl _) (Nat.le_succ _) (fun _ _ => Iff.rfl)
        (fun _ _ hform => hform) h.hashed

/-- **One operation of a call keeps the projection.** -/
theorem Enrolled.act (h : Enrolled s clock w g) {q : Standing} (hi : g i = some q) {o : Auth.Op}
    (hp : q.permits s.tables o) {c : Auth.Choice}
    (hhash : ∀ password passwordHash, o = .hashPassword password → c = .hashed passwordHash →
      ∃ salt, hashPassword s.bcrypt password salt = some passwordHash)
    (hlimit : c = .done → w.nextUserId < Session.idLimit) {r : o.Res}
    (hx : Auth.exec i w o c = some (r, w')) :
    Enrolled s clock w' (Function.update g i (some ⟨q.form, q.phase.after o r⟩)) := by
  have hform : formOf g i = some q.form := by rw [formOf, hi, Option.map_some]
  have hfaulted : Enrolled s clock (w.note (.faulted i)) g :=
    h.note fun _ _ he => (by cases he)
  cases o with
  | selectByEmail email =>
    cases c with
    | done =>
      cases hx
      exact h.stay hi
    | failed =>
      cases hx
      exact hfaulted.stay hi
    | hashed _ | unacknowledged => cases hx
  | hashPassword password =>
    obtain rfl : password = q.form.password := hp
    cases c with
    | hashed passwordHash =>
      cases hx
      refine h.turn hi fun passwordHash' heq => ?_
      cases heq
      exact hhash _ passwordHash rfl rfl
    | failed =>
      cases hx
      exact hfaulted.stay hi
    | done | unacknowledged => cases hx
  | insert email passwordHash =>
    obtain ⟨hphase, rfl⟩ := hp
    have hown := h.hashed i q passwordHash hi hphase
    cases c with
    | done =>
      refine (h.execInsert hform hown (hlimit rfl) hx).turn hi fun passwordHash' heq => ?_
      rcases r with e | row
      · exact h.hashed i q passwordHash' hi heq
      · cases heq
    | failed =>
      cases hx
      exact hfaulted.stay hi
    | hashed _ | unacknowledged => cases hx
  | commit user =>
    have hcommit := h.commit (i := i) user
    cases c with
    | done =>
      cases hx
      exact hcommit.turn hi fun _ heq => (by cases heq)
    | unacknowledged =>
      cases hx
      exact (hcommit.note fun _ _ he => (by cases he)).turn hi fun _ heq => (by cases heq)
    | failed =>
      cases hx
      exact hfaulted.turn hi fun _ heq => (by cases heq)
    | hashed _ => cases hx
  | rollback =>
    cases c with
    | done =>
      cases hx
      exact h.rollback.stay hi
    | failed =>
      cases hx
      exact hfaulted.stay hi
    | hashed _ | unacknowledged => cases hx
  | close form result =>
    cases c with
    | done =>
      cases hx
      exact (h.rollback.note fun _ _ he => (by cases he)).stay hi
    | hashed _ | failed | unacknowledged => cases hx

end Steps

/-! ## Runs -/

/-- The condition: the worker thread runs `hash_password`, and the sequence of the ids has not run
out. -/
def Enrols (P : Pool (registrations s.tables)) : Label (registrations s.tables) → Prop
  | .act i (.hashed passwordHash) => ∀ password, P.pending? i = some (.hashPassword password) →
      ∃ salt, hashPassword s.bcrypt password salt = some passwordHash
  | .act _ .done => P.shared.nextUserId < Session.idLimit
  | _ => True

variable {s}

theorem enrolled_of_run {next : UserId} (clock : DateTime)
    {ls : List (Label (registrations s.tables))} {P : Pool (registrations s.tables)}
    (h : Run (registrations s.tables).system (Enrols s)
      (Auth.idle s.tables (.initial [] List.nodup_nil next)) ls P) :
    ∃ g, Ghosted (enrolment s.tables) P g ∧ Enrolled s clock P.shared g ∧
      Agrees (fun form (q : Standing) => q.form = form) P g := by
  have hsame : ∀ (form : UserCreate) (q : Standing) (m : Unit) (o : Auth.Op) (r : o.Res),
      q.form = form → ((enrolment s.tables).next q m o r).form = form := fun _ _ _ _ _ hform => hform
  refine ghosts_tagged (K := enrolment s.tables) (T := fun form (q : Standing) => q.form = form)
    Standing.start keeps_enrolment (fun _ => rfl) hsame ?_ ?_ h ⟨fun _ => none, fun _ => .none, ?_, fun i q _ hi => (by cases hi)⟩
  · rintro P g i c form o r w q m hD - hE - hpend - hq hp hx
    refine ⟨trivial, hE.act hq hp ?_ ?_ hx⟩
    · rintro password passwordHash rfl rfl
      exact hD password hpend
    · rintro rfl
      exact hD
  · rintro P g form x - hg hE hx
    cases hx
    rw [hg.after_spawn]
    refine hE.calm rfl (List.Sublist.refl _) le_rfl (fun _ _ => Iff.rfl) ?_ ?_
    · intro j form' hform
      have hj : j ≠ P.threads.length := by
        rintro rfl
        rw [formOf, hg.fresh] at hform
        cases hform
      rw [formOf, Function.update_of_ne hj]
      exact hform
    · intro j p passwordHash hp hphase
      rcases update_eq_some hp with ⟨rfl, rfl⟩ | ⟨-, hp⟩
      · cases hphase
      · exact hE.hashed j p passwordHash hp hphase
  · refine ⟨List.nodup_nil, fun u hu => (by cases hu), fun _ _ hu => (by cases hu),
      fun _ _ _ hi => (by cases hi), fun _ _ hrow => (by cases hrow), .initial clock, ⟨[], .nil⟩, rfl,
      rfl, fun row form => ⟨fun hrow => (by cases hrow), ?_⟩⟩
    rintro ⟨i, u, hu, -⟩
    cases hu

/-! ## Two calls at once -/

namespace Sample

open Auth.Sample (security)

def alice : UserCreate := ⟨"Alice@x.com", "password", Session.Sample.password_fits⟩

def aliceAgain : UserCreate := ⟨" alice@X.com", "passwort", by decide⟩

/-- Both calls hash a password, and the first commits its row. -/
def race : List (Label (registrations security.tables)) :=
  [.event alice, .event aliceAgain, .act 0 .done, .act 1 .done,
    .act 0 (.hashed (Auth.Sample.hashpw (Auth.octets "password") "salt")),
    .act 1 (.hashed (Auth.Sample.hashpw (Auth.octets "passwort") "salt")), .act 0 .done,
    .act 0 .done, .act 1 .done, .act 1 .done, .act 1 .done, .act 0 .done]

def start : Pool (registrations security.tables) :=
  Auth.idle security.tables (.initial [] List.nodup_nil 1)

/-- The salt is the same for all. -/
def salts (P : Pool (registrations security.tables)) : Label (registrations security.tables) → Bool
  | .act i (.hashed passwordHash) =>
    match P.pending? i with
    | some (.hashPassword password) =>
      decide (hashPassword security.bcrypt password "salt" = some passwordHash)
    | _ => true
  | .act _ .done => decide (P.shared.nextUserId < Session.idLimit)
  | _ => true

theorem enrols_of_salts {P : Pool (registrations security.tables)}
    {l : Label (registrations security.tables)} (h : salts P l = true) : Enrols security P l := by
  cases l with
  | event form => exact trivial
  | act i c =>
    cases c with
    | hashed passwordHash =>
      intro password hpending
      rw [salts, hpending] at h
      exact ⟨"salt", of_decide_eq_true h⟩
    | done =>
      change P.shared.nextUserId < Session.idLimit
      exact of_decide_eq_true h
    | failed | unacknowledged => trivial

theorem race_follows : ((registrations security.tables).system.follow (fun P l => salts P l = true)
    start race).isSome := by
  decide +kernel

end Sample

/-- **Who has registered can log in.** Any number of calls of `register_user` at once, with
failures anywhere, is to the store of accounts a run of registrations one after the other, and its
accounts are the committed rows. There, if a call has returned its row, a login under any spelling
of its address gets a token exactly with the password of that call, and then the token of the
row. Passwords are those without a NUL. -/
theorem registered_can_log_in {next : UserId} (clock : DateTime)
    {ls : List (Label (registrations s.tables))} {P : Pool (registrations s.tables)}
    (h : Run (registrations s.tables).system (Enrols s)
      (Auth.idle s.tables (.initial [] List.nodup_nil next)) ls P) :
    ∃ ms w, Run (sessions s).system unguarded ⟨.initial clock, []⟩ ms ⟨w, []⟩ ∧
      w.accounts = P.shared.users.rows.map enrolled ∧
      ∀ i form row, .returned i form (.ok row) ∈ P.shared.history → Auth.NulFree form.password →
        ∀ address password, normaliseEmail s.tables address = normaliseEmail s.tables form.email →
          Auth.NulFree password → ∀ jti j, ∃ result w',
            alone s jti j (.login address password) w = some (result, w') ∧
            ((∃ r, result = .ok (.token r)) ↔ password = form.password) ∧
            ∀ r, result = .ok (.token r) → r = Session.tokenResponse s (enrolled row) clock jti := by
  obtain ⟨g, hg, hE, hagrees⟩ := enrolled_of_run clock h
  obtain ⟨f, -, hc, htag⟩ := Auth.consistent_of_run (fun u hu => (by cases hu)) h.unguard
  obtain ⟨w, ⟨ms, hrun⟩, hclock, haccounts, hregistered⟩ := hE.projects
  obtain ⟨-, -, hs, -⟩ := Session.sane_of_run hrun
  refine ⟨ms, w, hrun, haccounts, ?_⟩
  intro i form row hreturned hnul address password haddress hnul' jti j
  -- what the call has committed
  have hended := hc.returned i form (.ok row) hreturned
  obtain ⟨hcommitted, -, hrow⟩ := (hc.stands i _ hended).2.1
  have hemail : row.email = normaliseEmail s.tables form.email := (hc.stands i _ hended).2.2
  obtain ⟨q, hq⟩ := Option.isSome_iff_exists.mp (hE.committed i row hcommitted).2
  obtain rfl : q.form = form := hagrees i q form hq (htag i _ hended)
  have hform : formOf g i = some q.form := by rw [formOf, hq, Option.map_some]
  have hmem : enrolled row ∈ w.accounts := by
    rw [haccounts]
    exact List.mem_map.mpr ⟨row, hrow, rfl⟩
  obtain ⟨-, -, salt, hsalt⟩ :=
    hs.rows (enrolled row) q.form ((hregistered _ _).mpr ⟨i, row, hcommitted, rfl, hform⟩)
  -- what the login finds
  have hfind : Session.findByEmail w.accounts (normaliseEmail s.tables address) =
      some (enrolled row) := by
    rw [haddress, ← hemail]
    exact hs.findByEmail_of_mem hmem
  have hverify := Auth.verifyPassword_hash hnul hnul' hsalt
  obtain ⟨w', halone, -⟩ := Session.alone_login (s := s) jti j address password w
  rw [hfind, hclock] at halone
  refine ⟨_, w', halone, ?_⟩
  by_cases hpassword : password = q.form.password
  · have hverified := hverify.mpr hpassword
    have hverdict : Session.verdict s (some (enrolled row)) password = .ok (enrolled row) := by
      simp only [Session.verdict, hverified, if_true]
      rfl
    rw [hverdict]
    refine ⟨iff_of_true ⟨_, rfl⟩ hpassword, fun r hr => ?_⟩
    cases hr
    rfl
  · have hverified := Bool.eq_false_of_not_eq_true fun hv => hpassword (hverify.mp hv)
    simp [Session.verdict, hverified, Except.map, hpassword]

theorem registered_can_log_in_race : ∃ P,
    Run (registrations Auth.Sample.security.tables).system (Enrols Auth.Sample.security) Sample.start Sample.race
      P ∧
    ∃ w result w', alone Auth.Sample.security "id" 0 (.login "ALICE@x.com" "passwort") w =
        some (result, w') ∧
      w.accounts = P.shared.users.rows.map enrolled ∧ ¬ ∃ r, result = .ok (.token r) := by
  have h := (System.run_get Sample.race_follows).mono fun _ _ => Sample.enrols_of_salts
  obtain ⟨ms, w, -, haccounts, hlogin⟩ := registered_can_log_in 0 h
  have hreturned : .returned 0 Sample.alice
      (.ok ⟨⟨1, "alice@x.com"⟩, Auth.Sample.hashpw (Auth.octets "password") "salt"⟩) ∈
        (((registrations Auth.Sample.security.tables).system.follow (fun P l => Sample.salts P l = true)
          Sample.start Sample.race).get Sample.race_follows).shared.history := by decide +kernel
  have haddress : normaliseEmail Auth.Sample.security.tables "ALICE@x.com" =
      normaliseEmail Auth.Sample.security.tables Sample.alice.email := by decide +kernel
  obtain ⟨result, w', halone, hiff, -⟩ := hlogin 0 _ _ hreturned (by decide +kernel) "ALICE@x.com"
    "passwort" haddress (by decide +kernel) "id" 0
  exact ⟨_, h, w, result, w', halone, haccounts, fun hr => absurd (hiff.mp hr) (by decide)⟩

end AutoTrader.Enrolment
