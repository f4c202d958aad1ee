import AutoTrader.Api.Trades
import AutoTrader.Core.Validators
import AutoTrader.Results.Authority
import AutoTrader.Results.Enrolment

/-!
# Who owns the trades

The settings name the owner by an address, and a registration turns that address into an account.
Both bring the address into normal form, so they meet whatever the spelling: whoever registers
the address owns every trade, nobody who registers another one sees any, and no registration that
comes later takes the trades over.
-/

namespace AutoTrader.Enrolment

open Python Coroutine Transition
open Auth (UserCreate Registry registrations normaliseEmail)

/-! ## The accounts -/

/-- The accounts as the service reads them. -/
def accountsOf (w : Registry) : List User := w.users.rows.map UserRow.toUser

variable {env : Deployment}

theorem registeredOwner_accountsOf (w : Registry) :
    registeredOwner env (accountsOf w) =
      (w.users.find? env.settings.webhookTradeOwnerEmail).map fun u => u.id := by
  rw [registeredOwner, accountsOf, List.find?_map, Option.map_map]
  rfl

/-- The owner is the row with the address. -/
theorem registeredOwner_eq_some {w : Registry} {id : UserId} :
    registeredOwner env (accountsOf w) = some id ↔
      ∃ row ∈ w.users.rows, row.id = id ∧ row.email = env.settings.webhookTradeOwnerEmail := by
  rw [registeredOwner_accountsOf, Option.map_eq_some_iff]
  constructor
  · rintro ⟨row, hrow, hid⟩
    obtain ⟨hmem, hemail⟩ := UsersTable.mem_of_find? hrow
    exact ⟨row, hmem, hid, hemail⟩
  · rintro ⟨row, hmem, hid, hemail⟩
    exact ⟨row, hemail ▸ UsersTable.find?_eq_some hmem, hid⟩

/-! ## No row goes -/

section Growth

variable {w w' : Registry} {i : Nat}

theorem rows_commit (w : Registry) (i : Nat) (row : UserRow) :
    w.users.rows ⊆ (w.commit i row).users.rows := by
  rw [Registry.commit]
  split
  · exact List.subset_append_left _ _
  · exact List.Subset.refl _

theorem rows_execInsert {email passwordHash : String} {r : Except SqlError UserRow}
    (hx : Auth.execInsert i w email passwordHash = some (r, w')) :
    w'.users.rows = w.users.rows := by
  simp only [Auth.execInsert] at hx
  split at hx
  · cases hx
  · split at hx
    · cases hx
      rfl
    · cases hx
      rfl

theorem rows_exec {o : Auth.Op} {c : Auth.Choice} {r : o.Res}
    (hx : Auth.exec i w o c = some (r, w')) : w.users.rows ⊆ w'.users.rows := by
  cases o with
  | insert email passwordHash =>
    cases c with
    | done =>
      rw [rows_execInsert hx]
      exact List.Subset.refl _
    | failed =>
      cases hx
      exact List.Subset.refl _
    | hashed _ | unacknowledged => cases hx
  | commit user =>
    cases c with
    | done | unacknowledged =>
      cases hx
      exact rows_commit w i user
    | failed =>
      cases hx
      exact List.Subset.refl _
    | hashed _ => cases hx
  | selectByEmail _ | rollback =>
    cases c with
    | done | failed =>
      cases hx
      exact List.Subset.refl _
    | hashed _ | unacknowledged => cases hx
  | hashPassword _ =>
    cases c with
    | hashed _ | failed =>
      cases hx
      exact List.Subset.refl _
    | done | unacknowledged => cases hx
  | close _ _ =>
    cases c with
    | done =>
      cases hx
      exact List.Subset.refl _
    | hashed _ | failed | unacknowledged => cases hx

/-- **No registration takes a row away.** -/
theorem rows_run {tables : CaseTables}
    {D : Pool (registrations tables) → Label (registrations tables) → Prop}
    {ls : List (Label (registrations tables))} {P Q : Pool (registrations tables)}
    (h : Run (registrations tables).system D P ls Q) :
    P.shared.users.rows ⊆ Q.shared.users.rows := by
  refine h.related (R := fun P Q : Pool (registrations tables) =>
    P.shared.users.rows ⊆ Q.shared.users.rows) (fun _ => List.Subset.refl _)
    (fun _ _ _ => List.Subset.trans) ?_
  intro P l Q _ hstep
  cases l with
  | act i c =>
    obtain ⟨tag, o, next, r, w, -, hx, rfl⟩ := Host.step_act hstep
    exact rows_exec hx
  | event form =>
    obtain ⟨x, hx, rfl⟩ := Host.step_event (H := registrations tables) hstep
    cases hx
    exact List.Subset.refl _

end Growth

/-! ## The service on these accounts -/

variable {s : Auth.Security}

/-- **Whoever registers the address of the settings owns the trades.** Any number of registrations
up to some point, with failures anywhere, then the service on the accounts there, and any number
of registrations more:

* a call that has returned its row by then, for the address of the settings in any spelling, has
  registered the owner: the list of its trades is the whole table;
* an account with another address, registered before or after, lists no trade;
* as long as nobody has registered the address there is no trade;
* the later registrations leave the owner as it is. -/
theorem configured_address_owns_trades {value : String}
    (hsetting : normaliseOwnerEmail s.tables value = .ok env.settings.webhookTradeOwnerEmail)
    {next : UserId} {ls ls' : List (Label (registrations s.tables))}
    {P P' : Pool (registrations s.tables)}
    (h : Run (registrations s.tables).system (Enrols s)
      (Auth.idle s.tables (.initial [] List.nodup_nil next)) ls P)
    (h' : Run (registrations s.tables).system (Enrols s) P ls' P') {clock : DateTime}
    {ms : List (Label (service env))} {Q : Pool (service env)}
    (hservice : Run (service env).system unguarded
      (Pool.idle (.initial (accountsOf P.shared) clock)) ms Q) :
    (∀ i form row, .returned i form (.ok row) ∈ P.shared.history →
      normaliseEmail s.tables form.email = normaliseEmail s.tables value →
      registeredOwner env (accountsOf P.shared) = some row.id ∧
      ∀ limit offset, listTradesForUser Q.shared.trades row.id limit offset none =
        (((Q.shared.trades.rows.insertionSort Trade.Precedes).drop offset).take limit,
          Q.shared.trades.rows.length)) ∧
    (∀ row ∈ P'.shared.users.rows, row.email ≠ normaliseEmail s.tables value →
      ∀ limit offset status, listTradesForUser Q.shared.trades row.id limit offset status =
        ([], 0)) ∧
    ((∀ row ∈ P.shared.users.rows, row.email ≠ normaliseEmail s.tables value) →
      Q.shared.trades.rows = []) ∧
    ∀ id, registeredOwner env (accountsOf P.shared) = some id →
      registeredOwner env (accountsOf P'.shared) = some id := by
  obtain ⟨hemail, -⟩ := normaliseOwnerEmail_eq_ok.mp hsetting
  change _ = normaliseEmail s.tables value at hemail
  obtain ⟨f, -, hc, -⟩ := Auth.consistent_of_run (fun u hu => (by cases hu)) h.unguard
  obtain ⟨g, -, hE, -⟩ := enrolled_of_run clock (h.trans h')
  obtain ⟨d, -, hduty, -⟩ := dutiful_of_run hservice
  have hgrow := rows_run h'
  refine ⟨?_, ?_, ?_, ?_⟩
  · intro i form row hreturned haddress
    have hended := hc.returned i form (.ok row) hreturned
    obtain ⟨⟨-, -, hrow⟩, hown⟩ := (hc.stands i _ hended).2
    have howner : registeredOwner env (accountsOf P.shared) = some row.id :=
      registeredOwner_eq_some.mpr ⟨row, hrow, rfl, by rw [hemail, ← haddress]; exact hown⟩
    have hall : ∀ r ∈ Q.shared.trades.rows, r.userId = row.id := fun r hr =>
      Option.some.inj ((hduty.rows r hr).symm.trans howner)
    refine ⟨howner, fun limit offset => ?_⟩
    rw [listTradesForUser_eq, TradeTable.mine_of_all hall]
  · intro row hrow hother limit offset status
    refine listTradesForUser_eq_nil (fun r hr huser => ?_) limit offset status
    obtain ⟨owner, howner, hid, haddress⟩ := registeredOwner_eq_some.mp (hduty.rows r hr)
    -- one account for one id, so the row would be the owner
    have hids : (P'.shared.users.rows.map fun u => u.id).Nodup :=
      hE.ids.sublist ((List.sublist_append_left _ _).map _)
    obtain rfl := List.inj_on_of_nodup_map hids (hgrow howner) hrow (hid.trans huser)
    exact hother (haddress.trans hemail)
  · intro hnobody
    rw [List.eq_nil_iff_forall_not_mem]
    intro r hr
    obtain ⟨owner, howner, -, haddress⟩ := registeredOwner_eq_some.mp (hduty.rows r hr)
    exact hnobody owner howner (haddress.trans hemail)
  · intro id hid
    obtain ⟨row, hrow, hrest⟩ := registeredOwner_eq_some.mp hid
    exact registeredOwner_eq_some.mpr ⟨row, hgrow hrow, hrest⟩

/-! ## An owner, and somebody else later -/

namespace Sample

open Auth.Sample (security)

def owner : UserCreate := ⟨" Owner@Example.com", "password", Session.Sample.password_fits⟩

/-- A registration in thread `i`, from its start to its end. -/
def enrol (i : Nat) (form : UserCreate) (password : String) :
    List (Label (registrations security.tables)) :=
  [.event form, .act i .done, .act i (.hashed (Auth.Sample.hashpw (Auth.octets password) "salt")),
    .act i .done, .act i .done, .act i .done]

theorem owner_follows : ((registrations security.tables).system.follow
    (fun P l => salts P l = true) start (enrol 0 owner "password")).isSome := by
  decide +kernel

/-- The owner is registered. -/
def owned : Pool (registrations security.tables) :=
  ((registrations security.tables).system.follow (fun P l => salts P l = true) start
    (enrol 0 owner "password")).get owner_follows

theorem owned_alice_follows : ((registrations security.tables).system.follow
    (fun P l => salts P l = true) owned (enrol 1 alice "password")).isSome := by
  decide +kernel

theorem owned_accounts : accountsOf owned.shared = AutoTrader.Sample.users := by decide +kernel

end Sample

theorem configured_address_owns_trades_placed :
    ∃ Q, Run (service AutoTrader.Sample.inline).system unguarded (AutoTrader.Sample.start _)
        AutoTrader.Sample.placed Q ∧
      listTradesForUser Q.shared.trades 1 20 0 none = (Q.shared.trades.rows, 1) ∧
      listTradesForUser Q.shared.trades 2 20 0 none = ([], 0) := by
  have h := (System.run_get Sample.owner_follows).mono fun _ _ => Sample.enrols_of_salts
  have h' := (System.run_get Sample.owned_alice_follows).mono fun _ _ => Sample.enrols_of_salts
  have hservice := System.run_get AutoTrader.Sample.placed_follows
  have hsetting : normaliseOwnerEmail Auth.Sample.security.tables "OWNER@example.com" =
      .ok AutoTrader.Sample.inline.settings.webhookTradeOwnerEmail := by decide +kernel
  have hstarted : ∀ Q, Run (service AutoTrader.Sample.inline).system unguarded
      (AutoTrader.Sample.start _) AutoTrader.Sample.placed Q →
      Run (service AutoTrader.Sample.inline).system unguarded
        (Pool.idle (.initial (accountsOf Sample.owned.shared) 0)) AutoTrader.Sample.placed Q := by
    intro Q hQ
    rw [Sample.owned_accounts]
    exact hQ
  obtain ⟨hown, hother, -⟩ := configured_address_owns_trades hsetting h h' (hstarted _ hservice)
  have hreturned : .returned 0 Sample.owner
      (.ok ⟨⟨1, "owner@example.com"⟩, Auth.Sample.hashpw (Auth.octets "password") "salt"⟩) ∈
        Sample.owned.shared.history := by decide +kernel
  refine ⟨_, hservice, ?_, ?_⟩
  · rw [(hown 0 _ _ hreturned (by decide +kernel)).2]
    decide +kernel
  · exact hother ⟨⟨2, "alice@x.com"⟩, Auth.Sample.hashpw (Auth.octets "password") "salt"⟩
      (by decide +kernel) (by decide +kernel) 20 0 none

end AutoTrader.Enrolment
