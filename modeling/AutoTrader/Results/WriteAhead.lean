import AutoTrader.Results.OneOrder

/-!
# What is sent is what was asked for

An order is placed from a row: the row was committed by the one INSERT that won for its
signal, and claimed, before the request left. The request carries the terms of the signal
that the INSERT was made for, the quantity exactly, and the row never changes in them.
-/

namespace AutoTrader

open Python Coroutine Transition

/-! ## The amount survives the column and the text -/

/-- An amount that is not above a bound is below what the bound is below. -/
theorem Decimal.value_lt_of_bound {d m : Decimal} {n : Nat} (hd : d.isFinite = true)
    (hdm : m.lt d = false) (hm : m.lt (.finite false 1 n) = true) : d.value < 10 ^ n := by
  cases d with
  | infinite _ | nan _ => cases hd
  | finite s c e =>
    cases m with
    | nan _ => cases hm
    | infinite neg =>
      cases neg
      · cases hm
      · cases hdm
    | finite s' c' e' =>
      have h1 : ¬ (Decimal.finite s' c' e').value < (Decimal.finite s c e).value :=
        of_decide_eq_false hdm
      have h2 : (Decimal.finite s' c' e').value < (Decimal.finite false 1 n).value :=
        of_decide_eq_true hm
      have h3 : (Decimal.finite false 1 n).value = 10 ^ n := by
        simp [Decimal.value]
      rw [h3] at h2
      exact lt_of_le_of_lt (not_lt.mp h1) h2

/-- **The decimal pipeline is exact**: what is formatted for the exchange from the column is
read as the amount the signal asked for. -/
theorem formatDecimal_store {env : Deployment} {payload : TradingViewWebhookPayload}
    (hmax : env.settings.maxOrderQuantity.lt (.finite false 1 16) = true)
    (hv : validateSignal env payload = .ok ()) {text : String}
    (htext : formatDecimal payload.quantity.store = some text) :
    isPlain text = true ∧
      ∃ d, Decimal.ofText text = some d ∧ d.value = payload.quantity.value := by
  obtain ⟨u, hu, hstore, hval⟩ := Decimal.store_exact payload.quantity_finite
    payload.quantity_pos payload.quantity_places
  have hlt : payload.quantity.value < 10 ^ 16 :=
    Decimal.value_lt_of_bound (n := 16) payload.quantity_finite (validateSignal_ok hv).2.2 hmax
  have hbound : u < 10 ^ 28 := by
    rw [hval, div_lt_iff₀ (by positivity), ← pow_add] at hlt
    exact_mod_cast hlt
  rw [hstore] at htext
  obtain ⟨text', d, htext', hplain, hread, hd⟩ := formatDecimal_stored hu hbound
  rw [htext'] at htext
  cases htext
  exact ⟨hplain, d, hread, hd.trans hval.symm⟩

/-! ## Where a row comes from -/

/-- A row goes back to a signal that was received and valid, by the INSERT made for it. -/
def FromSignal (env : Deployment) (l : Ledger) (r : Trade) (payload : TradingViewWebhookPayload) :
    Prop :=
  .received payload ∈ l.history ∧ validateSignal env payload = .ok () ∧
    ∃ owner id now, .inserted ((pendingTrade env payload owner).row id now) ∈ l.history ∧
      r.terms = ((pendingTrade env payload owner).row id now).terms

theorem FromSignal.mono {env : Deployment} {l l' : Ledger} {r r' : Trade}
    {payload : TradingViewWebhookPayload} (h : FromSignal env l r payload)
    (hh : l.history ⊆ l'.history) (hr : r'.terms = r.terms) : FromSignal env l' r' payload := by
  obtain ⟨hrec, hv, owner, id, now, hins, hterms⟩ := h
  exact ⟨hh hrec, hv, owner, id, now, hh hins, hr.trans hterms⟩

/-- Every request in progress has its signal received, and every row goes back to one. -/
structure Accepted (env : Deployment) (l : Ledger) (g : Stances) : Prop where
  received : ∀ i q payload, g i = some q → q.payload = some payload →
    .received payload ∈ l.history
  rows : ∀ r ∈ l.trades.rows, ∃ payload, FromSignal env l r payload

@[simp] theorem Stance.payload_next (q : Stance) (m : Move) (o : Op) (r : o.Res) :
    (q.next m o r).payload = q.payload := by
  cases o with
  | log record =>
    cases record with
    | orderRequest => cases hq : q.phase <;> simp [Stance.next, hq]
    | _ => rfl
  | send => cases m <;> cases hq : q.phase <;> simp [Stance.next, hq]
  | receive => cases hq : q.phase <;> simp [Stance.next, hq]
  | claim | get | getForUser | selectReconcilable =>
    simp only [Stance.next]
    split <;> rfl
  | _ => rfl

theorem Accepted.act {env : Deployment} {P : Pool (service env)} {g : Stances} {i : Nat}
    {c : Choice} {tag : Tag} {q : Stance} {m : Move} {o : Op} {r : o.Res} {w' : World}
    (h : Accepted env P.shared.toLedger g) (ha : Acts env P g i c tag q m o r w') :
    Accepted env w'.toLedger (Function.update g i (some (q.next m o r))) := by
  have hh := history_exec ha.exec
  constructor
  · intro j p payload hj hp
    by_cases hji : j = i
    · subst hji
      rw [Function.update_self] at hj
      cases hj
      rw [Stance.payload_next] at hp
      exact hh (h.received j q payload ha.stance hp)
    · rw [Function.update_of_ne hji] at hj
      exact hh (h.received j p payload hj hp)
  · intro t ht
    rcases rows_exec ha.exec t ht with ⟨s, hs, hterms⟩ | ⟨n, rfl, rfl, hins⟩
    · obtain ⟨payload, hp⟩ := h.rows s hs
      exact ⟨payload, hp.mono hh hterms⟩
    · have hperm := ha.permits
      cases m with
      | ask _ => exact hperm.elim
      | plain =>
        obtain ⟨-, payload, owner, hpay, hv, rfl⟩ := hperm
        exact ⟨payload, hh (h.received i q payload ha.stance hpay), hv, owner, _, _, hins, rfl⟩

theorem Accepted.event {env : Deployment} {P : Pool (service env)} {g : Stances} {e : Event}
    {x : Reaction World Tag} (h : Accepted env P.shared.toLedger g)
    (hx : react env P.shared P.seen e = some x) :
    Accepted env x.shared.toLedger (ghostsAfter (conduct env) startStance P x g) := by
  obtain ⟨ht, -, -, hist⟩ := react_ledger hx
  have hh : P.shared.history ⊆ x.shared.history := by
    rcases hist with hist | ⟨p, payload, -, -, hist⟩
    · rw [hist]
      exact List.Subset.refl _
    · rw [hist]
      exact List.subset_append_left _ _
  constructor
  · intro i q payload hi hp
    rcases ghostsAfter_cases hi with hi | ⟨⟨p, task⟩, hspawn, rfl⟩
    · exact hh (h.received i q payload hi hp)
    · cases task with
      | request payload' =>
        cases hp
        cases react_request hx hspawn
        cases hx
        exact List.mem_append_right _ List.mem_cons_self
      | _ => cases hp
  · rw [ht]
    intro r hr
    obtain ⟨payload, hp⟩ := h.rows r hr
    exact ⟨payload, hp.mono hh rfl⟩

theorem accepted_of_run {env : Deployment}
    {D : Pool (service env) → Label (service env) → Prop} {users : List User} {clock : DateTime}
    {ls : List (Label (service env))} {P : Pool (service env)}
    (h : Run (service env).system D (Pool.idle (.initial users clock)) ls P) :
    ∃ g, Sound env P.shared.toLedger g ∧ Accepted env P.shared.toLedger g := by
  obtain ⟨g, -, hs, hA⟩ := invariant_of_run (J := fun w g => Accepted env w.toLedger g) h
    (Sound.found _) ⟨fun _ _ _ hi => (by cases hi), fun _ hr => (by cases hr)⟩
    (fun P g i c tag q m o r w' _ _ _ hJ ha => hJ.act ha)
    (fun P g e x _ _ _ hJ hx => hJ.event hx)
  exact ⟨g, hs, hA⟩

/-! ## The result -/

/-- The request `x` is the order of the signal `payload`, made from the committed and claimed
row `row`. -/
structure OrderOf (env : Deployment) (l : Ledger) (x : HttpRequest)
    (payload : TradingViewWebhookPayload) (row : Trade) : Prop where
  committed : row ∈ l.trades.rows
  claimed : row.submittedAt.isSome
  origin : FromSignal env l row payload
  clientOrderId : row.clientOrderId = buildClientOrderId env payload.signalId
  symbol : row.symbol = payload.symbol
  request : ∃ text, x = orderRequest env.settings.binanceDryRun payload.symbol
    payload.action.text text (buildClientOrderId env payload.signalId) ∧ isPlain text = true ∧
      ∃ d, Decimal.ofText text = some d ∧ d.value = payload.quantity.value

theorem fromSignal_terms {env : Deployment} {l : Ledger} {row : Trade}
    {payload : TradingViewWebhookPayload} (h : FromSignal env l row payload) :
    row.clientOrderId = buildClientOrderId env payload.signalId ∧ row.symbol = payload.symbol ∧
      row.side = payload.action ∧ row.quantity = payload.quantity.store := by
  obtain ⟨-, -, owner, id, now, -, hterms⟩ := h
  exact ⟨congrArg Trade.Terms.clientOrderId hterms, congrArg Trade.Terms.symbol hterms,
    congrArg Trade.Terms.side hterms, congrArg Trade.Terms.quantity hterms⟩

theorem orderOf_of_placed {env : Deployment} {l : Ledger} {g : Stances}
    (hmax : env.settings.maxOrderQuantity.lt (.finite false 1 16) = true) (hs : Sound env l g)
    (hA : Accepted env l g) {x : HttpRequest} (hx : x ∈ l.requests) (hpost : x.method = .post) :
    ∃ payload row, OrderOf env l x payload row := by
  obtain ⟨row, hrow, text, hclaimed, htext, rfl⟩ := hs.placed x hx hpost
  obtain ⟨payload, hfrom⟩ := hA.rows row hrow
  obtain ⟨hcid, hsymbol, hside, hquantity⟩ := fromSignal_terms hfrom
  rw [hquantity] at htext
  refine ⟨payload, row, hrow, hclaimed, hfrom, hcid, hsymbol, text, ?_,
    formatDecimal_store hmax hfrom.2.1 htext⟩
  rw [orderFor, hsymbol, hside, hcid]

theorem eq_of_nodup_filterMap {α β : Type} {f : α → Option β} {l : List α}
    (h : (l.filterMap f).Nodup) {a b : α} {c : β} (ha : a ∈ l) (hb : b ∈ l) (hfa : f a = some c)
    (hfb : f b = some c) : a = b := by
  induction l with
  | nil => cases ha
  | cons x xs ih =>
    cases hx : f x with
    | none =>
      rw [List.filterMap_cons_none hx] at h
      have hne : ∀ {y}, f y = some c → y ≠ x := fun hy he => by
        rw [he, hx] at hy
        cases hy
      exact ih h ((List.mem_cons.mp ha).resolve_left (hne hfa))
        ((List.mem_cons.mp hb).resolve_left (hne hfb))
    | some y =>
      rw [List.filterMap_cons_some hx, List.nodup_cons] at h
      have hout : ∀ {z}, z ∈ xs → f z = some c → y ≠ c := fun hz hfz hyc =>
        h.1 (List.mem_filterMap.mpr ⟨_, hz, hyc ▸ hfz⟩)
      rcases List.mem_cons.mp ha with rfl | ha'
      · rcases List.mem_cons.mp hb with rfl | hb'
        · rfl
        · exact absurd (Option.some.inj (hx.symm.trans hfa)) (hout hb' hfb)
      · rcases List.mem_cons.mp hb with rfl | hb'
        · exact absurd (Option.some.inj (hx.symm.trans hfb)) (hout ha' hfa)
        · exact ih h.2 ha' hb'

/-- One signal, one INSERT. -/
theorem Ledger.Journalled.inserted_unique {l : Ledger} (h : l.Journalled) {r r' : Trade}
    (hr : .inserted r ∈ l.history) (hr' : .inserted r' ∈ l.history)
    (hsig : r.signalId = r'.signalId) : r = r' := by
  have hnodup : (l.history.filterMap Entry.insertedSignal?).Nodup := by
    rw [← show _ = _ from h]
    exact l.trades.uniqueSignalId
  have hentry : Entry.inserted r = Entry.inserted r' :=
    eq_of_nodup_filterMap hnodup hr hr' (congrArg some hsig) rfl
  cases hentry
  rfl

/-- **What is sent is what was asked for, and it is written ahead.** In every run, for orders
below 10^16:

* every POST is the order of one received signal, the one whose INSERT is on record for its
  signal id, made from a row that is committed and claimed;
* at the step that makes the POST, the row had been committed and claimed before;
* a query for a trade names the symbol and the client order id of that signal too;
* no step changes the terms of a row, or takes back its claim. -/
theorem sent_is_asked_and_written_ahead (env : Deployment)
    (hmax : env.settings.maxOrderQuantity.lt (.finite false 1 16) = true) {users : List User}
    {clock : DateTime} {ls : List (Label (service env))} {P : Pool (service env)}
    (h : Run (service env).system unguarded (Pool.idle (.initial users clock)) ls P) :
    (∀ x ∈ P.shared.toLedger.requests, x.method = .post →
      ∃ payload row, OrderOf env P.shared.toLedger x payload row) ∧
    (∀ r r', .inserted r ∈ P.shared.history → .inserted r' ∈ P.shared.history →
      r.signalId = r'.signalId → r = r') ∧
    (∀ x ∈ P.shared.toLedger.requests, x.method = .get →
      ∃ payload, ∃ row ∈ P.shared.trades.rows, FromSignal env P.shared.toLedger row payload ∧
        row.clientOrderId = buildClientOrderId env payload.signalId ∧
        x = queryRequest payload.symbol (buildClientOrderId env payload.signalId)) ∧
    ∀ l Q, (service env).system.step P l = some Q →
      (∀ x, Q.shared.toLedger.requests = P.shared.toLedger.requests ++ [x] → x.method = .post →
        ∃ payload row, OrderOf env P.shared.toLedger x payload row) ∧
      ∀ row ∈ P.shared.trades.rows, ∃ row' ∈ Q.shared.trades.rows, row'.terms = row.terms ∧
        (row.submittedAt.isSome → row'.submittedAt.isSome) := by
  obtain ⟨g, hs, hA⟩ := accepted_of_run h
  refine ⟨fun x hx hpost => orderOf_of_placed hmax hs hA hx hpost,
    fun r r' hr hr' hsig => (journalled_of_run h).inserted_unique hr hr' hsig, ?_, ?_⟩
  · intro x hx hget
    obtain ⟨row, hrow, rfl⟩ := hs.queried x hx hget
    obtain ⟨payload, hfrom⟩ := hA.rows row hrow
    obtain ⟨hcid, hsymbol, -, -⟩ := fromSignal_terms hfrom
    exact ⟨payload, row, hrow, hfrom, hcid, by rw [hsymbol, hcid]⟩
  intro l Q hstep
  refine ⟨fun x hx hpost => ?_, grows_step hstep⟩
  have hQ : Run (service env).system unguarded (Pool.idle (.initial users clock)) (ls ++ [l]) Q :=
    .snoc h trivial hstep
  obtain ⟨g', hs', hA'⟩ := accepted_of_run hQ
  obtain ⟨payload, row, ho⟩ := orderOf_of_placed hmax hs' hA'
    (hx ▸ List.mem_append_right _ List.mem_cons_self) hpost
  obtain ⟨htrades, hhist⟩ := step_of_send hstep hx
  refine ⟨payload, row, htrades ▸ ho.committed, ho.claimed, ?_, ho.clientOrderId, ho.symbol,
    ho.request⟩
  exact ho.origin.mono (by rw [hhist]; exact List.Subset.refl _) rfl

/-- The order of the sample run is the order of its signal. -/
theorem sent_is_asked_and_written_ahead_placed :
    ∃ P, Run (service Sample.inline).system unguarded (Sample.start _) Sample.placed P ∧
      ∃ x ∈ P.shared.toLedger.requests, x.method = .post ∧
        ∃ payload row, OrderOf Sample.inline P.shared.toLedger x payload row := by
  have h := System.run_get Sample.placed_follows
  have hpost : ∃ x ∈ (((service Sample.inline).system.follow unguarded (Sample.start _) Sample.placed).get
      Sample.placed_follows).shared.toLedger.requests, x.method = .post := by decide +kernel
  obtain ⟨x, hx, hmethod⟩ := hpost
  exact ⟨_, h, x, hx, hmethod,
    (sent_is_asked_and_written_ahead Sample.inline (by decide +kernel) h).1 x hx hmethod⟩

end AutoTrader
