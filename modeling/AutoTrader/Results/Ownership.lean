import AutoTrader.Api.Trades
import AutoTrader.System.Sample
import AutoTrader.System.Scene

/-!
# Nobody sees or affects the trades of others

Two worlds that agree on the rows of a user and on the clock, with arbitrary other rows, are
told apart by no request of that user: the list, one trade by its id, and a reconciliation are
answered alike, and the worlds agree afterwards (`trades_isolated`). A reconciliation changes no
row of anybody else and asks the exchange about none. So a whole session of requests is answered
alike (`session_isolated`).
-/

namespace AutoTrader

open Python Coroutine

/-! ## Requests and responses -/

/-- A request of an authenticated user to the routes of `app/api/routes/trades.py`. -/
inductive TradesRequest
  | list (limit offset : Nat) (status : Option TradeStatus)
  | get (id : TradeId)
  | reconcile (id : TradeId)

inductive TradesResponse
  | page (body : TradeListResponse)
  | trade (body : TradeRead)
  | raised (e : Exc)
  /-- The serialiser raised. -/
  | unserialisable

/-- The response of a route that ends with a trade. -/
def TradesResponse.ofTrade : Except Exc Trade → TradesResponse
  | .ok t =>
    match TradeRead.ofTrade t with
    | some body => .trade body
    | none => .unserialisable
  | .error e => .raised e

/-- The response to an id under which the user has no trade. -/
def TradesResponse.notFound (id : TradeId) : TradesResponse :=
  .raised (.resourceNotFound ("Trade " ++ String.ofList (natDigits id) ++ " was not found."))

/-- Thread `i` serves a request of a user in a scene. -/
def Scene.serve (S : Scene) (env : Deployment) (i : Nat) (tag : Tag) (user : UserId) (w : World) :
    TradesRequest → Option (TradesResponse × World)
  | .list limit offset status =>
    match listTrades w.trades user limit offset status with
    | some body => some (.page body, w)
    | none => some (.unserialisable, w)
  | .get id => (S.run env i tag (getTrade user id).run w).map fun p => (.ofTrade p.1, p.2)
  | .reconcile id =>
    (S.run env i tag (reconcileRoute env user id).run w).map fun p => (.ofTrade p.1, p.2)

/-! ## The rows of one user -/

/-- The row that a request for this id finds. -/
def TradeTable.own? (T : TradeTable) (user : UserId) (id : TradeId) : Option Trade :=
  (T.find? id).filter fun t => t.userId = user

/-- The tables have the same rows of this user. -/
def TradeTable.AgreeFor (user : UserId) (T T' : TradeTable) : Prop :=
  ∀ r : Trade, r.userId = user → (r ∈ T.rows ↔ r ∈ T'.rows)

/-- The worlds have the same rows of this user, and the same time. -/
structure World.AgreeFor (user : UserId) (w w' : World) : Prop where
  trades : w.trades.AgreeFor user w'.trades
  clock : w.clock = w'.clock

section Rows

variable {T T' : TradeTable} {user : UserId} {id : TradeId} {t r : Trade}

theorem TradeTable.own?_eq_some :
    T.own? user id = some t ↔ t ∈ T.rows ∧ t.id = id ∧ t.userId = user := by
  rw [own?, Option.filter_eq_some_iff, find?_eq_some, decide_eq_true_eq, and_assoc]

theorem TradeTable.AgreeFor.symm (h : T.AgreeFor user T') : T'.AgreeFor user T :=
  fun r hr => (h r hr).symm

theorem TradeTable.AgreeFor.own? (h : T.AgreeFor user T') : T.own? user id = T'.own? user id := by
  apply Option.ext
  intro t
  rw [own?_eq_some, own?_eq_some]
  constructor
  · rintro ⟨ht, hid, hmine⟩
    exact ⟨(h t hmine).mp ht, hid, hmine⟩
  · rintro ⟨ht, hid, hmine⟩
    exact ⟨(h t hmine).mpr ht, hid, hmine⟩

/-- The list is made of the user's rows only, in an order that does not depend on others. -/
theorem TradeTable.AgreeFor.listTradesForUser (h : T.AgreeFor user T') (limit offset : Nat)
    (status : Option TradeStatus) :
    listTradesForUser T user limit offset status =
      AutoTrader.listTradesForUser T' user limit offset status := by
  have hnodup : ∀ T : TradeTable, (T.mine user status).Nodup :=
    fun T => (List.Nodup.of_map _ T.primaryKey).filter _
  have hperm : (T.mine user status).Perm (T'.mine user status) := by
    rw [List.perm_ext_iff_of_nodup (hnodup T) (hnodup T')]
    intro t
    simp only [mine, List.mem_filter, Bool.and_eq_true, decide_eq_true_eq]
    constructor
    · rintro ⟨ht, hmine, hstatus⟩
      exact ⟨(h t hmine).mp ht, hmine, hstatus⟩
    · rintro ⟨ht, hmine, hstatus⟩
      exact ⟨(h t hmine).mpr ht, hmine, hstatus⟩
  have hsorted := sorted_of_perm (T := T) hperm fun t ht => List.mem_of_mem_filter ht
  rw [listTradesForUser_eq, listTradesForUser_eq, hsorted, hperm.length_eq]

theorem TradeTable.AgreeFor.update {u : TradeTable.Update} (h : T.AgreeFor user T')
    (hkeeps : ∀ t, (u.write t).userId = t.userId) :
    (T.update id u).AgreeFor user (T'.update id u) := by
  have hle : ∀ {T T' : TradeTable}, T.AgreeFor user T' → ∀ r : Trade, r.userId = user →
      r ∈ (T.update id u).rows → r ∈ (T'.update id u).rows := by
    intro T T' h r hr hmem
    obtain ⟨s, hs, rfl⟩ := mem_update.mp hmem
    refine mem_update.mpr ⟨s, (h s ?_).mp hs, rfl⟩
    split at hr
    · rw [← hkeeps s]
      exact hr
    · exact hr
  exact fun r hr => ⟨hle h r hr, hle h.symm r hr⟩

/-- An UPDATE of a user's row touches no row of anybody else. -/
theorem TradeTable.mem_update_foreign {u : TradeTable.Update} (ht : t ∈ T.rows)
    (hmine : t.userId = user) (hkeeps : ∀ t, (u.write t).userId = t.userId)
    (hr : r.userId ≠ user) : r ∈ (T.update t.id u).rows ↔ r ∈ T.rows := by
  rw [mem_update]
  constructor
  · rintro ⟨s, hs, rfl⟩
    split at hr
    · rename_i hid
      rw [eq_of_id hs ht hid, hkeeps] at hr
      exact absurd hmine hr
    · rw [if_neg ‹_›]
      exact hs
  · intro hmem
    refine ⟨r, hmem, if_neg fun hid => ?_⟩
    rw [eq_of_id hmem ht hid] at hr
    exact hr hmine

end Rows

/-! ## One request in a scene -/

section Serve

variable {S : Scene} {env : Deployment} {i : Nat} {tag : Tag} {user : UserId} {id : TradeId}
  {w : World} {t : Trade}

theorem Scene.run_getForUser {α : Type} (next : Except SqlError (Option Trade) → Free effects α) :
    S.run env i tag (.op (.getForUser user id) next) w =
      S.run env i tag (next (.ok (w.trades.own? user id))) w := rfl

/-- How the request for one trade ends. -/
def TradeTable.lookedUp (T : TradeTable) (user : UserId) (id : TradeId) : Except Exc Trade :=
  match T.own? user id with
  | none =>
    .error (.resourceNotFound ("Trade " ++ String.ofList (natDigits id) ++ " was not found."))
  | some t => .ok t

theorem Scene.run_getTrade : S.run env i tag (getTrade user id).run w =
    some (w.trades.lookedUp user id, w) := by
  simp only [getTrade, App.run_bind, App.run_db, App.run_perform, Free.bind_op, Free.bind_pure]
  rw [Scene.run_getForUser, TradeTable.lookedUp]
  cases w.trades.own? user id <;> rfl

/-- What the reconcile endpoint makes of the end of a reconciliation. -/
def reconciliationEnd : Except Exc TradeStatus × Instance → Except Exc Trade
  | (.ok _, j) => .ok j.current
  | (.error e, _) => .error e

theorem reconcileRoute_run : (reconcileRoute env user id).run =
    .op (.getForUser user id) fun r =>
      match r with
      | .ok none => .pure (.error (.resourceNotFound
          ("Trade " ++ String.ofList (natDigits id) ++ " was not found.")))
      | .ok (some t) =>
        ((reconcileTrade env).exec (.fresh t)).bind fun p => .pure (reconciliationEnd p)
      | .error e => .pure (.error (.sqlalchemy e)) := by
  simp only [reconcileRoute, App.run_bind, App.run_db, App.run_perform, Free.bind_op, Free.bind_pure]
  congr 1
  funext r
  rcases r with e | _ | t
  · rfl
  · rfl
  · simp only [Free.bind_pure, App.run_bind, OnTrade.on, App.run_mk]
    rw [Free.bind_assoc]
    congr 1
    funext p
    obtain ⟨_ | _, j⟩ := p <;> rfl

theorem Scene.run_reconcile_terminal (hterminal : t.isTerminal = true) :
    S.run env i tag ((reconcileTrade env).exec (.fresh t)) w =
      some ((.ok t.status, .fresh t), w) := by
  rw [reconcileTrade_exec, if_pos hterminal, Scene.run_pure]

theorem Scene.run_reconcileRoute : S.run env i tag (reconcileRoute env user id).run w =
    some (match w.trades.own? user id with
      | none => (.error (.resourceNotFound
          ("Trade " ++ String.ofList (natDigits id) ++ " was not found.")), w)
      | some t =>
        if t.isTerminal then (.ok t, w)
        else (reconciliationEnd (S.outcome env w.clock t), S.after env w t)) := by
  rw [reconcileRoute_run, Scene.run_getForUser]
  cases w.trades.own? user id with
  | none => rfl
  | some t =>
    refine (Scene.run_bind env i tag w _ _).trans ?_
    by_cases hterminal : t.isTerminal = true
    · rw [Scene.run_reconcile_terminal hterminal]
      simp only [if_pos hterminal]
      rfl
    · have hopen : t.isTerminal = false := by simpa using hterminal
      rw [Scene.run_reconcile hopen]
      simp only [if_neg hterminal]
      rfl

theorem World.AgreeFor.asking {w' : World} (h : w.AgreeFor user w') (t : Trade) :
    (w.asking t).AgreeFor user (w'.asking t) := ⟨h.trades, h.clock⟩

theorem World.AgreeFor.recording {w' : World} (h : w.AgreeFor user w') (t : Trade) (e : Edits) :
    (w.recording t e).AgreeFor user (w'.recording t e) := by
  refine ⟨?_, h.clock⟩
  simp only [World.recording, Ledger.record, h.clock]
  exact h.trades.update fun _ => rfl

theorem Scene.after_agree {w' : World} (h : w.AgreeFor user w') :
    (S.after env w t).AgreeFor user (S.after env w' t) := by
  rw [Scene.after, Scene.after, h.clock]
  cases S.answer env t with
  | error e => exact h.asking t
  | ok answer =>
    dsimp only
    cases S.refusal w'.clock t (answerEdits answer w'.clock) with
    | some e => exact h.asking t
    | none => exact (h.asking t).recording t _

/-- The trade was queried, and then perhaps an answer committed. -/
theorem Scene.after_cases (S : Scene) (env : Deployment) (w : World) (t : Trade) : S.after env w t = w.asking t ∨
    ∃ e, S.after env w t = (w.asking t).recording t e := by
  rw [Scene.after]
  cases S.answer env t with
  | error e => exact Or.inl rfl
  | ok answer =>
    dsimp only
    cases S.refusal w.clock t (answerEdits answer w.clock) with
    | some e => exact Or.inl rfl
    | none => exact Or.inr ⟨_, rfl⟩

theorem Scene.mem_after_foreign {r : Trade} (ht : t ∈ w.trades.rows) (hmine : t.userId = user)
    (hr : r.userId ≠ user) : r ∈ (S.after env w t).trades.rows ↔ r ∈ w.trades.rows := by
  rcases Scene.after_cases S env w t with h | ⟨e, h⟩
  · rw [h]
    rfl
  · rw [h]
    apply TradeTable.mem_update_foreign ht hmine _ hr
    intro s
    rfl

theorem World.requests_asking (w : World) (t : Trade) : (w.asking t).requests =
    w.requests ++ [queryRequest t.symbol t.clientOrderId] := by
  simp [World.asking, Ledger.requests, Ledger.send]

theorem Scene.requests_after : (S.after env w t).requests =
    w.requests ++ [queryRequest t.symbol t.clientOrderId] := by
  rw [← World.requests_asking]
  rcases Scene.after_cases S env w t with h | ⟨e, h⟩
  · rw [h]
  · rw [h]
    rfl

end Serve

/-! ## Isolation -/

/-- What a request of a user may do to the world. -/
structure World.Spares (user : UserId) (w u : World) : Prop where
  /-- No row of anybody else changes, appears or disappears. -/
  rows : ∀ r : Trade, r.userId ≠ user → (r ∈ u.trades.rows ↔ r ∈ w.trades.rows)
  /-- What the exchange is sent asks for an order, and not for one of anybody else. -/
  queries : ∃ qs, u.requests = w.requests ++ qs ∧ ∀ q ∈ qs, q.placed? = none ∧
    ∀ r ∈ w.trades.rows, r.userId ≠ user → q.queried? ≠ some r.clientOrderId

section Isolation

variable {S : Scene} {env : Deployment} {i : Nat} {tag : Tag} {user : UserId} {id : TradeId}
  {w w' : World} {t : Trade}

theorem World.Spares.refl (w : World) : w.Spares user w :=
  ⟨fun _ _ => Iff.rfl, [], (List.append_nil _).symm, fun q hq => by cases hq⟩

theorem Scene.after_spares (ht : t ∈ w.trades.rows) (hmine : t.userId = user) :
    w.Spares user (S.after env w t) := by
  refine ⟨fun r hr => Scene.mem_after_foreign ht hmine hr, _, Scene.requests_after, ?_⟩
  intro q hq
  obtain rfl := List.mem_singleton.mp hq
  refine ⟨queryRequest_placed? .., ?_⟩
  intro r hr hforeign hquery
  rw [queryRequest_queried?, Option.some_inj] at hquery
  rw [TradeTable.eq_of_clientOrderId hr ht hquery.symm] at hforeign
  exact hforeign hmine

/-- What one request is served with, and what it leaves behind. -/
structure Served (S : Scene) (env : Deployment) (i : Nat) (tag : Tag) (user : UserId)
    (x : TradesRequest) (w w' : World) (response : TradesResponse) (u u' : World) : Prop where
  run : S.serve env i tag user w x = some (response, u)
  run' : S.serve env i tag user w' x = some (response, u')
  agree : u.AgreeFor user u'
  spares : w.Spares user u

theorem listTrades_agree (h : w.AgreeFor user w') (limit offset : Nat)
    (status : Option TradeStatus) :
    listTrades w.trades user limit offset status =
      listTrades w'.trades user limit offset status := by
  simp only [listTrades, h.trades.listTradesForUser]

theorem served_list (h : w.AgreeFor user w') (limit offset : Nat) (status : Option TradeStatus) :
    ∃ response u u', Served S env i tag user (.list limit offset status) w w' response u u' := by
  cases hpage : listTrades w.trades user limit offset status with
  | none =>
    refine ⟨.unserialisable, w, w', ?_, ?_, h, .refl w⟩
    · simp only [Scene.serve, hpage]
    · simp only [Scene.serve, ← listTrades_agree h, hpage]
  | some body =>
    refine ⟨.page body, w, w', ?_, ?_, h, .refl w⟩
    · simp only [Scene.serve, hpage]
    · simp only [Scene.serve, ← listTrades_agree h, hpage]

theorem served_get (h : w.AgreeFor user w') :
    ∃ response u u', Served S env i tag user (.get id) w w' response u u' := by
  refine ⟨.ofTrade (w.trades.lookedUp user id), w, w', ?_, ?_, h, .refl w⟩
  · rw [Scene.serve, Scene.run_getTrade, Option.map_some]
  · rw [Scene.serve, Scene.run_getTrade, Option.map_some, TradeTable.lookedUp, TradeTable.lookedUp,
      h.trades.own?]

theorem served_reconcile (h : w.AgreeFor user w') :
    ∃ response u u', Served S env i tag user (.reconcile id) w w' response u u' := by
  cases hown : w.trades.own? user id with
  | none =>
    refine ⟨.notFound id, w, w', ?_, ?_, h, .refl w⟩
    · simp only [Scene.serve, Scene.run_reconcileRoute, hown, Option.map_some]
      rfl
    · simp only [Scene.serve, Scene.run_reconcileRoute, ← h.trades.own?, hown, Option.map_some]
      rfl
  | some t =>
    obtain ⟨ht, -, hmine⟩ := TradeTable.own?_eq_some.mp hown
    by_cases hterminal : t.isTerminal = true
    · refine ⟨.ofTrade (.ok t), w, w', ?_, ?_, h, .refl w⟩
      · simp only [Scene.serve, Scene.run_reconcileRoute, hown, if_pos hterminal, Option.map_some]
      · simp only [Scene.serve, Scene.run_reconcileRoute, ← h.trades.own?, hown, if_pos hterminal,
          Option.map_some]
    · refine ⟨.ofTrade (reconciliationEnd (S.outcome env w.clock t)), S.after env w t,
        S.after env w' t, ?_, ?_, Scene.after_agree h, Scene.after_spares ht hmine⟩
      · simp only [Scene.serve, Scene.run_reconcileRoute, hown, if_neg hterminal, Option.map_some]
      · simp only [Scene.serve, Scene.run_reconcileRoute, ← h.trades.own?, hown, if_neg hterminal,
          Option.map_some, ← h.clock]

variable (S env i tag) in
theorem served (h : w.AgreeFor user w') (x : TradesRequest) :
    ∃ response u u', Served S env i tag user x w w' response u u' := by
  cases x with
  | list limit offset status => exact served_list h limit offset status
  | get id => exact served_get h
  | reconcile id => exact served_reconcile h

/-- A session: the requests of a user one after the other. -/
def Scene.session (S : Scene) (env : Deployment) (i : Nat) (tag : Tag) (user : UserId) :
    World → List TradesRequest → Option (List TradesResponse × World)
  | w, [] => some ([], w)
  | w, x :: xs => do
    let (response, u) ← S.serve env i tag user w x
    let (responses, v) ← S.session env i tag user u xs
    return (response :: responses, v)

/-- A whole session is answered alike, and leaves the rows of others as they were. -/
theorem session_isolated (h : w.AgreeFor user w') (xs : List TradesRequest) :
    ∃ responses u u', S.session env i tag user w xs = some (responses, u) ∧
      S.session env i tag user w' xs = some (responses, u') ∧ u.AgreeFor user u' ∧
      ∀ r : Trade, r.userId ≠ user → (r ∈ u.trades.rows ↔ r ∈ w.trades.rows) := by
  induction xs generalizing w w' with
  | nil => exact ⟨[], w, w', rfl, rfl, h, fun _ _ => Iff.rfl⟩
  | cons x xs ih =>
    obtain ⟨response, u, u', hs⟩ := served S env i tag h x
    obtain ⟨responses, v, v', hrun, hrun', hagree, hrows⟩ := ih hs.agree
    refine ⟨response :: responses, v, v', ?_, ?_, hagree, ?_⟩
    · simp [Scene.session, hs.run, hrun]
    · simp [Scene.session, hs.run', hrun']
    · exact fun r hr => (hrows r hr).trans (hs.spares.rows r hr)

end Isolation

namespace Sample

/-- A trade of another user. -/
def foreign : Trade :=
  { trade with id := 2, userId := 2, signalId := "sig-2", clientOrderId := "cat-2" }

/-- The claimed trade, and the trade of another user. -/
def shared : World :=
  .found (claimed.trades.insert foreign (by decide +kernel)) users 3 0

end Sample

end AutoTrader
