import AutoTrader.Results.Classification
import AutoTrader.System.Scene

/-!
# What counts as an answer

A reconciliation asks the exchange about a trade. An answer is a 2xx response that describes
an order, or the 4xx response that says there is none; everything else leaves the question
open, and should leave the row as it is.

The client sorts the ends of a query otherwise: by what passes for an order
(`passesForOrder`), what says there is none (`saysNoOrder`), what makes it raise an error
nobody expects (`breaksQuery`), and the rest, where it raises its own error. The first sort
is too wide. Below 400 every JSON value passes, and a missing status is read as NEW.
-/

namespace AutoTrader

open Python Coroutine UnitOfWork

namespace Response

/-- The client makes an order of the response. -/
def passesForOrder (r : Response) : Bool :=
  decide (r.statusCode < 400) &&
    match r.body with
    | .json (.obj fields) => (BinanceOrderResult.orderIdField fields).isOk
    | .json _ => true
    | _ => false

/-- The client takes the response for the absence of an order. -/
def saysNoOrder (r : Response) : Bool :=
  decide (400 ≤ r.statusCode) && decide (r.statusCode < 500) && r.saysAbsent

/-- The body is nested too deeply for the decoder, and the client decodes it. -/
def isTooDeep (r : Response) : Bool :=
  decide (r.statusCode < 500) &&
    match r.body with
    | .tooDeep => true
    | _ => false

/-- The order id is one that `int` does not accept. -/
def hasBadOrderId (r : Response) : Bool :=
  decide (r.statusCode < 400) &&
    match r.body with
    | .json (.obj fields) => !(BinanceOrderResult.orderIdField fields).isOk
    | _ => false

/-- The response makes the client raise an error that is not its own. -/
def breaksQuery (r : Response) : Bool := r.isTooDeep || r.hasBadOrderId

/-- The response describes an order, or says that there is none. -/
def isAnswer (r : Response) : Bool :=
  decide (200 ≤ r.statusCode) && decide (r.statusCode < 300) && r.orderStatus?.isSome ||
    r.saysNoOrder

end Response

namespace Transport

def response? : Transport → Option Response
  | .response r => some r
  | _ => none

def passesForOrder (o : Transport) : Bool := o.response?.any Response.passesForOrder

def saysNoOrder (o : Transport) : Bool := o.response?.any Response.saysNoOrder

def isTooDeep (o : Transport) : Bool := o.response?.any Response.isTooDeep

def hasBadOrderId (o : Transport) : Bool := o.response?.any Response.hasBadOrderId

def breaksQuery (o : Transport) : Bool := o.response?.any Response.breaksQuery

def isAnswer (o : Transport) : Bool := o.response?.any Response.isAnswer

/-- The end of a query that is taken for an order without being an answer. -/
def isMisread (o : Transport) : Bool := o.passesForOrder && !o.isAnswer

end Transport

/-! ## The four ends of a query -/

section Query

variable {env : Deployment} {o : Transport} {r : Response}

variable (env) in
theorem fromPayload_isOk (fields : List (String × Json)) :
    (BinanceOrderResult.fromPayload env.repr fields).isOk =
      (BinanceOrderResult.orderIdField fields).isOk := by
  simp only [BinanceOrderResult.fromPayload, bind, Except.bind]
  cases BinanceOrderResult.orderIdField fields <;> rfl

variable (env) in
theorem queryReply_fields {fields : List (String × Json)}
    (h : handleTransport o = .ok fields) :
    ((BinanceOrderResult.orderIdField fields).isOk = true ∧
        ∃ result, queryReply env o = .ok (some result)) ∨
      ((BinanceOrderResult.orderIdField fields).isOk = false ∧
        ∃ e, queryReply env o = .error (.conversion e)) := by
  rw [← fromPayload_isOk env]
  simp only [queryReply, h]
  cases BinanceOrderResult.fromPayload env.repr fields with
  | ok result => exact Or.inl ⟨rfl, _, rfl⟩
  | error e => exact Or.inr ⟨rfl, _, rfl⟩

theorem queryReply_raised {e : Exc} (h : handleTransport o = .error e)
    (he : ∀ b, e ≠ .binance b) : queryReply env o = .error e := by
  simp only [queryReply, h]

variable (env o) in
theorem queryReply_binance {b : BinanceError} (h : handleTransport o = .error (.binance b)) :
    queryReply env o =
      if b.kind.isRejected && b.code.eqInt orderDoesNotExistCode then .ok none
      else .error (.binance b) := by
  simp only [queryReply, h]

theorem errorBody_ok (h : r.body ≠ .tooDeep) : ∃ fields, errorBody r = .ok fields := by
  cases hb : r.body with
  | json v => cases v <;> exact ⟨_, by rw [errorBody, hb]⟩
  | notJson => exact ⟨_, by rw [errorBody, hb]⟩
  | tooDeep => exact absurd hb h

theorem errorMessage_ok (h : r.body ≠ .tooDeep) : ∃ message, errorMessage r = .ok message := by
  obtain ⟨fields, hfields⟩ := errorBody_ok h
  simp only [errorMessage, hfields, bind, Except.bind]
  split
  · split <;> exact ⟨_, rfl⟩
  · exact ⟨_, rfl⟩

/-- The code of a 4xx response is the code of the error. -/
theorem errorCode_of_client (h : 400 ≤ r.statusCode) (h' : r.statusCode < 500)
    (hdeep : r.body ≠ .tooDeep) {b : BinanceError}
    (hb : handleResponse r = .error (.binance b)) : errorCode r = .ok b.code := by
  obtain ⟨fields, hfields⟩ := errorBody_ok hdeep
  obtain ⟨message, hmessage⟩ := errorMessage_ok hdeep
  have hcode : errorCode r = .ok ((Json.get fields "code").getD .null) := by
    simp only [errorCode, hfields, bind, Except.bind]
    rfl
  rw [handleResponse, if_neg (by omega)] at hb
  simp only [hcode, hmessage, bind, Except.bind] at hb
  rw [hcode]
  by_cases hlimit : r.statusCode = 429 ∨ r.statusCode = 418
  · rw [if_pos hlimit] at hb
    cases hb
    rfl
  · rw [if_neg hlimit, if_pos h] at hb
    cases hb
    rfl

/-- How the client sorts the ends of a query. -/
theorem queryReply_cases (env : Deployment) (o : Transport) :
    (o.passesForOrder = true ∧ o.saysNoOrder = false ∧ o.breaksQuery = false ∧
        ∃ result, queryReply env o = .ok (some result)) ∨
      (o.passesForOrder = false ∧ o.saysNoOrder = true ∧ o.breaksQuery = false ∧
        queryReply env o = .ok none) ∨
      (o.passesForOrder = false ∧ o.saysNoOrder = false ∧ o.breaksQuery = true ∧
        ∃ e, queryReply env o = .error e ∧ ∀ b, e ≠ .binance b) ∨
      (o.passesForOrder = false ∧ o.saysNoOrder = false ∧ o.breaksQuery = false ∧
        ∃ b, queryReply env o = .error (.binance b)) := by
  cases o with
  | connectError | connectTimeout | timeout | httpError =>
    exact Or.inr (Or.inr (Or.inr ⟨rfl, rfl, rfl, _, rfl⟩))
  | response r =>
    simp only [Transport.passesForOrder, Transport.saysNoOrder, Transport.breaksQuery,
      Transport.response?, Option.any_some]
    rcases lt_or_ge r.statusCode 400 with hlow | hge
    · have hnone : r.saysNoOrder = false := by
        simp [Response.saysNoOrder, show ¬ 400 ≤ r.statusCode by omega]
      have hresponse : handleTransport (.response r) = _ := handleResponse_success hlow
      cases hb : r.body with
      | notJson =>
        rw [hb] at hresponse
        refine Or.inr (Or.inr (Or.inr ⟨?_, hnone, ?_, _, queryReply_binance env _ hresponse⟩))
        · simp [Response.passesForOrder, hb]
        · simp [Response.breaksQuery, Response.isTooDeep, Response.hasBadOrderId, hb]
      | tooDeep =>
        rw [hb] at hresponse
        refine Or.inr (Or.inr (Or.inl ⟨?_, hnone, ?_, _,
          queryReply_raised hresponse (by simp), by simp⟩))
        · simp [Response.passesForOrder, hb]
        · simp [Response.breaksQuery, Response.isTooDeep, hb]
          omega
      | json v =>
        cases v with
        | obj fields =>
          rw [hb] at hresponse
          rcases queryReply_fields env hresponse with ⟨hid, hresult⟩ | ⟨hid, e, herror⟩
          · refine Or.inl ⟨?_, hnone, ?_, hresult⟩
            · simp [Response.passesForOrder, hb, hlow, hid]
            · simp [Response.breaksQuery, Response.isTooDeep, Response.hasBadOrderId, hb, hid]
          · refine Or.inr (Or.inr (Or.inl ⟨?_, hnone, ?_, _, herror, by simp⟩))
            · simp [Response.passesForOrder, hb, hid]
            · simp [Response.breaksQuery, Response.hasBadOrderId, hb, hid, hlow]
        | _ =>
          rw [hb] at hresponse
          refine Or.inl ⟨?_, hnone, ?_, ?_⟩
          · simp [Response.passesForOrder, hb, hlow]
          · simp [Response.breaksQuery, Response.isTooDeep, Response.hasBadOrderId, hb]
          · rcases queryReply_fields env hresponse with ⟨-, hresult⟩ | ⟨hid, -⟩
            · exact hresult
            · cases hid
    · have hpasses : r.passesForOrder = false := by
        simp [Response.passesForOrder, show ¬ r.statusCode < 400 by omega]
      rcases lt_or_ge r.statusCode 500 with hlt | hserver
      · rcases handleResponse_client hge hlt with ⟨hb, hraise⟩ | ⟨hb, e, herror, hk⟩
        · refine Or.inr (Or.inr (Or.inl ⟨hpasses, ?_, ?_, _,
            queryReply_raised (o := .response r) hraise (by simp), by simp⟩))
          · simp [Response.saysNoOrder, Response.saysAbsent, errorCode, errorBody, hb, bind,
              Except.bind]
          · simp [Response.breaksQuery, Response.isTooDeep, hb, hlt]
        · have hbreaks : r.breaksQuery = false := by
            simp only [Response.breaksQuery, Response.isTooDeep, Response.hasBadOrderId,
              show ¬ r.statusCode < 400 by omega]
            cases hbody : r.body with
            | json v => cases v <;> simp
            | notJson => simp
            | tooDeep => exact absurd hbody hb
          have habsent : r.saysNoOrder = e.code.eqInt orderDoesNotExistCode := by
            simp [Response.saysNoOrder, Response.saysAbsent, hge, hlt,
              errorCode_of_client hge hlt hb herror]
          have hreply := queryReply_binance env (.response r) herror
          rw [hk, Bool.true_and, ← habsent] at hreply
          cases habsent : r.saysNoOrder with
          | true =>
            rw [habsent, if_pos rfl] at hreply
            exact Or.inr (Or.inl ⟨hpasses, rfl, hbreaks, hreply⟩)
          | false =>
            rw [habsent, if_neg Bool.false_ne_true] at hreply
            exact Or.inr (Or.inr (Or.inr ⟨hpasses, rfl, hbreaks, _, hreply⟩))
      · obtain ⟨e, herror, hk⟩ := handleResponse_server hserver
        have hreply := queryReply_binance env (.response r) herror
        rw [hk] at hreply
        refine Or.inr (Or.inr (Or.inr ⟨hpasses, ?_, ?_, e, hreply⟩))
        · simp [Response.saysNoOrder, show ¬ r.statusCode < 500 by omega]
        · simp [Response.breaksQuery, Response.isTooDeep, Response.hasBadOrderId,
            show ¬ r.statusCode < 500 by omega, show ¬ r.statusCode < 400 by omega]

end Query

/-! ## The reconciliation -/

section Reconciliation

variable {env : Deployment} {i : Nat} {tag : Tag} {t : Trade} {o : Transport}

/-- Nothing has changed in the table, so that the next run selects what it would have
selected before. -/
def LeftAlone (w u : World) : Prop :=
  u.trades = w.trades ∧
    ∀ cutoff limit, u.selectReconcilable cutoff limit = w.selectReconcilable cutoff limit

theorem leftAlone_of_trades {w u : World} (h : u.trades = w.trades) : LeftAlone w u :=
  ⟨h, fun cutoff limit => by simp only [World.selectReconcilable, h]⟩

/-- In every world and whatever the database refuses: if the query for `t` ends as `o`, its
reconciliation changes the table only if the trade is open and `o` is an answer. -/
def OnlyAnswersCount (env : Deployment) (i : Nat) (tag : Tag) (t : Trade) (o : Transport) : Prop :=
  ∀ (S : Scene) (w : World), S.ends (queryRequest t.symbol t.clientOrderId) = o →
    t ∈ w.trades.rows →
    ∃ x u, S.run env i tag ((reconcileTrade env).exec (.fresh t)) w = some (x, u) ∧
      (LeftAlone w u ∨ t.isTerminal = false ∧ o.isAnswer = true)

theorem run_reconcile_terminal {S : Scene} {w : World} (hterm : t.isTerminal = true) :
    S.run env i tag ((reconcileTrade env).exec (.fresh t)) w =
      some ((.ok t.status, .fresh t), w) := by
  rw [reconcileTrade_exec, hterm]
  rfl

/-- A world with the one trade `t`, at a time other than that of its last reconciliation. -/
def worldOf (t : Trade) : World :=
  .found (TradeTable.empty.insert t ⟨by simp [TradeTable.empty], by simp [TradeTable.empty],
    by simp [TradeTable.empty]⟩) [] (t.id + 1) (t.reconciledAt.getD 0 + 1)

theorem mem_worldOf (t : Trade) : t ∈ (worldOf t).trades.rows := List.mem_singleton.mpr rfl

theorem reconciledAt_worldOf (t : Trade) : t.reconciledAt ≠ some (worldOf t).clock := by
  change t.reconciledAt ≠ some (t.reconciledAt.getD 0 + 1)
  cases t.reconciledAt with
  | none => simp
  | some x => simp

/-- The row takes the order that the client makes of the end of a query. -/
def Trade.takes (env : Deployment) (t : Trade) (o : Transport) : Bool :=
  match queryReply env o with
  | .ok (some result) => result.fits t
  | _ => false

/-- A misread end that the row takes is recorded on an open trade. -/
theorem misread_counts (hopen : t.isTerminal = false) (hmisread : o.isMisread = true)
    (htakes : t.takes env o = true) :
    ¬ OnlyAnswersCount env i tag t o := by
  intro h
  rw [Transport.isMisread, Bool.and_eq_true, Bool.not_eq_true'] at hmisread
  obtain ⟨hpasses, hanswer⟩ := hmisread
  obtain ⟨x, u, hrun, hleft | hmeant⟩ :=
    h (.storing fun _ => o) (worldOf t) rfl (mem_worldOf t)
  · -- the row is stamped with the time of the reconciliation
    rcases queryReply_cases env o with ⟨-, -, -, result, hreply⟩ | ⟨hno, -⟩ | ⟨hno, -⟩ | ⟨hno, -⟩
    · have hfits : result.fits t = true := by
        rw [Trade.takes, hreply] at htakes
        exact htakes
      have hflush := (flushError_foundEdits result t (worldOf t).clock).mpr hfits
      rw [Scene.run_reconcile hopen] at hrun
      obtain ⟨-, rfl⟩ := Prod.mk.inj (Option.some.inj hrun)
      have hrow : (worldOf t).trades.find? t.id =
          some ((foundEdits result (worldOf t).clock).flush t (worldOf t).clock t) := by
        rw [← hleft.1]
        have hanswer : (Scene.storing fun _ => o).answer env t = .ok (some result) := hreply
        simp only [Scene.after, hanswer, Scene.refusal_storing, answerEdits, hflush]
        exact World.find?_recording (w := (worldOf t).asking t) (mem_worldOf t) _
      rw [World.find?_of_mem (mem_worldOf t)] at hrow
      have hstamp := congrArg Trade.reconciledAt (Option.some.inj hrow)
      simp only [Edits.flush, foundEdits, plain_flush_self] at hstamp
      exact reconciledAt_worldOf t hstamp
    all_goals
      rw [hpasses] at hno
      cases hno
  · rw [hanswer] at hmeant
    cases hmeant.2

/-- **When only answers count.** However the query for a trade ends: nothing but an answer
changes the table if and only if the trade is settled, or the end is not misread, or the row
does not take what it is misread for. -/
theorem only_answers_count_iff :
    OnlyAnswersCount env i tag t o ↔
      t.isTerminal = true ∨ o.isMisread = false ∨ t.takes env o = false := by
  constructor
  · intro h
    cases hterm : t.isTerminal with
    | true => exact Or.inl rfl
    | false =>
      cases hread : o.isMisread with
      | false => exact Or.inr (Or.inl rfl)
      | true =>
        cases htakes : t.takes env o with
        | true => exact absurd h (misread_counts hterm hread htakes)
        | false => exact Or.inr (Or.inr rfl)
  · intro h S w hends ht
    cases hterm : t.isTerminal with
    | true => exact ⟨_, w, run_reconcile_terminal hterm, Or.inl (leftAlone_of_trades rfl)⟩
    | false =>
      rw [hterm] at h
      have hread : o.isMisread = false ∨ t.takes env o = false :=
        h.resolve_left Bool.false_ne_true
      refine ⟨_, _, Scene.run_reconcile hterm, ?_⟩
      simp only [Scene.after, Scene.answer, hends]
      rcases queryReply_cases env o with ⟨hpasses, -, -, result, hreply⟩ | ⟨-, habsent, -, hreply⟩ |
        ⟨-, -, -, e, hreply, -⟩ | ⟨-, -, -, e, hreply⟩
      · rcases hread with hread | htakes
        · rw [Transport.isMisread, hpasses] at hread
          exact Or.inr ⟨trivial, by simpa using hread⟩
        · -- the flush fails before anything is written
          have hrefused : S.refusal w.clock t (foundEdits result w.clock) ≠ none := by
            intro hnone
            have hfits := (flushError_foundEdits result t w.clock).mp (Scene.refusal_none hnone)
            simp only [Trade.takes, hreply, hfits] at htakes
            cases htakes
          obtain ⟨e, he⟩ := Option.ne_none_iff_exists'.mp hrefused
          simp only [hreply, answerEdits, he]
          exact Or.inl (leftAlone_of_trades rfl)
      · have hanswer : o.isAnswer = true := by
          cases o with
          | response r =>
            have hr : r.saysNoOrder = true := habsent
            simp [Transport.isAnswer, Transport.response?, Response.isAnswer, hr]
          | _ => cases habsent
        exact Or.inr ⟨trivial, hanswer⟩
      · rw [hreply]
        exact Or.inl (leftAlone_of_trades rfl)
      · rw [hreply]
        exact Or.inl (leftAlone_of_trades rfl)

/-- A claimed trade and a reply `{}` with status code 200: the reconciliation records an
order that the reply does not describe. -/
theorem empty_reply_counts :
    ¬ ∀ (t : Trade) (o : Transport), OnlyAnswersCount Sample.inline 0 ⟨0, .reconcile 1 1⟩ t o := by
  intro h
  exact misread_counts (by decide +kernel) (by decide +kernel) (by decide +kernel)
    (h Sample.trade (.response emptyReply))

end Reconciliation

end AutoTrader
