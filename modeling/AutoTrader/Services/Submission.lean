import AutoTrader.Services.Reconciliation

/-!
# `app/services/trading_service.py`, from the order call on

`submit_to_binance`, the outcome handlers it ends in, and `process_signal`.

`Outcome` names what the `except` ladder makes of the order call, one constructor for
each handler, and `submitToBinance_exec` is the whole submission in these terms: the
log line, the request, the reply, and the handler of its outcome.
-/

namespace AutoTrader

open Python Coroutine

/-- `_finalise_success`. -/
def finaliseSuccess (result : BinanceOrderResult) : OnTrade Unit := do
  OnTrade.assign (successEdits result)
  try
    OnTrade.commit
  catch
    | .sqlalchemy e => do
      OnTrade.rollback
      let tradeId ← OnTrade.attr Trade.id
      let signalId ← OnTrade.attr Trade.signalId
      let clientOrderId ← OnTrade.attr Trade.clientOrderId
      OnTrade.lift (App.perform (.log (.orderSucceededButUpdateFailed tradeId signalId
        clientOrderId result.orderId result.status)))
      throw (.sqlalchemy e)
    | e => throw e

/-- `_finalise_failure`. -/
def finaliseFailure (status : TradeStatus) (errorCode errorMessage : String) : OnTrade Unit := do
  OnTrade.assign (failureEdits status errorCode errorMessage)
  try
    OnTrade.commit
  catch
    | .sqlalchemy e => do
      OnTrade.rollback
      let tradeId ← OnTrade.attr Trade.id
      let signalId ← OnTrade.attr Trade.signalId
      OnTrade.lift (App.perform (.log (.couldNotPersistFailure tradeId signalId)))
      throw (.sqlalchemy e)
    | e => throw e

/-- `_handle_uncertain_outcome`. -/
def handleUncertainOutcome (env : Deployment) (exc : BinanceError) : OnTrade Unit := do
  OnTrade.assign (uncertainEdits env exc)
  OnTrade.commit
  try
    let _ ← reconcileTrade env
  catch _ =>
    let tradeId ← OnTrade.attr Trade.id
    OnTrade.lift (App.perform (.log (.immediateReconciliationFailed tradeId)))

/-- `submit_to_binance`. -/
def submitToBinance (env : Deployment) : OnTrade Unit := do
  let symbol ← OnTrade.attr Trade.symbol
  let side ← OnTrade.attr Trade.side
  let quantity ← OnTrade.attr Trade.quantity
  let clientOrderId ← OnTrade.attr Trade.clientOrderId
  match ← OnTrade.lift (App.catchBinance
      (placeMarketOrder env symbol side.text quantity clientOrderId)) with
  | .ok result => finaliseSuccess result
  | .error exc =>
    match exc.kind with
    | .rateLimit =>
      finaliseFailure .rejected ("rate_limit:" ++ exc.code.toStr env.repr) exc.message
    | .rejected | .auth =>
      finaliseFailure .rejected (codeText env exc.code "rejected") exc.message
    | .unavailable =>
      finaliseFailure .failed (codeText env exc.code "unavailable") exc.message
    | .uncertain => handleUncertainOutcome env exc

/-! ## The submission as a tree of operations -/

/-- The handler that an order call ends in, with its arguments. -/
inductive Outcome
  | settled (result : BinanceOrderResult)
  | refused (status : TradeStatus) (errorCode errorMessage : String)
  | uncertain (exc : BinanceError)

/-- What the handler assigns. -/
def Outcome.edits (env : Deployment) : Outcome → Edits
  | .settled result => successEdits result
  | .refused status errorCode errorMessage => failureEdits status errorCode errorMessage
  | .uncertain exc => uncertainEdits env exc

/-- The `except` ladder of `submit_to_binance`; other exceptions pass through. -/
def orderOutcome (env : Deployment) : Except Exc BinanceOrderResult → Except Exc Outcome
  | .ok result => .ok (.settled result)
  | .error (.binance exc) =>
    match exc.kind with
    | .rateLimit => .ok (.refused .rejected ("rate_limit:" ++ exc.code.toStr env.repr) exc.message)
    | .rejected | .auth => .ok (.refused .rejected (codeText env exc.code "rejected") exc.message)
    | .unavailable => .ok (.refused .failed (codeText env exc.code "unavailable") exc.message)
    | .uncertain => .ok (.uncertain exc)
  | .error e => .error e

/-- The request that places the order of a trade. -/
def orderFor (env : Deployment) (t : Trade) (text : String) : HttpRequest :=
  orderRequest env.settings.binanceDryRun t.symbol t.side.text text t.clientOrderId

/-- The log line that announces it. -/
def orderLine (env : Deployment) (t : Trade) (text : String) : LogRecord :=
  .orderRequest (orderFor env t text).path t.side.text t.symbol text t.clientOrderId

/-- What an order call for the trade comes to, given how it ends. -/
def submissionOutcome (env : Deployment) (t : Trade) (outcome : Transport) : Except Exc Outcome :=
  orderOutcome env (orderReply env t.symbol t.side.text t.clientOrderId outcome)

section Outcomes

variable {env : Deployment} {t : Trade} {outcome : Transport}

variable (env t outcome) in
theorem submissionOutcome_rejected {e : BinanceError}
    (h : handleTransport outcome = .error (.binance e)) (hk : e.kind.isRejected = true) :
    ∃ code message, submissionOutcome env t outcome = .ok (.refused .rejected code message) := by
  simp only [submissionOutcome, orderReply, h, orderOutcome]
  cases hkind : e.kind with
  | rateLimit => exact ⟨_, _, rfl⟩
  | rejected => exact ⟨_, _, rfl⟩
  | auth => exact ⟨_, _, rfl⟩
  | unavailable | uncertain =>
    rw [hkind] at hk
    cases hk

variable (env t outcome) in
theorem submissionOutcome_uncertain {e : BinanceError}
    (h : handleTransport outcome = .error (.binance e)) (hk : e.kind = .uncertain) :
    submissionOutcome env t outcome = .ok (.uncertain e) := by
  simp only [submissionOutcome, orderReply, h, orderOutcome, hk]

variable (t outcome) in
/-- Outside dry-run mode the fields of a reply decide. -/
theorem submissionOutcome_fields (hdry : env.settings.binanceDryRun = false)
    {fields : List (String × Json)} (h : handleTransport outcome = .ok fields) :
    submissionOutcome env t outcome =
      match BinanceOrderResult.fromPayload env.repr fields with
      | .ok result => .ok (.settled result)
      | .error e => .error (.conversion e) := by
  simp only [submissionOutcome, orderReply, h, hdry, Bool.false_eq_true, if_false]
  cases BinanceOrderResult.fromPayload env.repr fields <;> rfl

theorem status_of_refused {status : TradeStatus} {code message : String}
    (h : submissionOutcome env t outcome = .ok (.refused status code message)) :
    status = .rejected ∨ status = .failed := by
  cases hreply : orderReply env t.symbol t.side.text t.clientOrderId outcome with
  | ok result =>
    rw [submissionOutcome, hreply] at h
    cases h
  | error e =>
    rw [submissionOutcome, hreply] at h
    cases e with
    | binance e =>
      cases hk : e.kind with
      | unavailable =>
        simp only [orderOutcome, hk] at h
        cases h
        exact Or.inr rfl
      | uncertain =>
        simp only [orderOutcome, hk] at h
        cases h
      | rateLimit | rejected | auth =>
        simp only [orderOutcome, hk] at h
        cases h
        exact Or.inl rfl
    | _ => cases h

end Outcomes

/-- The query for the trade that ends the uncertain handler. -/
def queryNow (env : Deployment) (i : Instance) : Free effects (Except Exc Unit × Instance) :=
  ((reconcileTrade env).exec i).bind fun p =>
    match p with
    | (.ok _, j) => .pure (.ok (), j)
    | (.error _, j) =>
      match j.access.error? with
      | none =>
        .op (.log (.immediateReconciliationFailed j.current.id)) fun _ => .pure (.ok (), j)
      | some e => .pure (.error e, j)

/-- The copy with the edits of an outcome. -/
def Outcome.held (env : Deployment) (t : Trade) (o : Outcome) : Instance :=
  ⟨t, o.edits env, .loaded⟩

/-- How the handler of an outcome ends when its commit fails. After `rollback()` the object
has expired, so that a handler which still reads it raises another exception than the one it
caught. -/
def Outcome.unrecorded (env : Deployment) (t : Trade) :
    Outcome → CommitError → Except Exc Unit × Instance
  | .uncertain exc, e => (.error e.exc, ((uncertain exc).held env t).failed e)
  -- no `SQLAlchemyError`, so that it passes by the handler
  | o, .comparison => (.error .invalidOperation, (o.held env t).failed .comparison)
  | o, e => (.error .missingGreenlet, ((o.held env t).failed e).rolledBack)

/-- The handler of an outcome. -/
def settle (env : Deployment) (t : Trade) (o : Outcome) : Free effects (Except Exc Unit × Instance) :=
  .op (.commit t (o.edits env)) fun r =>
    match r with
    | .error e => .pure (o.unrecorded env t e)
    | .ok now =>
      match o with
      | .uncertain _ => queryNow env ((o.held env t).flushed now)
      | _ => .pure (.ok (), (o.held env t).flushed now)

theorem unrecorded_eq (env : Deployment) (t : Trade) (o : Outcome) (e : CommitError) :
    ∃ exc j, o.unrecorded env t e = (.error exc, j) ∧ exc.isRefusal = false := by
  cases o <;> cases e <;> exact ⟨_, _, rfl, rfl⟩

theorem finaliseSuccess_exec (env : Deployment) (t : Trade) (result : BinanceOrderResult) :
    (finaliseSuccess result).exec (.fresh t) = settle env t (.settled result) := by
  simp only [finaliseSuccess, OnTrade.exec_bind, OnTrade.exec_assign, OnTrade.exec_tryCatch,
    OnTrade.exec_commit, Instance.fresh_assign, Free.bind_op, Free.bind_pure, settle,
    Outcome.edits]
  congr 1
  funext r
  rcases r with (_ | _ | _) | _ <;> rfl

theorem finaliseFailure_exec (env : Deployment) (t : Trade) (status : TradeStatus)
    (code message : String) :
    (finaliseFailure status code message).exec (.fresh t) =
      settle env t (.refused status code message) := by
  simp only [finaliseFailure, OnTrade.exec_bind, OnTrade.exec_assign, OnTrade.exec_tryCatch,
    OnTrade.exec_commit, Instance.fresh_assign, Free.bind_op, Free.bind_pure, settle,
    Outcome.edits]
  congr 1
  funext r
  rcases r with (_ | _ | _) | _ <;> rfl

theorem handleUncertainOutcome_exec (env : Deployment) (t : Trade) (exc : BinanceError) :
    (handleUncertainOutcome env exc).exec (.fresh t) = settle env t (.uncertain exc) := by
  simp only [handleUncertainOutcome, OnTrade.exec_bind, OnTrade.exec_assign, OnTrade.exec_tryCatch,
    OnTrade.exec_commit, Instance.fresh_assign, Free.bind_op, Free.bind_pure, settle,
    Outcome.edits]
  congr 1
  funext r
  cases r with
  | error e => rfl
  | ok now =>
    simp only [Free.bind_pure, queryNow, Free.bind_assoc]
    congr 1
    funext p
    rcases p with ⟨_ | _, j⟩
    · simp only [OnTrade.exec_attr, OnTrade.exec_lift, App.run_perform, Free.bind_pure]
      cases j.access <;> rfl
    · rfl

/-- The submission of a trade whose copy is fresh. -/
theorem submitToBinance_exec (env : Deployment) (t : Trade) :
    (submitToBinance env).exec (.fresh t) =
      match formatDecimal t.quantity with
      | none => .pure (.error (.conversion .valueError), .fresh t)
      | some text =>
        .op (.log (orderLine env t text)) fun _ =>
        .op (.send (orderFor env t text)) fun k =>
        .op (.receive k) fun outcome =>
        match submissionOutcome env t outcome with
        | .ok o => settle env t o
        | .error e => .pure (.error e, .fresh t) := by
  simp only [submitToBinance, OnTrade.exec_bind, OnTrade.exec_attr_fresh, OnTrade.exec_lift,
    App.run_catchBinance, placeMarketOrder_run, Free.bind_pure]
  cases formatDecimal t.quantity with
  | none => rfl
  | some text =>
    simp only [Free.bind_op, Free.bind_pure]
    congr 1
    funext _
    congr 1
    funext k
    congr 1
    funext outcome
    simp only [submissionOutcome]
    cases orderReply env t.symbol t.side.text t.clientOrderId outcome with
    | ok result => exact finaliseSuccess_exec env t result
    | error e =>
      cases e with
      | binance exc =>
        simp only [App.caught, orderOutcome]
        cases exc.kind with
        | rateLimit => exact finaliseFailure_exec env t _ _ _
        | rejected => exact finaliseFailure_exec env t _ _ _
        | auth => exact finaliseFailure_exec env t _ _ _
        | unavailable => exact finaliseFailure_exec env t _ _ _
        | uncertain => exact handleUncertainOutcome_exec env t _
      | _ => rfl

/-! ## The entry point -/

/-- `process_signal`. -/
def processSignal (env : Deployment) (payload : TradingViewWebhookPayload) : App Trade := do
  ExceptT.mk (pure (validateSignal env payload))
  let ownerId ← resolveTradeOwnerId env
  let trade ← createPendingTrade env payload ownerId
  if env.settings.webhookAsyncExecution then
    let _ ← App.perform (.enqueue trade.id)
    return trade
  else
    match ← claimForSubmission trade.id with
    | none => return trade
    | some claimed =>
      let (_, i) ← OnTrade.on claimed (submitToBinance env)
      return i.current

end AutoTrader
