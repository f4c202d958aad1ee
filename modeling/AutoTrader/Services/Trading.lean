import AutoTrader.Schemas.Webhook
import AutoTrader.Services.Binance

/-!
# `app/services/trading_service.py`, up to the outcome of the order call

Validation, the durable PENDING row, the claim, and the assignments each outcome
handler makes. The order call itself is in `Submission`, because its uncertain outcome
needs reconciliation and reconciliation needs the status map.
-/

namespace AutoTrader

open Python Coroutine

/-- `BINANCE_STATUS_MAP.get(status, TradeStatus.NEW)`. -/
def binanceStatusMap (status : String) : TradeStatus :=
  if status = "NEW" then .new
  else if status = "PARTIALLY_FILLED" then .partiallyFilled
  else if status = "FILLED" then .filled
  else if status = "CANCELED" then .cancelled
  else if status = "PENDING_CANCEL" then .cancelled
  else if status = "REJECTED" then .rejected
  else if status = "EXPIRED" then .expired
  else if status = "EXPIRED_IN_MATCH" then .expired
  else if status = "DRY_RUN_VALIDATED" then .filled
  else .new

/-- An order known to the exchange is never mapped to one of the local-only states. -/
theorem binanceStatusMap_mirrored (status : String) :
    binanceStatusMap status ≠ .pending ∧ binanceStatusMap status ≠ .unknown ∧
      binanceStatusMap status ≠ .failed := by
  unfold binanceStatusMap
  split_ifs <;> simp

/-- `CLIENT_ORDER_ID_PREFIX`. -/
def clientOrderIdPrefix : String := "cat-"

/-- `build_client_order_id`. -/
def buildClientOrderId (env : Deployment) (signalId : String) : String :=
  clientOrderIdPrefix ++ String.ofList ((env.sha256Hex signalId).toList.take 28)

/-! ## Business validation -/

/-- `validate_signal`. -/
def validateSignal (env : Deployment) (payload : TradingViewWebhookPayload) : Except Exc Unit := do
  let allowed := env.settings.allowedSymbolSet
  if payload.symbol ∉ allowed then
    throw (.businessValidation ("Symbol " ++ payload.symbol ++
      " is not enabled for trading. Allowed symbols: " ++ joinTexts ", " (sortedTexts allowed) ++ "."))
  let minimum := env.settings.minOrderQuantity
  let maximum := env.settings.maxOrderQuantity
  if payload.quantity.lt minimum then
    throw (.businessValidation ("Quantity " ++ payload.quantity.str ++
      " is below the minimum order size of " ++ minimum.str ++ "."))
  if maximum.lt payload.quantity then
    throw (.businessValidation ("Quantity " ++ payload.quantity.str ++
      " exceeds the maximum order size of " ++ maximum.str ++
      ". This is a safety limit, not a Binance limit."))

theorem validateSignal_ok {env : Deployment} {payload : TradingViewWebhookPayload}
    (h : validateSignal env payload = .ok ()) :
    payload.symbol ∈ env.settings.allowedSymbolSet ∧
      payload.quantity.lt env.settings.minOrderQuantity = false ∧
      env.settings.maxOrderQuantity.lt payload.quantity = false := by
  by_cases hs : payload.symbol ∈ env.settings.allowedSymbolSet
  · by_cases hmin : payload.quantity.lt env.settings.minOrderQuantity = true
    · simp [validateSignal, hs, hmin, throw, throwThe, MonadExceptOf.throw, bind, Except.bind] at h
    · by_cases hmax : env.settings.maxOrderQuantity.lt payload.quantity = true
      · simp [validateSignal, hs, hmin, hmax, throw, throwThe, MonadExceptOf.throw] at h
      · exact ⟨hs, by simpa using hmin, by simpa using hmax⟩
  · simp [validateSignal, hs, throw, throwThe, MonadExceptOf.throw, bind, Except.bind] at h

/-! ## Step 1: the durable PENDING record -/

/-- `_resolve_trade_owner_id`. -/
def resolveTradeOwnerId (env : Deployment) : App UserId := do
  match ← App.perform .cachedOwner with
  | some id => return id
  | none =>
    match ← App.db (App.perform (.selectOwner env.settings.webhookTradeOwnerEmail)) with
    | none =>
      throw (.configuration "Webhook trade owner account is not registered on this server.")
    | some id =>
      App.perform (.cacheOwner id)
      return id

/-- The `Trade(...)` of `_create_pending_trade`. -/
def pendingTrade (env : Deployment) (payload : TradingViewWebhookPayload) (ownerId : UserId) :
    NewTrade where
  userId := ownerId
  signalId := payload.signalId
  clientOrderId := buildClientOrderId env payload.signalId
  symbol := payload.symbol
  side := payload.action
  orderType := "MARKET"
  quantity := payload.quantity
  status := .pending

/-- `_create_pending_trade`. -/
def createPendingTrade (env : Deployment) (payload : TradingViewWebhookPayload)
    (ownerId : UserId) : App Trade := do
  match ← App.perform (.insert (pendingTrade env payload ownerId)) with
  | .ok trade => return trade
  | .error .integrity =>
    let winnerId ← App.db (App.perform (.selectBySignal payload.signalId))
    throw (.duplicateSignal winnerId)
  | .error e => throw (.sqlalchemy e)

/-! ## Step 2: the claim -/

/-- `claim_for_submission`. -/
def claimForSubmission (id : TradeId) : App (Option Instance) := do
  let now : DateTime ← App.perform .clock
  let rowcount ← App.db (App.perform (.claim id now))
  if rowcount ≠ 1 then return none
  else
    let row ← App.db (App.perform (.get id))
    return row.map Instance.fresh

theorem claimForSubmission_run (id : TradeId) :
    (claimForSubmission id).run =
      .op .clock fun now =>
      .op (.claim id now) fun r =>
      match r with
      | .error e => .pure (.error (.sqlalchemy e))
      | .ok rowcount =>
        if rowcount ≠ 1 then .pure (.ok none)
        else
          .op (.get id) fun r =>
          match r with
          | .error e => .pure (.error (.sqlalchemy e))
          | .ok row => .pure (.ok (row.map Instance.fresh)) := by
  simp only [claimForSubmission, App.run_bind, App.run_perform, App.run_db, Free.bind_op,
    Free.bind_pure]
  congr 1
  funext now
  congr 1
  funext r
  cases r with
  | error e => rfl
  | ok rowcount =>
    simp only [Free.bind_pure]
    split
    · rfl
    · simp only [App.run_bind, App.run_perform, App.run_db, Free.bind_op, Free.bind_pure]
      congr 1
      funext r
      cases r <;> rfl

/-! ## What the outcome handlers assign -/

/-- `error_code[:64]`. -/
def truncateCode (code : String) : String := String.ofList (code.toList.take 64)

/-- `str(exc.code) if exc.code is not None else default`. -/
def codeText (env : Deployment) (code : Json) (default : String) : String :=
  match code with
  | .null => default
  | code => code.toStr env.repr

/-- The assignments of `_finalise_success`. -/
def successEdits (result : BinanceOrderResult) : Edits where
  binanceOrderId := some result.orderId
  binanceStatus := some (some result.status)
  executedQuantity := some (some result.executedQuantity)
  cumulativeQuoteQuantity := some (some result.cumulativeQuoteQuantity)
  status := some (binanceStatusMap result.status)
  errorCode := some none
  errorMessage := some none

/-- The assignments of `_finalise_failure`. -/
def failureEdits (status : TradeStatus) (code message : String) : Edits where
  status := some status
  errorCode := some (some (truncateCode code))
  errorMessage := some (some message)

/-- The assignments of `_handle_uncertain_outcome`. -/
def uncertainEdits (env : Deployment) (exc : BinanceError) : Edits where
  status := some .unknown
  errorCode := some (some (codeText env exc.code "uncertain"))
  errorMessage := some (some exc.message)

end AutoTrader
