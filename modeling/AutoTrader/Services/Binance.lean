import AutoTrader.Core.Config
import AutoTrader.Core.Numbers
import AutoTrader.Services.Effects

/-!
# `app/services/binance_service.py`

The client: one call with every failure mode translated, the normalised order, and the
two calls the trading workflow makes. Constructing the client and its check of the host
are left out, and so are the signature parameters of a request.
-/

namespace AutoTrader

open Python Coroutine

/-- `ORDER_DOES_NOT_EXIST_CODE`. -/
def orderDoesNotExistCode : Int := -2013

structure BinanceOrderResult where
  orderId : Option Int
  clientOrderId : String
  symbol : String
  side : String
  status : String
  executedQuantity : Decimal
  cumulativeQuoteQuantity : Decimal
  raw : List (String × Json)

namespace BinanceOrderResult

/-- The local function `_decimal`: never fails. -/
def decimalField (repr : ReprText) (payload : List (String × Json)) (key : String) : Decimal :=
  let field := (Json.get payload key).getD (.str "0")
  let field := if field.truthy then field else .str "0"
  (Decimal.ofText (field.toStr repr)).getD (.finite false 0 0)

def textField (repr : ReprText) (payload : List (String × Json)) (key : String) : String :=
  ((Json.get payload key).getD (.str "")).toStr repr

/-- `int(raw_order_id) if raw_order_id is not None else None`. -/
def orderIdField (payload : List (String × Json)) : Except ConversionError (Option Int) :=
  match (Json.get payload "orderId").getD .null with
  | .null => .ok none
  | v => v.toInt.map some

def fromPayload (repr : ReprText) (payload : List (String × Json)) :
    Except ConversionError BinanceOrderResult := do
  let orderId ← orderIdField payload
  return {
    orderId := orderId
    clientOrderId := textField repr payload "clientOrderId"
    symbol := textField repr payload "symbol"
    side := textField repr payload "side"
    status := textField repr payload "status"
    executedQuantity := decimalField repr payload "executedQty"
    cumulativeQuoteQuantity := decimalField repr payload "cummulativeQuoteQty"
    raw := payload }

end BinanceOrderResult

/-! ## One call -/

/-- `_error_body`. -/
def errorBody (r : Response) : Except Exc (List (String × Json)) :=
  match r.body with
  | .json (.obj fields) => .ok fields
  | .json _ => .ok []
  | .notJson => .ok []
  | .tooDeep => .error .recursionError

/-- `_error_code`. -/
def errorCode (r : Response) : Except Exc Json := do
  let body ← errorBody r
  return (Json.get body "code").getD .null

/-- `_error_message`. -/
def errorMessage (r : Response) : Except Exc String := do
  let body ← errorBody r
  match Json.get body "msg" with
  | some (.str message) =>
    if message.isEmpty then return "Binance returned HTTP " ++ Json.intText r.statusCode ++ "."
    else return message
  | _ => return "Binance returned HTTP " ++ Json.intText r.statusCode ++ "."

/-- `_parse_retry_after`. -/
def parseRetryAfter (value : Option String) : Option Int :=
  match value with
  | none => none
  | some s => if s.isEmpty then none else intOfText s

/-- `code in (-2014, -2015, -1022)`. -/
def isAuthCode (code : Json) : Bool :=
  code.eqInt (-2014) || code.eqInt (-2015) || code.eqInt (-1022)

/-- `_handle_response`. -/
def handleResponse (r : Response) : Except Exc (List (String × Json)) := do
  if 500 ≤ r.statusCode then
    throw (.binance {
      kind := .uncertain
      message := "Binance returned a server error; order status is unknown."
      code := .str "server_error"
      statusCode := some r.statusCode })
  if r.statusCode = 429 ∨ r.statusCode = 418 then
    let retryAfter := parseRetryAfter r.retryAfter
    let code ← errorCode r
    throw (.binance {
      kind := .rateLimit
      message := "Binance rate limit exceeded."
      code := code
      statusCode := some r.statusCode
      retryAfterSeconds := retryAfter })
  if 400 ≤ r.statusCode then
    let code ← errorCode r
    let message ← errorMessage r
    let kind := if r.statusCode = 401 ∨ r.statusCode = 403 ∨ isAuthCode code = true
      then .auth else .rejected
    throw (.binance {
      kind := kind
      message := message
      code := code
      statusCode := some r.statusCode })
  match r.body with
  | .json (.obj fields) => return fields
  | .json payload => return [("result", payload)]
  | .notJson =>
    throw (.binance {
      kind := .uncertain
      message := "Binance returned an unreadable response."
      code := .str "bad_payload" })
  | .tooDeep => throw .recursionError

/-! What `_handle_response` does, by range of status codes. -/

theorem handleResponse_server {r : Response} (h : 500 ≤ r.statusCode) :
    ∃ e : BinanceError, handleResponse r = .error (.binance e) ∧ e.kind = .uncertain := by
  rw [handleResponse, if_pos h]
  exact ⟨_, rfl, rfl⟩

theorem handleResponse_client {r : Response} (h : 400 ≤ r.statusCode) (h' : r.statusCode < 500) :
    (r.body = .tooDeep ∧ handleResponse r = .error .recursionError) ∨
      (r.body ≠ .tooDeep ∧ ∃ e : BinanceError, handleResponse r = .error (.binance e) ∧
        e.kind.isRejected = true) := by
  have hserver : ¬ 500 ≤ r.statusCode := by omega
  have hcode : (r.body = .tooDeep ∧ errorBody r = .error .recursionError) ∨
      (r.body ≠ .tooDeep ∧ ∃ fields, errorBody r = .ok fields) := by
    cases hb : r.body with
    | json v => cases v <;> exact Or.inr ⟨by simp, by simp [errorBody, hb]⟩
    | notJson => exact Or.inr ⟨by simp, by simp [errorBody, hb]⟩
    | tooDeep => exact Or.inl ⟨rfl, by simp [errorBody, hb]⟩
  rcases hcode with ⟨hb, hbody⟩ | ⟨hb, fields, hbody⟩
  · refine Or.inl ⟨hb, ?_⟩
    rw [handleResponse, if_neg hserver]
    by_cases hlimit : r.statusCode = 429 ∨ r.statusCode = 418
    · simp [hlimit, errorCode, hbody, bind, Except.bind]
    · simp [hlimit, h, errorCode, hbody, bind, Except.bind]
  · refine Or.inr ⟨hb, ?_⟩
    rw [handleResponse, if_neg hserver]
    have hmessage : ∃ message, errorMessage r = .ok message := by
      simp only [errorMessage, hbody, bind, Except.bind]
      split
      · split <;> exact ⟨_, rfl⟩
      · exact ⟨_, rfl⟩
    obtain ⟨message, hmessage⟩ := hmessage
    simp only [errorCode, hbody, hmessage, bind, Except.bind]
    by_cases hlimit : r.statusCode = 429 ∨ r.statusCode = 418
    · simp only [if_pos hlimit]
      exact ⟨_, rfl, rfl⟩
    · simp only [if_neg hlimit, if_pos h]
      refine ⟨_, rfl, ?_⟩
      simp only []
      split <;> rfl

/-- Below 400 every JSON passes for an order. -/
theorem handleResponse_success {r : Response} (h : r.statusCode < 400) :
    handleResponse r =
      match r.body with
      | .json (.obj fields) => .ok fields
      | .json payload => .ok [("result", payload)]
      | .notJson => .error (.binance {
          kind := .uncertain
          message := "Binance returned an unreadable response."
          code := .str "bad_payload" })
      | .tooDeep => .error .recursionError := by
  have hserver : ¬ 500 ≤ r.statusCode := by omega
  have hlimit : ¬ (r.statusCode = 429 ∨ r.statusCode = 418) := by omega
  have hclient : ¬ 400 ≤ r.statusCode := by omega
  rw [handleResponse, if_neg hserver, if_neg hlimit, if_neg hclient]
  cases r.body with
  | json v => cases v <;> rfl
  | notJson => rfl
  | tooDeep => rfl

/-- The `except` ladder of `_request`, and `_handle_response` behind it. -/
def handleTransport : Transport → Except Exc (List (String × Json))
  | .connectError | .connectTimeout =>
    .error (.binance {
      kind := .unavailable
      message := "Could not reach Binance testnet."
      code := .str "connection_error" })
  | .timeout =>
    .error (.binance {
      kind := .uncertain
      message := "Binance did not respond in time; order status is unknown."
      code := .str "timeout" })
  | .httpError =>
    .error (.binance {
      kind := .uncertain
      message := "Binance request failed in transport; order status is unknown."
      code := .str "transport_error" })
  | .response r => handleResponse r

/-- `_request`. -/
def request (r : HttpRequest) : App (List (String × Json)) := do
  let ticket ← App.perform (.send r)
  let outcome ← App.perform (.receive ticket)
  ExceptT.mk (pure (handleTransport outcome))

theorem request_run (r : HttpRequest) :
    (request r).run =
      .op (.send r) fun k => .op (.receive k) fun outcome => .pure (handleTransport outcome) := rfl

/-! ## The public calls -/

/-- `place_market_order`. -/
def placeMarketOrder (env : Deployment) (symbol side : String) (quantity : Decimal)
    (clientOrderId : String) : App BinanceOrderResult := do
  let quantity ← match formatDecimal quantity with
    | some text => pure text
    | none => throw (.conversion .valueError)
  let order := orderRequest env.settings.binanceDryRun symbol side quantity clientOrderId
  App.perform (.log (.orderRequest order.path side symbol quantity clientOrderId))
  let payload ← request order
  if env.settings.binanceDryRun then
    -- the validating endpoint returns {}; the result is made up here
    return {
      orderId := none
      clientOrderId := clientOrderId
      symbol := symbol
      side := side
      status := "DRY_RUN_VALIDATED"
      executedQuantity := .finite false 0 0
      cumulativeQuoteQuantity := .finite false 0 0
      raw := payload }
  else
    match BinanceOrderResult.fromPayload env.repr payload with
    | .ok result => return result
    | .error e => throw (.conversion e)

/-- What `place_market_order` makes of the end of its call. -/
def orderReply (env : Deployment) (symbol side clientOrderId : String) (outcome : Transport) :
    Except Exc BinanceOrderResult :=
  match handleTransport outcome with
  | .ok payload =>
    if env.settings.binanceDryRun then
      .ok {
        orderId := none
        clientOrderId := clientOrderId
        symbol := symbol
        side := side
        status := "DRY_RUN_VALIDATED"
        executedQuantity := .finite false 0 0
        cumulativeQuoteQuantity := .finite false 0 0
        raw := payload }
    else
      match BinanceOrderResult.fromPayload env.repr payload with
      | .ok result => .ok result
      | .error e => .error (.conversion e)
  | .error e => .error e

theorem placeMarketOrder_run (env : Deployment) (symbol side : String) (quantity : Decimal)
    (clientOrderId : String) :
    (placeMarketOrder env symbol side quantity clientOrderId).run =
      match formatDecimal quantity with
      | none => .pure (.error (.conversion .valueError))
      | some text =>
        let order := orderRequest env.settings.binanceDryRun symbol side text clientOrderId
        .op (.log (.orderRequest order.path side symbol text clientOrderId)) fun _ =>
        .op (.send order) fun k =>
        .op (.receive k) fun outcome =>
        .pure (orderReply env symbol side clientOrderId outcome) := by
  simp only [placeMarketOrder]
  cases formatDecimal quantity with
  | none => rfl
  | some text =>
    simp only [App.run_pure, Free.bind_pure, App.run_bind, App.run_perform, request_run,
      Free.bind_op]
    congr 1
    funext _
    congr 1
    funext k
    congr 1
    funext outcome
    simp only [orderReply]
    cases handleTransport outcome with
    | error e => rfl
    | ok payload =>
      simp only []
      split
      · rfl
      · cases BinanceOrderResult.fromPayload env.repr payload <;> rfl

/-- `get_order`. -/
def getOrder (env : Deployment) (symbol clientOrderId : String) :
    App (Option BinanceOrderResult) := do
  match ← App.catchBinance (request (queryRequest symbol clientOrderId)) with
  | .error e =>
    if e.kind.isRejected && e.code.eqInt orderDoesNotExistCode then return none
    else throw (.binance e)
  | .ok payload =>
    match BinanceOrderResult.fromPayload env.repr payload with
    | .ok result => return some result
    | .error e => throw (.conversion e)

/-- What `get_order` makes of the end of its call. -/
def queryReply (env : Deployment) (outcome : Transport) :
    Except Exc (Option BinanceOrderResult) :=
  match handleTransport outcome with
  | .ok payload =>
    match BinanceOrderResult.fromPayload env.repr payload with
    | .ok result => .ok (some result)
    | .error e => .error (.conversion e)
  | .error (.binance e) =>
    if e.kind.isRejected && e.code.eqInt orderDoesNotExistCode then .ok none
    else .error (.binance e)
  | .error e => .error e

theorem getOrder_run (env : Deployment) (symbol clientOrderId : String) :
    (getOrder env symbol clientOrderId).run =
      .op (.send (queryRequest symbol clientOrderId)) fun k =>
      .op (.receive k) fun outcome => .pure (queryReply env outcome) := by
  simp only [getOrder, queryReply, App.run_bind, App.run_catchBinance, request_run,
    Free.bind_op, Free.bind_pure]
  congr 1
  funext k
  congr 1
  funext outcome
  cases handleTransport outcome with
  | ok payload =>
    simp only [App.caught]
    cases BinanceOrderResult.fromPayload env.repr payload <;> rfl
  | error e =>
    cases e with
    | binance e =>
      simp only [App.caught]
      split <;> rfl
    | _ => rfl

end AutoTrader
