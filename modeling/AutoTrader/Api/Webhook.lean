import AutoTrader.Core.Security
import AutoTrader.Schemas.Trade
import AutoTrader.Services.Submission

/-!
# `app/api/routes/webhook.py`

The webhook as its caller sees it. FastAPI validates the body before the route runs, the route
checks the shared secret and hands the signal to the service, and the handlers of
`app/core/exceptions.py` make a response of whatever leaves it.
-/

namespace AutoTrader.Webhook

open Python Coroutine

/-- The JSON object, its fields parsed to their types. -/
structure Body where
  fields : RawPayload
  secret : Option String

structure Request where
  /-- `X-Webhook-Secret`. -/
  header : Option String
  /-- `none` stands for a body that is not an object with the fields of the schema and no
  others. -/
  body : Option Body

/-- The errors of a request, besides those of the service. -/
inductive Failure
  /-- `RequestValidationError`. -/
  | requestValidation
  /-- `AuthenticationError`. -/
  | authentication (message : String)
  | service (e : Exc)

/-- `_authenticate_webhook`. -/
def authenticateWebhook (secret : String) (headerSecret bodySecret : Option String) :
    Except Failure Unit :=
  if Auth.secretsMatch headerSecret secret then .ok ()
  else if Auth.secretsMatch bodySecret secret then .ok ()
  else .error (.authentication "Invalid or missing webhook secret.")

/-- A request up to the call of the service. -/
def signalOf (secret : String) (r : Request) : Except Failure TradingViewWebhookPayload :=
  match r.body with
  | none => .error .requestValidation
  | some body =>
    match validatePayload body.fields with
    | .error _ => .error .requestValidation
    | .ok payload => do
      authenticateWebhook secret r.header body.secret
      return payload

/-- The request has the secret in its header or in its body. -/
def Request.Carries (r : Request) (secret : String) : Prop :=
  r.header = some secret ∨ ∃ body ∈ r.body, body.secret = some secret

/-- The body is that of the signal. -/
def Request.Reads (r : Request) (payload : TradingViewWebhookPayload) : Prop :=
  ∃ body ∈ r.body, validatePayload body.fields = .ok payload

theorem secretsMatch_eq {provided : Option String} {secret : String}
    (h : Auth.secretsMatch provided secret = true) : provided = some secret := by
  by_cases hempty : secret = ""
  · subst hempty
    cases provided with
    | none => cases h
    | some text =>
      simp only [Auth.secretsMatch] at h
      split at h
      · cases h
      · exact congrArg some (Auth.octets_inj (of_decide_eq_true h))
  · exact (Auth.secretsMatch_iff hempty).mp h

/-- Only a request with the secret gets through to the service. -/
theorem signalOf_ok {secret : String} {r : Request} {payload : TradingViewWebhookPayload}
    (h : signalOf secret r = .ok payload) : r.Carries secret ∧ r.Reads payload := by
  unfold signalOf at h
  split at h
  · cases h
  · rename_i body hbody
    split at h
    · cases h
    · rename_i payload' hvalid
      simp only [authenticateWebhook] at h
      split at h
      · rename_i hheader
        cases h
        exact ⟨Or.inl (secretsMatch_eq hheader), body, hbody, hvalid⟩
      · split at h
        · rename_i hsecret
          cases h
          exact ⟨Or.inr ⟨body, hbody, secretsMatch_eq hsecret⟩, body, hbody, hvalid⟩
        · cases h

/-- With a secret that is not empty every such request does. -/
theorem signalOf_eq_ok_iff {secret : String} {r : Request} {payload : TradingViewWebhookPayload}
    (hsecret : secret ≠ "") :
    signalOf secret r = .ok payload ↔ r.Carries secret ∧ r.Reads payload := by
  refine ⟨signalOf_ok, ?_⟩
  rintro ⟨hcarries, body, hbody, hvalid⟩
  have hfound : r.body = some body := hbody
  have hmatch : ∀ provided, provided = some secret → Auth.secretsMatch provided secret = true :=
    fun _ h => (Auth.secretsMatch_iff hsecret).mpr h
  simp only [signalOf, hfound, hvalid, authenticateWebhook]
  by_cases hheader : Auth.secretsMatch r.header secret = true
  · rw [if_pos hheader]
    rfl
  · have hbodySecret : Auth.secretsMatch body.secret secret = true := by
      apply hmatch
      rcases hcarries with h | ⟨body', hbody', h⟩
      · exact absurd (hmatch _ h) hheader
      · obtain rfl : body = body' := Option.some.inj (hfound.symm.trans hbody')
        exact h
    rw [if_neg hheader, if_pos hbodySecret]
    rfl

/-! ## Responses -/

/-- `_error_response`, without the request id and the details. -/
structure ErrorResponse where
  statusCode : Nat
  code : String
  message : String
  /-- The header `WWW-Authenticate: Bearer`. -/
  bearer : Bool
  deriving DecidableEq

inductive Response
  /-- 202, with a `WebhookAcceptedResponse`. -/
  | accepted (detail : String) (trade : TradeRead)
  | error (e : ErrorResponse)

/-- `handle_unexpected_error`. -/
def unexpected : ErrorResponse :=
  ⟨500, "internal_error", "An unexpected error occurred.", false⟩

/-- `handle_database_error`. -/
def databaseError : ErrorResponse :=
  ⟨503, "database_unavailable", "A database error occurred. Please retry shortly.", false⟩

/-- The handler of an error of the service. `MissingGreenlet` is a `SQLAlchemyError`, and a
`BinanceError` is no `AppError`. -/
def serviceError : Exc → ErrorResponse
  | .businessValidation message => ⟨422, "business_validation_failed", message, false⟩
  | .configuration message => ⟨500, "configuration_error", message, false⟩
  | .duplicateSignal _ =>
    ⟨409, "duplicate_signal", "This signal has already been processed.", false⟩
  | .resourceNotFound message => ⟨404, "not_found", message, false⟩
  | .sqlalchemy _ | .missingGreenlet => databaseError
  | .binance _ | .conversion _ | .recursionError | .invalidOperation => unexpected

/-- The handlers of `register_exception_handlers`. -/
def Failure.response : Failure → ErrorResponse
  | requestValidation =>
    ⟨422, "validation_failed", "Request payload failed validation.", false⟩
  | authentication message => ⟨401, "authentication_failed", message, true⟩
  | service e => serviceError e

/-- The value of a `TradeStatus`. -/
def statusText : TradeStatus → String
  | .pending => "PENDING"
  | .unknown => "UNKNOWN"
  | .new => "NEW"
  | .partiallyFilled => "PARTIALLY_FILLED"
  | .filled => "FILLED"
  | .cancelled => "CANCELLED"
  | .rejected => "REJECTED"
  | .expired => "EXPIRED"
  | .failed => "FAILED"

/-- The response to a signal that was processed. A trade that cannot be serialised fails the
request. -/
def reply : Except Exc Trade → Response
  | .error e => .error (serviceError e)
  | .ok t =>
    match TradeRead.ofTrade t with
    | none => .error unexpected
    | some trade => .accepted ("Signal accepted; trade is " ++ statusText t.status ++ ".") trade

/-- `tradingview_webhook`, with the handlers behind it. -/
def tradingviewWebhook (env : Deployment) (secret : String) (r : Request) :
    Free effects Response :=
  match signalOf secret r with
  | .error e => .pure (.error e.response)
  | .ok payload => (processSignal env payload).run.bind fun result => .pure (reply result)

end AutoTrader.Webhook
