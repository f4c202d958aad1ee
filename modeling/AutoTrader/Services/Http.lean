import AutoTrader.Core.Exceptions

/-!
# Calls to the exchange

What the client sends and what the HTTP library hands back: an exception of its own, or
a response of which the client reads the status code, one header and the decoded body.
The parameters that every signed request carries on top (`timestamp`, `recvWindow`,
`signature`) are not part of `params`.
-/

namespace AutoTrader

open Python

inductive Method
  | get
  | post
  deriving DecidableEq

structure HttpRequest where
  method : Method
  path : String
  params : List (String × String)
  deriving DecidableEq

/-- `response.json()`: a value, a `ValueError`, or a `RecursionError` on a body nested
too deeply. -/
inductive Body
  | json (v : Json)
  | notJson
  | tooDeep

structure Response where
  statusCode : Int
  /-- The header `Retry-After`. -/
  retryAfter : Option String
  body : Body

/-- How one call ends. -/
inductive Transport
  /-- `ConnectError` or `ConnectTimeout`: no connection was established. -/
  | connectError
  | connectTimeout
  /-- Any other `TimeoutException`. -/
  | timeout
  /-- Any other `HTTPError`. -/
  | httpError
  | response (r : Response)

/-- `GET /api/v3/order` by client order id. -/
def queryRequest (symbol clientOrderId : String) : HttpRequest where
  method := .get
  path := "/api/v3/order"
  params := [("symbol", symbol), ("origClientOrderId", clientOrderId)]

/-- `POST /api/v3/order`, or its validating twin in dry-run mode. -/
def orderRequest (dryRun : Bool) (symbol side quantity clientOrderId : String) : HttpRequest where
  method := .post
  path := if dryRun then "/api/v3/order/test" else "/api/v3/order"
  params := [("symbol", symbol), ("side", side), ("type", "MARKET"), ("quantity", quantity),
    ("newClientOrderId", clientOrderId), ("newOrderRespType", "FULL")]

/-- The client order id a POST carries. -/
def HttpRequest.placed? (r : HttpRequest) : Option String :=
  if r.method = .post then r.params.lookup "newClientOrderId" else none

/-- The client order id a GET asks for. -/
def HttpRequest.queried? (r : HttpRequest) : Option String :=
  if r.method = .get then r.params.lookup "origClientOrderId" else none

@[simp] theorem orderRequest_placed? (dryRun : Bool) (symbol side quantity cid : String) :
    (orderRequest dryRun symbol side quantity cid).placed? = some cid := by
  simp [HttpRequest.placed?, orderRequest, List.lookup_cons]

@[simp] theorem queryRequest_placed? (symbol cid : String) :
    (queryRequest symbol cid).placed? = none := rfl

@[simp] theorem queryRequest_queried? (symbol cid : String) :
    (queryRequest symbol cid).queried? = some cid := by
  simp [HttpRequest.queried?, queryRequest, List.lookup_cons]

@[simp] theorem orderRequest_queried? (dryRun : Bool) (symbol side quantity cid : String) :
    (orderRequest dryRun symbol side quantity cid).queried? = none := rfl

end AutoTrader
