import AutoTrader.Services.Binance

/-!
# The exchange

The service beyond the wire, as far as the results below speak about it. It holds
orders by client order id, each in a state of its life cycle. A request is decided when
it arrives and not before: a POST creates an order or is refused, a GET is answered
from the orders held at that moment. What comes back to the client afterwards is another
matter, see `Fate`.
-/

namespace AutoTrader

open Python

/-- The life cycle of an order, in the exchange's words. -/
inductive OrderState
  | new
  | partiallyFilled
  | filled
  | canceled
  | pendingCancel
  | rejected
  | expired
  | expiredInMatch
  deriving DecidableEq

namespace OrderState

def text : OrderState → String
  | new => "NEW"
  | partiallyFilled => "PARTIALLY_FILLED"
  | filled => "FILLED"
  | canceled => "CANCELED"
  | pendingCancel => "PENDING_CANCEL"
  | rejected => "REJECTED"
  | expired => "EXPIRED"
  | expiredInMatch => "EXPIRED_IN_MATCH"

/-- The states an order can move to. -/
def mayBecome : OrderState → OrderState → Bool
  | new, _ => true
  | partiallyFilled, new | partiallyFilled, rejected => false
  | partiallyFilled, _ => true
  | pendingCancel, canceled | pendingCancel, filled => true
  | s, s' => s = s'

end OrderState

structure Order where
  clientOrderId : String
  orderId : Int
  symbol : String
  side : String
  state : OrderState
  executedQty : String
  cummulativeQuoteQty : String
  deriving DecidableEq

namespace Order

/-- The order object of a reply. -/
def fields (o : Order) : List (String × Json) :=
  [("symbol", .str o.symbol), ("orderId", .int o.orderId),
    ("clientOrderId", .str o.clientOrderId), ("side", .str o.side), ("status", .str o.state.text),
    ("executedQty", .str o.executedQty), ("cummulativeQuoteQty", .str o.cummulativeQuoteQty)]

def response (o : Order) : Response := ⟨200, none, .json (.obj o.fields)⟩

/-- An order progresses: it stays the same order, in a later state. -/
def mayBecome (o o' : Order) : Bool :=
  o.clientOrderId = o'.clientOrderId && o.orderId = o'.orderId && o.symbol = o'.symbol &&
    o.side = o'.side && o.state.mayBecome o'.state

end Order

/-- The reply to a query for an order that is not held. -/
def absentResponse : Response where
  statusCode := 400
  retryAfter := none
  body := .json (.obj [("code", .int orderDoesNotExistCode), ("msg", .str "Order does not exist.")])

/-- A reply that the client reads as "there is no such order". -/
def Response.saysAbsent (r : Response) : Bool :=
  match errorCode r with
  | .ok code => code.eqInt orderDoesNotExistCode
  | .error _ => false

/-- How a request is decided on arrival. -/
inductive Verdict
  /-- A POST creates this order. -/
  | accept (o : Order)
  /-- A POST to the validating endpoint. -/
  | validate
  /-- A GET is answered from the orders held. -/
  | lookup
  /-- A refusal; "there is no such order" is not among them. -/
  | refuse (r : Response)

/-- The orders held after a request was decided, and the reply. -/
def serve (book : List Order) (request : HttpRequest) : Verdict → Option (List Order × Response)
  | .accept o =>
    if request.placed? = some o.clientOrderId ∧ request.path = "/api/v3/order" then
      some (book ++ [o], o.response)
    else none
  | .validate =>
    if request.method = .post ∧ request.path = "/api/v3/order/test" then
      some (book, ⟨200, none, .json (.obj [])⟩)
    else none
  | .lookup =>
    match request.queried? with
    | none => none
    | some clientOrderId =>
      match book.find? fun o => o.clientOrderId = clientOrderId with
      | some o => some (book, o.response)
      | none => some (book, absentResponse)
  | .refuse r =>
    if 400 ≤ r.statusCode ∧ r.statusCode < 500 ∧ r.saysAbsent = false then some (book, r) else none

/-- What has become of a request. -/
inductive Fate
  | inFlight
  /-- It never reached the exchange and never will. -/
  | lost
  /-- It reached the exchange, which answered so. -/
  | answered (r : Response)

namespace Fate

def isInFlight : Fate → Bool
  | inFlight => true
  | _ => false

def isLost : Fate → Bool
  | lost => true
  | _ => false

theorem isInFlight_of_isLost {f : Fate} (h : f.isLost = true) : f.isInFlight = false := by
  cases f with
  | lost => rfl
  | inFlight | answered => cases h

end Fate

structure Call where
  request : HttpRequest
  fate : Fate

/-- A query was answered that there is no such order. -/
def Call.denies (x : Call) : Bool :=
  match x.fate with
  | .answered r => x.request.queried?.isSome && r.saysAbsent
  | _ => false

theorem Call.decided_of_denies {x : Call} (h : x.denies = true) : x.fate.isInFlight = false := by
  obtain ⟨request, fate⟩ := x
  cases fate with
  | answered r => rfl
  | inFlight | lost => cases h

theorem Order.not_saysAbsent (o : Order) : o.response.saysAbsent = false := rfl

/-- How a call with this fate may end for a client that does not get the exchange's answer:
the reply may be lost or replaced by a gateway's error whatever became of the request. That
no connection was established means that the request never left. -/
def Fate.allows : Fate → Transport → Bool
  | .lost, .connectError | .lost, .connectTimeout => true
  | _, .connectError | _, .connectTimeout => false
  | _, .timeout | _, .httpError => true
  | _, .response r => 500 ≤ r.statusCode

end AutoTrader
