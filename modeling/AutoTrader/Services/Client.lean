import AutoTrader.Core.BinanceUrl
import AutoTrader.Services.Http

/-!
# The client's address

`BinanceClient.__init__` and `_assert_testnet` of `app/services/binance_service.py`, as far as
they decide where requests go. The package `httpx2` reads URLs in its own way and puts the path of
a request on the base URL of its client; both are parameters.
-/

namespace AutoTrader

open Python

/-- A path from the root of the host that is not taken for a host itself. -/
def IsRooted (path : String) : Prop :=
  path.toList.head? = some '/' ∧ path.toList[1]? ≠ some '/'

instance (path : String) : Decidable (IsRooted path) :=
  inferInstanceAs (Decidable (_ ∧ _))

/-- The package `httpx2`. -/
structure Httpx2 where
  Address : Type
  /-- `URL(text)`; `none` stands for `InvalidURL`. -/
  parse : List Char → Option Address
  scheme : Address → List Char
  host : Address → List Char
  /-- Where `AsyncClient(base_url=base).request(method, path, params=params)` sends its request. -/
  target (base : Address) (path : String) (params : List Url.Param) : Address
  target_scheme : ∀ base path params, IsRooted path → scheme (target base path params) = scheme base
  target_host : ∀ base path params, IsRooted path → host (target base path params) = host base

inductive ClientError
  | invalidUrl
  | runtimeError (message : String)
  deriving DecidableEq

section Client

variable (httpx : Httpx2) (tables : CaseTables) (repr : List Char → String)

/-- `(base_url or settings.BINANCE_BASE_URL).rstrip("/")`. -/
def clientBaseUrl (baseUrl : Option (List Char)) (settingsUrl : List Char) : List Char :=
  rstripChar '/' ((baseUrl.filter (· ≠ [])).getD settingsUrl)

/-- `_assert_testnet`, on a base URL that `httpx2` could read. -/
def assertTestnet (base : httpx.Address) : Except ClientError Unit :=
  let host := lower tables (httpx.host base)
  if (allowedBinanceHosts.map String.toList).contains host then .ok ()
  else .error (.runtimeError ("BinanceClient refused to start: " ++ repr host ++
    " is not a Binance testnet host. Allowed: [" ++
    joinTexts ", " ((sortedTexts allowedBinanceHosts).map fun name => repr name.toList) ++ "]"))

/-- The constructor: the address its client is based on. -/
def openClient (baseUrl : Option (List Char)) (settingsUrl : List Char) :
    Except ClientError httpx.Address := do
  match httpx.parse (clientBaseUrl baseUrl settingsUrl) with
  | none => throw .invalidUrl
  | some base =>
    assertTestnet httpx tables repr base
    return base

end Client

variable {httpx : Httpx2} {tables : CaseTables} {repr : List Char → String}

/-- Only a client of the testnet is constructed. -/
theorem host_of_openClient {baseUrl : Option (List Char)} {settingsUrl : List Char}
    {base : httpx.Address} (h : openClient httpx tables repr baseUrl settingsUrl = .ok base) :
    lower tables (httpx.host base) ∈ allowedBinanceHosts.map String.toList := by
  simp only [openClient] at h
  cases hparse : httpx.parse (clientBaseUrl baseUrl settingsUrl) with
  | none =>
    rw [hparse] at h
    cases h
  | some address =>
    simp only [hparse, assertTestnet, bind, Except.bind] at h
    split at h
    · cases h
    · rename_i hpassed
      cases h
      split at hpassed
      · rename_i hcontains
        exact List.contains_iff_mem.mp hcontains
      · cases hpassed

end AutoTrader
