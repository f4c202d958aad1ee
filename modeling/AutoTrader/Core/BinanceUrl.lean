import AutoTrader.Core.Config
import AutoTrader.Python.Netloc

/-!
# The exchange's address in `app/core/config.py`

`Settings._enforce_testnet_only` and the property `binance_host`. The case tables of `str.lower`,
the checks that `urlsplit` makes of an authority, and the `repr` of a text are parameters.
-/

namespace AutoTrader

open Python Python.Url

/-- `ALLOWED_BINANCE_HOSTS`. -/
def allowedBinanceHosts : List String := ["testnet.binance.vision", "testnet.binancefuture.com"]

/-- `KNOWN_PRODUCTION_BINANCE_HOSTS`. -/
def knownProductionBinanceHosts : List String :=
  ["api.binance.com", "api1.binance.com", "api2.binance.com", "api3.binance.com",
    "api4.binance.com", "api-gcp.binance.com", "fapi.binance.com", "dapi.binance.com",
    "api.binance.us"]

/-- The `ValueError` of the validator itself, or the one that `urlparse` raises. -/
inductive BinanceUrlError
  | valueError (message : String)
  | urlparse
  deriving DecidableEq

section Validator

variable (tables : CaseTables) (accepts : List Char → Bool) (repr : List Char → String)

/-- `(parsed.hostname or "").lower()`. -/
def parsedHost (parsed : SplitResult) : List Char :=
  lower tables ((hostname tables parsed).getD [])

/-- `_enforce_testnet_only`. Splitting the parameters off the path, as `urlparse` does, leaves
scheme and authority alone. -/
def enforceTestnetOnly (value : List Char) : Except BinanceUrlError (List Char) :=
  let value := rstripChar '/' (strip value)
  match urlsplit accepts value with
  | none => .error .urlparse
  | some parsed =>
    if parsed.scheme ∉ ["http".toList, "https".toList] then
      .error (.valueError ("BINANCE_BASE_URL must be an absolute http(s) URL, got " ++ repr value))
    else
      let host := parsedHost tables parsed
      if host ∈ knownProductionBinanceHosts.map String.toList then
        .error (.valueError ("REFUSING TO START: " ++ repr host ++
          " is a real-money Binance endpoint. This project is testnet-only. Use " ++
          "BINANCE_BASE_URL=https://testnet.binance.vision"))
      else if host ∉ allowedBinanceHosts.map String.toList then
        .error (.valueError ("REFUSING TO START: BINANCE_BASE_URL host " ++ repr host ++
          " is not an allowed Binance testnet host. Allowed hosts: " ++
          joinTexts ", " (sortedTexts allowedBinanceHosts)))
      else .ok value

/-- The property `binance_host` of settings with this base URL. -/
def binanceHost (baseUrl : List Char) : Option (List Char) :=
  (urlsplit accepts baseUrl).map (parsedHost tables)

end Validator

/-- No host is on both lists. -/
theorem disjoint_hosts {host : List Char} (h : host ∈ allowedBinanceHosts.map String.toList) :
    host ∉ knownProductionBinanceHosts.map String.toList := by
  revert h
  simp only [allowedBinanceHosts, List.map_cons, List.map_nil, List.mem_cons, List.not_mem_nil,
    or_false]
  rintro (rfl | rfl)
  · decide
  · decide

/-- The names are in ASCII, without a `k` or a percent sign. -/
theorem allowed_plain {host : List Char} (h : host ∈ allowedBinanceHosts.map String.toList) :
    host ≠ [] ∧ (∀ d ∈ host, d.toNat < 128 ∧ d ≠ 'k') ∧ '%' ∉ host := by
  have hplain : host ≠ [] ∧ (host.all fun d => decide (d.toNat < 128 ∧ d ≠ 'k')) = true ∧
      '%' ∉ host := by
    revert h
    simp only [allowedBinanceHosts, List.map_cons, List.map_nil, List.mem_cons, List.not_mem_nil,
      or_false]
    rintro (rfl | rfl)
    · decide
    · decide
  simpa only [List.all_eq_true, decide_eq_true_eq] using hplain

variable {tables : CaseTables} {accepts : List Char → Bool} {repr : List Char → String}

/-- The host is read from the authority. -/
theorem parsedHost_congr {p q : SplitResult} (h : p.netloc = q.netloc) :
    parsedHost tables p = parsedHost tables q := by
  rw [parsedHost, parsedHost, hostname, hostname, h]

theorem parsedHost_allowed_iff {p : SplitResult} :
    parsedHost tables p ∈ allowedBinanceHosts.map String.toList ↔
      (hostOf (afterLast '@' p.netloc)).map Char.toLower ∈ allowedBinanceHosts.map String.toList := by
  constructor
  · intro h
    obtain ⟨hne, hascii, hpercent⟩ := allowed_plain h
    rw [(lower_hostname_eq_iff hne hascii hpercent).mp rfl]
    exact h
  · intro h
    obtain ⟨hne, hascii, hpercent⟩ := allowed_plain h
    rw [parsedHost, (lower_hostname_eq_iff hne hascii hpercent).mpr rfl]
    exact h

/-- What the validator lets through. -/
theorem enforceTestnetOnly_eq_ok {value out : List Char} :
    enforceTestnetOnly tables accepts repr value = .ok out ↔
      out = rstripChar '/' (strip value) ∧ ∃ p, urlsplit accepts out = some p ∧
        p.scheme ∈ ["http".toList, "https".toList] ∧
        parsedHost tables p ∈ allowedBinanceHosts.map String.toList := by
  simp only [enforceTestnetOnly]
  generalize rstripChar '/' (strip value) = base
  constructor
  · intro h
    split at h
    · cases h
    · rename_i p hsplit
      split at h
      · cases h
      · rename_i hscheme
        split at h
        · cases h
        · split at h
          · cases h
          · rename_i hallowed
            cases h
            exact ⟨rfl, p, hsplit, not_not.mp hscheme, not_not.mp hallowed⟩
  · rintro ⟨rfl, p, hsplit, hscheme, hallowed⟩
    simp only [hsplit, if_neg (not_not.mpr hscheme), if_neg (disjoint_hosts hallowed),
      if_neg (not_not.mpr hallowed)]

end AutoTrader
