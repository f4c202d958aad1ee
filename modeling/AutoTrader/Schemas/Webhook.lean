import AutoTrader.Db.Models

/-!
# `app/schemas/webhook.py`

The payload of the webhook after validation, with what its validators guarantee as
fields. The shared secret, which only the route reads, is left out.
-/

namespace AutoTrader

open Python

/-- `[A-Za-z0-9_.:-]`. -/
def isSignalIdChar (c : Char) : Bool :=
  c.isAlphanum || c == '_' || c == '.' || c == ':' || c == '-'

/-- `SIGNAL_ID_PATTERN.fullmatch`. -/
def matchesSignalId (cs : List Char) : Bool :=
  decide (1 ≤ cs.length) && decide (cs.length ≤ 64) && cs.all isSignalIdChar

/-- `[A-Z0-9]`. -/
def isSymbolChar (c : Char) : Bool := c.isUpper || c.isDigit

/-- `SYMBOL_PATTERN.fullmatch`. -/
def matchesSymbol (cs : List Char) : Bool :=
  decide (5 ≤ cs.length) && decide (cs.length ≤ 20) && cs.all isSymbolChar

structure TradingViewWebhookPayload where
  signalId : String
  symbol : String
  action : OrderSide
  quantity : Decimal
  signalId_matches : matchesSignalId signalId.toList = true
  symbol_matches : matchesSymbol symbol.toList = true
  quantity_finite : quantity.isFinite = true
  quantity_pos : 0 < quantity.value
  quantity_places : -quantity.exponent ≤ 12
  deriving DecidableEq

/-- The fields as the JSON body carries them, parsed to their types. -/
structure RawPayload where
  signalId : String
  symbol : String
  action : String
  quantity : Decimal

def validateSignalId (value : String) :
    Except String { s : String // matchesSignalId s.toList = true } :=
  let value := strip value.toList
  if h : matchesSignalId value = true then .ok ⟨String.ofList value, by simpa using h⟩
  else .error
    "signal_id may only contain letters, digits, '.', ':', '_' and '-' (max 64 characters)"

def validateSymbol (value : String) :
    Except String { s : String // matchesSymbol s.toList = true } :=
  let value := upper (strip value.toList)
  if h : matchesSymbol value = true then .ok ⟨String.ofList value, by simpa using h⟩
  else .error "symbol must be 5-20 uppercase letters/digits, e.g. BTCUSDT"

/-- The validator in front of the enumeration, and the enumeration. -/
def normaliseAction (value : String) : Except String OrderSide :=
  let value := upper (strip value.toList)
  if value = "BUY".toList then .ok .buy
  else if value = "SELL".toList then .ok .sell
  else .error "Input should be 'BUY' or 'SELL'"

def validateQuantity (value : Decimal) :
    Except String { d : Decimal // d.isFinite = true ∧ 0 < d.value ∧ -d.exponent ≤ 12 } :=
  if hf : value.isFinite = true then
    if hp : 0 < value.value then
      if he : -value.exponent ≤ 12 then .ok ⟨value, hf, hp, he⟩
      else .error "quantity supports at most 12 decimal places"
    else .error "Input should be greater than 0"
  else .error "quantity must be a finite number"

/-- All validators, in the order of the fields. -/
def validatePayload (raw : RawPayload) : Except String TradingViewWebhookPayload := do
  if raw.signalId.toList.length < 1 then throw "String should have at least 1 character"
  if 64 < raw.signalId.toList.length then throw "String should have at most 64 characters"
  let signalId ← validateSignalId raw.signalId
  let symbol ← validateSymbol raw.symbol
  let action ← normaliseAction raw.action
  let quantity ← validateQuantity raw.quantity
  return ⟨signalId, symbol, action, quantity, signalId.2, symbol.2, quantity.2.1, quantity.2.2.1,
    quantity.2.2.2⟩

end AutoTrader
