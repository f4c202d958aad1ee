import AutoTrader.Core.Numbers
import AutoTrader.Db.Models

/-!
# `app/schemas/trade.py`

The response for one trade. Amounts are written as text by a field serialiser, which raises
on a value that is not finite; `none` stands for that.
-/

namespace AutoTrader

open Python

structure TradeRead where
  id : TradeId
  signalId : String
  clientOrderId : String
  symbol : String
  side : OrderSide
  orderType : String
  quantity : String
  status : TradeStatus
  binanceOrderId : Option Int
  binanceStatus : Option String
  executedQuantity : Option String
  cumulativeQuoteQuantity : Option String
  errorCode : Option String
  errorMessage : Option String
  submittedAt : Option DateTime
  reconciledAt : Option DateTime
  createdAt : DateTime
  updatedAt : DateTime

/-- `_serialise_decimal`. -/
def serialiseDecimal : Option Decimal → Option (Option String)
  | none => some none
  | some value => (formatDecimal value).map some

/-- `TradeRead.model_validate(trade)`, serialised. -/
def TradeRead.ofTrade (t : Trade) : Option TradeRead := do
  let quantity ← formatDecimal t.quantity
  let executedQuantity ← serialiseDecimal t.executedQuantity
  let cumulativeQuoteQuantity ← serialiseDecimal t.cumulativeQuoteQuantity
  return {
    id := t.id
    signalId := t.signalId
    clientOrderId := t.clientOrderId
    symbol := t.symbol
    side := t.side
    orderType := t.orderType
    quantity := quantity
    status := t.status
    binanceOrderId := t.binanceOrderId
    binanceStatus := t.binanceStatus
    executedQuantity := executedQuantity
    cumulativeQuoteQuantity := cumulativeQuoteQuantity
    errorCode := t.errorCode
    errorMessage := t.errorMessage
    submittedAt := t.submittedAt
    reconciledAt := t.reconciledAt
    createdAt := t.createdAt
    updatedAt := t.updatedAt }

theorem formatDecimal_isSome (d : Decimal) : (formatDecimal d).isSome = d.isFinite := by
  simp only [formatDecimal]
  split
  · rename_i h
    rw [h]
    rfl
  · rename_i h
    simpa using h

theorem serialiseDecimal_isSome (d : Option Decimal) :
    (serialiseDecimal d).isSome = d.all Decimal.isFinite := by
  cases d with
  | none => rfl
  | some d => rw [serialiseDecimal, Option.isSome_map, formatDecimal_isSome, Option.all_some]

/-- A row can be served exactly when its three amounts are finite. -/
theorem TradeRead.ofTrade_isSome (t : Trade) :
    (TradeRead.ofTrade t).isSome = (t.quantity.isFinite && (t.executedQuantity.all Decimal.isFinite &&
      t.cumulativeQuoteQuantity.all Decimal.isFinite)) := by
  rw [← formatDecimal_isSome, ← serialiseDecimal_isSome, ← serialiseDecimal_isSome]
  simp only [TradeRead.ofTrade]
  cases formatDecimal t.quantity with
  | none => rfl
  | some quantity =>
    cases serialiseDecimal t.executedQuantity with
    | none => rfl
    | some executed => cases serialiseDecimal t.cumulativeQuoteQuantity <;> rfl

structure TradeListResponse where
  items : List TradeRead
  total : Nat
  limit : Nat
  offset : Nat

end AutoTrader
