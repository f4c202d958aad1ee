import AutoTrader.Services.Trading

/-! # `app/services/reconciliation_service.py` -/

namespace AutoTrader

open Python Coroutine UnitOfWork.Attribute

/-- The assignments of `reconcile_trade` when there is no such order. -/
def absentEdits (now : DateTime) : Edits where
  status := some .failed
  errorCode := some (some "order_not_found")
  errorMessage := some (some
    "Binance has no order with this client order id; the submission never reached the exchange.")
  reconciledAt := some (some now)

/-- The assignments of `reconcile_trade` when the order exists. -/
def foundEdits (result : BinanceOrderResult) (now : DateTime) : Edits :=
  let status := binanceStatusMap result.status
  let cleared : Option (Option String) :=
    if status = .rejected ∨ status = .failed then none else some none
  { binanceOrderId := some result.orderId
    binanceStatus := some (some result.status)
    executedQuantity := some (some result.executedQuantity)
    cumulativeQuoteQuantity := some (some result.cumulativeQuoteQuantity)
    status := some status
    errorCode := cleared
    errorMessage := cleared
    reconciledAt := some (some now) }

/-- What `reconcile_trade` assigns on an answer. -/
def answerEdits (answer : Option BinanceOrderResult) (now : DateTime) : Edits :=
  match answer with
  | none => absentEdits now
  | some result => foundEdits result now

/-- A row takes an order: its quantities compare with those of the row, and every value fits
its column. -/
def BinanceOrderResult.fits (result : BinanceOrderResult) (t : Trade) : Bool :=
  !(numeric.incomparable t.executedQuantity (some (some result.executedQuantity)) ||
    numeric.incomparable t.cumulativeQuoteQuantity (some (some result.cumulativeQuoteQuantity))) &&
  !(bigint.overflows t.binanceOrderId (some result.orderId) ||
    (varchar 32).overflows t.binanceStatus (some (some result.status)) ||
    numeric.overflows t.executedQuantity (some (some result.executedQuantity)) ||
    numeric.overflows t.cumulativeQuoteQuantity (some (some result.cumulativeQuoteQuantity)))

/-- Every row takes the order. -/
def BinanceOrderResult.isStorable (result : BinanceOrderResult) : Bool :=
  bigint.holds result.orderId && (varchar 32).holds (some result.status) &&
    numeric.holds (some result.executedQuantity) && !result.executedQuantity.isSignaling &&
    numeric.holds (some result.cumulativeQuoteQuantity) &&
    !result.cumulativeQuoteQuantity.isSignaling

section Fits

variable (result : BinanceOrderResult) (t : Trade)

theorem incomparable_numeric {d : Decimal} (h : d.isSignaling = false) (loaded : Option Decimal) :
    numeric.incomparable loaded (some (some d)) = false := by
  cases loaded with
  | none => rfl
  | some x => exact h

theorem fits_of_isStorable (h : result.isStorable = true) : result.fits t = true := by
  simp only [BinanceOrderResult.isStorable, Bool.and_eq_true, Bool.not_eq_true'] at h
  obtain ⟨⟨⟨⟨⟨hid, hstatus⟩, hexecuted⟩, hquiet⟩, hquote⟩, hquiet'⟩ := h
  unfold BinanceOrderResult.fits
  rw [incomparable_numeric hquiet, incomparable_numeric hquiet', overflows_of_holds bigint hid,
    overflows_of_holds (varchar 32) hstatus, overflows_of_holds numeric hexecuted,
    overflows_of_holds numeric hquote]
  rfl

/-- The error columns are cleared or left alone, so that only the order itself counts. -/
theorem flushError_order {e : Edits} (hid : e.binanceOrderId = some result.orderId)
    (hstatus : e.binanceStatus = some (some result.status))
    (hexecuted : e.executedQuantity = some (some result.executedQuantity))
    (hquote : e.cumulativeQuoteQuantity = some (some result.cumulativeQuoteQuantity))
    (hcode : e.errorCode = none ∨ e.errorCode = some none)
    (hmessage : e.errorMessage = none ∨ e.errorMessage = some none) :
    e.flushError? t = none ↔ result.fits t = true := by
  have hcode : (varchar 64).overflows t.errorCode e.errorCode = false := by
    rcases hcode with h | h <;> rw [h]
    · rfl
    · exact overflows_of_holds _ rfl _
  have hmessage : text.overflows t.errorMessage e.errorMessage = false := by
    rcases hmessage with h | h <;> rw [h]
    · rfl
    · exact overflows_of_holds _ rfl _
  rw [Edits.flushError_eq_none]
  unfold Edits.incomparable Edits.overflows BinanceOrderResult.fits
  rw [hid, hstatus, hexecuted, hquote, hcode, hmessage, Bool.or_false, Bool.or_false,
    Bool.and_eq_true, Bool.not_eq_true', Bool.not_eq_true']

/-- What an order call records goes through if the row takes the order. -/
theorem flushError_successEdits :
    (successEdits result).flushError? t = none ↔ result.fits t = true :=
  flushError_order result t rfl rfl rfl rfl (Or.inr rfl) (Or.inr rfl)

/-- What a query records goes through if the row takes the order. -/
theorem flushError_foundEdits (now : DateTime) :
    (foundEdits result now).flushError? t = none ↔ result.fits t = true := by
  have hcleared : ∀ p : Prop, [Decidable p] →
      (if p then (none : Option (Option String)) else some none) = none ∨
        (if p then (none : Option (Option String)) else some none) = some none := by
    intro p hp
    by_cases h : p
    · exact Or.inl (if_pos h)
    · exact Or.inr (if_neg h)
  exact flushError_order result t rfl rfl rfl rfl (hcleared _) (hcleared _)

/-- The absence of an order can always be recorded. -/
theorem flushError_absentEdits (now : DateTime) : (absentEdits now).flushError? t = none := by
  have hcode : (varchar 64).overflows t.errorCode (absentEdits now).errorCode = false :=
    overflows_of_holds _ (by decide +kernel) _
  have hmessage : text.overflows t.errorMessage (absentEdits now).errorMessage = false :=
    overflows_of_holds _ (by decide +kernel) _
  simp only [Edits.flushError?, Edits.incomparable, Edits.overflows, hcode, hmessage]
  rfl

/-- An answer can be recorded if the row takes the order in it. -/
theorem flushError_answer (answer : Option BinanceOrderResult) (now : DateTime) :
    (answerEdits answer now).flushError? t = none ↔
      ∀ result, answer = some result → result.fits t = true := by
  cases answer with
  | none => simp [answerEdits, flushError_absentEdits]
  | some result => simpa [answerEdits] using flushError_foundEdits result t now

end Fits

/-- `reconcile_trade`. -/
def reconcileTrade (env : Deployment) : OnTrade TradeStatus := do
  if ← OnTrade.attr Trade.isTerminal then OnTrade.attr Trade.status
  else
    let symbol ← OnTrade.attr Trade.symbol
    let clientOrderId ← OnTrade.attr Trade.clientOrderId
    match ← OnTrade.lift (App.catchBinance (getOrder env symbol clientOrderId)) with
    | .error _ =>
      -- a query that was refused and one that failed end alike: nothing changes
      OnTrade.attr Trade.status
    | .ok answer =>
      let now ← OnTrade.lift (App.perform .clock)
      OnTrade.assign (answerEdits answer now)
      OnTrade.commit
      OnTrade.attr Trade.status

theorem reconcileTrade_exec (env : Deployment) (t : Trade) :
    (reconcileTrade env).exec (.fresh t) =
      if t.isTerminal then .pure (.ok t.status, .fresh t)
      else
        .op (.send (queryRequest t.symbol t.clientOrderId)) fun k =>
        .op (.receive k) fun outcome =>
        match queryReply env outcome with
        | .ok answer =>
          .op .clock fun now =>
          .op (.commit t (answerEdits answer now)) fun r =>
          match r with
          | .ok stamp =>
            .pure (.ok ((answerEdits answer now).view t).status,
              (⟨t, answerEdits answer now, .loaded⟩ : Instance).flushed stamp)
          | .error e => .pure (.error e.exc, (⟨t, answerEdits answer now, .loaded⟩ : Instance).failed e)
        | .error (.binance _) => .pure (.ok t.status, .fresh t)
        | .error e => .pure (.error e, .fresh t) := by
  simp only [reconcileTrade, OnTrade.exec_bind, OnTrade.exec_attr_fresh, Free.bind_pure]
  split
  · rfl
  · simp only [OnTrade.exec_bind, OnTrade.exec_attr_fresh, Free.bind_pure, OnTrade.exec_lift,
      App.run_catchBinance, getOrder_run, Free.bind_op]
    congr 1
    funext k
    congr 1
    funext outcome
    cases queryReply env outcome with
    | error e => cases e <;> rfl
    | ok answer =>
      simp only [App.caught, OnTrade.exec_bind, OnTrade.exec_lift, App.run_perform, Free.bind_op,
        Free.bind_pure, OnTrade.exec_assign, OnTrade.exec_commit]
      congr 1
      funext now
      rw [Instance.fresh_assign]
      congr 1
      funext r
      cases r <;> rfl

/-- `find_reconcilable_trades`. -/
def findReconcilableTrades (olderThanSeconds : Int) (limit : Nat) : App (List Trade) := do
  let now : DateTime ← App.perform .clock
  let cutoff := now - olderThanSeconds * 1000000
  App.db (App.perform (.selectReconcilable cutoff limit))

structure Summary where
  checked : Nat
  changed : Nat
  unchanged : Nat
  deriving DecidableEq

/-- The counters after one trade. -/
def Summary.count (s : Summary) (before after : TradeStatus) : Summary :=
  { checked := s.checked + 1
    changed := if after ≠ before then s.changed + 1 else s.changed
    unchanged := if after ≠ before then s.unchanged else s.unchanged + 1 }

/-- The loop of `reconcile_pending_trades`. -/
def reconcileEach (env : Deployment) : List Trade → Summary → App Summary
  | [], summary => return summary
  | t :: rest, summary => do
    let (after, _) ← OnTrade.on (Instance.fresh t) (reconcileTrade env)
    reconcileEach env rest (summary.count t.status after)

/-- `reconcile_pending_trades`. -/
def reconcilePendingTrades (env : Deployment) (olderThanSeconds : Int) (limit : Nat) :
    App Summary := do
  let trades ← findReconcilableTrades olderThanSeconds limit
  reconcileEach env trades ⟨0, 0, 0⟩

end AutoTrader
