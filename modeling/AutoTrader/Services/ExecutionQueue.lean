import AutoTrader.Services.Submission

/-!
# `app/services/execution_queue.py`

What the executor does with the trades: `resume_pending` and `_execute`. The queue
carries the trade ids; the request ids that travel with them for the log are left out.
-/

namespace AutoTrader

open Coroutine

/-- The loop of `resume_pending`; the result of `submit` is ignored. -/
def submitAll : List TradeId → App Unit
  | [] => return ()
  | id :: rest => do
    let _ ← App.perform (.enqueue id)
    submitAll rest

/-- `resume_pending`. -/
def resumePending (env : Deployment) : App Nat := do
  let tradeIds ← App.db (App.perform (.selectUnsent env.settings.executorQueueSize))
  submitAll tradeIds
  return tradeIds.length

/-- `_execute`. -/
def execute (env : Deployment) (id : TradeId) : App Unit := do
  match ← claimForSubmission id with
  | none => return ()
  | some trade =>
    let _ ← OnTrade.on trade (submitToBinance env)

end AutoTrader
