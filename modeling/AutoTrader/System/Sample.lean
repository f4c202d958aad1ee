import AutoTrader.System.SoundSteps

/-!
# A sample deployment

One deployment, two signals and the replies of the exchange to them, for the runs that
show hypotheses to be satisfiable and claims about all runs to be false.
-/

namespace AutoTrader.Sample

open Python Coroutine Transition

/-- SHA-256, on the two signal ids below. -/
def sha256Hex (text : String) : String :=
  if text = "sig-1" then "6244580a346acf5d814a48dcf65bcdab5530088ca268c31dc5866944207e8938"
  else if text = "sig-2" then "0e982fbf2b80be4e197076754a204fb700e197d4751f259038cf12fdb956afd2"
  else text

/-- Queued or inline execution, with a queue of the given size. -/
def deployment (async : Bool) (queueSize : Nat) (h : 1 ≤ queueSize) : Deployment where
  settings := {
    allowedSymbols := "BTCUSDT,ETHUSDT"
    minOrderQuantity := .finite false 1 (-4)
    maxOrderQuantity := .finite false 10 0
    webhookTradeOwnerEmail := "owner@example.com"
    webhookAsyncExecution := async
    executorWorkers := 2
    executorQueueSize := queueSize
    binanceDryRun := false
    executorWorkers_ge := by decide
    executorQueueSize_ge := h }
  sha256Hex := sha256Hex
  repr _ := "..."

abbrev inline : Deployment := deployment false 4 (by decide)

abbrev queued : Deployment := deployment true 4 (by decide)

def users : List User := [⟨1, "owner@example.com"⟩]

/-- `{"signal_id": "sig-1", "symbol": "BTCUSDT", "action": "BUY", "quantity": "0.001"}`. -/
def signal : TradingViewWebhookPayload where
  signalId := "sig-1"
  symbol := "BTCUSDT"
  action := .buy
  quantity := .finite false 1 (-3)
  signalId_matches := by decide +kernel
  symbol_matches := by decide +kernel
  quantity_finite := by decide +kernel
  quantity_pos := by decide +kernel
  quantity_places := by decide +kernel

/-- The second signal. -/
def nextSignal : TradingViewWebhookPayload :=
  { signal with
    signalId := "sig-2"
    signalId_matches := by decide +kernel }

def clientOrderId : String := "cat-6244580a346acf5d814a48dcf65b"

example : buildClientOrderId inline signal.signalId = clientOrderId := by decide +kernel

/-- The order of the signal, at the exchange. -/
def order (state : OrderState) (executedQty cummulativeQuoteQty : String) : Order :=
  ⟨clientOrderId, 77, "BTCUSDT", "BUY", state, executedQty, cummulativeQuoteQty⟩

def filled : Order := order .filled "0.001" "60.5"

def start (env : Deployment) : Pool (service env) := Pool.idle (.initial users 0)

/-- The row of the signal after its claim. -/
def trade : Trade :=
  { (pendingTrade inline signal 1).row 1 0 with submittedAt := some 0 }

/-- The claimed trade and nothing else. -/
def claimed : World :=
  .found (TradeTable.empty.insert trade (by decide +kernel)) users 2 0

theorem trade_mem : trade ∈ claimed.trades.rows := List.mem_singleton.mpr rfl

theorem trade_quantity : formatDecimal trade.quantity = some "0.001" := by decide +kernel

/-- Thread `i` performs `n` operations that succeed. -/
def steps (env : Deployment) (i n : Nat) : List (Label (service env)) :=
  List.replicate n (.act i Choice.done)

def reply (env : Deployment) (i : Nat) (t : Transport) : Label (service env) :=
  .act i (Choice.reply t)

def delivered (env : Deployment) (i : Nat) : Label (service env) := .act i Choice.delivered

def occurs (env : Deployment) (e : Event) : Label (service env) := .event e

/-- The signal arrives, and its order is placed at once and filled. -/
def placed : List (Label (service inline)) :=
  [occurs _ (.webhook 0 signal)] ++ steps _ 0 9 ++
    [occurs _ (.arrive 0 (.accept filled)), delivered _ 0] ++ steps _ 0 1

theorem placed_follows : ((service inline).system.follow unguarded (start _) placed).isSome := by
  decide +kernel

end AutoTrader.Sample
