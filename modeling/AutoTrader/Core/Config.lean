import AutoTrader.Python.Json
import Mathlib.Data.List.Basic
import Mathlib.Data.List.Dedup
import Mathlib.Data.List.Sort

/-!
# Configuration

The settings of `app/core/config.py` that the trading workflow reads, after their
validators ran. The two quantity bounds are the decimals `Decimal(str(...))` of the
configured floats.

`Deployment` adds the two pieces of the runtime the model leaves open: the digest
function of `hashlib` and the `repr` of values that are neither text nor integers.
-/

namespace AutoTrader

open Python

structure Settings where
  allowedSymbols : String
  minOrderQuantity : Decimal
  maxOrderQuantity : Decimal
  webhookTradeOwnerEmail : String
  webhookAsyncExecution : Bool
  executorWorkers : Nat
  executorQueueSize : Nat
  binanceDryRun : Bool
  executorWorkers_ge : 1 ≤ executorWorkers
  executorQueueSize_ge : 1 ≤ executorQueueSize

structure Deployment where
  settings : Settings
  /-- `hashlib.sha256(text.encode("utf-8")).hexdigest()`. -/
  sha256Hex : String → String
  repr : ReprText

/-- The property `allowed_symbols`: the symbols this deployment may trade, without
repetitions. -/
def Settings.allowedSymbolSet (s : Settings) : List String :=
  (((s.allowedSymbols.toList.splitOn ',').map strip).filter fun cs => !cs.isEmpty).map
    (fun cs => String.ofList (upper cs)) |>.dedup

/-- `sorted(...)` of texts, by code points. -/
def sortedTexts (xs : List String) : List String :=
  xs.insertionSort fun a b => a ≤ b

/-- `separator.join(...)`. -/
def joinTexts (separator : String) : List String → String
  | [] => ""
  | [x] => x
  | x :: xs => x ++ separator ++ joinTexts separator xs

end AutoTrader
