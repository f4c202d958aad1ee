import AutoTrader.Db.Models
import AutoTrader.Python.Json

/-!
# Exceptions

Everything that can leave a coroutine of the service: the domain errors of
`app/core/exceptions.py`, the error taxonomy of `app/services/binance_service.py`, the
errors of the database layer, and the Python errors that no handler expects.
-/

namespace AutoTrader

open Python

/-- `SQLAlchemyError`, with the one subclass the workflow distinguishes and the one that
using a session raises whose flush has failed. -/
inductive SqlError
  | integrity
  | pendingRollback
  | other
  deriving DecidableEq

/-- The class of a `BinanceError`. -/
inductive BinanceErrorKind
  | rejected
  | rateLimit
  | auth
  | unavailable
  | uncertain
  deriving DecidableEq

/-- `isinstance(exc, BinanceRejectedError)`. -/
def BinanceErrorKind.isRejected : BinanceErrorKind → Bool
  | rejected | rateLimit | auth => true
  | _ => false

structure BinanceError where
  kind : BinanceErrorKind
  message : String
  /-- A text the client chose, or the `code` field of the reply, whatever it is. -/
  code : Json
  statusCode : Option Int := none
  retryAfterSeconds : Option Int := none

inductive Exc
  | businessValidation (message : String)
  | configuration (message : String)
  | duplicateSignal (existingTradeId : Option TradeId)
  | resourceNotFound (message : String)
  | binance (e : BinanceError)
  | sqlalchemy (e : SqlError)
  | conversion (e : ConversionError)
  | recursionError
  /-- `decimal.InvalidOperation`, from a comparison. -/
  | invalidOperation
  | missingGreenlet

/-- The errors with which a signal is refused. -/
def Exc.isRefusal : Exc → Bool
  | businessValidation _ | configuration _ | duplicateSignal _ => true
  | _ => false

end AutoTrader
