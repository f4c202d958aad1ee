import AutoTrader.Python.Case
import AutoTrader.Python.Url

/-!
# The database URL of `app/core/config.py`

`Settings._normalise_database_url`, which forces every PostgreSQL URL onto one driver, and
`normalise_postgres_query_params`, which translates the query of the URL for that driver. The
case tables of `str.lower` and the checks that `urlsplit` makes of an authority are parameters.
-/

namespace AutoTrader

open Python Python.Url

/-- `LIBPQ_SSL_PARAM_RENAMES`. -/
def libpqSslParamRenames : List (List Char × List Char) := [("sslmode".toList, "ssl".toList)]

/-- `LIBPQ_PARAMS_ASYNCPG_IGNORES`. -/
def libpqParamsAsyncpgIgnores : List (List Char) := ["channel_binding".toList]

/-- The `ValueError` of the validator itself, or the one that `urlsplit` raises. -/
inductive DatabaseUrlError
  | valueError (message : String)
  | urlsplit
  deriving DecidableEq

variable (tables : CaseTables) (accepts : List Char → Bool)

/-- The loop over the parameters of the query. -/
def keptParams : List Param → List Param
  | [] => []
  | (key, value) :: ps =>
    let lowered := lower tables key
    if libpqParamsAsyncpgIgnores.contains lowered then keptParams ps
    else ((libpqSslParamRenames.lookup lowered).getD key, value) :: keptParams ps

/-- `normalise_postgres_query_params`. -/
def normalisePostgresQueryParams (url : List Char) : Except DatabaseUrlError (List Char) :=
  if !url.contains '?' then .ok url
  else
    match urlsplit accepts url with
    | some parts =>
      .ok (urlunsplit { parts with query := urlencode (keptParams tables (parseQsl parts.query)) })
    | none => .error .urlsplit

/-- The rewriting of the driver. -/
def forceDriver (value : List Char) : List Char :=
  if "postgresql+psycopg2://".toList.isPrefixOf value then
    "postgresql+asyncpg://".toList ++ value.drop "postgresql+psycopg2://".toList.length
  else if "postgresql+psycopg://".toList.isPrefixOf value then
    "postgresql+asyncpg://".toList ++ value.drop "postgresql+psycopg://".toList.length
  else if "postgresql://".toList.isPrefixOf value then
    replaceFirst "postgresql://".toList "postgresql+asyncpg://".toList value
  else if "postgres://".toList.isPrefixOf value then
    replaceFirst "postgres://".toList "postgresql+asyncpg://".toList value
  else value

/-- `_normalise_database_url`. -/
def normaliseDatabaseUrl (value : List Char) : Except DatabaseUrlError (List Char) :=
  let value := strip value
  if value = [] then .error (.valueError "DATABASE_URL must not be empty")
  else
    let value := forceDriver value
    if "postgresql+asyncpg://".toList.isPrefixOf value then
      normalisePostgresQueryParams tables accepts value
    else .ok value

end AutoTrader
