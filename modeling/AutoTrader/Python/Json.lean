import AutoTrader.Python.Decimal

/-!
# Decoded JSON

The values `json.loads` returns, with the conversions a program applies to a field it
has not looked at: truth value, `int`, `str` and comparison with an integer.

`str` of a float, a list or a dictionary is Python's `repr` of it, which is a
parameter (`ReprText`): no result depends on what such a text is.
-/

namespace Python

/-- A binary float: `mantissa * 2 ^ exponent` when finite. -/
inductive Float
  | finite (neg : Bool) (mantissa : Nat) (exponent : Int)
  | infinite (neg : Bool)
  | nan
  deriving DecidableEq

/-- The exact number a finite float denotes. -/
def Float.value : Float → ℚ
  | .finite neg m e => (if neg then -1 else 1) * m * (2 : ℚ) ^ e
  | _ => 0

/-- A decoded JSON value. `null` is Python's `None`. -/
inductive Json
  | null
  | bool (b : Bool)
  | int (n : Int)
  | float (x : Float)
  | str (s : String)
  | arr (items : List Json)
  | obj (fields : List (String × Json))

/-- Python's `repr` of the values that are neither text nor integers. -/
abbrev ReprText := Json → String

/-- Why `int(value)` raises. -/
inductive ConversionError
  | valueError
  | typeError
  | overflowError
  deriving DecidableEq

namespace Json

/-- `payload.get(key)` of a dictionary; of a repeated key the last one was kept. -/
def get (fields : List (String × Json)) (key : String) : Option Json :=
  ((fields.reverse.find? fun p => p.1 == key).map Prod.snd)

/-- `bool(value)`. -/
def truthy : Json → Bool
  | null => false
  | bool b => b
  | int n => n != 0
  | float (.finite _ m _) => m != 0
  | float _ => true
  | str s => !s.isEmpty
  | arr items => !items.isEmpty
  | obj fields => !fields.isEmpty

/-- `value == n` for an integer `n`. -/
def eqInt (n : Int) : Json → Bool
  | bool b => (if b then 1 else 0) == n
  | int m => m == n
  | float (.finite neg m e) => (Float.finite neg m e).value == (n : ℚ)
  | _ => false

/-- `int(value)`. -/
def toInt : Json → Except ConversionError Int
  | null => .error .typeError
  | bool b => .ok (if b then 1 else 0)
  | int n => .ok n
  | float (.finite neg m e) =>
    let x := (Float.finite neg m e).value
    .ok (if x < 0 then -⌊-x⌋ else ⌊x⌋)
  | float (.infinite _) => .error .overflowError
  | float .nan => .error .valueError
  | str s => match intOfText s with
    | some n => .ok n
    | none => .error .valueError
  | arr _ => .error .typeError
  | obj _ => .error .typeError

def intText (n : Int) : String :=
  String.ofList (if n < 0 then '-' :: natDigits n.natAbs else natDigits n.natAbs)

/-- `str(value)`. -/
def toStr (repr : ReprText) : Json → String
  | null => "None"
  | bool b => if b then "True" else "False"
  | int n => intText n
  | str s => s
  | v => repr v

end Json

end Python
