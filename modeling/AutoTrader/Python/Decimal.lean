import AutoTrader.Python.Text
import Mathlib.Data.Rat.Floor
import Mathlib.Algebra.Order.Field.Rat
import Mathlib.Tactic.NormNum
import Mathlib.Tactic.Ring
import Mathlib.Tactic.FieldSimp
import Mathlib.Tactic.Positivity

/-!
# Python decimals

`decimal.Decimal` as sign, coefficient and exponent, with the operations a program
needs that stores and prints amounts: comparison and equality by value, conversion
from text, the two renderings (`str`, and `format(_, "f")`), `normalize` under the
default context, and the value a fixed-scale column keeps.
-/

namespace Python

/-- A `decimal.Decimal`. The diagnostic digits of a NaN are not kept. -/
inductive Decimal
  | finite (neg : Bool) (coeff : Nat) (exp : Int)
  | infinite (neg : Bool)
  | nan (signaling : Bool)
  deriving DecidableEq

namespace Decimal

def isFinite : Decimal → Bool
  | finite .. => true
  | _ => false

/-- The number a finite decimal denotes. -/
def value : Decimal → ℚ
  | finite neg coeff exp => (if neg then -1 else 1) * coeff * (10 : ℚ) ^ exp
  | _ => 0

/-- `==`: by value, so that padding does not matter; a NaN equals nothing. (With a signaling
NaN it raises instead, see `isSignaling`.) -/
def eqv : Decimal → Decimal → Bool
  | finite n c e, finite n' c' e' => (finite n c e).value == (finite n' c' e').value
  | infinite n, infinite n' => n == n'
  | _, _ => false

instance : BEq Decimal := ⟨eqv⟩

/-- `<` on decimals that are not NaN. -/
def lt : Decimal → Decimal → Bool
  | finite n c e, finite n' c' e' => (finite n c e).value < (finite n' c' e').value
  | infinite n, infinite n' => n && !n'
  | infinite n, _ => n
  | _, infinite n' => !n'
  | _, _ => false

/-- `as_tuple().exponent` of a finite decimal. -/
def exponent : Decimal → Int
  | finite _ _ exp => exp
  | _ => 0

/-! ## Conversion from text -/

/-- The decimal digits at the head of a text, and the rest. -/
def spanDigits : List Char → List Nat × List Char
  | [] => ([], [])
  | c :: cs =>
    match digit? c with
    | some d => ((spanDigits cs).map (d :: ·) id)
    | none => ([], c :: cs)

/-- An exponent part, `E` with a signed integer, up to the end of the text. -/
def parseExponent : List Char → Option Int
  | [] => some 0
  | e :: cs =>
    if e == 'e' || e == 'E' then
      let (sign, ds) := match cs with
        | '-' :: rest => ((-1 : Int), rest)
        | '+' :: rest => (1, rest)
        | rest => (1, rest)
      match spanDigits ds with
      | (d :: digits, []) => some (sign * ofDigits (d :: digits))
      | _ => none
    else none

/-- The exponents a conversion keeps exactly. -/
def exponentInRange (coeff : Nat) (exp : Int) : Bool :=
  decide (exp + (natDigits coeff).length - 1 ≤ 999999999999999999) &&
    decide (-1999999999999999997 ≤ exp)

/-- Digits, an optional fraction and an optional exponent. -/
def parseNumber (neg : Bool) (cs : List Char) : Option Decimal :=
  let (int, rest) := spanDigits cs
  let (frac, rest) := match rest with
    | '.' :: cs => spanDigits cs
    | cs => ([], cs)
  if int.isEmpty && frac.isEmpty then none else
    match parseExponent rest with
    | none => none
    | some e =>
      let coeff := ofDigits (int ++ frac)
      let exp := e - frac.length
      if exponentInRange coeff exp then some (finite neg coeff exp) else none

def parseUnsigned (neg : Bool) (cs : List Char) : Option Decimal :=
  let lower := cs.map Char.toLower
  if lower = "inf".toList || lower = "infinity".toList then some (infinite neg)
  else if lower.take 3 = "nan".toList then
    if (spanDigits (cs.drop 3)).2.isEmpty then some (nan false) else none
  else if lower.take 4 = "snan".toList then
    if (spanDigits (cs.drop 4)).2.isEmpty then some (nan true) else none
  else parseNumber neg cs

/-- `Decimal(text)`; `none` stands for `InvalidOperation`. -/
def ofText (s : String) : Option Decimal :=
  match (strip s.toList).filter (· != '_') with
  | '-' :: cs => parseUnsigned true cs
  | '+' :: cs => parseUnsigned false cs
  | cs => parseUnsigned false cs

/-! ## Rendering -/

def signText (neg : Bool) : List Char := if neg then ['-'] else []

/-- `format(value, "f")`: plain notation, every digit of the coefficient written. -/
def formatFixed : Decimal → String
  | finite neg coeff exp =>
    -- a zero with a positive exponent is rescaled to exponent 0
    let exp := if coeff = 0 && decide (0 < exp) then 0 else exp
    let ds := natDigits coeff
    let dotplace := exp + ds.length
    let (int, frac) :=
      if dotplace < 0 then (['0'], List.replicate (-dotplace).toNat '0' ++ ds)
      else if (ds.length : Int) < dotplace then
        (ds ++ List.replicate (dotplace - ds.length).toNat '0', [])
      else
        let left := ds.take dotplace.toNat
        (if left.isEmpty then ['0'] else left, ds.drop dotplace.toNat)
    String.ofList (signText neg ++ int ++ if frac.isEmpty then [] else '.' :: frac)
  | infinite neg => String.ofList (signText neg) ++ "Infinity"
  | nan signaling => if signaling then "sNaN" else "NaN"

def expText (e : Int) : List Char :=
  'E' :: (if e < 0 then '-' else '+') :: natDigits e.natAbs

/-- `str(value)`: plain notation while the exponent is small, else scientific. -/
def str : Decimal → String
  | finite neg coeff exp =>
    let ds := natDigits coeff
    let left : Int := exp + ds.length
    let dotplace := if exp ≤ 0 && decide (-6 < left) then left else 1
    let (int, frac) :=
      if dotplace ≤ 0 then (['0'], '.' :: (List.replicate (-dotplace).toNat '0' ++ ds))
      else if (ds.length : Int) ≤ dotplace then
        (ds ++ List.replicate (dotplace - ds.length).toNat '0', [])
      else (ds.take dotplace.toNat, '.' :: ds.drop dotplace.toNat)
    String.ofList (signText neg ++ int ++ frac ++ if left = dotplace then [] else expText (left - dotplace))
  | infinite neg => String.ofList (signText neg) ++ "Infinity"
  | nan signaling => if signaling then "sNaN" else "NaN"

/-! ## `normalize` -/

/-- The precision of the default context. -/
def precision : Nat := 28

/-- Round a coefficient to the precision of the context, half to even. -/
def fix (coeff : Nat) (exp : Int) : Nat × Int :=
  let k := (natDigits coeff).length - precision
  if k = 0 then (coeff, exp) else
    let q := coeff / 10 ^ k
    let r := coeff % 10 ^ k
    let q := if 10 ^ k < 2 * r || (2 * r == 10 ^ k && q % 2 == 1) then q + 1 else q
    if q = 10 ^ precision then (10 ^ (precision - 1), exp + k + 1) else (q, exp + k)

/-- Drop at most `fuel` trailing zeros of a coefficient. -/
def stripZeros : Nat → Nat → Int → Nat × Int
  | 0, c, e => (c, e)
  | fuel + 1, c, e => if c % 10 = 0 then stripZeros fuel (c / 10) (e + 1) else (c, e)

/-- `normalize()` under the default context. -/
def normalize : Decimal → Decimal
  | finite neg coeff exp =>
    let (c, e) := fix coeff exp
    if c = 0 then finite neg 0 0 else
      let (c, e) := stripZeros (natDigits c).length c e
      finite neg c e
  | d => d

/-! ## Fixed-scale columns -/

/-- The scale of the numeric columns below. -/
def scale : Nat := 12

/-- `u` units of the last place of a column. -/
def ofUnits (u : Int) : Decimal := finite (decide (u < 0)) u.natAbs (-scale)

/-- The number of units nearest to `q`, ties away from zero. -/
def toUnits (q : ℚ) : Int :=
  let x := q * 10 ^ scale
  if x < 0 then -⌊-x + 1 / 2⌋ else ⌊x + 1 / 2⌋

/-- What a numeric column of that scale keeps and returns. A NaN loses its signal. -/
def store : Decimal → Decimal
  | finite n c e => ofUnits (toUnits (finite n c e).value)
  | infinite neg => infinite neg
  | nan _ => nan false

/-- The exponents that the driver of the database can encode: no more than 16383 decimals,
and a weight (in groups of four digits) that fits its field. -/
def encodable (coeff : Nat) (exp : Int) : Bool :=
  decide (-16383 ≤ exp) && decide (exp + (natDigits coeff).length - 1 < 262144)

/-- A numeric column of that scale and 28 digits takes the value. -/
def isStorable : Decimal → Bool
  | finite n c e => encodable c e && decide ((toUnits (finite n c e).value).natAbs < 10 ^ 28)
  | infinite _ => false
  | nan _ => true

/-- A comparison with the value raises `InvalidOperation`. -/
def isSignaling : Decimal → Bool
  | nan signaling => signaling
  | _ => false

end Decimal

example : (Decimal.ofText " 1_0.50e-3\n") = some (.finite false 1050 (-5)) := by decide +kernel
example : (Decimal.finite false 1000000000 (-12)).normalize.formatFixed = "0.001" := by
  decide +kernel

end Python
