import Mathlib.Data.List.Basic
import Mathlib.Data.Nat.Digits.Defs

/-!
# Python text

The parts of `str` a program meets when it validates and converts text: whitespace,
decimal digits of any script, `strip`, `rstrip` of one character, `upper`, and the
conversion `int(text)`. Text is worked on as a list of characters.

`upper` is Python's on every character whose upper case has an ASCII letter in it;
any other non-ASCII character is kept, so that the result is ASCII exactly when
Python's is, and is then the same text.
-/

namespace Python

/-- `str.isspace` of one character. -/
def isSpace (c : Char) : Bool :=
  let n := c.toNat
  (9 ≤ n && n ≤ 13) || (28 ≤ n && n ≤ 32) || n == 0x85 || n == 0xA0 || n == 0x1680 ||
    (0x2000 ≤ n && n ≤ 0x200A) || n == 0x2028 || n == 0x2029 || n == 0x202F || n == 0x205F ||
    n == 0x3000

/-- The zeros of the decimal digit blocks of Unicode 16. -/
def digitZeros : List Nat :=
  [0x30, 0x660, 0x6F0, 0x7C0, 0x966, 0x9E6, 0xA66, 0xAE6, 0xB66, 0xBE6, 0xC66, 0xCE6, 0xD66,
    0xDE6, 0xE50, 0xED0, 0xF20, 0x1040, 0x1090, 0x17E0, 0x1810, 0x1946, 0x19D0, 0x1A80, 0x1A90,
    0x1B50, 0x1BB0, 0x1C40, 0x1C50, 0xA620, 0xA8D0, 0xA900, 0xA9D0, 0xA9F0, 0xAA50, 0xABF0,
    0xFF10, 0x104A0, 0x10D30, 0x10D40, 0x11066, 0x110F0, 0x11136, 0x111D0, 0x112F0, 0x11450,
    0x114D0, 0x11650, 0x116C0, 0x116D0, 0x116DA, 0x11730, 0x118E0, 0x11950, 0x11BF0, 0x11C50,
    0x11D50, 0x11DA0, 0x11F50, 0x16130, 0x16A60, 0x16AC0, 0x16B50, 0x16D70, 0x1CCF0, 0x1D7CE,
    0x1D7D8, 0x1D7E2, 0x1D7EC, 0x1D7F6, 0x1E140, 0x1E2F0, 0x1E4F0, 0x1E5F1, 0x1E950, 0x1FBF0]

/-- The value of a decimal digit of any script. -/
def digit? (c : Char) : Option Nat :=
  (digitZeros.find? fun z => z ≤ c.toNat && c.toNat < z + 10).map fun z => c.toNat - z

def lstrip (cs : List Char) : List Char := cs.dropWhile isSpace

/-- `str.strip()`. -/
def strip (cs : List Char) : List Char := (lstrip (lstrip cs).reverse).reverse

/-- What `dropWhile` leaves starts with the character that stopped it. -/
theorem head_dropWhile {p : Char → Bool} {cs : List Char} {c : Char}
    (h : (cs.dropWhile p).head? = some c) : p c = false := by
  have hnot := List.head?_dropWhile_not p cs
  rw [h] at hnot
  simpa using hnot

theorem dropWhile_eq_self {p : Char → Bool} {cs : List Char}
    (h : ∀ c, cs.head? = some c → p c = false) : cs.dropWhile p = cs := by
  cases cs with
  | nil => rfl
  | cons c cs => rw [List.dropWhile_cons, if_neg (by simp [h c rfl])]

/-- `str.replace(old, new, 1)`, where `old` is not empty. -/
def replaceFirst (old new : List Char) : List Char → List Char
  | [] => []
  | c :: cs =>
    if old.isPrefixOf (c :: cs) then new ++ (c :: cs).drop old.length
    else c :: replaceFirst old new cs

/-- `str.rstrip(c)` for one character. -/
def rstripChar (c : Char) (cs : List Char) : List Char := (cs.reverse.dropWhile (· == c)).reverse

/-- `str.upper()` of one character, see the head of this file. -/
def upperChar (c : Char) : List Char :=
  match c.toNat with
  | 0xDF => ['S', 'S']
  | 0x131 => ['I']
  | 0x17F => ['S']
  | 0xFB00 => ['F', 'F']
  | 0xFB01 => ['F', 'I']
  | 0xFB02 => ['F', 'L']
  | 0xFB03 => ['F', 'F', 'I']
  | 0xFB04 => ['F', 'F', 'L']
  | 0xFB05 => ['S', 'T']
  | 0xFB06 => ['S', 'T']
  | _ => [c.toUpper]

/-- `str.upper()`. -/
def upper (cs : List Char) : List Char := cs.flatMap upperChar

/-- The characters of a natural number in base ten, most significant first. -/
def natDigits (n : Nat) : List Char :=
  if n = 0 then ['0'] else (Nat.digits 10 n).reverse.map fun d => Char.ofNat (48 + d)

/-- The number a list of digits denotes, most significant first. -/
def ofDigits (ds : List Nat) : Nat := Nat.ofDigits 10 ds.reverse

/-- The digits of an integer literal: decimal digits, single underscores between them. -/
def intDigits : List Char → Option (List Nat)
  | [] => none
  | [c] => (digit? c).map fun d => [d]
  | c :: '_' :: cs => do
    let d ← digit? c
    let ds ← intDigits cs
    return d :: ds
  | c :: cs => do
    let d ← digit? c
    let ds ← intDigits cs
    return d :: ds

/-- The longest literal `int` accepts. -/
def maxIntDigits : Nat := 4300

/-- The blanks `int` passes over at both ends: the separators from U+001C to U+001F, which
`str.strip` takes off, are not among them. -/
def isIntSpace (c : Char) : Bool := isSpace c && !(28 ≤ c.toNat && c.toNat ≤ 31)

def intStrip (cs : List Char) : List Char :=
  ((cs.dropWhile isIntSpace).reverse.dropWhile isIntSpace).reverse

/-- `int(text)`; `none` stands for `ValueError`. -/
def intOfText (s : String) : Option Int :=
  let unsigned (cs : List Char) : Option Nat := do
    let ds ← intDigits cs
    if ds.length ≤ maxIntDigits then return ofDigits ds else none
  match intStrip s.toList with
  | '-' :: cs => (unsigned cs).map fun n => -(n : Int)
  | '+' :: cs => (unsigned cs).map fun n => (n : Int)
  | cs => (unsigned cs).map fun n => (n : Int)

example : intOfText " -1_20 " = some (-120) := by decide +kernel
example : intOfText "\x1c7" = none := by decide +kernel

end Python
