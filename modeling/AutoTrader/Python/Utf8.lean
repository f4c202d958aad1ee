import Mathlib.Data.List.Basic

/-!
# UTF-8

`str.encode("utf-8")`, and `bytes.decode("utf-8", "replace")`, which shows every ill-formed part
of its input as one replacement character: a byte that starts nothing, or the longest beginning
of a character that the next byte does not continue. An octet is a number below 256.

What was encoded is decoded to the same text, whatever follows it (`decode_encode_append`).
-/

namespace Python

namespace Utf8

/-! ## Encoding -/

def encodeChar (c : Char) : List Nat :=
  let n := c.toNat
  if n < 0x80 then [n]
  else if n < 0x800 then [0xC0 + n / 64, 0x80 + n % 64]
  else if n < 0x10000 then [0xE0 + n / 4096, 0x80 + n / 64 % 64, 0x80 + n % 64]
  else [0xF0 + n / 262144, 0x80 + n / 4096 % 64, 0x80 + n / 64 % 64, 0x80 + n % 64]

def encode (cs : List Char) : List Nat := cs.flatMap encodeChar

/-! ## Decoding -/

/-- A character of which `more` octets are missing, the next of them between `low` and `high`. -/
structure Pending where
  bits : Nat
  more : Nat
  low : Nat
  high : Nat

/-- What an octet makes of the characters read so far. -/
inductive Seen
  | char (c : Char)
  | more (p : Pending)
  | invalid

/-- The first octet of a character. -/
def lead (b : Nat) : Seen :=
  if b < 0x80 then .char (Char.ofNat b)
  else if b < 0xC2 then .invalid
  else if b < 0xE0 then .more ⟨b - 0xC0, 1, 0x80, 0xBF⟩
  else if b < 0xF0 then
    .more ⟨b - 0xE0, 2, if b = 0xE0 then 0xA0 else 0x80, if b = 0xED then 0x9F else 0xBF⟩
  else if b < 0xF5 then
    .more ⟨b - 0xF0, 3, if b = 0xF0 then 0x90 else 0x80, if b = 0xF4 then 0x8F else 0xBF⟩
  else .invalid

/-- Another octet of a character; `none` if it does not continue it. -/
def Pending.next (p : Pending) (b : Nat) : Option Seen :=
  if p.low ≤ b ∧ b ≤ p.high then
    let bits := p.bits * 64 + (b - 0x80)
    some (if p.more = 1 then .char (Char.ofNat bits) else .more ⟨bits, p.more - 1, 0x80, 0xBF⟩)
  else none

def replacement : Char := Char.ofNat 0xFFFD

def decodeFrom : Option Pending → List Nat → List Char
  | none, [] => []
  | some _, [] => [replacement]
  | p, b :: bs =>
    -- an octet that does not continue a character is read again as the first of one
    let (shown, seen) := match p with
      | none => ([], lead b)
      | some p =>
        match p.next b with
        | some seen => ([], seen)
        | none => ([replacement], lead b)
    shown ++ match seen with
      | .char c => c :: decodeFrom none bs
      | .more q => decodeFrom (some q) bs
      | .invalid => replacement :: decodeFrom none bs

def decode (bs : List Nat) : List Char := decodeFrom none bs

/-! ## Round trip -/

/-- The code points: no surrogates, and nothing above the last plane. -/
theorem toNat_valid (c : Char) : c.toNat < 0xD800 ∨ 0xDFFF < c.toNat ∧ c.toNat < 0x110000 := c.valid

theorem encodeChar_lt (c : Char) : ∀ b ∈ encodeChar c, b < 256 := by
  have hc := toNat_valid c
  intro b hb
  simp only [encodeChar] at hb
  split_ifs at hb <;> simp only [List.mem_cons, List.not_mem_nil, or_false] at hb <;> omega

theorem decodeFrom_lead {b : Nat} {p : Pending} (h : lead b = .more p) (bs : List Nat) :
    decodeFrom none (b :: bs) = decodeFrom (some p) bs := by
  simp [decodeFrom, h]

theorem decodeFrom_more {b : Nat} {p : Pending} (hmore : p.more ≠ 1) (hlow : p.low ≤ b)
    (hhigh : b ≤ p.high) (bs : List Nat) :
    decodeFrom (some p) (b :: bs) =
      decodeFrom (some ⟨p.bits * 64 + (b - 0x80), p.more - 1, 0x80, 0xBF⟩) bs := by
  simp [decodeFrom, Pending.next, hmore, hlow, hhigh]

theorem decodeFrom_last {b : Nat} {p : Pending} (hmore : p.more = 1) (hlow : p.low ≤ b)
    (hhigh : b ≤ p.high) (bs : List Nat) :
    decodeFrom (some p) (b :: bs) = Char.ofNat (p.bits * 64 + (b - 0x80)) :: decodeFrom none bs := by
  simp [decodeFrom, Pending.next, hmore, hlow, hhigh]

/-- The first octet of a character of two octets. -/
theorem lead_two {b : Nat} (hlow : 0xC2 ≤ b) (hhigh : b < 0xE0) :
    lead b = .more ⟨b - 0xC0, 1, 0x80, 0xBF⟩ := by
  rw [lead, if_neg (by omega), if_neg (by omega), if_pos hhigh]

theorem lead_three {b : Nat} (hlow : 0xE0 ≤ b) (hhigh : b < 0xF0) :
    lead b = .more ⟨b - 0xE0, 2, if b = 0xE0 then 0xA0 else 0x80,
      if b = 0xED then 0x9F else 0xBF⟩ := by
  rw [lead, if_neg (by omega), if_neg (by omega), if_neg (by omega), if_pos hhigh]

theorem lead_four {b : Nat} (hlow : 0xF0 ≤ b) (hhigh : b < 0xF5) :
    lead b = .more ⟨b - 0xF0, 3, if b = 0xF0 then 0x90 else 0x80,
      if b = 0xF4 then 0x8F else 0xBF⟩ := by
  rw [lead, if_neg (by omega), if_neg (by omega), if_neg (by omega), if_neg (by omega),
    if_pos hhigh]

theorem decode_encodeChar (c : Char) (bs : List Nat) :
    decode (encodeChar c ++ bs) = c :: decode bs := by
  have hc := toNat_valid c
  have hback : ∀ n, n = c.toNat → Char.ofNat n = c := by
    rintro n rfl
    exact Char.ofNat_toNat c
  simp only [decode, encodeChar]
  split_ifs with h1 h2 h3
  · simp [decodeFrom, lead, h1]
  · rw [List.cons_append, List.singleton_append, decodeFrom_lead (lead_two (by omega) (by omega)),
      decodeFrom_last rfl (by simp) (by simp only; omega), hback]
    simp only
    omega
  · rw [List.cons_append, List.cons_append, List.singleton_append,
      decodeFrom_lead (lead_three (by omega) (by omega)),
      decodeFrom_more (by simp) (by simp only; split <;> omega) (by simp only; split <;> omega),
      decodeFrom_last rfl (by simp) (by simp only; omega), hback]
    simp only
    omega
  · rw [List.cons_append, List.cons_append, List.cons_append, List.singleton_append,
      decodeFrom_lead (lead_four (by omega) (by omega)),
      decodeFrom_more (by simp) (by simp only; split <;> omega) (by simp only; split <;> omega),
      decodeFrom_more (by simp) (by simp) (by simp only; omega),
      decodeFrom_last rfl (by simp) (by simp only; omega), hback]
    simp only
    omega

theorem decode_encode_append (cs : List Char) (bs : List Nat) :
    decode (encode cs ++ bs) = cs ++ decode bs := by
  induction cs with
  | nil => rfl
  | cons c cs ih =>
    rw [encode, List.flatMap_cons, List.append_assoc, decode_encodeChar]
    exact congrArg (c :: ·) ih

theorem decode_encode (cs : List Char) : decode (encode cs) = cs := by
  have h := decode_encode_append cs []
  rwa [List.append_nil, show decode [] = [] from rfl, List.append_nil] at h

/-- The Euro sign, and an ill-formed sequence that starts like it. -/
example : decode [0xE2, 0x82, 0xAC, 0xE2, 0x82, 0x41] = ['€', replacement, 'A'] := by decide

end Utf8

end Python
