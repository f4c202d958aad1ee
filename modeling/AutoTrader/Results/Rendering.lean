import AutoTrader.Core.Numbers

/-!
# One text for one amount

`format_decimal` writes an amount that a `NUMERIC(28, 12)` column can hold in one canonical
way, however the `Decimal` represents it, and the text is read back as the same number
(`format_decimal_canonical`). The exception is the zero that carries a sign: `Decimal("-0")`
equals `Decimal("0")`, and is written `-0`.
-/

namespace AutoTrader

open Python

/-! ## The grammar -/

/-- `0`, or digits that do not start with `0`. -/
def isInteger : List Char → Bool
  | [] => false
  | ['0'] => true
  | c :: cs => c.isDigit && c != '0' && cs.all Char.isDigit

/-- Digits that do not end in `0`. -/
def isFraction (cs : List Char) : Bool := cs.all Char.isDigit && cs.getLast?.any (· != '0')

/-- An integer, with a point and a fraction or without. -/
def isCanonical (text : String) : Bool :=
  isInteger (text.toList.takeWhile (· != '.')) &&
    match text.toList.dropWhile (· != '.') with
    | [] => true
    | _ :: cs => isFraction cs

theorem isInteger_digitChars {int : List Nat} (hne : int ≠ []) (hint : ∀ d ∈ int, d < 10)
    (hhead : int = [0] ∨ int.head? ≠ some 0) : isInteger (digitChars int) = true := by
  rcases hhead with rfl | hhead
  · rfl
  obtain ⟨d, ds, rfl⟩ := List.exists_cons_of_ne_nil hne
  have hd := hint d List.mem_cons_self
  have hzero : digitChar d ≠ '0' := by
    intro h
    exact hhead (congrArg some (digitChar_eq_zero hd h))
  have hall : (digitChars ds).all Char.isDigit = true :=
    isDigit_digitChars fun d' hd' => hint d' (List.mem_cons_of_mem d hd')
  have hdigit := (digitChar_ordinary hd).2.2.2.2.2.2.2.1
  simp only [digitChars, List.map_cons] at hall ⊢
  rw [isInteger, hdigit, hall]
  · simpa using hzero
  · intro h _
    exact hzero h

theorem isFraction_digitChars {frac : List Nat} (hne : frac ≠ []) (hfrac : ∀ d ∈ frac, d < 10)
    (hlast : frac.getLast? ≠ some 0) : isFraction (digitChars frac) = true := by
  have hsome := List.getLast?_eq_some_getLast hne
  have hzero : digitChar (frac.getLast hne) ≠ '0' := by
    intro h
    apply hlast
    rw [hsome, digitChar_eq_zero (hfrac _ (List.getLast_mem hne)) h]
  rw [isFraction, isDigit_digitChars hfrac, digitChars, List.getLast?_map, hsome]
  simpa using hzero

theorem isCanonical_plainChars {int frac : List Nat} (hne : int ≠ []) (hint : ∀ d ∈ int, d < 10)
    (hfrac : ∀ d ∈ frac, d < 10) (hhead : int = [0] ∨ int.head? ≠ some 0)
    (hlast : frac ≠ [] → frac.getLast? ≠ some 0) :
    isCanonical (String.ofList (plainChars int frac)) = true := by
  have hpoint : ∀ c ∈ digitChars int, (c != '.') = true := by
    intro c hc
    obtain ⟨d, hd, rfl⟩ := List.mem_map.mp hc
    simpa using (digitChar_ordinary (hint d hd)).2.2.2.2.2.2.2.2
  have hinteger := isInteger_digitChars hne hint hhead
  rw [isCanonical, String.toList_ofList, plainChars, List.takeWhile_append_of_pos hpoint,
    List.dropWhile_append_of_pos hpoint]
  cases frac with
  | nil => simpa using hinteger
  | cons d ds =>
    have hfraction := isFraction_digitChars (by simp) hfrac (hlast (by simp))
    simpa using ⟨hinteger, hfraction⟩

/-! ## Amounts -/

/-- An amount that a `NUMERIC(28, 12)` column can hold: a multiple of its last place that has
no more than 28 digits. -/
structure Storable (d : Decimal) : Prop where
  finite : d.isFinite = true
  units : ∃ u : Nat, u < 10 ^ 28 ∧ d.value = u / 10 ^ Decimal.scale

/-- A zero that carries a sign. -/
def IsNegativeZero (d : Decimal) : Prop := ∃ e, d = .finite true 0 e

/-- The amount has a canonical text, and the text is read back as the same number. -/
def RenderedExactly (d : Decimal) : Prop :=
  ∃ text p, formatDecimal d = some text ∧ isCanonical text = true ∧
    Decimal.ofText text = some p ∧ (p == d) = true

/-- A number in lowest terms that fits the column has no more digits than the column. -/
theorem lowest_units {s u : Nat} {e : Int} (hs : s % 10 ≠ 0)
    (h : (s : ℚ) * 10 ^ e = u / 10 ^ Decimal.scale) :
    -(Decimal.scale : Int) ≤ e ∧ s * 10 ^ (e + Decimal.scale).toNat = u := by
  have hscaled : (s : ℚ) * 10 ^ (e + Decimal.scale) = u := by
    rw [zpow_add₀ (by norm_num), zpow_natCast, ← mul_assoc, h, div_mul_cancel₀]
    positivity
  have hle : -(Decimal.scale : Int) ≤ e := by
    by_contra hlt
    obtain ⟨k, hk⟩ := Int.eq_ofNat_of_zero_le (show 0 ≤ -(e + Decimal.scale) by omega)
    have hneg : e + Decimal.scale = -(k : Int) := by omega
    rw [hneg, zpow_neg, zpow_natCast, ← div_eq_mul_inv, div_eq_iff (by positivity)] at hscaled
    have hnat : s = u * 10 ^ k := by exact_mod_cast hscaled
    have hzero := Decimal.exp_of_eq_mul_pow hnat hs
    omega
  refine ⟨hle, ?_⟩
  obtain ⟨k, hk⟩ := Int.eq_ofNat_of_zero_le (show 0 ≤ e + Decimal.scale by omega)
  rw [hk, zpow_natCast] at hscaled
  rw [hk, Int.toNat_natCast]
  exact_mod_cast hscaled

theorem Storable.lowest {d : Decimal} (h : Storable d) (hzero : d.value ≠ 0) :
    ∃ s e, d.normalize = .finite false s e ∧ s % 10 ≠ 0 ∧ d.value = s * 10 ^ e ∧
      s * 10 ^ e.toNat < 10 ^ 28 ∧ -(Decimal.scale : Int) ≤ e := by
  obtain ⟨hfinite, u, hu, hvalue⟩ := h
  cases d with
  | infinite _ | nan _ => cases hfinite
  | finite neg c e =>
    have hc : c ≠ 0 := by
      rintro rfl
      exact hzero (by simp [Decimal.value])
    have hneg : neg = false := by
      cases neg with
      | false => rfl
      | true =>
        have hpos : (0 : ℚ) < c * 10 ^ e :=
          mul_pos (Nat.cast_pos.mpr (Nat.pos_of_ne_zero hc)) (zpow_pos (by norm_num) e)
        have hnonneg : (0 : ℚ) ≤ u / 10 ^ Decimal.scale := by positivity
        simp only [Decimal.value, if_true] at hvalue
        linarith
    subst hneg
    obtain ⟨s, m, rfl, hs⟩ := Decimal.exists_lowest hc
    have hlowest : (Decimal.finite false (s * 10 ^ m) e).value = s * 10 ^ (e + m) := by
      simp only [Decimal.value, Bool.false_eq_true, if_false, one_mul]
      push_cast
      rw [zpow_add₀ (by norm_num), zpow_natCast]
      ring
    obtain ⟨hscale, hunits⟩ := lowest_units hs (hlowest.symm.trans hvalue)
    have hbound : s * 10 ^ (e + m).toNat ≤ u := by
      rw [← hunits]
      exact Nat.mul_le_mul_left s (Nat.pow_le_pow_right (by norm_num) (by omega))
    have hshort : s < 10 ^ Decimal.precision := by
      calc s ≤ s * 10 ^ (e + m).toNat := Nat.le_mul_of_pos_right s (by positivity)
        _ ≤ u := hbound
        _ < 10 ^ 28 := hu
    exact ⟨s, e + m, Decimal.normalize_padded false e hs hshort, hs, hlowest,
      lt_of_le_of_lt hbound hu, hscale⟩

theorem Storable.eq_zero {d : Decimal} (h : Storable d) (hzero : d.value = 0) :
    ∃ neg e, d = .finite neg 0 e := by
  cases d with
  | infinite _ | nan _ => cases h.finite
  | finite neg c e =>
    have hc : c = 0 := by
      by_contra hc
      have hpos : (0 : ℚ) < c * 10 ^ e :=
        mul_pos (Nat.cast_pos.mpr (Nat.pos_of_ne_zero hc)) (zpow_pos (by norm_num) e)
      cases neg <;> simp only [Decimal.value, if_true, Bool.false_eq_true, if_false] at hzero <;>
        linarith
    exact ⟨neg, e, by rw [hc]⟩

theorem formatDecimal_zero (neg : Bool) (e : Int) :
    formatDecimal (.finite neg 0 e) = some (if neg then "-0" else "0") := by
  simp only [formatDecimal, Decimal.normalize_zero]
  cases neg <;> rfl

/-! ## One text -/

/-- A positive amount is written by its lowest terms. -/
theorem Storable.rendered_pos {d : Decimal} (h : Storable d) (hzero : d.value ≠ 0) :
    RenderedExactly d := by
  obtain ⟨s, e, hnorm, hs, hvalue, hbound, hscale⟩ := h.lowest hzero
  obtain ⟨int, frac, hne, hint, hfrac, htext, hlen, hdigits, hlast, hhead⟩ :=
    formatDecimal_plain h.finite hnorm hs
  have hrange : Decimal.exponentInRange (ofDigits (int ++ frac)) (-frac.length) = true := by
    have hdig := length_natDigits_le (by norm_num) (hdigits ▸ hbound)
    have hscale12 : Decimal.scale = 12 := rfl
    rw [Decimal.exponentInRange, Bool.and_eq_true, decide_eq_true_eq, decide_eq_true_eq, hlen]
    omega
  refine ⟨_, _, htext, isCanonical_plainChars hne hint hfrac hhead hlast,
    Decimal.ofText_plain hne hint hfrac hrange, Decimal.beq_of_value rfl h.finite ?_⟩
  rw [hvalue, hdigits, hlen]
  simp only [Decimal.value, Bool.false_eq_true, if_false, one_mul]
  push_cast
  rw [mul_assoc, ← zpow_natCast, ← zpow_add₀ (by norm_num)]
  congr 2
  omega

theorem renderedExactly_zero {neg : Bool} {e : Int} :
    RenderedExactly (.finite neg 0 e) ↔ neg = false := by
  constructor
  · rintro ⟨text, p, htext, hcanonical, -, -⟩
    rw [formatDecimal_zero, Option.some_inj] at htext
    subst htext
    cases neg with
    | false => rfl
    | true => cases hcanonical
  · rintro rfl
    refine ⟨"0", .finite false 0 0, formatDecimal_zero false e, rfl, rfl, ?_⟩
    exact Decimal.beq_of_value rfl rfl (by simp [Decimal.value])

theorem Storable.rendered {d : Decimal} (h : Storable d) :
    RenderedExactly d ↔ ¬ IsNegativeZero d := by
  by_cases hzero : d.value = 0
  · obtain ⟨neg, e, rfl⟩ := h.eq_zero hzero
    rw [renderedExactly_zero]
    constructor
    · rintro rfl ⟨e', he'⟩
      cases he'
    · intro hpos
      rw [Bool.eq_false_iff]
      rintro rfl
      exact hpos ⟨e, rfl⟩
  · refine iff_of_true (h.rendered_pos hzero) ?_
    rintro ⟨e, rfl⟩
    exact hzero (by simp [Decimal.value])

theorem RenderedExactly.value_eq {d d' : Decimal} (h : RenderedExactly d)
    (h' : RenderedExactly d') (htext : formatDecimal d = formatDecimal d') :
    d.value = d'.value := by
  obtain ⟨text, p, hd, -, hp, heq⟩ := h
  obtain ⟨text', p', hd', -, hp', heq'⟩ := h'
  have hsame : text = text' := by
    rw [hd, hd', Option.some_inj] at htext
    exact htext
  rw [hsame, hp', Option.some_inj] at hp
  rw [← Decimal.value_of_beq heq, ← Decimal.value_of_beq heq', hp]

/-- Equal amounts have one text: they have the same lowest terms. -/
theorem Storable.text_eq {d d' : Decimal} (h : Storable d) (h' : Storable d')
    (hpos : ¬ IsNegativeZero d) (hpos' : ¬ IsNegativeZero d') (hvalue : d.value = d'.value) :
    formatDecimal d = formatDecimal d' := by
  by_cases hzero : d.value = 0
  · obtain ⟨neg, e, rfl⟩ := h.eq_zero hzero
    obtain ⟨neg', e', rfl⟩ := h'.eq_zero (hvalue ▸ hzero)
    have hneg := renderedExactly_zero.mp (h.rendered.mpr hpos)
    have hneg' := renderedExactly_zero.mp (h'.rendered.mpr hpos')
    rw [formatDecimal_zero, formatDecimal_zero, hneg, hneg']
  · obtain ⟨s, e, hnorm, hs, hd, -, -⟩ := h.lowest hzero
    obtain ⟨s', e', hnorm', hs', hd', -, -⟩ := h'.lowest (hvalue ▸ hzero)
    obtain ⟨hcoeff, hexp⟩ := Decimal.lowest_unique (hd.symm.trans (hvalue.trans hd')) hs hs'
    simp only [formatDecimal, h.finite, h'.finite, hnorm, hnorm', hcoeff, hexp]

/-- **`format_decimal` is an exact canonical rendering** of the amounts a column can hold,
unless a zero carries a sign: every amount has a canonical text that is read back as the same
number, and two amounts have the same text exactly when they are equal. -/
theorem format_decimal_canonical {d d' : Decimal} (h : Storable d) (h' : Storable d') :
    (RenderedExactly d ∧ RenderedExactly d' ∧
        (formatDecimal d = formatDecimal d' ↔ (d == d') = true)) ↔
      ¬ IsNegativeZero d ∧ ¬ IsNegativeZero d' := by
  constructor
  · rintro ⟨hd, hd', -⟩
    exact ⟨h.rendered.mp hd, h'.rendered.mp hd'⟩
  · rintro ⟨hpos, hpos'⟩
    have hd := h.rendered.mpr hpos
    have hd' := h'.rendered.mpr hpos'
    refine ⟨hd, hd', fun htext => ?_, fun heq => ?_⟩
    · exact Decimal.beq_of_value h.finite h'.finite (hd.value_eq hd' htext)
    · exact h.text_eq h' hpos hpos' (Decimal.value_of_beq heq)

/-- `Decimal("1E+2")` and `Decimal("100.00")` are both written `100`. -/
theorem format_decimal_canonical_hundred :
    RenderedExactly (.finite false 1 2) ∧ RenderedExactly (.finite false 10000 (-2)) ∧
      formatDecimal (.finite false 1 2) = formatDecimal (.finite false 10000 (-2)) := by
  have h : Storable (.finite false 1 2) := ⟨rfl, 100 * 10 ^ 12, by norm_num, by
    norm_num [Decimal.value, Decimal.scale]⟩
  have h' : Storable (.finite false 10000 (-2)) := ⟨rfl, 100 * 10 ^ 12, by norm_num, by
    norm_num [Decimal.value, Decimal.scale]⟩
  obtain ⟨hd, hd', htext⟩ := (format_decimal_canonical h h').mpr
    ⟨(by rintro ⟨e, he⟩; cases he), (by rintro ⟨e, he⟩; cases he)⟩
  refine ⟨hd, hd', htext.mpr ?_⟩
  exact Decimal.beq_of_value rfl rfl (by norm_num [Decimal.value])

/-- The zero that carries a sign is written `-0`, and the equal zero without one `0`. -/
theorem format_decimal_negative_zero :
    Storable (.finite true 0 0) ∧ ¬ RenderedExactly (.finite true 0 0) ∧
      (Decimal.finite true 0 0 == Decimal.finite false 0 0) = true ∧
      formatDecimal (.finite true 0 0) = some "-0" ∧
      formatDecimal (.finite false 0 0) = some "0" := by
  refine ⟨⟨rfl, 0, by norm_num, by simp [Decimal.value]⟩, ?_, ?_, formatDecimal_zero true 0,
    formatDecimal_zero false 0⟩
  · intro h
    cases renderedExactly_zero.mp h
  · exact Decimal.beq_of_value rfl rfl (by simp [Decimal.value])

end AutoTrader
