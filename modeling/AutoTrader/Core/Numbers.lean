import AutoTrader.Python.DecimalText

/-! # `app/core/numbers.py` -/

namespace AutoTrader

open Python

/-- `format_decimal`; `none` stands for the `ValueError` on a non-finite value. -/
def formatDecimal (value : Decimal) : Option String :=
  if value.isFinite then
    let text := value.normalize.formatFixed.toList
    let text := if text.contains '.' then rstripChar '.' (rstripChar '0' text) else text
    some (if text.isEmpty then "0" else String.ofList text)
  else none

example : formatDecimal (.finite false 150 (-2)) = some "1.5" := by decide +kernel

/-- A number in lowest terms is written as it is: nothing is stripped. A fraction does not
end in a zero, and a zero stands in front only when no other digit stands before the point. -/
theorem formatDecimal_plain {d : Decimal} {c : Nat} {e : Int} (hf : d.isFinite = true)
    (hn : d.normalize = .finite false c e) (hlast : c % 10 ≠ 0) :
    ∃ int frac, int ≠ [] ∧ (∀ d ∈ int, d < 10) ∧ (∀ d ∈ frac, d < 10) ∧
      formatDecimal d = some (String.ofList (plainChars int frac)) ∧
      frac.length = (-e).toNat ∧ ofDigits (int ++ frac) = c * 10 ^ e.toNat ∧
      (frac ≠ [] → frac.getLast? ≠ some 0) ∧ (int = [0] ∨ int.head? ≠ some 0) := by
  have hc : c ≠ 0 := by
    rintro rfl
    exact hlast rfl
  obtain ⟨int, frac, hne, hint, hfrac, htext, hlen, hdigits, hend, hhead⟩ :=
    Decimal.formatFixed_plain (e := e) hc
  have hlastFrac : frac ≠ [] → frac.getLast? ≠ some 0 := by
    intro hne h
    rw [hend hne, Option.some_inj] at h
    exact hlast h
  refine ⟨int, frac, hne, hint, hfrac, ?_, hlen, hdigits, hlastFrac, hhead⟩
  have hnonempty : (plainChars int frac).isEmpty = false := by
    cases int with
    | nil => exact absurd rfl hne
    | cons d ds => rfl
  have hstrip : (if (plainChars int frac).contains '.' then
      rstripChar '.' (rstripChar '0' (plainChars int frac)) else plainChars int frac) =
        plainChars int frac := by
    split
    · rename_i hpoint
      by_cases hempty : frac = []
      · -- digits only: there is no point
        subst hempty
        simp only [plainChars, List.isEmpty_nil, if_true, List.append_nil,
          List.contains_iff_mem] at hpoint
        obtain ⟨d, hd, hpd⟩ := List.mem_map.mp hpoint
        exact absurd hpd (digitChar_ordinary (hint d hd)).2.2.2.2.2.2.2.2
      · have hlt : c % 10 < 10 := Nat.mod_lt _ (by norm_num)
        have hend : (plainChars int frac).getLast? = some (digitChar (c % 10)) := by
          have hfalse : frac.isEmpty = false := by simpa using hempty
          obtain ⟨l, rfl⟩ := List.getLast?_eq_some_iff.mp (hend hempty)
          simp only [plainChars, hfalse, Bool.false_eq_true, if_false, digitChars, List.map_append,
            List.map_singleton]
          rw [← List.cons_append, ← List.append_assoc, List.getLast?_append]
          rfl
        rw [rstripChar_of_getLast? hend fun h => hlast (digitChar_eq_zero hlt h),
          rstripChar_of_getLast? hend (digitChar_ordinary hlt).2.2.2.2.2.2.2.2]
    · rfl
  simp only [formatDecimal, hf, if_true, hn, htext, String.toList_ofList, hstrip, hnonempty,
    Bool.false_eq_true, if_false]

/-- **A stored quantity is written exactly**: in plain notation, to be read back as the same
number. -/
theorem formatDecimal_stored {u : Nat} (hu : u ≠ 0) (hlt : u < 10 ^ 28) :
    ∃ text d, formatDecimal (.finite false u (-Decimal.scale)) = some text ∧
      isPlain text = true ∧ Decimal.ofText text = some d ∧ d.value = u / 10 ^ Decimal.scale := by
  obtain ⟨c, k, hn, huk, hlast⟩ := Decimal.normalize_short (-Decimal.scale) hu hlt
  obtain ⟨int, frac, hne, hint, hfrac, htext, hlen, hdigits, -, -⟩ :=
    formatDecimal_plain (d := .finite false u (-Decimal.scale)) rfl hn hlast
  have hscale : Decimal.scale = 12 := rfl
  have hcoeff : ofDigits (int ++ frac) < 10 ^ 28 := by
    rw [hdigits]
    calc c * 10 ^ (-(Decimal.scale : Int) + k).toNat ≤ c * 10 ^ k :=
          Nat.mul_le_mul_left c (Nat.pow_le_pow_right (by norm_num) (by omega))
      _ = u := huk.symm
      _ < 10 ^ 28 := hlt
  have hrange : Decimal.exponentInRange (ofDigits (int ++ frac)) (-frac.length) = true := by
    have hdig := length_natDigits_le (by norm_num) hcoeff
    rw [Decimal.exponentInRange, Bool.and_eq_true, decide_eq_true_eq, decide_eq_true_eq, hlen]
    omega
  refine ⟨_, _, htext, isPlain_plainChars hint hfrac,
    Decimal.ofText_plain hne hint hfrac hrange, ?_⟩
  simp only [Decimal.value, Bool.false_eq_true, if_false, one_mul, hdigits, hlen, huk]
  push_cast
  rw [mul_assoc, ← zpow_natCast, ← zpow_natCast, ← zpow_natCast, mul_div_assoc, ← zpow_add₀ (by norm_num),
    ← zpow_sub₀ (by norm_num)]
  congr 2
  omega

end AutoTrader
