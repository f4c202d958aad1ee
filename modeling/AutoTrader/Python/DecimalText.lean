import AutoTrader.Python.Decimal
import Mathlib.Data.Nat.Digits.Lemmas

/-!
# Plain decimal text is read back

`format(value, "f")` writes a number as its decimal digits with at most one point. Such a
text is read back by `Decimal(text)` as the same number (`ofText_plain`,
`formatFixed_plain`). `normalize` and the column rounding keep every number that has few
enough digits (`normalize_value`, `store_exact`).
-/

namespace Python

/-- The character of a decimal digit. -/
def digitChar (d : Nat) : Char := Char.ofNat (48 + d)

/-- The text of a list of digits. -/
def digitChars (ds : List Nat) : List Char := ds.map digitChar

/-- The digits of a number, most significant first; none for zero. -/
def digitsOf (n : Nat) : List Nat := (Nat.digits 10 n).reverse

/-- Digits, and a point with more digits if there are any. -/
def plainChars (int frac : List Nat) : List Char :=
  digitChars int ++ if frac.isEmpty then [] else '.' :: digitChars frac

/-- Digits and points only: no sign, no exponent, no blank. -/
def isPlain (text : String) : Bool := text.toList.all fun c => c.isDigit || c == '.'

theorem natDigits_eq {n : Nat} (hn : n ≠ 0) : natDigits n = digitChars (digitsOf n) := by
  rw [natDigits, if_neg hn]
  rfl

theorem digitsOf_lt {n d : Nat} (h : d ∈ digitsOf n) : d < 10 :=
  Nat.digits_lt_base (by norm_num) (List.mem_reverse.mp h)

theorem ofDigits_digitsOf (n : Nat) : ofDigits (digitsOf n) = n := by
  rw [ofDigits, digitsOf, List.reverse_reverse, Nat.ofDigits_digits]

theorem digitsOf_ne_nil {n : Nat} (hn : n ≠ 0) : digitsOf n ≠ [] := by
  simpa [digitsOf, Nat.digits_eq_nil_iff_eq_zero] using hn

theorem length_natDigits_le {n k : Nat} (hk : 1 ≤ k) (h : n < 10 ^ k) :
    (natDigits n).length ≤ k := by
  by_cases hn : n = 0
  · subst hn
    simpa [natDigits] using hk
  · rw [natDigits_eq hn, digitChars, List.length_map, digitsOf, List.length_reverse]
    exact (Nat.digits_length_le_iff (by norm_num) n).mpr h

theorem lt_pow_length_natDigits {n : Nat} (hn : n ≠ 0) : n < 10 ^ (natDigits n).length := by
  rw [natDigits_eq hn, digitChars, List.length_map, digitsOf, List.length_reverse]
  exact Nat.lt_base_pow_length_digits (by norm_num)

theorem head?_digitsOf {n : Nat} (hn : n ≠ 0) : (digitsOf n).head? ≠ some 0 := by
  have hne : Nat.digits 10 n ≠ [] := by simpa [Nat.digits_eq_nil_iff_eq_zero] using hn
  rw [digitsOf, List.head?_reverse, List.getLast?_eq_some_getLast hne, ne_eq, Option.some_inj]
  exact Nat.getLast_digit_ne_zero 10 hn

theorem getLast?_digitsOf {n : Nat} (hn : n ≠ 0) : (digitsOf n).getLast? = some (n % 10) := by
  rw [digitsOf, List.getLast?_reverse, Nat.digits_def' (by norm_num) (Nat.pos_of_ne_zero hn)]
  rfl

/-! ## Characters -/

theorem digit?_digitChar {d : Nat} (h : d < 10) : digit? (digitChar d) = some d :=
  (by decide : ∀ d < 10, digit? (digitChar d) = some d) d h

/-- What the reader asks of a character before it looks for digits. -/
theorem digitChar_ordinary {d : Nat} (h : d < 10) :
    isSpace (digitChar d) = false ∧ digitChar d ≠ '_' ∧ digitChar d ≠ '-' ∧ digitChar d ≠ '+' ∧
      (digitChar d).toLower ≠ 'i' ∧ (digitChar d).toLower ≠ 'n' ∧ (digitChar d).toLower ≠ 's' ∧
      (digitChar d).isDigit = true ∧ digitChar d ≠ '.' :=
  (by decide : ∀ d < 10, isSpace (digitChar d) = false ∧ digitChar d ≠ '_' ∧
    digitChar d ≠ '-' ∧ digitChar d ≠ '+' ∧ (digitChar d).toLower ≠ 'i' ∧
    (digitChar d).toLower ≠ 'n' ∧ (digitChar d).toLower ≠ 's' ∧ (digitChar d).isDigit = true ∧
    digitChar d ≠ '.') d h

theorem digitChar_eq_zero {d : Nat} (h : d < 10) (he : digitChar d = '0') : d = 0 :=
  (by decide : ∀ d < 10, digitChar d = '0' → d = 0) d h he

theorem mem_plainChars {int frac : List Nat} (hint : ∀ d ∈ int, d < 10)
    (hfrac : ∀ d ∈ frac, d < 10) {c : Char} (hc : c ∈ plainChars int frac) :
    c = '.' ∨ ∃ d < 10, c = digitChar d := by
  rcases List.mem_append.mp hc with hc | hc
  · obtain ⟨d, hd, rfl⟩ := List.mem_map.mp hc
    exact Or.inr ⟨d, hint d hd, rfl⟩
  · split at hc
    · cases hc
    · rcases List.mem_cons.mp hc with rfl | hc
      · exact Or.inl rfl
      · obtain ⟨d, hd, rfl⟩ := List.mem_map.mp hc
        exact Or.inr ⟨d, hfrac d hd, rfl⟩

theorem isPlain_plainChars {int frac : List Nat} (hint : ∀ d ∈ int, d < 10)
    (hfrac : ∀ d ∈ frac, d < 10) : isPlain (String.ofList (plainChars int frac)) = true := by
  simp only [isPlain, String.toList_ofList, List.all_eq_true]
  intro c hc
  rcases mem_plainChars hint hfrac hc with rfl | ⟨d, hd, rfl⟩
  · rfl
  · simp [(digitChar_ordinary hd).2.2.2.2.2.2.2.1]

/-! ## The characters of a number -/

theorem isDigit_digitChars {ds : List Nat} (h : ∀ d ∈ ds, d < 10) :
    (digitChars ds).all Char.isDigit = true := by
  rw [List.all_eq_true]
  intro c hc
  obtain ⟨d, hd, rfl⟩ := List.mem_map.mp hc
  exact (digitChar_ordinary (h d hd)).2.2.2.2.2.2.2.1

/-- A digit, a point or a sign. -/
def isNumeral (c : Char) : Bool := c.isDigit || c == '.' || c == '-'

theorem strip_of_no_space {cs : List Char} (h : ∀ c ∈ cs, isSpace c = false) : strip cs = cs := by
  have hfront : cs.dropWhile isSpace = cs :=
    dropWhile_eq_self fun c hc => h c (List.mem_of_mem_head? hc)
  have hback : cs.reverse.dropWhile isSpace = cs.reverse :=
    dropWhile_eq_self fun c hc => h c (List.mem_reverse.mp (List.mem_of_mem_head? hc))
  rw [strip, lstrip, lstrip, hfront, hback, List.reverse_reverse]

theorem intStrip_of_no_space {cs : List Char} (h : ∀ c ∈ cs, isSpace c = false) :
    intStrip cs = cs := by
  have hint : ∀ c ∈ cs, isIntSpace c = false := fun c hc => by rw [isIntSpace, h c hc]; rfl
  have hfront : cs.dropWhile isIntSpace = cs :=
    dropWhile_eq_self fun c hc => hint c (List.mem_of_mem_head? hc)
  have hback : cs.reverse.dropWhile isIntSpace = cs.reverse :=
    dropWhile_eq_self fun c hc => hint c (List.mem_reverse.mp (List.mem_of_mem_head? hc))
  rw [intStrip, hfront, hback, List.reverse_reverse]

theorem rstripChar_of_getLast? {c a : Char} {cs : List Char} (h : cs.getLast? = some a)
    (ha : a ≠ c) : rstripChar c cs = cs := by
  obtain ⟨l, rfl⟩ := List.getLast?_eq_some_iff.mp h
  rw [rstripChar, List.reverse_append, List.reverse_singleton, List.singleton_append,
    List.dropWhile_cons, if_neg (by simpa using ha), List.reverse_cons, List.reverse_reverse]

namespace Decimal

/-! ## Reading plain text -/

theorem spanDigits_digitChars {ds : List Nat} (hds : ∀ d ∈ ds, d < 10) (rest : List Char) :
    spanDigits (digitChars ds ++ rest) = (ds ++ (spanDigits rest).1, (spanDigits rest).2) := by
  induction ds with
  | nil => rfl
  | cons d ds ih =>
    have hd := digit?_digitChar (hds d List.mem_cons_self)
    have hrest := ih fun d' hd' => hds d' (List.mem_cons_of_mem d hd')
    simp only [digitChars, List.map_cons, List.cons_append, spanDigits, hd]
    rw [digitChars] at hrest
    rw [hrest]
    rfl

theorem spanDigits_digitChars_nil {ds : List Nat} (hds : ∀ d ∈ ds, d < 10) :
    spanDigits (digitChars ds) = (ds, []) := by
  have h := spanDigits_digitChars hds []
  simpa [spanDigits] using h

theorem parseNumber_plainChars {int frac : List Nat} (hne : int ≠ [])
    (hint : ∀ d ∈ int, d < 10) (hfrac : ∀ d ∈ frac, d < 10)
    (hrange : exponentInRange (ofDigits (int ++ frac)) (-frac.length) = true) :
    parseNumber false (plainChars int frac) =
      some (finite false (ofDigits (int ++ frac)) (-frac.length)) := by
  have hempty : int.isEmpty = false := by simpa using hne
  cases frac with
  | nil =>
    have hspan := spanDigits_digitChars_nil hint
    simp only [List.append_nil, List.length_nil, Nat.cast_zero, neg_zero] at hrange
    simp [parseNumber, plainChars, hspan, parseExponent, hrange, hempty]
  | cons d ds =>
    have hpoint : spanDigits ('.' :: digitChars (d :: ds)) = ([], '.' :: digitChars (d :: ds)) := by
      simp [spanDigits, show digit? '.' = none by decide]
    have hspan := spanDigits_digitChars hint ('.' :: digitChars (d :: ds))
    rw [hpoint] at hspan
    have hspan' := spanDigits_digitChars_nil hfrac
    simp only [parseNumber, plainChars, List.isEmpty_cons, Bool.false_eq_true, if_false, hspan,
      List.append_nil, hspan', hempty, Bool.false_and, parseExponent, zero_sub]
    rw [if_pos hrange]

/-- **Plain text is read as the number it shows.** -/
theorem ofText_plain {int frac : List Nat} (hne : int ≠ []) (hint : ∀ d ∈ int, d < 10)
    (hfrac : ∀ d ∈ frac, d < 10)
    (hrange : exponentInRange (ofDigits (int ++ frac)) (-frac.length) = true) :
    ofText (String.ofList (plainChars int frac)) =
      some (finite false (ofDigits (int ++ frac)) (-frac.length)) := by
  have hord : ∀ c ∈ plainChars int frac, isSpace c = false ∧ (c != '_') = true := by
    intro c hc
    rcases mem_plainChars hint hfrac hc with rfl | ⟨d, hd, rfl⟩
    · decide
    · have hd := digitChar_ordinary hd
      exact ⟨hd.1, by simpa using hd.2.1⟩
  obtain ⟨d, ds, rfl⟩ := List.exists_cons_of_ne_nil hne
  obtain ⟨-, -, hminus, hplus, hi, hn, hs, -, -⟩ :=
    digitChar_ordinary (hint d List.mem_cons_self)
  have hhead : plainChars (d :: ds) frac = digitChar d :: plainChars ds frac := rfl
  have hunsigned : parseUnsigned false (plainChars (d :: ds) frac) =
      parseNumber false (plainChars (d :: ds) frac) := by
    simp [parseUnsigned, hhead, hi, hn, hs]
  rw [ofText, String.toList_ofList, strip_of_no_space fun c hc => (hord c hc).1,
    List.filter_eq_self.mpr fun c hc => (hord c hc).2]
  rw [← parseNumber_plainChars hne hint hfrac hrange, ← hunsigned]
  split
  · rename_i heq
    rw [hhead] at heq
    exact absurd (List.cons.inj heq).1 hminus
  · rename_i heq
    rw [hhead] at heq
    exact absurd (List.cons.inj heq).1 hplus
  · rfl

/-! ## Writing plain text -/

theorem ofDigits_zeros_append (k : Nat) (ds : List Nat) :
    ofDigits (List.replicate k 0 ++ ds) = ofDigits ds := by
  rw [ofDigits, ofDigits, List.reverse_append, List.reverse_replicate, Nat.ofDigits_append,
    Nat.ofDigits_replicate_zero, Nat.mul_zero, Nat.add_zero]

theorem ofDigits_append_zeros (k : Nat) (ds : List Nat) :
    ofDigits (ds ++ List.replicate k 0) = ofDigits ds * 10 ^ k := by
  rw [ofDigits, ofDigits, List.reverse_append, List.reverse_replicate, Nat.ofDigits_append,
    Nat.ofDigits_replicate_zero, List.length_replicate, Nat.zero_add, Nat.mul_comm]

theorem digitChars_zeros (k : Nat) : digitChars (List.replicate k 0) = List.replicate k '0' := by
  rw [digitChars, List.map_replicate]
  rfl

/-- What `format(_, "f")` writes: the digits of the coefficient, with zeros or a point. The
last digit after a point is the last digit of the coefficient; a zero stands in front only
when no other digit stands before the point. -/
theorem formatFixed_plain {c : Nat} {e : Int} (hc : c ≠ 0) :
    ∃ int frac, int ≠ [] ∧ (∀ d ∈ int, d < 10) ∧ (∀ d ∈ frac, d < 10) ∧
      (finite false c e).formatFixed = String.ofList (plainChars int frac) ∧
      frac.length = (-e).toNat ∧ ofDigits (int ++ frac) = c * 10 ^ e.toNat ∧
      (frac ≠ [] → frac.getLast? = some (c % 10)) ∧ (int = [0] ∨ int.head? ≠ some 0) := by
  have hds : natDigits c = digitChars (digitsOf c) := natDigits_eq hc
  have hlen : (natDigits c).length = (digitsOf c).length := by
    rw [hds, digitChars, List.length_map]
  have hlt : ∀ d ∈ digitsOf c, d < 10 := fun d hd => digitsOf_lt hd
  have hzero : ∀ {k : Nat}, ∀ d ∈ List.replicate k 0, d < 10 := fun d hd => by
    rw [List.eq_of_mem_replicate hd]
    norm_num
  simp only [formatFixed, hc, decide_false, Bool.false_and, Bool.false_eq_true, if_false, hlen,
    signText]
  generalize hn : (digitsOf c).length = n at hlen ⊢
  by_cases hneg : e + (n : Int) < 0
  · -- the point stands before the first digit
    refine ⟨[0], List.replicate (-(e + n)).toNat 0 ++ digitsOf c, by simp, by simp, ?_, ?_, ?_, ?_,
      ?_, Or.inl rfl⟩
    · intro d hd
      exact (List.mem_append.mp hd).elim (hzero d) (hlt d)
    · have hne : (List.replicate (-(e + n)).toNat 0 ++ digitsOf c).isEmpty = false := by
        simp [digitsOf_ne_nil hc]
      have hchars : List.replicate (-(e + n)).toNat '0' ++ digitChars (digitsOf c) =
          digitChars (List.replicate (-(e + n)).toNat 0 ++ digitsOf c) := by
        rw [← digitChars_zeros]
        exact List.map_append.symm
      have hne' : (digitChars (List.replicate (-(e + n)).toNat 0 ++ digitsOf c)).isEmpty =
          false := by rw [digitChars, List.isEmpty_map, hne]
      simp only [hneg, if_true, plainChars, hne, Bool.false_eq_true, if_false, hds, hchars, hne']
      rfl
    · rw [List.length_append, List.length_replicate, hn]
      omega
    · rw [List.singleton_append, ← List.cons_append, ← List.replicate_succ,
        ofDigits_zeros_append, ofDigits_digitsOf, show e.toNat = 0 by omega, pow_zero, Nat.mul_one]
    · intro _
      rw [List.getLast?_append_of_ne_nil _ (digitsOf_ne_nil hc), getLast?_digitsOf hc]
  · by_cases hbig : (n : Int) < e + n
    · -- zeros follow the last digit
      refine ⟨digitsOf c ++ List.replicate (e + n - n).toNat 0, [], by simp [digitsOf_ne_nil hc],
        ?_, by simp, ?_, ?_, ?_, by simp, Or.inr ?_⟩
      · intro d hd
        exact (List.mem_append.mp hd).elim (hlt d) (hzero d)
      · simp only [hneg, hbig, if_true, if_false, plainChars]
        simp [hds, digitChars, digitChar]
      · simp only [List.length_nil]
        omega
      · rw [List.append_nil, ofDigits_append_zeros, ofDigits_digitsOf]
        congr 2
        omega
      · rw [List.head?_append_of_ne_nil _ (digitsOf_ne_nil hc)]
        exact head?_digitsOf hc
    · -- the point stands among the digits
      have hsplit : (digitsOf c).take (e + n).toNat ++ (digitsOf c).drop (e + n).toNat =
          digitsOf c := List.take_append_drop _ _
      have hfrac : ((digitsOf c).drop (e + n).toNat).length = (-e).toNat := by
        rw [List.length_drop, hn]
        omega
      have hexp : c * 10 ^ e.toNat = c := by
        rw [show e.toNat = 0 by omega, pow_zero, Nat.mul_one]
      have hlast : (digitsOf c).drop (e + n).toNat ≠ [] →
          ((digitsOf c).drop (e + n).toNat).getLast? = some (c % 10) := by
        intro hne
        rw [← getLast?_digitsOf hc]
        conv_rhs => rw [← hsplit]
        rw [List.getLast?_append_of_ne_nil _ hne]
      by_cases hleft : (digitsOf c).take (e + n).toNat = []
      · refine ⟨[0], (digitsOf c).drop (e + n).toNat, by simp, by simp,
          fun d hd => hlt d (List.mem_of_mem_drop hd), ?_, hfrac, ?_, hlast, Or.inl rfl⟩
        · simp only [hneg, hbig, if_false, plainChars, hds, digitChars, ← List.map_take, hleft,
            List.map_nil, List.isEmpty_nil, if_true, ← List.map_drop, List.isEmpty_map]
          rfl
        · rw [hexp]
          have h0 := ofDigits_zeros_append 1 ((digitsOf c).drop (e + n).toNat)
          rw [hleft, List.nil_append] at hsplit
          rw [show [0] = List.replicate 1 0 from rfl, h0, hsplit, ofDigits_digitsOf]
      · refine ⟨(digitsOf c).take (e + n).toNat, (digitsOf c).drop (e + n).toNat, hleft,
          fun d hd => hlt d (List.mem_of_mem_take hd), fun d hd => hlt d (List.mem_of_mem_drop hd),
          ?_, hfrac, ?_, hlast, Or.inr ?_⟩
        · have hleft' : (digitChars ((digitsOf c).take (e + n).toNat)).isEmpty = false := by
            simpa [digitChars] using hleft
          simp only [hneg, hbig, if_false, plainChars, hds]
          rw [show (digitChars (digitsOf c)).take (e + n).toNat =
              digitChars ((digitsOf c).take (e + n).toNat) from (List.map_take ..).symm,
            show (digitChars (digitsOf c)).drop (e + n).toNat =
              digitChars ((digitsOf c).drop (e + n).toNat) from (List.map_drop ..).symm, hleft']
          simp [digitChars]
        · rw [hsplit, ofDigits_digitsOf, hexp]
        · have hhead : ((digitsOf c).take (e + n).toNat ++ (digitsOf c).drop (e + n).toNat).head? =
              ((digitsOf c).take (e + n).toNat).head? := List.head?_append_of_ne_nil _ hleft
          rw [hsplit] at hhead
          rw [← hhead]
          exact head?_digitsOf hc

/-! ## Normalising -/

/-- Trailing zeros move into the exponent. -/
theorem stripZeros_spec {fuel c : Nat} (e : Int) (hc : c ≠ 0) (h : c < 10 ^ fuel) :
    ∃ k : Nat, c = (stripZeros fuel c e).1 * 10 ^ k ∧ (stripZeros fuel c e).2 = e + k ∧
      (stripZeros fuel c e).1 % 10 ≠ 0 := by
  induction fuel generalizing c e with
  | zero =>
    rw [pow_zero] at h
    exact absurd (Nat.lt_one_iff.mp h) hc
  | succ fuel ih =>
    simp only [stripZeros]
    by_cases hmod : c % 10 = 0
    · rw [if_pos hmod]
      have hdiv : c / 10 ≠ 0 := by omega
      obtain ⟨k, hk, he, hlast⟩ := ih (e + 1) hdiv (by rw [pow_succ] at h; omega)
      refine ⟨k + 1, ?_, ?_, hlast⟩
      · calc c = c / 10 * 10 := by omega
          _ = (stripZeros fuel (c / 10) (e + 1)).1 * 10 ^ k * 10 := by rw [← hk]
          _ = _ := by rw [Nat.mul_assoc, ← pow_succ]
      · rw [he]
        push_cast
        ring
    · rw [if_neg hmod]
      exact ⟨0, by simp, by simp, hmod⟩

theorem fix_of_short {c : Nat} (e : Int) (h : (natDigits c).length ≤ precision) :
    fix c e = (c, e) := by
  simp only [fix]
  rw [if_pos (Nat.sub_eq_zero_of_le h)]

theorem fix_zero (e : Int) : fix 0 e = (0, e) := fix_of_short e (by simp [natDigits, precision])

theorem exp_of_eq_mul_pow {s t k : Nat} (h : s = t * 10 ^ k) (hs : s % 10 ≠ 0) : k = 0 := by
  cases k with
  | zero => rfl
  | succ k =>
    rw [pow_succ, ← Nat.mul_assoc] at h
    omega

/-- A number is a coefficient that ends in no zero and an exponent in one way only. -/
theorem lowest_unique {s t : Nat} {e f : Int} (h : (s : ℚ) * 10 ^ e = t * 10 ^ f)
    (hs : s % 10 ≠ 0) (ht : t % 10 ≠ 0) : s = t ∧ e = f := by
  wlog hle : e ≤ f generalizing s t e f
  · obtain ⟨hst, hef⟩ := this h.symm ht hs (le_of_not_ge hle)
    exact ⟨hst.symm, hef.symm⟩
  obtain ⟨k, hk⟩ := Int.eq_ofNat_of_zero_le (sub_nonneg.mpr hle)
  have hf : f = k + e := by omega
  have hmul : (s : ℚ) = t * 10 ^ k := by
    rw [hf, zpow_add₀ (by norm_num), zpow_natCast, ← mul_assoc] at h
    exact mul_right_cancel₀ (zpow_ne_zero e (by norm_num)) h
  have hnat : s = t * 10 ^ k := by exact_mod_cast hmul
  have hzero := exp_of_eq_mul_pow hnat hs
  subst hzero
  rw [pow_zero, Nat.mul_one] at hnat
  exact ⟨hnat, by omega⟩

/-- Rounding to the precision only takes zeros off, as long as the other digits fit. -/
theorem fix_padded {s m : Nat} (e : Int) (hs : s ≠ 0) (hlt : s < 10 ^ precision) :
    ∃ j ≤ m, fix (s * 10 ^ m) e = (s * 10 ^ (m - j), e + j) := by
  have hc : s * 10 ^ m ≠ 0 := Nat.mul_ne_zero hs (pow_ne_zero _ (by norm_num))
  have hbound : s * 10 ^ m < 10 ^ (precision + m) := by
    rw [pow_add]
    exact Nat.mul_lt_mul_of_pos_right hlt (by positivity)
  have hlen : (natDigits (s * 10 ^ m)).length ≤ precision + m :=
    length_natDigits_le (by rw [precision]; omega) hbound
  obtain ⟨j, hj⟩ : ∃ j, (natDigits (s * 10 ^ m)).length - precision = j := ⟨_, rfl⟩
  have hjm : j ≤ m := by omega
  refine ⟨j, hjm, ?_⟩
  have hsplit : s * 10 ^ m = s * 10 ^ (m - j) * 10 ^ j := by
    rw [Nat.mul_assoc, ← pow_add, Nat.sub_add_cancel hjm]
  have hdiv : s * 10 ^ m / 10 ^ j = s * 10 ^ (m - j) := by
    rw [hsplit, Nat.mul_div_cancel _ (by positivity)]
  have hmod : s * 10 ^ m % 10 ^ j = 0 := by rw [hsplit, Nat.mul_mod_left]
  simp only [fix, hj]
  by_cases hzero : j = 0
  · subst hzero
    simp
  have hpow : 10 ^ j ≠ 0 := pow_ne_zero _ (by norm_num)
  have hround : (decide (10 ^ j < 2 * 0) || (2 * 0 == 10 ^ j && s * 10 ^ (m - j) % 2 == 1)) =
      false := by
    rw [Nat.mul_zero, Bool.or_eq_false_iff]
    exact ⟨by simp, by rw [beq_eq_false_iff_ne.mpr (Ne.symm hpow), Bool.false_and]⟩
  have hshort : s * 10 ^ (m - j) ≠ 10 ^ precision := by
    -- the coefficient had no more than `precision + j` digits
    have hdigits : (natDigits (s * 10 ^ m)).length = precision + j := by omega
    have hfuel := lt_pow_length_natDigits hc
    rw [hdigits, hsplit, pow_add] at hfuel
    exact (Nat.lt_of_mul_lt_mul_right hfuel).ne
  rw [if_neg hzero, hdiv, hmod, hround, if_neg Bool.false_ne_true, if_neg hshort]

/-- **Normalising brings a number into lowest terms**, however many zeros its coefficient
ends in. -/
theorem normalize_padded {s m : Nat} (neg : Bool) (e : Int) (hs : s % 10 ≠ 0)
    (hlt : s < 10 ^ precision) :
    (finite neg (s * 10 ^ m) e).normalize = finite neg s (e + m) := by
  have hne : s ≠ 0 := by
    rintro rfl
    exact hs rfl
  obtain ⟨j, hj, hfix⟩ := fix_padded (m := m) e hne hlt
  have hc : s * 10 ^ (m - j) ≠ 0 := Nat.mul_ne_zero hne (pow_ne_zero _ (by norm_num))
  obtain ⟨k, hk, he, hlast⟩ := stripZeros_spec (e + j) hc (lt_pow_length_natDigits hc)
  have hsame : (s : ℚ) * 10 ^ ((m - j : Nat) : Int) =
      (stripZeros (natDigits (s * 10 ^ (m - j))).length (s * 10 ^ (m - j)) (e + j)).1 *
        10 ^ (k : Int) := by
    rw [zpow_natCast, zpow_natCast]
    exact_mod_cast hk
  obtain ⟨hcoeff, hexp⟩ := lowest_unique hsame hs hlast
  simp only [normalize, hfix, if_neg hc, ← hcoeff, he, ← hexp]
  congr 1
  omega

theorem exists_lowest {c : Nat} (hc : c ≠ 0) : ∃ s m, c = s * 10 ^ m ∧ s % 10 ≠ 0 := by
  induction c using Nat.strong_induction_on with
  | _ c ih =>
    by_cases hmod : c % 10 = 0
    · obtain ⟨s, m, hsm, hs⟩ := ih (c / 10) (by omega) (by omega)
      refine ⟨s, m + 1, ?_, hs⟩
      rw [pow_succ, ← Nat.mul_assoc, ← hsm]
      omega
    · exact ⟨c, 0, (Nat.mul_one c).symm, hmod⟩

/-- A coefficient within the precision is only stripped of its zeros. -/
theorem normalize_short {c : Nat} (e : Int) (hc : c ≠ 0) (h : c < 10 ^ precision) :
    ∃ (c' k : Nat), (finite false c e).normalize = finite false c' (e + k) ∧ c = c' * 10 ^ k ∧
      c' % 10 ≠ 0 := by
  obtain ⟨s, m, rfl, hs⟩ := exists_lowest hc
  have hlt : s < 10 ^ precision := lt_of_le_of_lt (Nat.le_mul_of_pos_right s (by positivity)) h
  exact ⟨s, m, normalize_padded false e hs hlt, rfl, hs⟩

theorem normalize_zero (neg : Bool) (e : Int) :
    (finite neg 0 e).normalize = finite neg 0 0 := by
  simp [normalize, fix_zero]

/-! ## Equality -/

theorem value_of_beq {d d' : Decimal} (h : (d == d') = true) : d.value = d'.value := by
  cases d <;> cases d'
  case finite.finite => exact eq_of_beq h
  case infinite.infinite => rfl
  all_goals cases h

theorem beq_of_value {d d' : Decimal} (hf : d.isFinite = true) (hf' : d'.isFinite = true)
    (h : d.value = d'.value) : (d == d') = true := by
  cases d with
  | infinite _ | nan _ => cases hf
  | finite neg c e =>
    cases d' with
    | infinite _ | nan _ => cases hf'
    | finite neg' c' e' =>
      change ((finite neg c e).value == (finite neg' c' e').value) = true
      rw [h, beq_self_eq_true]

/-! ## Storing -/

theorem toUnits_natCast (n : Nat) : toUnits ((n : ℚ) / 10 ^ scale) = n := by
  have hx : (n : ℚ) / 10 ^ scale * 10 ^ scale = n := by
    rw [div_mul_cancel₀]
    positivity
  have hnot : ¬ (n : ℚ) < 0 := not_lt.mpr (Nat.cast_nonneg n)
  simp only [toUnits, hx, if_neg hnot]
  rw [Int.floor_eq_iff]
  constructor
  · push_cast
    linarith
  · push_cast
    linarith

theorem toUnits_neg {q : ℚ} (h : 0 < q) : toUnits (-q) = -toUnits q := by
  have hpos : 0 < q * 10 ^ scale := mul_pos h (by positivity)
  have hneg : -(q * 10 ^ scale) < 0 := neg_lt_zero.mpr hpos
  simp only [toUnits, neg_mul, neg_neg, if_pos hneg, if_neg hpos.not_gt]

theorem value_ofUnits (u : Int) : (ofUnits u).value = u / 10 ^ scale := by
  have hpow : (10 : ℚ) ^ (-(scale : Int)) = (10 ^ scale)⁻¹ := by
    rw [zpow_neg, zpow_natCast]
  simp only [ofUnits, value, hpow, div_eq_mul_inv, decide_eq_true_eq]
  congr 1
  split
  · rename_i h
    have habs : ((u.natAbs : Int) : ℚ) = ((-u : Int) : ℚ) := by rw [Int.ofNat_natAbs_of_nonpos h.le]
    rw [Int.cast_natCast] at habs
    rw [habs]
    push_cast
    ring
  · rename_i h
    have habs : ((u.natAbs : Int) : ℚ) = (u : ℚ) := by rw [Int.natAbs_of_nonneg (not_lt.mp h)]
    rw [Int.cast_natCast] at habs
    rw [habs, one_mul]

theorem toUnits_ofUnits (u : Int) : toUnits (ofUnits u).value = u := by
  rw [value_ofUnits]
  rcases lt_or_ge u 0 with h | h
  · obtain ⟨n, hn⟩ := Int.eq_ofNat_of_zero_le (show 0 ≤ -u by omega)
    have hu : u = -(n : Int) := by omega
    have hpos : (0 : ℚ) < (n : ℚ) / 10 ^ scale :=
      div_pos (Nat.cast_pos.mpr (by omega)) (by positivity)
    rw [hu, Int.cast_neg, Int.cast_natCast, neg_div, toUnits_neg hpos, toUnits_natCast]
  · obtain ⟨n, rfl⟩ := Int.eq_ofNat_of_zero_le h
    exact toUnits_natCast n

/-- Storing what was stored changes nothing. -/
theorem store_store (d : Decimal) : d.store.store = d.store := by
  cases d with
  | finite neg c e => exact congrArg ofUnits (toUnits_ofUnits _)
  | infinite neg => rfl
  | nan signaling => rfl

/-- Equal amounts are stored alike. -/
theorem store_congr {d d' : Decimal} (h : (d == d') = true) : d.store = d'.store := by
  cases d with
  | finite neg c e =>
    cases d' with
    | finite neg' c' e' =>
      have hvalue : (finite neg c e).value = (finite neg' c' e').value := eq_of_beq h
      simp only [store, hvalue]
    | infinite | nan => cases h
  | infinite neg =>
    cases d' with
    | infinite neg' => rw [show neg = neg' from eq_of_beq h]
    | finite | nan => cases h
  | nan => cases d' <;> cases h

/-- A positive amount with no more places than the column is stored exactly. -/
theorem store_exact {d : Decimal} (hf : d.isFinite = true) (hpos : 0 < d.value)
    (hplaces : -d.exponent ≤ scale) :
    ∃ u : Nat, u ≠ 0 ∧ d.store = finite false u (-scale) ∧ d.value = u / 10 ^ scale := by
  cases d with
  | infinite _ | nan _ => cases hf
  | finite neg c e =>
    simp only [exponent] at hplaces
    have hneg : neg = false := by
      by_contra hne
      rw [Bool.not_eq_false] at hne
      subst hne
      have : (finite true c e).value ≤ 0 := by
        simp only [value, if_true]
        have : (0 : ℚ) ≤ c * (10 : ℚ) ^ e :=
          mul_nonneg (Nat.cast_nonneg c) (zpow_nonneg (by norm_num) e)
        linarith
      linarith
    subst hneg
    have hc : c ≠ 0 := by
      rintro rfl
      simp [value] at hpos
    have hval : (finite false c e).value = (c * 10 ^ (e + scale).toNat : Nat) / 10 ^ scale := by
      have hz : ((e + scale).toNat : Int) = e + scale := by omega
      have hpow : (10 : ℚ) ^ (e + scale).toNat = 10 ^ e * 10 ^ scale := by
        rw [← zpow_natCast, hz, zpow_add₀ (by norm_num), zpow_natCast]
      simp only [value, Bool.false_eq_true, if_false, one_mul]
      push_cast
      rw [hpow, ← mul_assoc, mul_div_cancel_right₀]
      positivity
    refine ⟨c * 10 ^ (e + scale).toNat, Nat.mul_ne_zero hc (pow_ne_zero _ (by norm_num)), ?_, hval⟩
    simp only [store, hval, toUnits_natCast, ofUnits, Int.natAbs_natCast]
    rw [decide_eq_false (by omega)]

/-! ## Texts that name no number -/

/-- What `Decimal(text)` reads behind the sign. -/
def unsignedText (s : String) : List Char :=
  match (strip s.toList).filter (· != '_') with
  | '-' :: cs => cs
  | '+' :: cs => cs
  | cs => cs

/-- The text names an infinity or a NaN. -/
def namesNonFinite (s : String) : Bool :=
  let cs := unsignedText s
  let lower := cs.map Char.toLower
  lower = "inf".toList || lower = "infinity".toList ||
    (lower.take 3 = "nan".toList && (spanDigits (cs.drop 3)).2.isEmpty) ||
    (lower.take 4 = "snan".toList && (spanDigits (cs.drop 4)).2.isEmpty)

theorem ofText_eq (s : String) : ∃ neg, ofText s = parseUnsigned neg (unsignedText s) := by
  rw [ofText, unsignedText]
  rcases (strip s.toList).filter (· != '_') with _ | ⟨c, cs⟩
  · exact ⟨false, rfl⟩
  by_cases hminus : c = '-'
  · subst hminus
    exact ⟨true, rfl⟩
  by_cases hplus : c = '+'
  · subst hplus
    exact ⟨false, rfl⟩
  · exact ⟨false, by simp [hminus, hplus]⟩

theorem isFinite_parseNumber {neg : Bool} {cs : List Char} {d : Decimal}
    (h : parseNumber neg cs = some d) : d.isFinite = true := by
  simp only [parseNumber] at h
  split at h <;> split at h
  · cases h
  · split at h
    · cases h
    · split at h
      · cases h
        rfl
      · cases h
  · cases h
  · split at h
    · cases h
    · split at h
      · cases h
        rfl
      · cases h

/-- A text converts to something that is not finite exactly when it names it. -/
theorem ofText_nonFinite (s : String) :
    (ofText s).any (fun d => !d.isFinite) = namesNonFinite s := by
  obtain ⟨neg, hneg⟩ := ofText_eq s
  rw [hneg]
  simp only [namesNonFinite, parseUnsigned]
  generalize unsignedText s = cs
  by_cases hinf : (decide (cs.map Char.toLower = "inf".toList) ||
      decide (cs.map Char.toLower = "infinity".toList)) = true
  · rw [if_pos hinf, hinf]
    rfl
  rw [if_neg hinf, Bool.not_eq_true _ |>.mp hinf, Bool.false_or]
  by_cases hnan : (cs.map Char.toLower).take 3 = "nan".toList
  · have hsnan : (cs.map Char.toLower).take 4 ≠ "snan".toList := by
      intro hs
      have htake := congrArg (List.take 3) hs
      rw [List.take_take, show min 3 4 = 3 from rfl, hnan] at htake
      exact absurd htake (by decide)
    rw [if_pos hnan, decide_eq_true hnan, decide_eq_false hsnan]
    by_cases he : (spanDigits (cs.drop 3)).2.isEmpty = true
    · rw [if_pos he, he]
      rfl
    · rw [if_neg he, Bool.not_eq_true _ |>.mp he]
      rfl
  rw [if_neg hnan, decide_eq_false hnan, Bool.false_and, Bool.false_or]
  by_cases hsnan : (cs.map Char.toLower).take 4 = "snan".toList
  · rw [if_pos hsnan, decide_eq_true hsnan]
    by_cases he : (spanDigits (cs.drop 4)).2.isEmpty = true
    · rw [if_pos he, he]
      rfl
    · rw [if_neg he, Bool.not_eq_true _ |>.mp he]
      rfl
  rw [if_neg hsnan, decide_eq_false hsnan, Bool.false_and]
  cases hd : parseNumber neg cs with
  | none => rfl
  | some d => simp [isFinite_parseNumber hd]

end Decimal

end Python
