import AutoTrader.Python.DecimalText
import AutoTrader.Python.Json

/-!
# The text of an integer

`int(str(n)) == n`, up to the number of digits that `int` accepts.
-/

namespace Python

theorem intDigits_digitChars {ds : List Nat} (hne : ds ≠ []) (h : ∀ d ∈ ds, d < 10) :
    intDigits (digitChars ds) = some ds := by
  induction ds with
  | nil => exact absurd rfl hne
  | cons d ds ih =>
    have hd : digit? (digitChar d) = some d := digit?_digitChar (h d List.mem_cons_self)
    cases ds with
    | nil =>
      change (digit? (digitChar d)).map (fun d => [d]) = _
      rw [hd]
      rfl
    | cons e ds =>
      have he := digitChar_ordinary (h e (List.mem_cons_of_mem _ List.mem_cons_self))
      have hrest := ih (by simp) fun d' hd' => h d' (List.mem_cons_of_mem _ hd')
      change intDigits (digitChar d :: digitChar e :: digitChars ds) = _
      -- no underscore stands between two digits
      rw [intDigits, hd]
      · change (intDigits (digitChars (e :: ds))).bind (fun ds => some (d :: ds)) = _
        rw [hrest]
        rfl
      · exact fun hnil => List.cons_ne_nil _ _ hnil
      · exact fun cs hcs => he.2.1 (List.cons.inj hcs).1

theorem exists_digits (n : Nat) :
    ∃ ds, natDigits n = digitChars ds ∧ ds ≠ [] ∧ (∀ d ∈ ds, d < 10) ∧ ofDigits ds = n := by
  by_cases hn : n = 0
  · exact ⟨[0], by rw [hn]; rfl, by simp, by simp, by rw [hn]; rfl⟩
  · exact ⟨digitsOf n, natDigits_eq hn, digitsOf_ne_nil hn, fun d hd => digitsOf_lt hd,
      ofDigits_digitsOf n⟩

/-- `int(str(n)) == n`. -/
theorem intOfText_intText {n : Nat} (h : (natDigits n).length ≤ maxIntDigits) :
    intOfText (Json.intText n) = some (n : Int) := by
  obtain ⟨ds, hds, hne, hlt, hn⟩ := exists_digits n
  have htext : (Json.intText n).toList = digitChars ds := by
    rw [Json.intText, if_neg (by omega), String.toList_ofList]
    exact hds
  have hlen : ds.length ≤ maxIntDigits := by
    rw [hds, digitChars, List.length_map] at h
    exact h
  have hspace : ∀ c ∈ digitChars ds, isSpace c = false := by
    intro c hc
    obtain ⟨d, hd, rfl⟩ := List.mem_map.mp hc
    exact (digitChar_ordinary (hlt d hd)).1
  cases ds with
  | nil => exact absurd rfl hne
  | cons d ds =>
    have hd := digitChar_ordinary (hlt d List.mem_cons_self)
    have hdigits := intDigits_digitChars hne hlt
    simp only [intOfText, htext, intStrip_of_no_space hspace]
    have hcons : digitChars (d :: ds) = digitChar d :: digitChars ds := rfl
    rw [hcons]
    split
    · rename_i hminus
      exact absurd (List.cons.inj hminus).1 hd.2.2.1
    · rename_i hplus
      exact absurd (List.cons.inj hplus).1 hd.2.2.2.1
    · rw [show digitChar d :: digitChars ds = digitChars (d :: ds) from rfl, hdigits]
      simp only [Option.bind_eq_bind, Option.bind_some, if_pos hlen, hn]
      rfl

end Python
