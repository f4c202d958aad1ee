import AutoTrader.Python.Text

/-!
# `str.lower`

Lowering goes character by character through tables of the Unicode character database, but for
the capital sigma, which becomes the final small sigma at the end of a word. The tables are a
parameter, with the facts about them that the results below rest on.

A lowered text is left alone by lowering (`lower_lower`) and by stripping if it was stripped
before (`strip_lower`); lowering gives an ASCII text exactly on the ASCII spellings of it
(`lower_eq_iff`).
-/

namespace Python

/-- The sign for the unit, which looks like the letter. -/
def kelvinSign : Char := Char.ofNat 0x212A

/-- The tables behind `str.lower`. -/
structure CaseTables where
  /-- The full lower case of a character. -/
  lower : Char → List Char
  cased : Char → Bool
  caseIgnorable : Char → Bool
  ascii : ∀ c, c.toNat < 128 → lower c = [c.toLower]
  /-- Outside of ASCII only the Kelvin sign has a lower case in ASCII. -/
  notAscii : ∀ c, 128 ≤ c.toNat → c ≠ kelvinSign → ∃ d ∈ lower c, 128 ≤ d.toNat
  kelvin : lower kelvinSign = ['k']
  /-- What is lower case stays as it is. -/
  stable : ∀ c, c ≠ 'Σ' → ∀ d ∈ lower c, d ≠ 'Σ' ∧ lower d = [d]
  sigma : lower 'σ' = ['σ'] ∧ lower 'ς' = ['ς']
  nonempty : ∀ c, lower c ≠ []
  space : ∀ c, ∀ d ∈ lower c, isSpace d = isSpace c

variable (tables : CaseTables)

/-- The capital sigma behind `before`, which is reversed, and in front of `cs` ends a word. -/
def finalSigma (before cs : List Char) : Bool :=
  (before.dropWhile tables.caseIgnorable).head?.any tables.cased &&
    !(cs.dropWhile tables.caseIgnorable).head?.any tables.cased

def lowerChar (before : List Char) (c : Char) (cs : List Char) : List Char :=
  if c = 'Σ' then [if finalSigma tables before cs then 'ς' else 'σ'] else tables.lower c

def lowerFrom : List Char → List Char → List Char
  | _, [] => []
  | before, c :: cs => lowerChar tables before c cs ++ lowerFrom (c :: before) cs

/-- `str.lower()`. -/
def lower (cs : List Char) : List Char := lowerFrom tables [] cs

variable {tables}

/-! ## Lowering twice -/

theorem lowerFrom_stable {cs : List Char} (h : ∀ c ∈ cs, c ≠ 'Σ' ∧ tables.lower c = [c])
    (before : List Char) : lowerFrom tables before cs = cs := by
  induction cs generalizing before with
  | nil => rfl
  | cons c cs ih =>
    obtain ⟨hsigma, hlower⟩ := h c List.mem_cons_self
    rw [lowerFrom, lowerChar, if_neg hsigma, hlower,
      ih fun c' hc' => h c' (List.mem_cons_of_mem _ hc')]
    rfl

theorem stable_lowerChar {before cs : List Char} {c d : Char}
    (hd : d ∈ lowerChar tables before c cs) : d ≠ 'Σ' ∧ tables.lower d = [d] := by
  rw [lowerChar] at hd
  split at hd
  · rw [List.mem_singleton.mp hd]
    split
    · exact ⟨by decide, tables.sigma.2⟩
    · exact ⟨by decide, tables.sigma.1⟩
  · rename_i hsigma
    exact tables.stable c hsigma d hd

theorem stable_lowerFrom {before cs : List Char} {d : Char} (hd : d ∈ lowerFrom tables before cs) :
    d ≠ 'Σ' ∧ tables.lower d = [d] := by
  induction cs generalizing before with
  | nil => cases hd
  | cons c cs ih =>
    rcases List.mem_append.mp hd with hd | hd
    · exact stable_lowerChar hd
    · exact ih hd

theorem lower_lower (cs : List Char) : lower tables (lower tables cs) = lower tables cs :=
  lowerFrom_stable (fun _ hd => stable_lowerFrom hd) []

/-! ## Stripping -/

/-- No blank at either end. -/
structure Trimmed (cs : List Char) : Prop where
  head : ∀ c, cs.head? = some c → isSpace c = false
  last : ∀ c, cs.getLast? = some c → isSpace c = false

theorem Trimmed.strip_eq {cs : List Char} (h : Trimmed cs) : strip cs = cs := by
  rw [strip, lstrip, lstrip, dropWhile_eq_self h.head, dropWhile_eq_self, List.reverse_reverse]
  intro c hc
  rw [List.head?_reverse] at hc
  exact h.last c hc

theorem trimmed_strip (cs : List Char) : Trimmed (strip cs) := by
  constructor
  · intro c hc
    -- what is left is a beginning of the text without its leading blanks
    have hprefix : strip cs <+: lstrip cs := by
      have hsuffix : (lstrip cs).reverse.dropWhile isSpace <:+ (lstrip cs).reverse :=
        List.dropWhile_suffix isSpace
      rw [strip, lstrip, ← List.reverse_suffix, List.reverse_reverse]
      exact hsuffix
    obtain ⟨rest, hrest⟩ := hprefix
    have hhead : (cs.dropWhile isSpace).head? = some c := by
      change (lstrip cs).head? = some c
      rw [← hrest, List.head?_append, hc]
      rfl
    exact head_dropWhile hhead
  · intro c hc
    rw [strip, List.getLast?_reverse] at hc
    exact head_dropWhile hc

variable (tables) in
theorem isSpace_lowerChar {before cs : List Char} {c d : Char}
    (hd : d ∈ lowerChar tables before c cs) (hc : isSpace c = false) : isSpace d = false := by
  rw [lowerChar] at hd
  split at hd
  · rw [List.mem_singleton.mp hd]
    split <;> decide
  · rw [tables.space c d hd, hc]

variable (tables) in
theorem lowerChar_ne_nil (before : List Char) (c : Char) (cs : List Char) :
    lowerChar tables before c cs ≠ [] := by
  rw [lowerChar]
  split
  · simp
  · exact tables.nonempty c

theorem last_lowerFrom {cs : List Char} (h : ∀ c, cs.getLast? = some c → isSpace c = false)
    (before : List Char) (d : Char) (hd : (lowerFrom tables before cs).getLast? = some d) :
    isSpace d = false := by
  induction cs generalizing before with
  | nil => cases hd
  | cons c cs ih =>
    rw [lowerFrom] at hd
    cases cs with
    | nil =>
      rw [lowerFrom, List.append_nil] at hd
      exact isSpace_lowerChar tables (List.mem_of_getLast? hd) (h c rfl)
    | cons c' cs =>
      have hne : lowerFrom tables (c :: before) (c' :: cs) ≠ [] := by
        rw [lowerFrom]
        intro hnil
        exact lowerChar_ne_nil tables _ _ _ (List.append_eq_nil_iff.mp hnil).1
      rw [List.getLast?_append_of_ne_nil _ hne] at hd
      refine ih (fun a ha => h a ?_) _ hd
      rw [List.getLast?_cons_cons, ha]

theorem Trimmed.lower {cs : List Char} (h : Trimmed cs) : Trimmed (Python.lower tables cs) := by
  refine ⟨fun d hd => ?_, fun d hd => last_lowerFrom h.last [] d hd⟩
  cases cs with
  | nil => cases hd
  | cons c cs =>
    obtain ⟨a, as, has⟩ := List.exists_cons_of_ne_nil (lowerChar_ne_nil tables [] c cs)
    rw [Python.lower, lowerFrom, has, List.cons_append, List.head?_cons, Option.some_inj] at hd
    have hmem : d ∈ lowerChar tables [] c cs := by
      rw [has, hd]
      exact List.mem_cons_self
    exact isSpace_lowerChar tables hmem (h.head c rfl)

/-- Normalising a text in two ways: stripped and lowered, and once more. -/
theorem lower_strip_idem (cs : List Char) :
    lower tables (strip (lower tables (strip cs))) = lower tables (strip cs) := by
  rw [(trimmed_strip cs).lower.strip_eq, lower_lower]

/-! ## Spellings of an ASCII text -/

theorem toLower_of_not_ascii {c : Char} (h : 128 ≤ c.toNat) : c.toLower = c := by
  refine dif_neg ?_
  intro hupper
  have hle := UInt32.le_iff_toNat_le.mp hupper.2
  have hval : c.val.toNat = c.toNat := rfl
  rw [hval] at hle
  have hz : 'Z'.val.toNat = 90 := rfl
  omega

variable (tables) in
/-- The lower case of a character outside of ASCII shows. -/
theorem exists_lowerChar {c : Char} (h : 128 ≤ c.toNat) (before cs : List Char) :
    ∃ d ∈ lowerChar tables before c cs, 128 ≤ d.toNat ∨ d = 'k' := by
  rw [lowerChar]
  split
  · exact ⟨_, List.mem_singleton.mpr rfl, Or.inl (by split <;> decide)⟩
  · by_cases hkelvin : c = kelvinSign
    · rw [hkelvin, tables.kelvin]
      exact ⟨'k', List.mem_singleton.mpr rfl, Or.inr rfl⟩
    · obtain ⟨d, hd, hascii⟩ := tables.notAscii c h hkelvin
      exact ⟨d, hd, Or.inl hascii⟩

/-- A text in ASCII without a `k` is the lower case of its ASCII spellings only. -/
theorem lower_eq_iff {w : List Char} (hw : ∀ d ∈ w, d.toNat < 128 ∧ d ≠ 'k') (cs : List Char) :
    lower tables cs = w ↔ cs.map Char.toLower = w := by
  suffices hfrom : ∀ before, lowerFrom tables before cs = w ↔ cs.map Char.toLower = w from hfrom []
  intro before
  induction cs generalizing w before with
  | nil => rfl
  | cons c cs ih =>
    by_cases hascii : c.toNat < 128
    · have hsigma : c ≠ 'Σ' := by
        rintro rfl
        exact absurd hascii (by decide)
      rw [lowerFrom, lowerChar, if_neg hsigma, tables.ascii c hascii, List.singleton_append,
        List.map_cons]
      cases w with
      | nil => simp
      | cons d w =>
        rw [List.cons.injEq, List.cons.injEq, ih fun d' hd' => hw d' (List.mem_cons_of_mem d hd')]
    · have hc : 128 ≤ c.toNat := Nat.le_of_not_lt hascii
      constructor
      · intro h
        obtain ⟨d, hd, hshow⟩ := exists_lowerChar tables hc before cs
        have hmem : d ∈ w := h ▸ List.mem_append_left _ hd
        rcases hshow with hshow | hshow
        · exact absurd (hw d hmem).1 (Nat.not_lt.mpr hshow)
        · exact absurd hshow (hw d hmem).2
      · intro h
        have hmem : c ∈ w := by
          rw [← h, List.map_cons, toLower_of_not_ascii hc]
          exact List.mem_cons_self
        exact absurd (hw c hmem).1 hascii

/-! ## Tables for text in ASCII -/

theorem toLower_ascii {c : Char} (h : c.toNat < 128) : c.toLower ≠ 'Σ' ∧ c.toLower ≠ kelvinSign ∧
    c.toLower.toLower = c.toLower ∧ isSpace c.toLower = isSpace c := by
  have hall : ∀ n < 128, (Char.ofNat n).toLower ≠ 'Σ' ∧ (Char.ofNat n).toLower ≠ kelvinSign ∧
      (Char.ofNat n).toLower.toLower = (Char.ofNat n).toLower ∧
      isSpace (Char.ofNat n).toLower = isSpace (Char.ofNat n) := by decide +kernel
  have hc := hall c.toNat h
  rwa [Char.ofNat_toNat] at hc

/-- Lowering in ASCII, and of the Kelvin sign; everything else is left alone. -/
def asciiLower (c : Char) : List Char := if c = kelvinSign then ['k'] else [c.toLower]

theorem asciiLower_stable {c d : Char} (hsigma : c ≠ 'Σ') (hd : d ∈ asciiLower c) :
    d ≠ 'Σ' ∧ asciiLower d = [d] := by
  rw [asciiLower] at hd
  split at hd
  · rw [List.mem_singleton.mp hd]
    exact ⟨by decide, by decide⟩
  · rename_i hkelvin
    rw [List.mem_singleton.mp hd]
    by_cases hascii : c.toNat < 128
    · obtain ⟨hs, hk, hlower, -⟩ := toLower_ascii hascii
      exact ⟨hs, by rw [asciiLower, if_neg hk, hlower]⟩
    · have hlower := toLower_of_not_ascii (Nat.le_of_not_lt hascii)
      rw [hlower]
      exact ⟨hsigma, by rw [asciiLower, if_neg hkelvin, hlower]⟩

theorem isSpace_asciiLower {c d : Char} (hd : d ∈ asciiLower c) : isSpace d = isSpace c := by
  rw [asciiLower] at hd
  split at hd
  · rename_i hkelvin
    rw [List.mem_singleton.mp hd, hkelvin]
    decide
  · rw [List.mem_singleton.mp hd]
    by_cases hascii : c.toNat < 128
    · exact (toLower_ascii hascii).2.2.2
    · rw [toLower_of_not_ascii (Nat.le_of_not_lt hascii)]

def asciiTables : CaseTables where
  lower := asciiLower
  cased := Char.isAlpha
  caseIgnorable c := [0x27, 0x2E, 0x3A, 0x5E, 0x60].contains c.toNat
  ascii c h := by
    rw [asciiLower, if_neg]
    rintro rfl
    exact absurd h (by decide)
  notAscii c h hkelvin := by
    refine ⟨c, ?_, h⟩
    rw [asciiLower, if_neg hkelvin, toLower_of_not_ascii h]
    exact List.mem_singleton.mpr rfl
  kelvin := if_pos rfl
  stable _ hsigma _ hd := asciiLower_stable hsigma hd
  sigma := ⟨by decide, by decide⟩
  nonempty c := by
    rw [asciiLower]
    split <;> simp
  space _ _ hd := isSpace_asciiLower hd

end Python
