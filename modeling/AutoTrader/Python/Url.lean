import AutoTrader.Python.Text
import AutoTrader.Python.Utf8

/-!
# `urllib.parse`

`quote_plus`, `unquote_plus`, `urlencode` and `parse_qsl` in UTF-8, and `urlsplit` and
`urlunsplit`. What is encoded is parsed back (`parseQsl_urlencode`), and the text of a query is
made of characters that split no URL (`urlencode_graphic`).
-/

namespace Python

namespace Url

/-! ## Quoting -/

/-- The characters that are never quoted. -/
def isUnreserved (c : Char) : Bool :=
  c.isAlphanum || c == '_' || c == '.' || c == '-' || c == '~'

def hexDigit (n : Nat) : Char := Char.ofNat (if n < 10 then 48 + n else 55 + n)

def quoteOctet (b : Nat) : List Char :=
  if isUnreserved (Char.ofNat b) && decide (b < 128) then [Char.ofNat b]
  else ['%', hexDigit (b / 16), hexDigit (b % 16)]

def quotePlusChar (c : Char) : List Char :=
  if c = ' ' then ['+'] else (Utf8.encodeChar c).flatMap quoteOctet

/-- `quote_plus(text)`. -/
def quotePlus (cs : List Char) : List Char := cs.flatMap quotePlusChar

/-- The value of a hexadecimal digit. -/
def hexValue? (c : Char) : Option Nat :=
  let n := c.toNat
  if 48 ≤ n ∧ n ≤ 57 then some (n - 48)
  else if 65 ≤ n ∧ n ≤ 70 then some (n - 55)
  else if 97 ≤ n ∧ n ≤ 102 then some (n - 87)
  else none

/-- `unquote_to_bytes` on ASCII text. -/
def unquoteOctets : List Char → List Nat
  | '%' :: a :: b :: cs =>
    match hexValue? a, hexValue? b with
    | some m, some n => (16 * m + n) :: unquoteOctets cs
    | _, _ => 37 :: unquoteOctets (a :: b :: cs)
  | c :: cs => c.toNat :: unquoteOctets cs
  | [] => []

/-- `unquote(text)`: each run of ASCII characters is unquoted and decoded; `run` is the run in
front of `cs`, reversed. -/
def unquoteFrom (run : List Char) : List Char → List Char
  | [] => Utf8.decode (unquoteOctets run.reverse)
  | c :: cs =>
    if c.toNat < 128 then unquoteFrom (c :: run) cs
    else Utf8.decode (unquoteOctets run.reverse) ++ c :: unquoteFrom [] cs

def plusToSpace (c : Char) : Char := if c = '+' then ' ' else c

/-- `unquote_plus(text)`. -/
def unquotePlus (cs : List Char) : List Char := unquoteFrom [] (cs.map plusToSpace)

/-! ## Queries -/

abbrev Param := List Char × List Char

def encodeParam (p : Param) : List Char := quotePlus p.1 ++ '=' :: quotePlus p.2

/-- `urlencode(params)`. -/
def urlencode (ps : List Param) : List Char := ['&'].intercalate (ps.map encodeParam)

/-- One field of a query; an empty one is skipped. -/
def parseField (cs : List Char) : Option Param :=
  if cs = [] then none
  else some (unquotePlus (cs.takeWhile (· != '=')), unquotePlus ((cs.dropWhile (· != '=')).drop 1))

/-- `parse_qsl(query, keep_blank_values=True)`. -/
def parseQsl (cs : List Char) : List Param := (cs.splitOn '&').filterMap parseField

/-! ## URLs -/

structure SplitResult where
  scheme : List Char
  netloc : List Char
  path : List Char
  query : List Char
  fragment : List Char
  deriving DecidableEq

def isSchemeChar (c : Char) : Bool := c.isAlphanum || c == '+' || c == '-' || c == '.'

/-- The scheme in front of the first colon, and what follows the colon. -/
def splitScheme (cs : List Char) : List Char × List Char :=
  let scheme := cs.takeWhile (· != ':')
  if cs.contains ':' && scheme.head?.any Char.isAlpha && scheme.all isSchemeChar then
    (scheme.map Char.toLower, cs.drop (scheme.length + 1))
  else ([], cs)

/-- The authority behind `//`, and what follows it. -/
def splitNetloc : List Char → List Char × List Char
  | '/' :: '/' :: cs =>
    (cs.takeWhile fun c => c != '/' && c != '?' && c != '#',
      cs.dropWhile fun c => c != '/' && c != '?' && c != '#')
  | cs => ([], cs)

/-- `cs.split(c, 1)` where `c` occurs, else `cs` and nothing. -/
def splitAtFirst (c : Char) (cs : List Char) : List Char × List Char :=
  (cs.takeWhile (· != c), (cs.dropWhile (· != c)).drop 1)

/-- What `urlsplit` removes before it looks at a URL. -/
def cleaned (cs : List Char) : List Char :=
  (cs.dropWhile fun c => decide (c.toNat ≤ 32)).filter fun c => c != '\t' && c != '\r' && c != '\n'

/-- `urlsplit` behind the scheme. The checks of the authority (brackets around an IP address,
characters that normalise to a delimiter) are a parameter; `none` stands for their `ValueError`. -/
def splitRest (accepts : List Char → Bool) (scheme rest : List Char) : Option SplitResult :=
  let (netloc, rest) := splitNetloc rest
  let (rest, fragment) := splitAtFirst '#' rest
  let (path, query) := splitAtFirst '?' rest
  if accepts netloc then some ⟨scheme, netloc, path, query, fragment⟩ else none

/-- `urlsplit(url)`. -/
def urlsplit (accepts : List Char → Bool) (url : List Char) : Option SplitResult :=
  let (scheme, rest) := splitScheme (cleaned url)
  splitRest accepts scheme rest

/-- The schemes that always have an authority. -/
def usesNetloc : List String :=
  ["", "ftp", "http", "gopher", "nntp", "telnet", "imap", "wais", "file", "mms", "https", "shttp",
    "snews", "prospero", "rtsp", "rtsps", "rtspu", "rsync", "svn", "svn+ssh", "sftp", "nfs", "git",
    "git+ssh", "ws", "wss", "itms-services"]

/-- `urlunsplit(parts)`. -/
def urlunsplit (parts : SplitResult) : List Char :=
  let { scheme, netloc, path, query, fragment } := parts
  let url :=
    if netloc ≠ [] then
      "//".toList ++ netloc ++ (if path ≠ [] && path.head? != some '/' then '/' :: path else path)
    else if path.take 2 = "//".toList then "//".toList ++ path
    else if scheme ≠ [] && usesNetloc.contains (String.ofList scheme) &&
        (path = [] || path.head? == some '/') then
      "//".toList ++ path
    else path
  let url := if scheme ≠ [] then scheme ++ ':' :: url else url
  let url := if query ≠ [] then url ++ '?' :: query else url
  if fragment ≠ [] then url ++ '#' :: fragment else url

/-! ## Unquoting what was quoted -/

theorem isUnreserved_hexDigit {n : Nat} (h : n < 16) : isUnreserved (hexDigit n) = true :=
  (by decide : ∀ n < 16, isUnreserved (hexDigit n) = true) n h

theorem hexValue?_hexDigit {n : Nat} (h : n < 16) : hexValue? (hexDigit n) = some n :=
  (by decide : ∀ n < 16, hexValue? (hexDigit n) = some n) n h

theorem toNat_ofNat {b : Nat} (h : b < 128) : (Char.ofNat b).toNat = b := by
  rw [Char.ofNat, dif_pos (Or.inl (by omega))]
  rfl

theorem isAlphanum_eq (c : Char) : c.isAlphanum = (c.isUpper || c.isLower || c.isDigit) := rfl

theorem toNat_alphanum {c : Char} (h : c.isAlphanum = true) :
    48 ≤ c.toNat ∧ c.toNat ≤ 57 ∨ 65 ≤ c.toNat ∧ c.toNat ≤ 90 ∨ 97 ≤ c.toNat ∧ c.toNat ≤ 122 := by
  have hupper : c.isUpper = decide ('A'.val ≤ c.val ∧ c.val ≤ 'Z'.val) := rfl
  have hlower : c.isLower = (decide ('a'.val ≤ c.val) && decide (c.val ≤ 'z'.val)) := rfl
  have hdigit : c.isDigit = (decide ('0'.val ≤ c.val) && decide (c.val ≤ '9'.val)) := rfl
  have hval : c.val.toNat = c.toNat := rfl
  rw [isAlphanum_eq, hupper, hlower, hdigit] at h
  simp only [Bool.or_eq_true, Bool.and_eq_true, decide_eq_true_eq, UInt32.le_iff_toNat_le] at h
  rw [hval] at h
  simp at h
  omega

/-- The characters of quoted text. -/
def isQuoted (c : Char) : Bool := isUnreserved c || c == '%' || c == '+'

/-- A printable ASCII character other than the blank. -/
def isGraphic (c : Char) : Bool := decide (33 ≤ c.toNat) && decide (c.toNat ≤ 126)

theorem isUnreserved_spec {c : Char} (h : isUnreserved c = true) :
    c.toNat < 128 ∧ isGraphic c = true ∧ c ≠ '%' ∧ c ≠ '+' ∧ c ≠ '&' ∧ c ≠ '=' ∧ c ≠ '#' := by
  simp only [isUnreserved, Bool.or_eq_true, beq_iff_eq] at h
  rcases h with (((h | rfl) | rfl) | rfl) | rfl
  · have hnat := toNat_alphanum h
    refine ⟨by omega, ?_, ?_, ?_, ?_, ?_, ?_⟩
    · rw [isGraphic, Bool.and_eq_true, decide_eq_true_eq, decide_eq_true_eq]
      omega
    all_goals
      rintro rfl
      revert hnat
      decide
  all_goals decide

theorem isQuoted_spec {c : Char} (h : isQuoted c = true) :
    c.toNat < 128 ∧ isGraphic c = true ∧ c ≠ '&' ∧ c ≠ '=' ∧ c ≠ '#' := by
  simp only [isQuoted, Bool.or_eq_true, beq_iff_eq] at h
  rcases h with (h | rfl) | rfl
  · obtain ⟨hascii, hgraphic, -, -, hamp, heq, hhash⟩ := isUnreserved_spec h
    exact ⟨hascii, hgraphic, hamp, heq, hhash⟩
  · decide
  · decide

/-- A quoted octet: one unreserved character, or an escape. -/
theorem mem_quoteOctet {b : Nat} (hb : b < 256) {c : Char} (hc : c ∈ quoteOctet b) :
    isUnreserved c = true ∨ c = '%' := by
  rw [quoteOctet] at hc
  split at hc
  · rename_i h
    rw [List.mem_singleton.mp hc]
    exact Or.inl (Bool.and_eq_true .. ▸ h).1
  · simp only [List.mem_cons, List.not_mem_nil, or_false] at hc
    rcases hc with rfl | rfl | rfl
    · exact Or.inr rfl
    · exact Or.inl (isUnreserved_hexDigit (by omega))
    · exact Or.inl (isUnreserved_hexDigit (by omega))

theorem mem_quotePlus {cs : List Char} {c : Char} (hc : c ∈ quotePlus cs) : isQuoted c = true := by
  obtain ⟨a, -, hc⟩ := List.mem_flatMap.mp hc
  rw [quotePlusChar] at hc
  split at hc
  · rw [List.mem_singleton.mp hc]
    rfl
  · obtain ⟨b, hb, hc⟩ := List.mem_flatMap.mp hc
    rcases mem_quoteOctet (Utf8.encodeChar_lt a b hb) hc with h | rfl
    · rw [isQuoted, h]
      rfl
    · rfl

theorem unquoteOctets_cons {c : Char} (h : c ≠ '%') (cs : List Char) :
    unquoteOctets (c :: cs) = c.toNat :: unquoteOctets cs := by
  rw [unquoteOctets]
  intro a b cs' heq
  exact absurd heq h

theorem unquoteOctets_quoteOctet {b : Nat} (hb : b < 256) (cs : List Char) :
    unquoteOctets (quoteOctet b ++ cs) = b :: unquoteOctets cs := by
  rw [quoteOctet]
  split
  · rename_i h
    obtain ⟨hsafe, hascii⟩ := (Bool.and_eq_true ..).mp h
    rw [List.singleton_append, unquoteOctets_cons (isUnreserved_spec hsafe).2.2.1,
      toNat_ofNat (of_decide_eq_true hascii)]
  · simp only [List.cons_append, List.nil_append, unquoteOctets,
      hexValue?_hexDigit (show b / 16 < 16 by omega), hexValue?_hexDigit (show b % 16 < 16 by omega)]
    congr 1
    omega

theorem unquoteOctets_quoteOctets {bs : List Nat} (hbs : ∀ b ∈ bs, b < 256) (cs : List Char) :
    unquoteOctets (bs.flatMap quoteOctet ++ cs) = bs ++ unquoteOctets cs := by
  induction bs with
  | nil => rfl
  | cons b bs ih =>
    rw [List.flatMap_cons, List.append_assoc, unquoteOctets_quoteOctet (hbs b List.mem_cons_self),
      ih fun b' hb' => hbs b' (List.mem_cons_of_mem _ hb'), List.cons_append]

/-- Of a quoted character only the blank is written with a plus. -/
theorem map_plusToSpace_quotePlusChar (c : Char) : (quotePlusChar c).map plusToSpace =
    if c = ' ' then [' '] else (Utf8.encodeChar c).flatMap quoteOctet := by
  rw [quotePlusChar]
  split
  · rfl
  · have hid : ∀ a ∈ (Utf8.encodeChar c).flatMap quoteOctet, plusToSpace a = id a := by
      intro a ha
      obtain ⟨b, hb, ha⟩ := List.mem_flatMap.mp ha
      rw [plusToSpace, if_neg]
      · rfl
      · rcases mem_quoteOctet (Utf8.encodeChar_lt c b hb) ha with h | rfl
        · exact (isUnreserved_spec h).2.2.2.1
        · decide
    rw [List.map_congr_left hid, List.map_id]

theorem unquoteOctets_quotePlusChar (c : Char) (cs : List Char) :
    unquoteOctets ((quotePlusChar c).map plusToSpace ++ cs) =
      Utf8.encodeChar c ++ unquoteOctets cs := by
  rw [map_plusToSpace_quotePlusChar]
  split
  · rename_i h
    rw [h]
    rfl
  · exact unquoteOctets_quoteOctets (Utf8.encodeChar_lt c) cs

theorem unquoteOctets_quotePlus (cs : List Char) :
    unquoteOctets ((quotePlus cs).map plusToSpace) = Utf8.encode cs := by
  induction cs with
  | nil => rfl
  | cons c cs ih =>
    rw [quotePlus, List.flatMap_cons, List.map_append, unquoteOctets_quotePlusChar]
    exact congrArg (Utf8.encodeChar c ++ ·) ih

/-- A text in ASCII is one run. -/
theorem unquoteFrom_ascii {cs : List Char} (h : ∀ c ∈ cs, c.toNat < 128) (run : List Char) :
    unquoteFrom run cs = Utf8.decode (unquoteOctets (run.reverse ++ cs)) := by
  induction cs generalizing run with
  | nil => rw [unquoteFrom, List.append_nil]
  | cons c cs ih =>
    rw [unquoteFrom, if_pos (h c List.mem_cons_self),
      ih fun c' hc' => h c' (List.mem_cons_of_mem _ hc')]
    simp

theorem unquotePlus_quotePlus (cs : List Char) : unquotePlus (quotePlus cs) = cs := by
  have hascii : ∀ c ∈ (quotePlus cs).map plusToSpace, c.toNat < 128 := by
    intro c hc
    obtain ⟨a, ha, rfl⟩ := List.mem_map.mp hc
    rw [plusToSpace]
    split
    · decide
    · exact (isQuoted_spec (mem_quotePlus ha)).1
  rw [unquotePlus, unquoteFrom_ascii hascii, List.reverse_nil, List.nil_append,
    unquoteOctets_quotePlus, Utf8.decode_encode]

/-! ## Parsing what was encoded -/

theorem parseField_encodeParam (p : Param) : parseField (encodeParam p) = some p := by
  have hname : ∀ c ∈ quotePlus p.1, (c != '=') = true := by
    intro c hc
    simpa using (isQuoted_spec (mem_quotePlus hc)).2.2.2.1
  rw [parseField, if_neg (by simp [encodeParam]), encodeParam,
    List.takeWhile_append_of_pos hname, List.dropWhile_append_of_pos hname]
  simp [unquotePlus_quotePlus]

theorem mem_encodeParam {p : Param} {c : Char} (hc : c ∈ encodeParam p) :
    isQuoted c = true ∨ c = '=' := by
  rcases List.mem_append.mp hc with hc | hc
  · exact Or.inl (mem_quotePlus hc)
  · rcases List.mem_cons.mp hc with rfl | hc
    · exact Or.inr rfl
    · exact Or.inl (mem_quotePlus hc)

/-- **What is encoded is parsed back.** -/
theorem parseQsl_urlencode (ps : List Param) : parseQsl (urlencode ps) = ps := by
  by_cases hps : ps = []
  · subst hps
    rfl
  have hamp : ∀ cs ∈ ps.map encodeParam, '&' ∉ cs := by
    intro cs hcs hmem
    obtain ⟨p, -, rfl⟩ := List.mem_map.mp hcs
    rcases mem_encodeParam hmem with h | h
    · exact (isQuoted_spec h).2.2.1 rfl
    · exact absurd h (by decide)
  rw [parseQsl, urlencode, List.splitOn_intercalate '&' hamp (by simpa using hps),
    List.filterMap_map]
  have hfields : parseField ∘ encodeParam = some := funext parseField_encodeParam
  rw [hfields, List.filterMap_some]

theorem mem_intercalate {sep c : Char} {ls : List (List Char)} (hc : c ∈ [sep].intercalate ls) :
    c = sep ∨ ∃ l ∈ ls, c ∈ l := by
  induction ls with
  | nil => cases hc
  | cons l ls ih =>
    cases ls with
    | nil => exact Or.inr ⟨l, List.mem_cons_self, by simpa using hc⟩
    | cons l' ls =>
      rw [List.intercalate_cons_cons, List.append_assoc, List.mem_append,
        List.singleton_append, List.mem_cons] at hc
      rcases hc with hc | hc | hc
      · exact Or.inr ⟨l, List.mem_cons_self, hc⟩
      · exact Or.inl hc
      · rcases ih hc with h | ⟨l'', hl, hc⟩
        · exact Or.inl h
        · exact Or.inr ⟨l'', List.mem_cons_of_mem _ hl, hc⟩

theorem mem_urlencode {ps : List Param} {c : Char} (hc : c ∈ urlencode ps) :
    isQuoted c = true ∨ c = '=' ∨ c = '&' := by
  rcases mem_intercalate hc with rfl | ⟨l, hl, hc⟩
  · exact Or.inr (Or.inr rfl)
  · obtain ⟨p, -, rfl⟩ := List.mem_map.mp hl
    rcases mem_encodeParam hc with h | h
    · exact Or.inl h
    · exact Or.inr (Or.inl h)

/-! ## Text that needs no quoting -/

/-- A scheme in lower case. -/
def IsScheme (cs : List Char) : Prop :=
  cs.head?.any Char.isAlpha = true ∧ cs.all isSchemeChar = true ∧ cs.map Char.toLower = cs

/-- A component with its mark in front, if there is one. -/
def marked (mark : Char) (cs : List Char) : List Char := if cs = [] then [] else mark :: cs

/-- What follows the scheme of a URL with an authority. -/
def SplitResult.text (p : SplitResult) : List Char :=
  '/' :: '/' :: (p.netloc ++ (p.path ++ marked '?' p.query ++ marked '#' p.fragment))

/-- The components end where the next one starts. -/
structure SplitResult.Delimited (p : SplitResult) : Prop where
  netloc : ∀ c ∈ p.netloc, (c != '/' && c != '?' && c != '#') = true
  rooted : p.path = [] ∨ p.path.head? = some '/'
  path : ∀ c ∈ p.path, c ≠ '?' ∧ c ≠ '#'
  query : ∀ c ∈ p.query, c ≠ '#'

theorem takeWhile_stop {α : Type} {p : α → Bool} {l r : List α} (hl : ∀ a ∈ l, p a = true)
    (hr : ∀ a, r.head? = some a → p a = false) : (l ++ r).takeWhile p = l := by
  rw [List.takeWhile_append_of_pos hl]
  cases r with
  | nil => simp
  | cons a r => simp [hr a rfl]

theorem dropWhile_stop {α : Type} {p : α → Bool} {l r : List α} (hl : ∀ a ∈ l, p a = true)
    (hr : ∀ a, r.head? = some a → p a = false) : (l ++ r).dropWhile p = r := by
  rw [List.dropWhile_append_of_pos hl]
  cases r with
  | nil => rfl
  | cons a r => simp [hr a rfl]

theorem head?_marked {mark a : Char} {cs : List Char} (h : (marked mark cs).head? = some a) :
    a = mark := by
  rw [marked] at h
  split at h
  · cases h
  · exact (Option.some.inj h).symm

theorem drop_marked (mark : Char) (cs : List Char) : (marked mark cs).drop 1 = cs := by
  rw [marked]
  split
  · rename_i h
    rw [h]
    rfl
  · rfl

/-- Splitting at the mark of a component. -/
theorem splitAtFirst_marked {mark : Char} {l : List Char} (hl : ∀ c ∈ l, c ≠ mark)
    (cs : List Char) : splitAtFirst mark (l ++ marked mark cs) = (l, cs) := by
  have hpos : ∀ c ∈ l, (c != mark) = true := fun c hc => by simpa using hl c hc
  have hstop : ∀ c, (marked mark cs).head? = some c → (c != mark) = false := by
    intro c hc
    rw [head?_marked hc, bne_self_eq_false]
  rw [splitAtFirst, takeWhile_stop hpos hstop, dropWhile_stop hpos hstop, drop_marked]

theorem SplitResult.Delimited.splitRest_text {p : SplitResult} (h : p.Delimited)
    (accepts : List Char → Bool) :
    splitRest accepts p.scheme p.text = if accepts p.netloc then some p else none := by
  have hhead : ∀ c, (p.path ++ marked '?' p.query ++ marked '#' p.fragment).head? = some c →
      (c != '/' && c != '?' && c != '#') = false := by
    intro c hc
    rw [List.append_assoc, List.head?_append] at hc
    rcases h.rooted with hpath | hpath
    · rw [hpath, List.head?_nil, Option.none_or, List.head?_append] at hc
      cases hq : (marked '?' p.query).head? with
      | some a =>
        rw [hq, Option.some_or, Option.some_inj] at hc
        rw [← hc, head?_marked hq]
        rfl
      | none =>
        rw [hq, Option.none_or] at hc
        rw [head?_marked hc]
        rfl
    · rw [hpath, Option.some_or, Option.some_inj] at hc
      rw [← hc]
      rfl
  have hspan : splitNetloc p.text =
      (p.netloc, p.path ++ marked '?' p.query ++ marked '#' p.fragment) := by
    rw [SplitResult.text, splitNetloc, takeWhile_stop h.netloc hhead, dropWhile_stop h.netloc hhead]
  have hfragment : ∀ c ∈ p.path ++ marked '?' p.query, c ≠ '#' := by
    intro c hc
    rcases List.mem_append.mp hc with hc | hc
    · exact (h.path c hc).2
    · rw [marked] at hc
      split at hc
      · cases hc
      · rcases List.mem_cons.mp hc with rfl | hc
        · decide
        · exact h.query c hc
  simp only [splitRest, hspan, splitAtFirst_marked hfragment,
    splitAtFirst_marked fun c hc => (h.path c hc).1]

theorem mem_takeWhile_spec {p : Char → Bool} {cs : List Char} {c : Char}
    (h : c ∈ cs.takeWhile p) : p c = true ∧ c ∈ cs :=
  ⟨List.all_eq_true.mp List.all_takeWhile c h, (List.takeWhile_sublist p).subset h⟩

/-- What `urlsplit` returns is delimited. -/
theorem splitRest_delimited {accepts : List Char → Bool} {scheme rest : List Char}
    {p : SplitResult} (h : splitRest accepts scheme ('/' :: '/' :: rest) = some p) :
    p.Delimited ∧ p.scheme = scheme ∧ accepts p.netloc = true := by
  simp only [splitRest, splitNetloc, splitAtFirst] at h
  split at h
  · rename_i haccepts
    cases h
    refine ⟨⟨fun c hc => (mem_takeWhile_spec hc).1, ?_, ?_, ?_⟩, rfl, haccepts⟩
    · -- the path starts where the authority was stopped
      generalize hrest : rest.dropWhile (fun c => c != '/' && c != '?' && c != '#') = tail
      cases tail with
      | nil => exact Or.inl rfl
      | cons c tail =>
        have hstop := head_dropWhile (c := c) (show (rest.dropWhile _).head? = _ by rw [hrest]; rfl)
        by_cases hhash : c = '#'
        · subst hhash
          exact Or.inl rfl
        by_cases hquery : c = '?'
        · subst hquery
          exact Or.inl rfl
        · right
          have hslash : c = '/' := by simpa [hhash, hquery] using hstop
          subst hslash
          rfl
    · intro c hc
      obtain ⟨hquery, hc⟩ := mem_takeWhile_spec hc
      exact ⟨by simpa using hquery, by simpa using (mem_takeWhile_spec hc).1⟩
    · intro c hc
      have hc := (List.dropWhile_sublist _).subset (List.mem_of_mem_drop hc)
      simpa using (mem_takeWhile_spec hc).1
  · cases h

/-- The scheme is only passed through. -/
theorem splitRest_scheme (accepts : List Char → Bool) (scheme scheme' rest : List Char) :
    splitRest accepts scheme rest =
      (splitRest accepts scheme' rest).map fun p => { p with scheme := scheme } := by
  simp only [splitRest]
  split <;> rfl

/-- The components are made of what follows the scheme. -/
theorem splitRest_subset {accepts : List Char → Bool} {scheme rest : List Char} {p : SplitResult}
    (h : splitRest accepts scheme ('/' :: '/' :: rest) = some p) {c : Char}
    (hc : c ∈ p.netloc ∨ c ∈ p.path ∨ c ∈ p.query ∨ c ∈ p.fragment) : c ∈ rest := by
  have htake : ∀ {q : Char → Bool} {cs : List Char}, c ∈ cs.takeWhile q → c ∈ cs :=
    fun hc => (mem_takeWhile_spec hc).2
  have hdrop : ∀ {q : Char → Bool} {cs : List Char}, c ∈ cs.dropWhile q → c ∈ cs :=
    fun hc => (List.dropWhile_sublist _).subset hc
  simp only [splitRest, splitNetloc, splitAtFirst] at h
  split at h
  · cases h
    rcases hc with hc | hc | hc | hc
    · exact htake hc
    · exact hdrop (htake (htake hc))
    · exact hdrop (htake (hdrop (List.mem_of_mem_drop hc)))
    · exact hdrop (hdrop (List.mem_of_mem_drop hc))
  · cases h

theorem splitRest_query {accepts : List Char → Bool} {scheme rest : List Char} {p : SplitResult}
    (h : splitRest accepts scheme ('/' :: '/' :: rest) = some p) (hmark : '?' ∉ rest) :
    p.query = [] := by
  simp only [splitRest, splitNetloc, splitAtFirst] at h
  split at h
  · cases h
    generalize hquery : List.dropWhile (· != '?') _ = query
    cases query with
    | nil => rfl
    | cons c query =>
      have hstop := head_dropWhile (congrArg List.head? hquery)
      have hmem := (List.dropWhile_sublist _).subset (hquery ▸ List.mem_cons_self)
      have hc : c = '?' := by simpa using hstop
      rw [hc] at hmem
      exact absurd ((List.dropWhile_sublist _).subset (mem_takeWhile_spec hmem).2) hmark
  · cases h

theorem take_two_slashes {path tail : List Char} (htail : tail.head? ≠ some '/')
    (h : (path ++ tail).take 2 = "//".toList) : path.take 2 = "//".toList := by
  rcases path with _ | ⟨a, _ | ⟨b, path⟩⟩
  · rcases tail with _ | ⟨c, tail⟩
    · cases h
    · exact absurd (congrArg some (List.cons.inj h).1) htail
  · rcases tail with _ | ⟨c, tail⟩
    · exact h
    · exact absurd (congrArg some (List.cons.inj (List.cons.inj h).2).1) htail
  · exact h

/-- Two slashes do not come about where the query or the fragment starts. -/
theorem head?_behind_path (p : SplitResult) :
    (marked '?' p.query ++ marked '#' p.fragment).head? ≠ some '/' := by
  intro h
  rw [List.head?_append] at h
  cases hq : (marked '?' p.query).head? with
  | some a =>
    rw [hq, Option.some_or, Option.some_inj, head?_marked hq] at h
    exact absurd h (by decide)
  | none =>
    rw [hq, Option.none_or] at h
    exact absurd (head?_marked h) (by decide)

theorem isSpace_graphic {c : Char} (h : isGraphic c = true) : isSpace c = false := by
  simp only [isGraphic, Bool.and_eq_true, decide_eq_true_eq] at h
  simp only [isSpace]
  simp
  omega

theorem cleaned_graphic {cs : List Char} (h : ∀ c ∈ cs, isGraphic c = true) : cleaned cs = cs := by
  have hspec : ∀ c ∈ cs, 33 ≤ c.toNat ∧ c ≠ '\t' ∧ c ≠ '\r' ∧ c ≠ '\n' := by
    intro c hc
    have hle := h c hc
    simp only [isGraphic, Bool.and_eq_true, decide_eq_true_eq] at hle
    refine ⟨hle.1, ?_, ?_, ?_⟩
    all_goals
      rintro rfl
      exact absurd hle.1 (by decide)
  have hdrop : cs.dropWhile (fun c => decide (c.toNat ≤ 32)) = cs := by
    cases cs with
    | nil => rfl
    | cons c cs =>
      have hc := (hspec c List.mem_cons_self).1
      rw [List.dropWhile_cons, if_neg]
      simp only [decide_eq_true_eq]
      omega
  rw [cleaned, hdrop, List.filter_eq_self]
  intro c hc
  simpa [and_assoc] using (hspec c hc).2

/-- A URL with this scheme. -/
theorem splitScheme_scheme {scheme : List Char} (h : IsScheme scheme) (rest : List Char) :
    splitScheme (scheme ++ ':' :: rest) = (scheme, rest) := by
  obtain ⟨halpha, hall, hlower⟩ := h
  have hcolon : ∀ c ∈ scheme, (c != ':') = true := by
    intro c hc
    have hchar := List.all_eq_true.mp hall c hc
    rw [bne_iff_ne]
    rintro rfl
    cases hchar
  have htake : (scheme ++ ':' :: rest).takeWhile (· != ':') = scheme :=
    takeWhile_stop hcolon fun c hc => by
      cases hc
      rfl
  have hdrop : (scheme ++ ':' :: rest).drop (scheme.length + 1) = rest := by
    rw [← List.drop_drop, List.drop_left, List.drop_one, List.tail_cons]
  simp [splitScheme, htake, halpha, hall, hlower, hdrop]

theorem urlsplit_scheme {accepts : List Char → Bool} {scheme rest : List Char}
    (hscheme : IsScheme scheme) (hgraphic : ∀ c ∈ scheme ++ ':' :: rest, isGraphic c = true) :
    urlsplit accepts (scheme ++ ':' :: rest) = splitRest accepts scheme rest := by
  rw [urlsplit, cleaned_graphic hgraphic, splitScheme_scheme hscheme]

/-! ## Putting it together again -/

/-- With an authority, or with a path that starts with two slashes, the slashes are kept. -/
theorem urlunsplit_text {p : SplitResult} (hscheme : p.scheme ≠ []) (hdelimited : p.Delimited)
    (h : p.netloc ≠ [] ∨ p.path.take 2 = "//".toList) :
    urlunsplit p = p.scheme ++ ':' :: p.text := by
  have hslashes : (if p.netloc ≠ [] then
      "//".toList ++ p.netloc ++
        (if p.path ≠ [] && p.path.head? != some '/' then '/' :: p.path else p.path)
      else if p.path.take 2 = "//".toList then "//".toList ++ p.path
      else if p.scheme ≠ [] && usesNetloc.contains (String.ofList p.scheme) &&
          (p.path = [] || p.path.head? == some '/') then "//".toList ++ p.path
      else p.path) = '/' :: '/' :: (p.netloc ++ p.path) := by
    have hrooted : (decide (p.path ≠ []) && p.path.head? != some '/') = false := by
      rcases hdelimited.rooted with hpath | hpath
      · simp [hpath]
      · simp [hpath]
    by_cases hnetloc : p.netloc = []
    · rw [if_neg (not_not.mpr hnetloc), if_pos (h.resolve_left (not_not.mpr hnetloc)), hnetloc]
      rfl
    · rw [if_pos hnetloc, hrooted, if_neg Bool.false_ne_true]
      rfl
  simp only [urlunsplit, hslashes, if_pos hscheme, SplitResult.text, marked]
  by_cases hquery : p.query = [] <;> by_cases hfragment : p.fragment = [] <;>
    simp [hquery, hfragment]

/-- Without, they are not, unless the scheme is known to have an authority. -/
theorem urlunsplit_bare {p : SplitResult} (hscheme : p.scheme ≠ [])
    (hunknown : usesNetloc.contains (String.ofList p.scheme) = false) (hnetloc : p.netloc = [])
    (hpath : p.path.take 2 ≠ "//".toList) :
    urlunsplit p = p.scheme ++ ':' :: (p.path ++ marked '?' p.query ++ marked '#' p.fragment) := by
  simp only [urlunsplit, if_neg (not_not.mpr hnetloc), if_neg hpath, hunknown, Bool.and_false,
    Bool.false_and, Bool.false_eq_true, if_false, if_pos hscheme, marked]
  by_cases hquery : p.query = [] <;> by_cases hfragment : p.fragment = [] <;>
    simp [hquery, hfragment]

end Url

end Python
