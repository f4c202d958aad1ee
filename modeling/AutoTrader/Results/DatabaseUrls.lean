import Mathlib.Data.Bool.AllAny
import AutoTrader.Core.DatabaseUrl

/-!
# The connection behind a database URL

A database URL is rewritten onto one driver, and its query translated: the parameters that the
driver does not know are left out, and `sslmode` is called `ssl`. The rewritten URL has the same
authority, path and other parameters, in order and with their values, and is left alone by a
second rewriting, unless it had a question mark and no authority
(`database_url_keeps_connection`): then the slashes in front of the authority are lost.

The statement is about URLs in printable ASCII, as percent-encoded ones are, that `urlsplit`
accepts.
-/

namespace AutoTrader

open Python Python.Url

/-! ## What is to be kept -/

/-- The prefixes of the URLs that are rewritten. -/
def postgresPrefixes : List (List Char) :=
  ["postgresql://".toList, "postgres://".toList, "postgresql+psycopg://".toList,
    "postgresql+psycopg2://".toList, "postgresql+asyncpg://".toList]

/-- Every `channel_binding` is left out and every `sslmode` renamed to `ssl`, in any letter
case. -/
def translated (p : Param) : Option Param :=
  if p.1.map Char.toLower = "channel_binding".toList then none
  else if p.1.map Char.toLower = "sslmode".toList then some ("ssl".toList, p.2)
  else some p

def translatedParams (ps : List Param) : List Param := ps.filterMap translated

variable (tables : CaseTables) (accepts : List Char → Bool)

/-- The URL `out` is for the one driver, reaches the same database with the translated
parameters, and is left alone when it is normalised again. -/
structure KeepsConnection (url out : List Char) : Prop where
  driver : "postgresql+asyncpg://".toList <+: out
  parts : ∃ p q, urlsplit accepts url = some p ∧ urlsplit accepts out = some q ∧
    q.netloc = p.netloc ∧ q.path = p.path ∧ parseQsl q.query = translatedParams (parseQsl p.query)
  again : normaliseDatabaseUrl tables accepts out = .ok out

variable {tables accepts}

/-! ## The parameters -/

theorem keptParams_cons (p : Param) (ps : List Param) :
    keptParams tables (p :: ps) = (translated p).toList ++ keptParams tables ps := by
  have hbinding : lower tables p.1 = "channel_binding".toList ↔
      p.1.map Char.toLower = "channel_binding".toList :=
    lower_eq_iff (List.all_iff_forall_prop.mp rfl) p.1
  have hsslmode : lower tables p.1 = "sslmode".toList ↔
      p.1.map Char.toLower = "sslmode".toList :=
    lower_eq_iff (List.all_iff_forall_prop.mp rfl) p.1
  have hcontains : libpqParamsAsyncpgIgnores.contains (lower tables p.1) =
      decide (p.1.map Char.toLower = "channel_binding".toList) := by
    rw [libpqParamsAsyncpgIgnores, List.contains_cons, List.contains_nil, Bool.or_false,
      Bool.beq_eq_decide_eq, decide_eq_decide]
    exact hbinding
  rw [keptParams, hcontains, translated]
  by_cases hb : p.1.map Char.toLower = "channel_binding".toList
  · rw [decide_eq_true hb, if_pos rfl, if_pos hb]
    rfl
  rw [decide_eq_false hb, if_neg Bool.false_ne_true, if_neg hb]
  by_cases hs : p.1.map Char.toLower = "sslmode".toList
  · have hlookup : libpqSslParamRenames.lookup (lower tables p.1) = some "ssl".toList := by
      rw [hsslmode.mpr hs]
      rfl
    rw [if_pos hs, hlookup]
    rfl
  · have hlookup : libpqSslParamRenames.lookup (lower tables p.1) = none := by
      rw [libpqSslParamRenames, List.lookup_cons,
        beq_eq_false_iff_ne.mpr fun h => hs (hsslmode.mp h)]
      rfl
    rw [if_neg hs, hlookup]
    rfl

theorem keptParams_eq (ps : List Param) : keptParams tables ps = translatedParams ps := by
  induction ps with
  | nil => rfl
  | cons p ps ih =>
    rw [keptParams_cons, ih, translatedParams, translatedParams, List.filterMap_cons]
    cases translated p <;> rfl

theorem translated_idem {p q : Param} (h : translated p = some q) : translated q = some q := by
  rw [translated] at h
  split at h
  · cases h
  split at h
  · cases h
    rfl
  · rename_i hbinding hsslmode
    cases h
    rw [translated, if_neg hbinding, if_neg hsslmode]

theorem translatedParams_idem (ps : List Param) :
    translatedParams (translatedParams ps) = translatedParams ps := by
  rw [translatedParams, translatedParams, List.filterMap_filterMap]
  apply List.filterMap_congr
  intro p _
  cases h : translated p with
  | none => rfl
  | some q => exact translated_idem h

/-! ## The driver -/

/-- The scheme of the driver. -/
def asyncpg : List Char := "postgresql+asyncpg".toList

theorem isScheme_asyncpg : IsScheme asyncpg := ⟨by decide, by decide, by decide⟩

/-- Every prefix is a scheme and the mark of an authority. -/
theorem scheme_of_mem {pre : List Char} (h : pre ∈ postgresPrefixes) :
    ∃ scheme, IsScheme scheme ∧ pre = scheme ++ "://".toList ∧ '?' ∉ pre ∧
      ∀ rest, forceDriver (pre ++ rest) = asyncpg ++ "://".toList ++ rest := by
  simp only [postgresPrefixes, List.mem_cons, List.not_mem_nil, or_false] at h
  rcases h with rfl | rfl | rfl | rfl | rfl
  · exact ⟨"postgresql".toList, ⟨by decide, by decide, by decide⟩, rfl, by decide, fun _ => rfl⟩
  · exact ⟨"postgres".toList, ⟨by decide, by decide, by decide⟩, rfl, by decide, fun _ => rfl⟩
  · exact ⟨"postgresql+psycopg".toList, ⟨by decide, by decide, by decide⟩, rfl, by decide,
      fun _ => rfl⟩
  · exact ⟨"postgresql+psycopg2".toList, ⟨by decide, by decide, by decide⟩, rfl, by decide,
      fun _ => rfl⟩
  · exact ⟨asyncpg, isScheme_asyncpg, rfl, by decide, fun _ => rfl⟩

theorem asyncpg_mem : asyncpg ++ "://".toList ∈ postgresPrefixes := by
  simp only [postgresPrefixes, List.mem_cons]
  exact Or.inr (Or.inr (Or.inr (Or.inr (Or.inl rfl))))

theorem driver_text (rest : List Char) :
    asyncpg ++ ':' :: '/' :: '/' :: rest = "postgresql+asyncpg://".toList ++ rest := by
  have hprefix : asyncpg ++ "://".toList = "postgresql+asyncpg://".toList := rfl
  rw [← hprefix, List.append_assoc]
  rfl

variable (tables accepts) in
/-- A URL with one of the prefixes is handed on with the driver in front. -/
theorem normaliseDatabaseUrl_driver {pre rest : List Char} (hpre : pre ∈ postgresPrefixes)
    (hgraphic : ∀ c ∈ pre ++ rest, isGraphic c = true) :
    normaliseDatabaseUrl tables accepts (pre ++ rest) =
      normalisePostgresQueryParams tables accepts (asyncpg ++ ':' :: '/' :: '/' :: rest) := by
  obtain ⟨scheme, hscheme, rfl, -, hdriver⟩ := scheme_of_mem hpre
  have hstrip : strip (scheme ++ "://".toList ++ rest) = scheme ++ "://".toList ++ rest := by
    apply Trimmed.strip_eq
    constructor
    · exact fun c hc => isSpace_graphic (hgraphic c (List.mem_of_head? hc))
    · exact fun c hc => isSpace_graphic (hgraphic c (List.mem_of_getLast? hc))
  have hne : scheme ++ "://".toList ++ rest ≠ [] := by
    intro h
    exact absurd (List.append_eq_nil_iff.mp (List.append_eq_nil_iff.mp h).1).2 (by decide)
  rw [normaliseDatabaseUrl, hstrip, if_neg hne, hdriver]
  rfl

/-! ## A URL with the driver -/

section Driver

variable {p : SplitResult} {rest : List Char}

/-- The components with the translated parameters. -/
def withTranslated (p : SplitResult) : SplitResult :=
  { p with query := urlencode (translatedParams (parseQsl p.query)) }

theorem withTranslated_delimited (h : p.Delimited) : (withTranslated p).Delimited := by
  refine ⟨h.netloc, h.rooted, h.path, ?_⟩
  intro c hc
  rcases mem_urlencode hc with hquoted | rfl | rfl
  · exact (isQuoted_spec hquoted).2.2.2.2
  · decide
  · decide

theorem graphic_text (h : ∀ c, c ∈ p.netloc ∨ c ∈ p.path ∨ c ∈ p.query ∨ c ∈ p.fragment →
    isGraphic c = true) : ∀ c ∈ p.text, isGraphic c = true := by
  have hmarked : ∀ {mark : Char} {cs : List Char}, isGraphic mark = true →
      (∀ c ∈ cs, isGraphic c = true) → ∀ c ∈ marked mark cs, isGraphic c = true := by
    intro mark cs hmark hcs c hc
    rw [marked] at hc
    split at hc
    · cases hc
    · rcases List.mem_cons.mp hc with rfl | hc
      · exact hmark
      · exact hcs c hc
  intro c hc
  simp only [SplitResult.text, List.mem_cons, List.mem_append] at hc
  rcases hc with rfl | rfl | hc | (hc | hc) | hc
  · rfl
  · rfl
  · exact h c (Or.inl hc)
  · exact h c (Or.inr (Or.inl hc))
  · exact hmarked rfl (fun c hc => h c (Or.inr (Or.inr (Or.inl hc)))) c hc
  · exact hmarked rfl (fun c hc => h c (Or.inr (Or.inr (Or.inr hc)))) c hc

theorem graphic_query {ps : List Param} : ∀ c ∈ urlencode ps, isGraphic c = true := by
  intro c hc
  rcases mem_urlencode hc with hquoted | rfl | rfl
  · exact (isQuoted_spec hquoted).2.1
  · rfl
  · rfl

theorem graphic_asyncpg (h : ∀ c ∈ rest, isGraphic c = true) :
    ∀ c ∈ asyncpg ++ ':' :: rest, isGraphic c = true := by
  have hscheme : ∀ c ∈ asyncpg, isGraphic c = true := List.all_eq_true.mp rfl
  intro c hc
  rcases List.mem_append.mp hc with hc | hc
  · exact hscheme c hc
  · rcases List.mem_cons.mp hc with rfl | hc
    · rfl
    · exact h c hc

/-- A URL is split into the components it is the text of. -/
theorem urlsplit_text (hscheme : p.scheme = asyncpg) (hdelimited : p.Delimited)
    (hgraphic : ∀ c ∈ p.text, isGraphic c = true) (haccepts : accepts p.netloc = true) :
    urlsplit accepts (asyncpg ++ ':' :: p.text) = some p := by
  rw [urlsplit_scheme isScheme_asyncpg (graphic_asyncpg hgraphic), ← hscheme,
    hdelimited.splitRest_text, if_pos haccepts]

theorem asyncpg_ne_nil (hscheme : p.scheme = asyncpg) : p.scheme ≠ [] := by
  rw [hscheme]
  decide

variable (tables) in
/-- A URL with a question mark is taken apart, its parameters are translated, and it is put
together again. -/
theorem normalisePostgresQueryParams_marked (hmark : '?' ∈ rest)
    (hgraphic : ∀ c ∈ rest, isGraphic c = true) (hsplit : splitRest accepts asyncpg rest = some p) :
    normalisePostgresQueryParams tables accepts (asyncpg ++ ':' :: rest) =
      .ok (urlunsplit (withTranslated p)) := by
  have hcontains : (asyncpg ++ ':' :: rest).contains '?' = true := by
    rw [List.contains_iff_mem]
    exact List.mem_append_right _ (List.mem_cons_of_mem _ hmark)
  rw [normalisePostgresQueryParams, hcontains, Bool.not_true, if_neg Bool.false_ne_true,
    urlsplit_scheme isScheme_asyncpg (graphic_asyncpg hgraphic), hsplit]
  simp only [keptParams_eq, withTranslated]

theorem urlunsplit_translated (hscheme : p.scheme = asyncpg) (hdelimited : p.Delimited)
    (hslashes : p.netloc ≠ [] ∨ p.path.take 2 = "//".toList) :
    urlunsplit (withTranslated p) = asyncpg ++ ':' :: (withTranslated p).text := by
  have hne : (withTranslated p).scheme ≠ [] := asyncpg_ne_nil hscheme
  rw [urlunsplit_text hne (withTranslated_delimited hdelimited) hslashes]
  exact congrArg (· ++ ':' :: (withTranslated p).text) hscheme

variable (tables accepts) in
theorem normalisePostgresQueryParams_unmarked (hmark : '?' ∉ rest) :
    normalisePostgresQueryParams tables accepts (asyncpg ++ ':' :: rest) =
      .ok (asyncpg ++ ':' :: rest) := by
  have hscheme : '?' ∉ asyncpg := by decide
  have hcontains : (asyncpg ++ ':' :: rest).contains '?' = false := by
    rw [List.contains_eq_mem, decide_eq_false_iff_not, List.mem_append, List.mem_cons]
    rintro (h | h | h)
    · exact hscheme h
    · exact absurd h (by decide)
    · exact hmark h
  rw [normalisePostgresQueryParams, hcontains]
  rfl

/-- A URL whose parameters are translated is left alone. -/
theorem normalise_translated (hscheme : p.scheme = asyncpg) (hdelimited : p.Delimited)
    (hgraphic : ∀ c ∈ p.text, isGraphic c = true) (haccepts : accepts p.netloc = true)
    (hslashes : p.netloc ≠ [] ∨ p.path.take 2 = "//".toList)
    (hquery : urlencode (translatedParams (parseQsl p.query)) = p.query) :
    normaliseDatabaseUrl tables accepts (asyncpg ++ ':' :: p.text) =
      .ok (asyncpg ++ ':' :: p.text) := by
  have hstart := normaliseDatabaseUrl_driver tables accepts asyncpg_mem (graphic_asyncpg hgraphic)
  refine hstart.trans ?_
  by_cases hmark : '?' ∈ p.text
  · have hsplit : splitRest accepts asyncpg p.text = some p := by
      rw [← hscheme, hdelimited.splitRest_text, if_pos haccepts]
    have hsame : withTranslated p = p := by rw [withTranslated, hquery]
    have htranslated := normalisePostgresQueryParams_marked tables hmark hgraphic hsplit
    rw [urlunsplit_translated hscheme hdelimited hslashes, hsame] at htranslated
    exact htranslated
  · exact normalisePostgresQueryParams_unmarked tables accepts hmark

end Driver

/-! ## The connection -/

section Connection

variable {rest : List Char} {p : SplitResult}

theorem graphic_slashes (h : ∀ c ∈ rest, isGraphic c = true) :
    ∀ c ∈ '/' :: '/' :: rest, isGraphic c = true := by
  intro c hc
  rcases List.mem_cons.mp hc with rfl | hc
  · rfl
  rcases List.mem_cons.mp hc with rfl | hc
  · rfl
  · exact h c hc

/-- Without a question mark nothing but the driver changes. -/
theorem keepsConnection_unmarked {url : List Char} {q : SplitResult}
    (hgraphic : ∀ c ∈ rest, isGraphic c = true) (hsplit : urlsplit accepts url = some p)
    (hnetloc : q.netloc = p.netloc) (hpath : q.path = p.path) (hquery : q.query = p.query)
    (hrest : splitRest accepts asyncpg ('/' :: '/' :: rest) = some q) (hmark : '?' ∉ rest) :
    KeepsConnection tables accepts url (asyncpg ++ ':' :: '/' :: '/' :: rest) := by
  have hgraphic' := graphic_asyncpg (graphic_slashes hgraphic)
  refine ⟨⟨rest, (driver_text rest).symm⟩, ⟨p, q, hsplit, ?_, hnetloc, hpath, ?_⟩, ?_⟩
  · rw [urlsplit_scheme isScheme_asyncpg hgraphic', hrest]
  · rw [← hquery, splitRest_query hrest hmark]
    rfl
  · refine (normaliseDatabaseUrl_driver tables accepts asyncpg_mem hgraphic').trans ?_
    apply normalisePostgresQueryParams_unmarked
    simpa using hmark

/-- With a question mark the query is translated, where the slashes are kept. -/
theorem keepsConnection_marked {url : List Char} {q : SplitResult}
    (hgraphic : ∀ c ∈ rest, isGraphic c = true) (hsplit : urlsplit accepts url = some p)
    (hnetloc : q.netloc = p.netloc) (hpath : q.path = p.path) (hquery : q.query = p.query)
    (hrest : splitRest accepts asyncpg ('/' :: '/' :: rest) = some q)
    (hslashes : q.netloc ≠ [] ∨ q.path.take 2 = "//".toList) :
    KeepsConnection tables accepts url (asyncpg ++ ':' :: (withTranslated q).text) := by
  obtain ⟨hdelimited, hscheme, haccepts⟩ := splitRest_delimited hrest
  have hgraphic' : ∀ c ∈ (withTranslated q).text, isGraphic c = true := by
    apply graphic_text
    rintro c (hc | hc | hc | hc)
    · exact hgraphic c (splitRest_subset hrest (Or.inl hc))
    · exact hgraphic c (splitRest_subset hrest (Or.inr (Or.inl hc)))
    · exact graphic_query c hc
    · exact hgraphic c (splitRest_subset hrest (Or.inr (Or.inr (Or.inr hc))))
  have htranslated := withTranslated_delimited hdelimited
  refine ⟨⟨_, (driver_text _).symm⟩, ⟨p, withTranslated q, hsplit, ?_, hnetloc, hpath, ?_⟩, ?_⟩
  · exact urlsplit_text hscheme htranslated hgraphic' haccepts
  · rw [withTranslated, parseQsl_urlencode, hquery]
  · apply normalise_translated (p := withTranslated q) hscheme htranslated hgraphic' haccepts hslashes
    rw [withTranslated, parseQsl_urlencode, translatedParams_idem]

/-- Without an authority the slashes are lost: the driver is not in front any more. -/
theorem not_driver_of_bare {q : SplitResult} (hscheme : q.scheme = asyncpg)
    (hnetloc : q.netloc = []) (hpath : q.path.take 2 ≠ "//".toList) :
    ¬ "postgresql+asyncpg://".toList <+: urlunsplit (withTranslated q) := by
  have hunknown : usesNetloc.contains (String.ofList (withTranslated q).scheme) = false := by
    rw [show (withTranslated q).scheme = asyncpg from hscheme]
    decide
  rw [urlunsplit_bare (p := withTranslated q) (asyncpg_ne_nil hscheme) hunknown hnetloc hpath]
  rintro ⟨tail, htail⟩
  rw [show (withTranslated q).scheme = asyncpg from hscheme] at htail
  have hslashes : '/' :: '/' :: tail = (withTranslated q).path ++
      marked '?' (withTranslated q).query ++ marked '#' (withTranslated q).fragment :=
    (List.cons.inj (List.append_cancel_left ((driver_text tail).trans htail))).2
  rw [List.append_assoc] at hslashes
  exact hpath (take_two_slashes (head?_behind_path (withTranslated q)) (hslashes ▸ rfl))

/-- **Rewriting a database URL keeps the connection exactly where the slashes survive.** A URL
with a question mark is taken apart and put together again, and there an empty authority loses
its slashes, unless the path brings its own: what comes out is not a URL of the driver. -/
theorem database_url_keeps_connection (tables : CaseTables) (accepts : List Char → Bool)
    {url : List Char} {p : SplitResult} (hstart : ∃ pre ∈ postgresPrefixes, pre <+: url)
    (hgraphic : ∀ c ∈ url, isGraphic c = true) (hsplit : urlsplit accepts url = some p) :
    (∃ out, normaliseDatabaseUrl tables accepts url = .ok out ∧
        KeepsConnection tables accepts url out) ↔
      '?' ∉ url ∨ p.netloc ≠ [] ∨ p.path.take 2 = "//".toList := by
  obtain ⟨pre, hpre, rest, rfl⟩ := hstart
  obtain ⟨scheme, hscheme, hslashes, hmark, -⟩ := scheme_of_mem hpre
  have hgraphicRest : ∀ c ∈ rest, isGraphic c = true :=
    fun c hc => hgraphic c (List.mem_append_right _ hc)
  have hurl : pre ++ rest = scheme ++ ':' :: '/' :: '/' :: rest := by
    rw [hslashes, List.append_assoc]
    rfl
  have hp : splitRest accepts scheme ('/' :: '/' :: rest) = some p := by
    rw [← urlsplit_scheme hscheme (hurl ▸ hgraphic), ← hurl, hsplit]
  -- with the driver in front the URL has the same components
  obtain ⟨q, hrest, hnetloc, hpath, hquery⟩ : ∃ q,
      splitRest accepts asyncpg ('/' :: '/' :: rest) = some q ∧ q.netloc = p.netloc ∧
        q.path = p.path ∧ q.query = p.query := by
    rw [splitRest_scheme accepts asyncpg scheme, hp]
    exact ⟨_, rfl, rfl, rfl, rfl⟩
  have hmem : '?' ∈ pre ++ rest ↔ '?' ∈ rest := by
    rw [List.mem_append]
    exact or_iff_right hmark
  have hnormalise := normaliseDatabaseUrl_driver tables accepts hpre hgraphic
  rw [hmem]
  by_cases hquestion : '?' ∈ rest
  · have hmarked : '?' ∈ '/' :: '/' :: rest :=
      List.mem_cons_of_mem _ (List.mem_cons_of_mem _ hquestion)
    rw [normalisePostgresQueryParams_marked tables hmarked (graphic_slashes hgraphicRest) hrest]
      at hnormalise
    obtain ⟨hdelimited, hdriver, -⟩ := splitRest_delimited hrest
    rw [← hnetloc, ← hpath]
    by_cases hkept : q.netloc ≠ [] ∨ q.path.take 2 = "//".toList
    · refine iff_of_true ⟨_, hnormalise, ?_⟩ (Or.inr hkept)
      rw [urlunsplit_translated hdriver hdelimited hkept]
      exact keepsConnection_marked hgraphicRest hsplit hnetloc hpath hquery hrest hkept
    · refine iff_of_false ?_ (not_or.mpr ⟨not_not.mpr hquestion, hkept⟩)
      rintro ⟨out, hout, hkeeps⟩
      obtain ⟨hempty, hbare⟩ := not_or.mp hkept
      rw [hnormalise, Except.ok.injEq] at hout
      rw [← hout] at hkeeps
      exact not_driver_of_bare hdriver (not_not.mp hempty) hbare hkeeps.driver
  · have hunmarked : '?' ∉ '/' :: '/' :: rest := by simpa using hquestion
    rw [normalisePostgresQueryParams_unmarked tables accepts hunmarked] at hnormalise
    exact iff_of_true ⟨_, hnormalise,
      keepsConnection_unmarked hgraphicRest hsplit hnetloc hpath hquery hrest hquestion⟩
      (Or.inl hquestion)

end Connection

/-- A URL of a managed host. -/
def managedUrl : List Char := "postgres://u:p@h:5432/db?sslmode=require&Channel_Binding=x".toList

theorem database_url_keeps_connection_managed : ∃ out,
    normaliseDatabaseUrl asciiTables (fun _ => true) managedUrl = .ok out ∧
      KeepsConnection asciiTables (fun _ => true) managedUrl out := by
  have hsplit : urlsplit (fun _ => true) managedUrl = some ⟨"postgres".toList,
      "u:p@h:5432".toList, "/db".toList, "sslmode=require&Channel_Binding=x".toList, []⟩ := by
    decide +kernel
  refine (database_url_keeps_connection asciiTables (fun _ => true)
    ⟨"postgres://".toList, ?_, ⟨_, rfl⟩⟩ (List.all_eq_true.mp rfl) hsplit).mpr (Or.inr (Or.inl ?_))
  · exact List.mem_cons_of_mem _ List.mem_cons_self
  · decide

/-- A URL without an authority, for a server on a local socket. -/
def socketUrl : List Char := "postgresql:///db?host=/var/run/postgresql".toList

/-- The rewritten URL of a local socket has lost its slashes. -/
theorem database_url_loses_slashes :
    normaliseDatabaseUrl asciiTables (fun _ => true) socketUrl =
        .ok "postgresql+asyncpg:/db?host=%2Fvar%2Frun%2Fpostgresql".toList ∧
      ¬ ∃ out, normaliseDatabaseUrl asciiTables (fun _ => true) socketUrl = .ok out ∧
        KeepsConnection asciiTables (fun _ => true) socketUrl out := by
  have hout : normaliseDatabaseUrl asciiTables (fun _ => true) socketUrl =
      .ok "postgresql+asyncpg:/db?host=%2Fvar%2Frun%2Fpostgresql".toList := by decide +kernel
  refine ⟨hout, ?_⟩
  rintro ⟨out, hout', hkeeps⟩
  rw [hout, Except.ok.injEq] at hout'
  have hdriver := hkeeps.driver
  rw [← hout'] at hdriver
  revert hdriver
  decide

end AutoTrader
