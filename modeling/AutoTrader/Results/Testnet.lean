import AutoTrader.Services.Client
import AutoTrader.System.Sample

/-!
# Only the testnet

A base URL passes the validator exactly if its text, read from the left, is `http://` or
`https://`, an authority, and what a slash, a question mark or a hash begins; and if the host in
this authority is one of the two names of the testnet, in ASCII letters of any case. Whatever is
appended behind a slash, the URL keeps this scheme and this authority.

The client reads the URL with another parser, and so it has a check of its own: it is constructed
only on a base URL whose host, as `httpx2` reads it, is one of the two names. That is where all
requests of the service go.
-/

namespace AutoTrader

open Python Python.Url Coroutine Transition

variable {tables : CaseTables} {accepts : List Char → Bool} {repr : List Char → String}

/-- Where an authority ends. -/
def EndsAuthority (tail : List Char) : Prop :=
  tail = [] ∨ tail.head? = some '/' ∨ tail.head? = some '?' ∨ tail.head? = some '#'

/-- The text of a URL of the testnet, as it is read from the left. -/
structure TestnetText (accepts : List Char → Bool) (url : List Char) (scheme netloc : List Char) :
    Prop where
  text : ∃ spelled tail, cleaned url = spelled ++ "://".toList ++ netloc ++ tail ∧
    spelled.map Char.toLower = scheme ∧ EndsAuthority tail
  scheme : scheme = "http".toList ∨ scheme = "https".toList
  authority : ∀ c ∈ netloc, (c != '/' && c != '?' && c != '#') = true
  accepted : accepts netloc = true
  host : ∃ user hostinfo host, netloc = user ++ hostinfo ∧
    (user = [] ∨ user.getLast? = some '@') ∧ '@' ∉ hostinfo ∧ Designates hostinfo host ∧
    host.map Char.toLower ∈ allowedBinanceHosts.map String.toList

/-! ## Reading from the left -/

theorem isAlpha_of_toLower {c : Char} (h : c.toLower.isAlpha = true) : c.isAlpha = true := by
  by_cases hupper : c.isUpper = true
  · exact Bool.or_eq_true_iff.mpr (Or.inl hupper)
  · have hsame : c.toLower = c := dif_neg fun hletter => hupper (decide_eq_true hletter)
    rwa [hsame] at h

/-- The letters of the two schemes. -/
theorem spelled_spec {scheme spelled : List Char}
    (hscheme : scheme = "http".toList ∨ scheme = "https".toList)
    (hspelled : spelled.map Char.toLower = scheme) :
    ':' ∉ spelled ∧ spelled.head?.any Char.isAlpha = true ∧ spelled.all isSchemeChar = true := by
  have hplain : (scheme.all fun d => decide (d.isAlpha = true ∧ d ≠ ':')) = true := by
    rcases hscheme with rfl | rfl
    · decide
    · decide
  have hletters : ∀ d ∈ scheme, d.isAlpha = true ∧ d ≠ ':' := by
    simpa only [List.all_eq_true, decide_eq_true_eq] using hplain
  have hne : scheme ≠ [] := by
    rcases hscheme with rfl | rfl
    · decide
    · decide
  have halpha : ∀ c ∈ spelled, c.isAlpha = true := fun c hc =>
    isAlpha_of_toLower (hletters _ (hspelled ▸ List.mem_map_of_mem hc)).1
  refine ⟨?_, ?_, ?_⟩
  · intro hcolon
    exact (hletters ':' (hspelled ▸ List.mem_map.mpr ⟨':', hcolon, rfl⟩)).2 rfl
  · cases spelled with
    | nil => exact absurd hspelled.symm hne
    | cons c cs => exact halpha c List.mem_cons_self
  · rw [List.all_eq_true]
    intro c hc
    simp [isSchemeChar, Char.isAlphanum, halpha c hc]

theorem splitScheme_spelled {spelled rest : List Char} (hcolon : ':' ∉ spelled)
    (halpha : spelled.head?.any Char.isAlpha = true) (hall : spelled.all isSchemeChar = true) :
    splitScheme (spelled ++ ':' :: rest) = (spelled.map Char.toLower, rest) := by
  obtain ⟨htake, -⟩ := takeWhile_ne hcolon (Or.inr (rfl : (':' :: rest).head? = some ':'))
  have hdrop : (spelled ++ ':' :: rest).drop (spelled.length + 1) = rest := by
    rw [← List.drop_drop, List.drop_left, List.drop_one, List.tail_cons]
  simp [splitScheme, htake, halpha, hall, hdrop]

/-- A URL whose scheme is not empty has it in front of its first colon. -/
theorem exists_spelled {cs scheme rest : List Char} (h : splitScheme cs = (scheme, rest))
    (hne : scheme ≠ []) : ∃ spelled, cs = spelled ++ ':' :: rest ∧
      spelled.map Char.toLower = scheme := by
  simp only [splitScheme] at h
  split at h
  · rename_i hcond
    obtain ⟨hscheme, hrest⟩ := Prod.mk.inj h
    refine ⟨cs.takeWhile (· != ':'), ?_, hscheme⟩
    have hmem : ':' ∈ cs := by
      simp only [Bool.and_eq_true] at hcond
      simpa using hcond.1.1
    obtain ⟨before, after, rfl, hbefore⟩ := List.eq_append_cons_of_mem hmem
    obtain ⟨htake, -⟩ := takeWhile_ne hbefore (Or.inr (rfl : (':' :: after).head? = some ':'))
    rw [htake, ← List.drop_drop, List.drop_left, List.drop_one, List.tail_cons] at hrest
    rw [htake, hrest]
  · cases h
    exact absurd rfl hne

/-- Scheme and authority of what `urlsplit` makes of the text behind the scheme. -/
theorem splitRest_parts {scheme rest : List Char} {p : SplitResult}
    (h : splitRest accepts scheme rest = some p) :
    p.scheme = scheme ∧ p.netloc = (splitNetloc rest).1 ∧ accepts p.netloc = true := by
  simp only [splitRest] at h
  split at h
  · rename_i haccepts
    cases h
    exact ⟨rfl, rfl, haccepts⟩
  · cases h

theorem exists_splitRest {rest : List Char} (h : accepts (splitNetloc rest).1 = true)
    (scheme : List Char) : ∃ p, splitRest accepts scheme rest = some p ∧ p.scheme = scheme ∧
      p.netloc = (splitNetloc rest).1 := by
  simp only [splitRest, if_pos h]
  exact ⟨_, rfl, rfl, rfl⟩

/-- An authority up to where it ends. -/
theorem splitNetloc_text {netloc tail : List Char}
    (hnetloc : ∀ c ∈ netloc, (c != '/' && c != '?' && c != '#') = true)
    (htail : EndsAuthority tail) : (splitNetloc ('/' :: '/' :: (netloc ++ tail))).1 = netloc := by
  rw [splitNetloc]
  refine takeWhile_stop hnetloc fun c hc => ?_
  rcases htail with rfl | htail | htail | htail
  · cases hc
  all_goals
    rw [htail] at hc
    cases hc
    rfl

theorem splitNetloc_cases (rest : List Char) : (splitNetloc rest).1 = [] ∨
    ∃ tail, rest = '/' :: '/' :: ((splitNetloc rest).1 ++ tail) ∧ EndsAuthority tail ∧
      ∀ c ∈ (splitNetloc rest).1, (c != '/' && c != '?' && c != '#') = true := by
  unfold splitNetloc
  split
  · rename_i cs
    refine Or.inr ⟨cs.dropWhile fun c => c != '/' && c != '?' && c != '#', ?_, ?_,
      fun c hc => (mem_takeWhile_spec hc).1⟩
    · rw [List.takeWhile_append_dropWhile]
    · cases hdrop : cs.dropWhile fun c => c != '/' && c != '?' && c != '#' with
      | nil => exact Or.inl rfl
      | cons c tail =>
        have hstop := head_dropWhile (congrArg List.head? hdrop)
        right
        simp only [List.head?_cons, Option.some_inj]
        by_cases hslash : c = '/'
        · exact Or.inl hslash
        · by_cases hmark : c = '?'
          · exact Or.inr (Or.inl hmark)
          · simp only [Bool.and_eq_false_iff, bne_eq_false_iff_eq] at hstop
            exact Or.inr (Or.inr (by tauto))
  · exact Or.inl rfl

/-- The host of an authority. -/
theorem allowed_host_iff {netloc : List Char} :
    (hostOf (afterLast '@' netloc)).map Char.toLower ∈ allowedBinanceHosts.map String.toList ↔
      ∃ user hostinfo host, netloc = user ++ hostinfo ∧
        (user = [] ∨ user.getLast? = some '@') ∧ '@' ∉ hostinfo ∧ Designates hostinfo host ∧
        host.map Char.toLower ∈ allowedBinanceHosts.map String.toList := by
  constructor
  · intro h
    obtain ⟨user, hsplit, huser⟩ := exists_beforeLast '@' netloc
    exact ⟨user, _, _, hsplit, huser, not_mem_afterLast _ _, designates_iff.mpr rfl, h⟩
  · rintro ⟨user, hostinfo, host, rfl, huser, hat, hhost, h⟩
    rwa [afterLast_append huser hat, designates_iff.mp hhost]

/-- `urlsplit` reads the text in the same way. -/
theorem TestnetText.urlsplit {url scheme netloc : List Char}
    (h : TestnetText accepts url scheme netloc) :
    ∃ p, urlsplit accepts url = some p ∧ p.scheme = scheme ∧ p.netloc = netloc := by
  obtain ⟨⟨spelled, tail, htext, hspelled, htail⟩, hscheme, hall, haccepts, -⟩ := h
  obtain ⟨hcolon, halpha, hletters⟩ := spelled_spec hscheme hspelled
  have hcs : cleaned url = spelled ++ ':' :: '/' :: '/' :: (netloc ++ tail) := by
    rw [htext]
    simp
  have hnetloc := splitNetloc_text hall htail
  obtain ⟨p, hp, hpscheme, hpnetloc⟩ := exists_splitRest
    (hnetloc.symm ▸ haccepts) scheme
  refine ⟨p, ?_, hpscheme, hpnetloc.trans hnetloc⟩
  rw [Url.urlsplit, hcs, splitScheme_spelled hcolon halpha hletters, hspelled]
  exact hp

theorem urlsplit_testnet_iff {url : List Char} :
    (∃ p, urlsplit accepts url = some p ∧ p.scheme ∈ ["http".toList, "https".toList] ∧
      parsedHost tables p ∈ allowedBinanceHosts.map String.toList) ↔
      ∃ scheme netloc, TestnetText accepts url scheme netloc := by
  constructor
  · rintro ⟨p, hsplit, hscheme, hhost⟩
    rw [parsedHost_allowed_iff] at hhost
    obtain ⟨scheme, rest, hparts⟩ : ∃ scheme rest, splitScheme (cleaned url) = (scheme, rest) :=
      ⟨_, _, rfl⟩
    rw [urlsplit, hparts] at hsplit
    obtain ⟨rfl, hnetloc, haccepts⟩ := splitRest_parts hsplit
    have hscheme : p.scheme = "http".toList ∨ p.scheme = "https".toList := by simpa using hscheme
    have hne : p.scheme ≠ [] := by
      rcases hscheme with h | h
      · rw [h]
        decide
      · rw [h]
        decide
    obtain ⟨spelled, hcs, hspelled⟩ := exists_spelled hparts hne
    rcases splitNetloc_cases rest with hnil | ⟨tail, hrest, htail, hall⟩
    · rw [hnetloc, hnil] at hhost
      exact absurd rfl (allowed_plain hhost).1
    · refine ⟨p.scheme, p.netloc, ⟨spelled, tail, ?_, hspelled, htail⟩, hscheme,
        hnetloc ▸ hall, haccepts, allowed_host_iff.mp hhost⟩
      rw [hcs, hrest, ← hnetloc]
      simp
  · rintro ⟨scheme, netloc, h⟩
    obtain ⟨p, hp, hscheme, hnetloc⟩ := h.urlsplit
    refine ⟨p, hp, ?_, ?_⟩
    · rw [hscheme]
      simpa using h.scheme
    · rw [parsedHost_allowed_iff, hnetloc]
      exact allowed_host_iff.mpr h.host

/-- Text that is appended behind a slash ends the authority at the latest. -/
theorem TestnetText.append {url scheme netloc : List Char} (h : TestnetText accepts url scheme netloc)
    (rest : List Char) : TestnetText accepts (url ++ '/' :: rest) scheme netloc := by
  obtain ⟨⟨spelled, tail, htext, hspelled, htail⟩, hscheme, hall, haccepts, hhost⟩ := h
  refine ⟨?_, hscheme, hall, haccepts, hhost⟩
  have hcleaned : cleaned (url ++ '/' :: rest) = cleaned url ++
      ('/' :: rest).filter fun c => c != '\t' && c != '\r' && c != '\n' := by
    have hblank : ¬ url.dropWhile (fun c => decide (c.toNat ≤ 32)) = [] := by
      intro hnil
      have hempty : cleaned url = [] := by rw [cleaned, hnil, List.filter_nil]
      rw [hempty] at htext
      simp at htext
    rw [cleaned, cleaned, List.dropWhile_append, if_neg (by simpa using hblank),
      List.filter_append]
  have hkept : ('/' :: rest).filter (fun c => c != '\t' && c != '\r' && c != '\n') =
      '/' :: rest.filter fun c => c != '\t' && c != '\r' && c != '\n' :=
    List.filter_cons_of_pos (by decide)
  rw [hcleaned, hkept, htext, List.append_assoc]
  refine ⟨spelled, _, rfl, hspelled, ?_⟩
  rcases htail with rfl | htail
  · exact Or.inr (Or.inl rfl)
  · right
    cases tail with
    | nil => simp at htail
    | cons c tail => exact htail

/-- **Only the testnet.** For every text of `BINANCE_BASE_URL`, whatever `urlsplit` checks about an
authority:

* the validator returns the text without blanks around it and slashes behind it, and it does so
  exactly if this reads, from the left, as `http://` or `https://` in any case, an authority whose
  host is a name of the testnet in any case, and a rest that ends the authority;
* the property `binance_host` of the settings is then one of these two names, and none of the
  names of the real exchange;
* any URL that goes on from there with a slash has the same scheme and the same authority. -/
theorem testnet_only (tables : CaseTables) (accepts : List Char → Bool) (repr : List Char → String)
    (value out : List Char) :
    (enforceTestnetOnly tables accepts repr value = .ok out ↔
      out = rstripChar '/' (strip value) ∧ ∃ scheme netloc, TestnetText accepts out scheme netloc) ∧
    (enforceTestnetOnly tables accepts repr value = .ok out →
      ∃ scheme netloc host, TestnetText accepts out scheme netloc ∧
        binanceHost tables accepts out = some host ∧
        host ∈ allowedBinanceHosts.map String.toList ∧
        host ∉ knownProductionBinanceHosts.map String.toList ∧
        ∀ rest, ∃ p, urlsplit accepts (out ++ '/' :: rest) = some p ∧ p.scheme = scheme ∧
          p.netloc = netloc ∧ parsedHost tables p = host) := by
  have hiff : enforceTestnetOnly tables accepts repr value = .ok out ↔
      out = rstripChar '/' (strip value) ∧ ∃ scheme netloc, TestnetText accepts out scheme netloc := by
    rw [enforceTestnetOnly_eq_ok, urlsplit_testnet_iff]
  refine ⟨hiff, fun hok => ?_⟩
  obtain ⟨-, scheme, netloc, htext⟩ := hiff.mp hok
  obtain ⟨p, hp, hscheme, hnetloc⟩ := htext.urlsplit
  have hallowed : parsedHost tables p ∈ allowedBinanceHosts.map String.toList := by
    rw [parsedHost_allowed_iff, hnetloc]
    exact allowed_host_iff.mpr htext.host
  refine ⟨scheme, netloc, parsedHost tables p, htext, by rw [binanceHost, hp, Option.map_some],
    hallowed, disjoint_hosts hallowed, fun rest => ?_⟩
  obtain ⟨q, hq, hqscheme, hqnetloc⟩ := (htext.append rest).urlsplit
  exact ⟨q, hq, hqscheme, hqnetloc, parsedHost_congr (hqnetloc.trans hnetloc.symm)⟩

example : enforceTestnetOnly asciiTables (fun _ => true) String.ofList
    " HTTPS://key@TestNet.Binance.Vision:443// ".toList =
      .ok "HTTPS://key@TestNet.Binance.Vision:443".toList := by
  decide +kernel

/-! ## Every request of the service -/

/-- **Every request stays on the testnet.** In every run of the service whose client could be
constructed, on the base URL of the settings or on any other: orders go to the endpoint for orders,
or in a dry run to the one that only validates them, and queries to the endpoint for orders; and
with any parameters a request goes to the scheme and the host of the base URL, a host of the
testnet and none of the real exchange. -/
theorem requests_stay_on_testnet (env : Deployment) (httpx : Httpx2)
    {given : Option (List Char)} {settingsUrl : List Char} {base : httpx.Address}
    (hopen : openClient httpx tables repr given settingsUrl = .ok base) {users : List User}
    {clock : DateTime} {ls : List (Label (service env))} {P : Pool (service env)}
    (h : Run (service env).system unguarded (Pool.idle (.initial users clock)) ls P) :
    ∀ x ∈ P.shared.toLedger.requests,
      (x.method = .post →
        x.path = if env.settings.binanceDryRun then "/api/v3/order/test" else "/api/v3/order") ∧
      (x.method = .get → x.path = "/api/v3/order") ∧
      ∀ params,
        httpx.scheme (httpx.target base x.path params) = httpx.scheme base ∧
        httpx.host (httpx.target base x.path params) = httpx.host base ∧
        lower tables (httpx.host base) ∈ allowedBinanceHosts.map String.toList ∧
        lower tables (httpx.host base) ∉ knownProductionBinanceHosts.map String.toList := by
  obtain ⟨g, -, hs⟩ := sound_of_run h (Sound.found _)
  have hallowed := host_of_openClient hopen
  intro x hx
  have hpost : x.method = .post →
      x.path = if env.settings.binanceDryRun then "/api/v3/order/test" else "/api/v3/order" := by
    intro hmethod
    obtain ⟨r, -, text, -, -, rfl⟩ := hs.placed x hx hmethod
    rfl
  have hget : x.method = .get → x.path = "/api/v3/order" := by
    intro hmethod
    obtain ⟨r, -, rfl⟩ := hs.queried x hx hmethod
    rfl
  have hrooted : IsRooted x.path := by
    cases hmethod : x.method with
    | post =>
      rw [hpost hmethod]
      split <;> decide
    | get =>
      rw [hget hmethod]
      decide
  exact ⟨hpost, hget, fun params => ⟨httpx.target_scheme base x.path params hrooted,
    httpx.target_host base x.path params hrooted, hallowed, disjoint_hosts hallowed⟩⟩

namespace Sample

/-- URLs are read as `urlsplit` reads them. -/
def httpx : Httpx2 where
  Address := SplitResult
  parse := urlsplit fun _ => true
  scheme := SplitResult.scheme
  host p := (hostname asciiTables p).getD []
  target base path params :=
    { base with
      path := base.path ++ path.toList
      query := urlencode params }
  target_scheme _ _ _ _ := rfl
  target_host _ _ _ _ := rfl

/-- The address of the testnet, with the slash that the settings strip. -/
def testnetUrl : List Char := "https://testnet.binance.vision/".toList

theorem client_opens :
    (openClient httpx asciiTables String.ofList none testnetUrl).isOk = true := by
  decide +kernel

end Sample

theorem requests_stay_on_testnet_placed : ∃ P base,
    Run (service Sample.inline).system unguarded (Sample.start _) Sample.placed P ∧
      openClient Sample.httpx asciiTables String.ofList none Sample.testnetUrl = .ok base ∧
      ∃ x ∈ P.shared.toLedger.requests, ∀ params,
        Sample.httpx.host (Sample.httpx.target base x.path params) = Sample.httpx.host base ∧
        lower asciiTables (Sample.httpx.host base) ∈ allowedBinanceHosts.map String.toList := by
  have hopens := Sample.client_opens
  cases hopen : openClient Sample.httpx asciiTables String.ofList none Sample.testnetUrl with
  | error e =>
    rw [hopen] at hopens
    cases hopens
  | ok base =>
    have h := System.run_get Sample.placed_follows
    have hne : (((service Sample.inline).system.follow unguarded (Sample.start _)
        Sample.placed).get Sample.placed_follows).shared.toLedger.requests ≠ [] := by decide +kernel
    obtain ⟨x, hx⟩ := List.exists_mem_of_ne_nil _ hne
    refine ⟨_, base, h, rfl, x, hx, fun params => ?_⟩
    obtain ⟨-, hhost, hallowed, -⟩ :=
      (requests_stay_on_testnet Sample.inline Sample.httpx hopen h x hx).2.2 params
    exact ⟨hhost, hallowed⟩

end AutoTrader
