import AutoTrader.Core.Validators
import AutoTrader.Results.Gate

/-!
# Secrets that anybody knows

The settings refuse a webhook secret that is too short, and the example secrets in every
spelling. So whoever tries these gets nowhere, in any number of requests, while the gate opens to
every request with the secret and a signal.
-/

namespace AutoTrader.Webhook

open Python Coroutine Transition

variable {tables : CaseTables} {value secret : String} {env : Deployment}

/-- The settings would refuse the text as the secret. -/
def Guessable (tables : CaseTables) (text : String) : Prop :=
  text.toList.length < 16 ∨ IsPlaceholder tables text

theorem not_guessable (h : webhookSecret tables value = .ok secret) :
    ¬ Guessable tables secret := by
  obtain ⟨rfl, hlength, hplaceholder⟩ := validateSecret_eq_ok.mp h
  rintro (hshort | hsecret)
  · exact absurd hshort (not_lt.mpr hlength)
  · exact hplaceholder hsecret

/-- **The gate is exact**: an accepted secret is not empty. -/
theorem signalOf_accepted (h : webhookSecret tables value = .ok secret) {r : Request}
    {payload : TradingViewWebhookPayload} :
    signalOf secret r = .ok payload ↔ r.Carries secret ∧ r.Reads payload := by
  refine signalOf_eq_ok_iff fun hempty => not_guessable h (Or.inl ?_)
  rw [hempty]
  decide

theorem not_carried (h : webhookSecret tables value = .ok secret) {r : Request}
    (hguess : ∀ text, r.Carries text → Guessable tables text) : ¬ r.Carries secret :=
  fun hcarries => not_guessable h (hguess secret hcarries)

/-- **Guesses get nowhere.** Where the settings have accepted the webhook secret, the gate opens to
the requests with the secret and a signal and to no others. In every run in which all requests try
texts that the settings would have refused, whatever else happens meanwhile, none of them gets
through, and there is no trade, no request to the exchange and no order; the run leads to where it
leads without the requests. -/
theorem guesses_get_nowhere (hsecret : webhookSecret tables value = .ok secret)
    {users : List User} {clock : DateTime} {as : List (Occurrence env)} {x : Site env}
    (h : Run (site env secret) unguarded (.opened (Pool.idle (.initial users clock))) as x)
    (hguess : ∀ r ∈ x.requests, ∀ text, r.Carries text → Guessable tables text) :
    (∀ r payload, signalOf secret r = .ok payload ↔ r.Carries secret ∧ r.Reads payload) ∧
    x.requests.filter (isPassed secret) = [] ∧ x.pool.shared.trades.rows = [] ∧
    x.pool.shared.toLedger.requests = [] ∧ x.pool.shared.book = [] ∧
    Run (site env secret) unguarded (.opened (Pool.idle (.initial users clock)))
      (as.filter (Occurrence.isPassed secret)) (.opened x.pool) := by
  have hrefused : x.requests.filter (isPassed secret) = [] := by
    refine List.filter_eq_nil_iff.mpr fun r hr hpassed => ?_
    cases hsignal : signalOf secret r with
    | error e =>
      rw [isPassed, hsignal] at hpassed
      cases hpassed
    | ok payload => exact not_carried hsecret (hguess r hr) (signalOf_ok hsignal).1
  have hrows : x.pool.shared.trades.rows = [] := by
    rw [List.eq_nil_iff_forall_not_mem]
    intro row hrow
    obtain ⟨r, hr, payload, hcarries, -⟩ := vouched_of_run h row hrow
    exact not_carried hsecret (hguess r hr) hcarries
  have hservice := service_run h
  obtain ⟨g, hs, -⟩ := accepted_of_run hservice
  have hrequests : x.pool.shared.toLedger.requests = [] := by
    rw [List.eq_nil_iff_forall_not_mem]
    intro q hq
    cases hmethod : q.method with
    | post =>
      obtain ⟨row, hrow, -⟩ := hs.placed q hq hmethod
      rw [hrows] at hrow
      cases hrow
    | get =>
      obtain ⟨row, hrow, -⟩ := hs.queried q hq hmethod
      rw [hrows] at hrow
      cases hrow
  refine ⟨fun r payload => signalOf_accepted hsecret, hrefused, hrows, hrequests, ?_, ?_⟩
  · -- an order would have come with a POST
    rw [List.eq_nil_iff_forall_not_mem]
    intro o ho
    obtain ⟨k, call, hk, -⟩ := (booked_of_run hservice).placed _ (List.mem_map_of_mem ho)
    have hcall : call.request ∈ x.pool.shared.toLedger.requests :=
      List.mem_map_of_mem (List.mem_of_getElem? hk)
    rw [hrequests] at hcall
    cases hcall
  · have hpassed := run_passed h
    rw [hrefused] at hpassed
    exact hpassed

namespace Sample

/-- The secret of the example file, in capitals. -/
def example16 : Request :=
  ⟨some " REPLACE_WITH_A_RANDOM_STRING_AT_LEAST_16_CHARS", some (body none)⟩

theorem example16_guessable {text : String} (h : example16.Carries text) :
    Guessable asciiTables text := by
  rcases h with h | ⟨b, hb, h⟩
  · cases h
    exact Or.inr (by decide +kernel)
  · cases hb
    cases h

theorem sharedSecret_accepted :
    webhookSecret asciiTables sharedSecret = .ok sharedSecret := by
  decide +kernel

theorem example16_run (P : Pool (service env)) : Run (site env sharedSecret) unguarded (.opened P)
    [.delivered 0 example16] ⟨P, [example16]⟩ := by
  refine .single trivial ?_
  cases hsignal : signalOf sharedSecret example16 with
  | error e =>
    simp only [site, hsignal]
    rfl
  | ok payload =>
    have hcarries := (signalOf_ok hsignal).1
    exact absurd hcarries (not_carried sharedSecret_accepted fun _ => example16_guessable)

end Sample

theorem guesses_get_nowhere_example :
    ∃ x, Run (site AutoTrader.Sample.inline Sample.sharedSecret) unguarded
        (.opened (AutoTrader.Sample.start AutoTrader.Sample.inline))
        [.delivered 0 Sample.example16] x ∧
      x.requests = [Sample.example16] ∧ x.pool.shared.trades.rows = [] := by
  have hrun := Sample.example16_run (AutoTrader.Sample.start AutoTrader.Sample.inline)
  refine ⟨_, hrun, rfl, (guesses_get_nowhere Sample.sharedSecret_accepted hrun ?_).2.2.1⟩
  intro r hr text htext
  obtain rfl : r = Sample.example16 := List.mem_singleton.mp hr
  exact Sample.example16_guessable htext

end AutoTrader.Webhook
