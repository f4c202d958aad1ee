import AutoTrader.Api.Webhook
import AutoTrader.Results.OrderBook
import AutoTrader.Results.Serialisable

/-!
# Behind the gate

A signal reaches the service in a request only, and the route hands over only what carries the
shared secret. So every row, every POST and every order the exchange holds goes back to a
request with the secret, however many requests arrive without it and whatever the threads,
processes and the exchange do meanwhile; and the requests that are turned away leave no trace:
without them the system is in the same state.
-/

namespace AutoTrader.Webhook

open Python Coroutine Transition

variable {env : Deployment} {secret : String}

/-! ## Requests and the threads that serve them -/

/-- A request that is turned away performs no operation. -/
theorem tradingviewWebhook_refused {r : Request} {e : Failure} (h : signalOf secret r = .error e) :
    tradingviewWebhook env secret r = .pure (.error e.response) := by
  rw [tradingviewWebhook, h]

/-- Any other performs those of the thread that its signal starts. -/
theorem tradingviewWebhook_passed {r : Request} {payload : TradingViewWebhookPayload}
    (h : signalOf secret r = .ok payload) :
    (tradingviewWebhook env secret r).bind (fun _ => .pure ()) =
      (Task.request payload).program env := by
  rw [tradingviewWebhook, h]
  exact Free.bind_assoc _ _ _

/-- What happens at a deployed service. -/
inductive Occurrence (env : Deployment)
  | delivered (process : Nat) (r : Request)
  /-- Anything but the arrival of a signal. -/
  | other (l : Label (service env))

structure Site (env : Deployment) where
  pool : Pool (service env)
  /-- Every request so far, oldest first. -/
  requests : List Request

def isSignal : Label (service env) → Bool
  | .event (.webhook _ _) => true
  | _ => false

/-- The service behind its route. -/
def site (env : Deployment) (secret : String) : System (Site env) (Occurrence env) where
  step x
    | .delivered p r =>
      match signalOf secret r with
      | .error _ => some ⟨x.pool, x.requests ++ [r]⟩
      | .ok payload =>
        ((service env).system.step x.pool (.event (.webhook p payload))).map
          fun P => ⟨P, x.requests ++ [r]⟩
    | .other l =>
      if isSignal l then none
      else ((service env).system.step x.pool l).map fun P => ⟨P, x.requests⟩

/-- No request yet. -/
def Site.opened (P : Pool (service env)) : Site env := ⟨P, []⟩

/-- The request gets through to the service. -/
def isPassed (secret : String) (r : Request) : Bool := (signalOf secret r).isOk

def Occurrence.isPassed (secret : String) : Occurrence env → Bool
  | delivered _ r => Webhook.isPassed secret r
  | other _ => true

/-- What the service sees of it. -/
def Occurrence.label? (secret : String) : Occurrence env → Option (Label (service env))
  | delivered p r =>
    match signalOf secret r with
    | .error _ => none
    | .ok payload => some (.event (.webhook p payload))
  | other l => some l

/-- Everything a step can do. -/
inductive Turned (secret : String) (x y : Site env) : Occurrence env → Prop
  | refused (p : Nat) (r : Request) (e : Failure) (refused : signalOf secret r = .error e)
      (state : y = ⟨x.pool, x.requests ++ [r]⟩) : Turned secret x y (.delivered p r)
  | passed (p : Nat) (r : Request) (payload : TradingViewWebhookPayload)
      (passed : signalOf secret r = .ok payload)
      (step : (service env).system.step x.pool (.event (.webhook p payload)) = some y.pool)
      (requests : y.requests = x.requests ++ [r]) : Turned secret x y (.delivered p r)
  | other (l : Label (service env)) (noSignal : isSignal l = false)
      (step : (service env).system.step x.pool l = some y.pool)
      (requests : y.requests = x.requests) : Turned secret x y (.other l)

theorem turned_of_step {x y : Site env} {a : Occurrence env}
    (h : (site env secret).step x a = some y) : Turned secret x y a := by
  cases a with
  | delivered p r =>
    simp only [site] at h
    split at h
    · rename_i e he
      exact .refused p r e he (Option.some.inj h).symm
    · rename_i payload hpayload
      obtain ⟨P, hP, rfl⟩ := Option.map_eq_some_iff.mp h
      exact .passed p r payload hpayload hP rfl
  | other l =>
    simp only [site] at h
    split at h
    · cases h
    · rename_i hl
      obtain ⟨P, hP, rfl⟩ := Option.map_eq_some_iff.mp h
      exact .other l (by simpa using hl) hP rfl

section Runs

variable {P : Pool (service env)} {rs : List Request} {as : List (Occurrence env)} {x : Site env}

/-- To the service it is a run. -/
theorem service_run (h : Run (site env secret) unguarded ⟨P, rs⟩ as x) :
    Run (service env).system unguarded P (as.filterMap (Occurrence.label? secret)) x.pool := by
  induction h with
  | nil => exact .nil
  | snoc _ _ hs ih =>
    rw [List.filterMap_append]
    cases turned_of_step hs with
    | refused p r e he hstate =>
      subst hstate
      simpa [Occurrence.label?, he] using ih
    | passed p r payload hpayload hstep =>
      have hlast := Run.snoc ih trivial hstep
      simpa [Occurrence.label?, hpayload] using hlast
    | other l _ hstep => exact .snoc ih trivial hstep

/-- Every signal that was received came in a request that got through. -/
def Site.Accounted (secret : String) (x : Site env) : Prop :=
  ∀ payload ∈ x.pool.shared.toLedger.received, ∃ r ∈ x.requests, signalOf secret r = .ok payload

/-- What a step of the service adds to the received signals. -/
theorem received_step {P Q : Pool (service env)} {l : Label (service env)}
    (h : (service env).system.step P l = some Q) :
    Q.shared.toLedger.received = P.shared.toLedger.received ∨
      ∃ p payload, l = .event (.webhook p payload) ∧
        Q.shared.toLedger.received = P.shared.toLedger.received ++ [payload] := by
  cases l with
  | act i c =>
    obtain ⟨tag, o, next, r, w, -, hx, rfl⟩ := Host.step_act h
    exact Or.inl (Answered.received_exec env hx)
  | event e =>
    obtain ⟨y, hy, rfl⟩ := Host.step_event h
    obtain ⟨-, -, -, hist⟩ := react_ledger hy
    rcases hist with hist | ⟨p, payload, rfl, -, hist⟩
    · exact Or.inl (congrArg (List.filterMap Entry.received?) hist)
    · refine Or.inr ⟨p, payload, rfl, ?_⟩
      change y.shared.history.filterMap Entry.received? = _
      rw [hist, List.filterMap_append]
      rfl

theorem Site.Accounted.step {y : Site env} {a : Occurrence env} (h : x.Accounted secret)
    (hs : (site env secret).step x a = some y) : y.Accounted secret := by
  cases turned_of_step hs with
  | refused p r e he hstate =>
    subst hstate
    intro payload hpayload
    obtain ⟨r', hr', hsignal⟩ := h payload hpayload
    exact ⟨r', List.mem_append_left _ hr', hsignal⟩
  | passed p r payload hsignal hstep hrequests =>
    intro payload' hpayload'
    rw [hrequests]
    rcases received_step hstep with hsame | ⟨p', payload'', heq, hmore⟩
    · rw [hsame] at hpayload'
      obtain ⟨r', hr', hsignal'⟩ := h payload' hpayload'
      exact ⟨r', List.mem_append_left _ hr', hsignal'⟩
    · cases heq
      rw [hmore, List.mem_append, List.mem_singleton] at hpayload'
      rcases hpayload' with hold | rfl
      · obtain ⟨r', hr', hsignal'⟩ := h payload' hold
        exact ⟨r', List.mem_append_left _ hr', hsignal'⟩
      · exact ⟨r, List.mem_append_right _ List.mem_cons_self, hsignal⟩
  | other l hl hstep hrequests =>
    intro payload hpayload
    rw [hrequests]
    rcases received_step hstep with hsame | ⟨p, payload', rfl, -⟩
    · rw [hsame] at hpayload
      exact h payload hpayload
    · cases hl

/-- Without the requests that are turned away the run ends in the same state. -/
theorem run_passed {y : Site env} (h : Run (site env secret) unguarded x as y) :
    Run (site env secret) unguarded ⟨x.pool, x.requests.filter (isPassed secret)⟩
      (as.filter (Occurrence.isPassed secret))
      ⟨y.pool, y.requests.filter (isPassed secret)⟩ := by
  induction h with
  | nil => exact .nil
  | snoc _ _ hs ih =>
    rw [List.filter_append]
    cases turned_of_step hs with
    | refused p r e he hstate =>
      have hrefused : isPassed secret r = false := by rw [isPassed, he]; rfl
      subst hstate
      simpa [Occurrence.isPassed, hrefused] using ih
    | passed p r payload hsignal hstep hrequests =>
      have hpassed : isPassed secret r = true := by rw [isPassed, hsignal]; rfl
      rw [hrequests, List.filter_append, List.filter_cons_of_pos hpassed, List.filter_nil,
        List.filter_cons_of_pos (by exact hpassed), List.filter_nil]
      refine .snoc ih trivial ?_
      simp only [site, hsignal, hstep, Option.map_some]
    | other l hl hstep hrequests =>
      rw [hrequests, List.filter_cons_of_pos rfl, List.filter_nil]
      refine .snoc ih trivial ?_
      simp only [site, hl, hstep, Option.map_some]
      rfl

end Runs

/-! ## The result -/

/-- The row goes back to a request with the secret, by the signal that it carried. -/
def Site.Vouches (x : Site env) (secret : String) (row : Trade) : Prop :=
  ∃ r ∈ x.requests, ∃ payload, r.Carries secret ∧ r.Reads payload ∧
    FromSignal env x.pool.shared.toLedger row payload

theorem vouched_of_run {users : List User} {clock : DateTime} {as : List (Occurrence env)}
    {x : Site env}
    (h : Run (site env secret) unguarded (.opened (Pool.idle (.initial users clock))) as x) :
    ∀ row ∈ x.pool.shared.trades.rows, x.Vouches secret row := by
  intro row hrow
  obtain ⟨g, -, hA⟩ := accepted_of_run (service_run h)
  have haccounted : x.Accounted secret :=
    h.invariant (I := fun y => y.Accounted secret) (fun _ hp => (by cases hp))
      fun a b c ha _ hstep => ha.step hstep
  obtain ⟨payload, hfrom⟩ := hA.rows row hrow
  obtain ⟨r, hr, hsignal⟩ := haccounted payload (Ledger.mem_received.mpr hfrom.1)
  obtain ⟨hcarries, hreads⟩ := signalOf_ok hsignal
  exact ⟨r, hr, payload, hcarries, hreads, hfrom⟩

/-- **Nothing is ordered without the secret.** In every run of the service behind its route:

* every row goes back to a request that carried the secret and whose body is its signal;
* every POST that was sent, and every order the exchange holds, is that of such a row;
* without the requests that were turned away the run leads to the same state. -/
theorem orders_carry_the_secret (env : Deployment) (secret : String) {users : List User}
    {clock : DateTime} {as : List (Occurrence env)} {x : Site env}
    (h : Run (site env secret) unguarded (.opened (Pool.idle (.initial users clock))) as x) :
    (∀ row ∈ x.pool.shared.trades.rows, x.Vouches secret row) ∧
    (∀ q ∈ x.pool.shared.toLedger.requests, q.method = .post →
      ∃ row ∈ x.pool.shared.trades.rows, x.Vouches secret row ∧
        ∃ text, formatDecimal row.quantity = some text ∧ q = orderFor env row text) ∧
    (∀ o ∈ x.pool.shared.book, ∃ row ∈ x.pool.shared.trades.rows, x.Vouches secret row ∧
      row.clientOrderId = o.clientOrderId) ∧
    Run (site env secret) unguarded (.opened (Pool.idle (.initial users clock)))
      (as.filter (Occurrence.isPassed secret))
      ⟨x.pool, x.requests.filter (isPassed secret)⟩ := by
  have hservice := service_run h
  obtain ⟨g, hs, -⟩ := accepted_of_run hservice
  have hB := booked_of_run hservice
  have hrows := vouched_of_run h
  have hposts : ∀ q ∈ x.pool.shared.toLedger.requests, q.method = .post →
      ∃ row ∈ x.pool.shared.trades.rows, x.Vouches secret row ∧
        ∃ text, formatDecimal row.quantity = some text ∧ q = orderFor env row text := by
    intro q hq hpost
    obtain ⟨row, hrow, text, -, htext, hrequest⟩ := hs.placed q hq hpost
    exact ⟨row, hrow, hrows row hrow, text, htext, hrequest⟩
  refine ⟨hrows, hposts, ?_, run_passed h⟩
  intro o ho
  -- the order was created by a POST
  obtain ⟨k, call, hk, hplaced, -⟩ := hB.placed _ (List.mem_map_of_mem ho)
  have hpost : call.request.method = .post := by
    by_contra hne
    rw [HttpRequest.placed?, if_neg hne] at hplaced
    cases hplaced
  obtain ⟨row, hrow, hvouched, text, -, hrequest⟩ :=
    hposts _ (List.mem_map_of_mem (List.mem_of_getElem? hk)) hpost
  refine ⟨row, hrow, hvouched, ?_⟩
  rw [hrequest, orderFor, orderRequest_placed?] at hplaced
  exact Option.some.inj hplaced

namespace Sample

open AutoTrader.Sample (inline start placed filled)

def sharedSecret : String := "0123456789abcdef"

/-- `{"signal_id": " sig-1 ", "symbol": "btcusdt", "action": "buy", "quantity": "0.001"}`, and a
secret. -/
def body (secret : Option String) : Body :=
  ⟨⟨" sig-1 ", "btcusdt", "buy", .finite false 1 (-3)⟩, secret⟩

/-- With a wrong secret. -/
def guess : Request := ⟨some "0123456789abcdeF", some (body none)⟩

/-- With the secret in its body. -/
def alert : Request := ⟨none, some (body (some sharedSecret))⟩

/-- The guess is turned away, and the order of the alert is placed and filled. -/
def alerted : List (Occurrence inline) :=
  [.delivered 0 guess, .delivered 0 alert] ++ (placed.drop 1).map .other

theorem alerted_ends :
    ((site inline sharedSecret).follow unguarded (.opened (start inline)) alerted).map
      (fun x => (x.pool.shared.book, x.requests.length)) = some ([filled], 2) := by
  decide +kernel

end Sample

theorem orders_carry_the_secret_alerted :
    ∃ x, Run (site AutoTrader.Sample.inline Sample.sharedSecret) unguarded
        (.opened (AutoTrader.Sample.start AutoTrader.Sample.inline)) Sample.alerted x ∧
      x.pool.shared.book = [AutoTrader.Sample.filled] ∧ x.requests.length = 2 ∧
      ∀ o ∈ x.pool.shared.book, ∃ row ∈ x.pool.shared.trades.rows,
        x.Vouches Sample.sharedSecret row ∧ row.clientOrderId = o.clientOrderId := by
  obtain ⟨x, hx, hends⟩ := Option.map_eq_some_iff.mp Sample.alerted_ends
  have h := System.run_of_follow hx
  obtain ⟨hbook, hcount⟩ := Prod.mk.inj hends
  exact ⟨x, h, hbook, hcount,
    (orders_carry_the_secret AutoTrader.Sample.inline Sample.sharedSecret h).2.2.1⟩

end AutoTrader.Webhook
