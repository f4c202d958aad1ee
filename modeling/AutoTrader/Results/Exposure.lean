import AutoTrader.Results.WriteAhead
import AutoTrader.System.Queued
import Mathlib.Algebra.Order.BigOperators.Group.List

/-!
# The orders stay within the configured limits

What the service asks the exchange to trade is bounded by the configuration and by the signals
alone. Every single order names an allowed symbol and an amount between the two bounds, and all
orders of a symbol together stay below the upper bound times the number of signals for it,
however often a signal is repeated, queued, resumed or retried.
-/

namespace AutoTrader

open Python Coroutine Transition

/-! ## Amounts by their value -/

namespace Decimal

theorem isFinite_of_value_ne {d : Decimal} (h : d.value ≠ 0) : d.isFinite = true := by
  cases d with
  | finite s c e => rfl
  | infinite _ | nan _ => exact absurd rfl h

theorem lt_congr_left {a a' b : Decimal} (ha : a.isFinite = true) (ha' : a'.isFinite = true)
    (h : a.value = a'.value) : a.lt b = a'.lt b := by
  cases a with
  | infinite _ | nan _ => cases ha
  | finite s c e =>
    cases a' with
    | infinite _ | nan _ => cases ha'
    | finite s' c' e' => cases b <;> simp [Decimal.lt, h]

theorem lt_congr_right {a b b' : Decimal} (hb : b.isFinite = true) (hb' : b'.isFinite = true)
    (h : b.value = b'.value) : a.lt b = a.lt b' := by
  cases b with
  | infinite _ | nan _ => cases hb
  | finite s c e =>
    cases b' with
    | infinite _ | nan _ => cases hb'
    | finite s' c' e' => cases a <;> simp [Decimal.lt, h]

/-- An amount that is not above a bound which is itself below a number. -/
theorem value_le_of_bound {d m b : Decimal} (hd : d.isFinite = true) (hdm : m.lt d = false)
    (hb : b.isFinite = true) (hm : m.lt b = true) : d.value ≤ m.value := by
  cases d with
  | infinite _ | nan _ => cases hd
  | finite s c e =>
    cases b with
    | infinite _ | nan _ => cases hb
    | finite s'' c'' e'' =>
      cases m with
      | nan _ => cases hm
      | infinite neg =>
        cases neg
        · cases hm
        · cases hdm
      | finite s' c' e' =>
        have hnot : ¬ (Decimal.finite s' c' e').value < (Decimal.finite s c e).value :=
          of_decide_eq_false hdm
        exact not_lt.mp hnot

end Decimal

/-! ## What the calls come to -/

namespace HttpRequest

def symbol? (r : HttpRequest) : Option String := r.params.lookup "symbol"

/-- The amount a request asks for. -/
def quantity? (r : HttpRequest) : Option Decimal := (r.params.lookup "quantity").bind Decimal.ofText

/-- An order for this symbol. -/
def orders (r : HttpRequest) (symbol : String) : Bool :=
  r.method = .post && r.symbol? = some symbol

def amount (r : HttpRequest) : ℚ := (r.quantity?.map Decimal.value).getD 0

end HttpRequest

namespace Ledger

/-- The orders for a symbol that were sent. -/
def ordersFor (l : Ledger) (symbol : String) : List HttpRequest :=
  l.requests.filter (HttpRequest.orders · symbol)

/-- What these orders ask for, together. -/
def exposure (l : Ledger) (symbol : String) : ℚ := ((l.ordersFor symbol).map HttpRequest.amount).sum

/-- The ids of the signals for a symbol, each once. -/
def signalIds (l : Ledger) (symbol : String) : List String :=
  ((l.received.filter fun payload => payload.symbol = symbol).map
    TradingViewWebhookPayload.signalId).dedup

theorem mem_received {l : Ledger} {payload : TradingViewWebhookPayload} :
    payload ∈ l.received ↔ .received payload ∈ l.history := by
  simp only [received, List.mem_filterMap]
  constructor
  · rintro ⟨e, he, hp⟩
    cases e <;> cases hp
    exact he
  · intro h
    exact ⟨_, h, rfl⟩

theorem mem_signalIds {l : Ledger} {payload : TradingViewWebhookPayload}
    (h : .received payload ∈ l.history) : payload.signalId ∈ l.signalIds payload.symbol := by
  rw [signalIds, List.mem_dedup]
  exact List.mem_map_of_mem (List.mem_filter.mpr ⟨mem_received.mpr h, by simp⟩)

end Ledger

/-- Items with a key each, no key twice and all keys among `keys`. -/
theorem length_le_of_keys {α κ : Type} {l : List α} {key : α → κ} {keys : List κ}
    (hnodup : (l.map key).Nodup) (hkeys : ∀ a ∈ l, key a ∈ keys) : l.length ≤ keys.length := by
  have hsub : l.map key ⊆ keys := by
    intro k hk
    obtain ⟨a, ha, rfl⟩ := List.mem_map.mp hk
    exact hkeys a ha
  simpa using (hnodup.subperm hsub).length_le

/-! ## One order -/

/-- The request is an order for `payload`, whose amount it carries exactly. -/
structure Asks (x : HttpRequest) (payload : TradingViewWebhookPayload) : Prop where
  symbol : x.symbol? = some payload.symbol
  quantity : ∃ d, x.quantity? = some d ∧ d.isFinite = true ∧ d.value = payload.quantity.value

theorem OrderOf.asks {env : Deployment} {l : Ledger} {x : HttpRequest}
    {payload : TradingViewWebhookPayload} {row : Trade} (h : OrderOf env l x payload row) :
    Asks x payload := by
  obtain ⟨text, rfl, -, d, hd, hvalue⟩ := h.request
  refine ⟨by simp [HttpRequest.symbol?, orderRequest], d, ?_, ?_, hvalue⟩
  · simpa [HttpRequest.quantity?, orderRequest, List.lookup_cons] using hd
  · apply Decimal.isFinite_of_value_ne
    rw [hvalue]
    exact ne_of_gt payload.quantity_pos

/-- What a valid signal asks for is within the bounds, and so is its order. -/
theorem Asks.within {env : Deployment} {x : HttpRequest} {payload : TradingViewWebhookPayload}
    (h : Asks x payload) (hv : validateSignal env payload = .ok ()) :
    payload.symbol ∈ env.settings.allowedSymbolSet ∧ x.symbol? = some payload.symbol ∧
      ∃ d, x.quantity? = some d ∧ 0 < d.value ∧ d.lt env.settings.minOrderQuantity = false ∧
        env.settings.maxOrderQuantity.lt d = false := by
  obtain ⟨hsymbol, hmin, hmax⟩ := validateSignal_ok hv
  obtain ⟨d, hd, hf, hvalue⟩ := h.quantity
  refine ⟨hsymbol, h.symbol, d, hd, hvalue ▸ payload.quantity_pos, ?_, ?_⟩
  · rwa [Decimal.lt_congr_left hf payload.quantity_finite hvalue]
  · rwa [Decimal.lt_congr_right hf payload.quantity_finite hvalue]

/-! ## All orders of a run -/

section Runs

variable {env : Deployment} {users : List User} {clock : DateTime}
  {ls : List (Label (service env))} {P : Pool (service env)}

/-- The order of a symbol goes back to a signal for this symbol. -/
theorem order_of_ordersFor (hmax : env.settings.maxOrderQuantity.lt (.finite false 1 16) = true)
    (h : Run (service env).system unguarded (Pool.idle (.initial users clock)) ls P)
    {symbol : String} {x : HttpRequest} (hx : x ∈ P.shared.toLedger.ordersFor symbol) :
    ∃ payload row, OrderOf env P.shared.toLedger x payload row ∧ payload.symbol = symbol := by
  obtain ⟨g, hs, hA⟩ := accepted_of_run h
  obtain ⟨hmem, horders⟩ := List.mem_filter.mp hx
  simp only [HttpRequest.orders, Bool.and_eq_true, decide_eq_true_eq] at horders
  obtain ⟨payload, row, ho⟩ := orderOf_of_placed hmax hs hA hmem horders.1
  refine ⟨payload, row, ho, ?_⟩
  exact Option.some.inj (ho.asks.symbol.symm.trans horders.2)

/-- No two orders carry one client order id. -/
theorem ordersFor_nodup
    (hmax : env.settings.maxOrderQuantity.lt (.finite false 1 16) = true)
    (h : Run (service env).system unguarded (Pool.idle (.initial users clock)) ls P)
    (symbol : String) : ((P.shared.toLedger.ordersFor symbol).map HttpRequest.placed?).Nodup := by
  obtain ⟨g, -, hs⟩ := sound_of_run h (Sound.found _)
  rw [List.nodup_iff_count_le_one]
  intro c
  cases c with
  | none =>
    rw [List.count_eq_zero_of_not_mem]
    · exact Nat.zero_le 1
    · intro hc
      obtain ⟨x, hx, hnone⟩ := List.mem_map.mp hc
      obtain ⟨payload, row, ho, -⟩ := order_of_ordersFor hmax h hx
      obtain ⟨text, rfl, -⟩ := ho.request
      rw [orderRequest_placed?] at hnone
      cases hnone
  | some c =>
    calc ((P.shared.toLedger.ordersFor symbol).map HttpRequest.placed?).count (some c)
        ≤ (P.shared.toLedger.requests.map HttpRequest.placed?).count (some c) :=
          (List.filter_sublist.map _).count_le _
      _ = P.shared.toLedger.posted c := by
          simp [List.count, List.countP_map, Ledger.posted, Function.comp_def, beq_eq_decide]
      _ ≤ 1 := hs.postedOnce c

/-- **The orders stay within the configured limits.** In every run, for orders below 10^16:

* every POST names one of the allowed symbols, and its quantity, read back from the text that is
  sent, is positive and neither below the minimum nor above the maximum;
* for each symbol there are at most as many POSTs as there are ids of received signals for it;
* all POSTs of a symbol together ask for at most their number times the maximum. -/
theorem orders_within_limits (env : Deployment)
    (hmax : env.settings.maxOrderQuantity.lt (.finite false 1 16) = true) {users : List User}
    {clock : DateTime} {ls : List (Label (service env))} {P : Pool (service env)}
    (h : Run (service env).system unguarded (Pool.idle (.initial users clock)) ls P) :
    (∀ x ∈ P.shared.toLedger.requests, x.method = .post →
      ∃ symbol ∈ env.settings.allowedSymbolSet, x.symbol? = some symbol ∧
        ∃ d, x.quantity? = some d ∧ 0 < d.value ∧ d.lt env.settings.minOrderQuantity = false ∧
          env.settings.maxOrderQuantity.lt d = false) ∧
    ∀ symbol,
      (P.shared.toLedger.ordersFor symbol).length ≤ (P.shared.toLedger.signalIds symbol).length ∧
      P.shared.toLedger.exposure symbol ≤
        (P.shared.toLedger.ordersFor symbol).length * env.settings.maxOrderQuantity.value := by
  obtain ⟨g, hs, hA⟩ := accepted_of_run h
  refine ⟨?_, fun symbol => ⟨?_, ?_⟩⟩
  · intro x hx hpost
    obtain ⟨payload, row, ho⟩ := orderOf_of_placed hmax hs hA hx hpost
    exact ⟨payload.symbol, ho.asks.within ho.origin.2.1⟩
  · -- an order is counted under the client order id of its signal
    rw [← List.length_map (f := fun id => some (buildClientOrderId env id))]
    refine length_le_of_keys (ordersFor_nodup hmax h symbol) ?_
    intro x hx
    obtain ⟨payload, row, ho, rfl⟩ := order_of_ordersFor hmax h hx
    obtain ⟨text, rfl, -⟩ := ho.request
    rw [orderRequest_placed?]
    exact List.mem_map_of_mem (Ledger.mem_signalIds ho.origin.1)
  · have hle := List.sum_le_card_nsmul
      ((P.shared.toLedger.ordersFor symbol).map HttpRequest.amount)
      env.settings.maxOrderQuantity.value (by
        intro q hq
        obtain ⟨x, hx, rfl⟩ := List.mem_map.mp hq
        obtain ⟨payload, row, ho, -⟩ := order_of_ordersFor hmax h hx
        obtain ⟨-, -, d, hd, hpos, -, hbound⟩ := ho.asks.within ho.origin.2.1
        simp only [HttpRequest.amount, hd, Option.map_some, Option.getD_some]
        exact Decimal.value_le_of_bound (Decimal.isFinite_of_value_ne (ne_of_gt hpos)) hbound rfl
          hmax)
    rwa [List.length_map, nsmul_eq_mul] at hle

end Runs

/-- The order of the sample run. -/
theorem orders_within_limits_placed :
    ∃ P, Run (service Sample.inline).system unguarded (Sample.start _) Sample.placed P ∧
      P.shared.toLedger.exposure "BTCUSDT" = 1 / 1000 ∧
      P.shared.toLedger.exposure "BTCUSDT" ≤
        (P.shared.toLedger.ordersFor "BTCUSDT").length *
          Sample.inline.settings.maxOrderQuantity.value := by
  have h := System.run_get Sample.placed_follows
  refine ⟨_, h, ?_, ((orders_within_limits Sample.inline (by decide +kernel) h).2 "BTCUSDT").2⟩
  decide +kernel

end AutoTrader
