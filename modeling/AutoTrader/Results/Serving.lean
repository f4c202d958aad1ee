import AutoTrader.Results.Asking
import AutoTrader.Results.FailedCommit

/-!
# Whether a recorded order can be served

An amount of a reply goes through a converter that takes any text `Decimal` takes, and
`Decimal` takes the names of the infinities and of NaN. The column does not take an infinity,
but a NaN is committed, and from then on the serialiser raises on the row: every page of the
list that the row is on fails as a whole.
-/

namespace AutoTrader

open Python Coroutine UnitOfWork

/-! ## The converter -/

/-- A field of a reply has a value of which `str` names an infinity or a NaN. -/
def nonFiniteAmount (repr : ReprText) (fields : List (String × Json)) (key : String) : Bool :=
  match Json.get fields key with
  | some v => v.truthy && Decimal.namesNonFinite (v.toStr repr)
  | none => false

theorem ofText_isFinite (s : String) :
    ((Decimal.ofText s).getD (.finite false 0 0)).isFinite = !Decimal.namesNonFinite s := by
  rw [← Decimal.ofText_nonFinite]
  cases Decimal.ofText s with
  | none => rfl
  | some d => simp

theorem namesNonFinite_zero : Decimal.namesNonFinite "0" = false := by decide

/-- What the converter lets through. -/
theorem decimalField_isFinite (repr : ReprText) (fields : List (String × Json)) (key : String) :
    (BinanceOrderResult.decimalField repr fields key).isFinite =
      !nonFiniteAmount repr fields key := by
  simp only [BinanceOrderResult.decimalField, nonFiniteAmount]
  rw [ofText_isFinite]
  apply congrArg
  cases Json.get fields key with
  | none => exact namesNonFinite_zero
  | some v =>
    cases hv : v.truthy with
    | true => simp [hv]
    | false => simpa [hv, Json.toStr] using namesNonFinite_zero

theorem isFinite_of_eqv {d x : Decimal} (h : (d == x) = true) : x.isFinite = d.isFinite := by
  cases d with
  | finite =>
    cases x with
    | finite => rfl
    | infinite | nan => cases h
  | infinite =>
    cases x with
    | infinite => rfl
    | finite | nan => cases h
  | nan => cases x <;> cases h

/-- After the flush from a fresh copy the column is finite exactly when the assigned value
is. -/
theorem numeric_flush_isFinite (loaded : Option Decimal) (d : Decimal) :
    (numeric.flush loaded (some (some d)) loaded).all Decimal.isFinite = d.isFinite := by
  have hstore : (Option.map Decimal.store (some d)).all Decimal.isFinite = d.isFinite := by
    cases d <;> rfl
  unfold Attribute.flush
  cases loaded with
  | none => exact hstore
  | some x =>
    simp only []
    split
    · rename_i hsame
      exact isFinite_of_eqv hsame
    · exact hstore

/-! ## The commit of a reply -/

/-- The two places where a row is made of a reply. -/
inductive Recording
  | submission
  | reconciliation

namespace Recording

/-- The request whose reply it is. -/
def request (env : Deployment) (t : Trade) (text : String) : Recording → HttpRequest
  | submission => orderFor env t text
  | reconciliation => queryRequest t.symbol t.clientOrderId

/-- The world that `submit_to_binance` or `reconcile_trade` leaves. -/
def run (S : Scene) (env : Deployment) (i : Nat) (tag : Tag) (w : World) (t : Trade) :
    Recording → Option World
  | submission => (S.run env i tag ((submitToBinance env).exec (.fresh t)) w).map Prod.snd
  | reconciliation => (S.run env i tag ((reconcileTrade env).exec (.fresh t)) w).map Prod.snd

/-- What is assigned when the order is the one in the reply. -/
def edits (result : BinanceOrderResult) (now : DateTime) : Recording → Edits
  | submission => successEdits result
  | reconciliation => foundEdits result now

end Recording

section Commit

variable {S : Scene} {env : Deployment} {i : Nat} {tag : Tag} {w : World} {t : Trade}
  {text : String} {fields : List (String × Json)} {result : BinanceOrderResult}

/-- The world when the request has been sent. -/
def Recording.sent (env : Deployment) (w : World) (t : Trade) (text : String) : Recording → World
  | .submission => w.placing env t text
  | .reconciliation => w.asking t

theorem Recording.sent_eq (x : Recording) :
    (x.sent env w t text).trades = w.trades ∧ (x.sent env w t text).clock = w.clock ∧
      (x.sent env w t text).history = w.history := by
  cases x <;> exact ⟨rfl, rfl, rfl⟩

variable (i tag) in
/-- An order that the client made a result of is committed, unless the commit fails. -/
theorem Recording.run_submission (htext : formatDecimal t.quantity = some text)
    (h : submissionOutcome env t (S.ends (orderFor env t text)) = .ok (.settled result)) :
    Recording.submission.run S env i tag w t =
      match S.refusal w.clock t (successEdits result) with
      | none => some ((w.placing env t text).recording t (successEdits result))
      | some _ => some (w.placing env t text) := by
  rw [Recording.run, Scene.run_submit htext, afterCall, h]
  simp only [settle, Outcome.edits, Scene.run_commit]
  rw [show (w.placing env t text).clock = w.clock from rfl]
  cases S.refusal w.clock t (successEdits result) <;> rfl

variable (i tag) in
theorem Recording.run_reconciliation (hopen : t.isTerminal = false)
    (h : S.answer env t = .ok (some result)) :
    Recording.reconciliation.run S env i tag w t =
      match S.refusal w.clock t (foundEdits result w.clock) with
      | none => some ((w.asking t).recording t (foundEdits result w.clock))
      | some _ => some (w.asking t) := by
  rw [Recording.run, Scene.run_reconcile hopen]
  simp only [Scene.after, h, answerEdits, Option.map_some]
  cases S.refusal w.clock t (foundEdits result w.clock) <;> rfl

end Commit

/-- If a row of `t` is committed, its amounts are finite, it is serialised, and no page of a
list that it is on fails because of it. -/
def ServesRecorded (S : Scene) (env : Deployment) (i : Nat) (tag : Tag) (w : World) (t : Trade)
    (x : Recording) : Prop :=
  ∃ u, x.run S env i tag w t = some u ∧
    ∀ e, .recorded t e ∈ u.history.drop w.history.length →
      ∃ row, u.trades.find? t.id = some row ∧
        row.executedQuantity.all Decimal.isFinite ∧
        row.cumulativeQuoteQuantity.all Decimal.isFinite ∧
        (TradeRead.ofTrade row).isSome ∧
        ∀ user limit offset status,
          row ∈ (listTradesForUser u.trades user limit offset status).1 →
          (∀ s ∈ (listTradesForUser u.trades user limit offset status).1, s.id ≠ t.id →
            (TradeRead.ofTrade s).isSome) →
          (listTrades u.trades user limit offset status).isSome

section Serving

variable {S : Scene} {env : Deployment} {i : Nat} {tag : Tag} {w : World} {t : Trade}
  {text : String} {fields : List (String × Json)} {x : Recording}

/-- Nothing is committed. -/
theorem servesRecorded_of_uncommitted (h : x.run S env i tag w t = some (x.sent env w t text)) :
    ServesRecorded S env i tag w t x := by
  refine ⟨_, h, ?_⟩
  intro e he
  rw [x.sent_eq.2.2, List.drop_length] at he
  cases he

/-- A row is committed, with these amounts. -/
theorem servesRecorded_recording {e : Edits} {executed quote : Decimal} (ht : t ∈ w.trades.rows)
    (hquantity : t.quantity.isFinite = true) (hexecuted : e.executedQuantity = some (some executed))
    (hquote : e.cumulativeQuoteQuantity = some (some quote))
    (h : x.run S env i tag w t = some ((x.sent env w t text).recording t e)) :
    ServesRecorded S env i tag w t x ↔ executed.isFinite = true ∧ quote.isFinite = true := by
  obtain ⟨htrades, hclock, hhistory⟩ : (x.sent env w t text).trades = w.trades ∧
      (x.sent env w t text).clock = w.clock ∧ (x.sent env w t text).history = w.history :=
    x.sent_eq
  have hrow : ((x.sent env w t text).recording t e).trades.find? t.id =
      some (e.flush t w.clock t) := by
    rw [← hclock]
    exact World.find?_recording (by rwa [htrades]) e
  have hexecuted' : (e.flush t w.clock t).executedQuantity.all Decimal.isFinite =
      executed.isFinite := by
    simp only [Edits.flush, hexecuted]
    exact numeric_flush_isFinite _ _
  have hquote' : (e.flush t w.clock t).cumulativeQuoteQuantity.all Decimal.isFinite =
      quote.isFinite := by
    simp only [Edits.flush, hquote]
    exact numeric_flush_isFinite _ _
  constructor
  · rintro ⟨u, hu, hserves⟩
    rw [h] at hu
    cases hu
    have hentry : ((x.sent env w t text).recording t e).history = w.history ++ [.recorded t e] :=
      congrArg (· ++ [Entry.recorded t e]) hhistory
    obtain ⟨row, hfind, hfinite, hfinite', -⟩ := hserves e (by simp [hentry])
    rw [hrow] at hfind
    cases hfind
    rw [hexecuted'] at hfinite
    rw [hquote'] at hfinite'
    exact ⟨hfinite, hfinite'⟩
  · rintro ⟨hfinite, hfinite'⟩
    have hserved : (TradeRead.ofTrade (e.flush t w.clock t)).isSome = true := by
      rw [TradeRead.ofTrade_isSome, hexecuted', hquote', hfinite, hfinite']
      simpa [Edits.flush] using hquantity
    refine ⟨_, h, fun _ _ => ⟨_, hrow, ?_, ?_, hserved, ?_⟩⟩
    · rw [hexecuted', hfinite]
    · rw [hquote', hfinite']
    · intro user limit offset status _ hothers
      refine listTrades_isSome_iff.mpr fun s hs => ?_
      by_cases hid : s.id = t.id
      · have hs' : s ∈ ((x.sent env w t text).recording t e).trades.rows :=
          mem_listTradesForUser hs
        rw [TradeTable.find?_eq_some.mpr ⟨hs', hid⟩] at hrow
        rw [Option.some.inj hrow]
        exact hserved
      · exact hothers s hs hid

/-- What the client makes of a reply that is an object. -/
theorem handleTransport_object {r : Response} (hok : r.statusCode < 300)
    (hbody : r.body = .json (.obj fields)) : handleTransport (.response r) = .ok fields := by
  simp only [handleTransport, handleResponse_success (show r.statusCode < 400 by omega), hbody]

theorem fromPayload_amounts {result : BinanceOrderResult}
    (h : BinanceOrderResult.fromPayload env.repr fields = .ok result) :
    result.executedQuantity.isFinite = !nonFiniteAmount env.repr fields "executedQty" ∧
      result.cumulativeQuoteQuantity.isFinite =
        !nonFiniteAmount env.repr fields "cummulativeQuoteQty" := by
  rw [← decimalField_isFinite, ← decimalField_isFinite]
  unfold BinanceOrderResult.fromPayload at h
  cases hid : BinanceOrderResult.orderIdField fields with
  | error e =>
    rw [hid] at h
    cases h
  | ok orderId =>
    rw [hid] at h
    cases h
    exact ⟨rfl, rfl⟩

/-- In dry-run mode zero amounts are recorded, whatever the reply. -/
theorem submissionOutcome_dryRun {o : Transport} (hdry : env.settings.binanceDryRun = true)
    (h : handleTransport o = .ok fields) :
    ∃ result, submissionOutcome env t o = .ok (.settled result) ∧
      result.executedQuantity = .finite false 0 0 ∧
      result.cumulativeQuoteQuantity = .finite false 0 0 := by
  unfold submissionOutcome orderReply
  rw [h]
  simp only [hdry, if_true]
  exact ⟨_, rfl, rfl, rfl⟩

variable (i tag) in
/-- The run when the fields of the object are those of an order. -/
theorem Recording.run_converted {r : Response} {result : BinanceOrderResult}
    (hlive : x = .submission → env.settings.binanceDryRun = false)
    (hopen : x = .reconciliation → t.isTerminal = false)
    (htext : formatDecimal t.quantity = some text)
    (hends : S.ends (x.request env t text) = .response r)
    (hobject : handleTransport (.response r) = .ok fields)
    (hresult : BinanceOrderResult.fromPayload env.repr fields = .ok result) :
    x.run S env i tag w t =
      match S.refusal w.clock t (x.edits result w.clock) with
      | none => some ((x.sent env w t text).recording t (x.edits result w.clock))
      | some _ => some (x.sent env w t text) := by
  cases x with
  | submission =>
    apply Recording.run_submission i tag htext
    rw [show S.ends (orderFor env t text) = .response r from hends,
      submissionOutcome_fields t _ (hlive rfl) hobject, hresult]
  | reconciliation =>
    apply Recording.run_reconciliation i tag (hopen rfl)
    rw [Scene.answer, show S.ends (queryRequest t.symbol t.clientOrderId) = .response r from hends]
    simp only [queryReply, hobject, hresult]

variable (i tag) in
/-- The run when they are not: nothing is committed. -/
theorem Recording.run_unconverted {r : Response} {e : ConversionError}
    (hlive : x = .submission → env.settings.binanceDryRun = false)
    (hopen : x = .reconciliation → t.isTerminal = false)
    (htext : formatDecimal t.quantity = some text)
    (hends : S.ends (x.request env t text) = .response r)
    (hobject : handleTransport (.response r) = .ok fields)
    (herror : BinanceOrderResult.fromPayload env.repr fields = .error e) :
    x.run S env i tag w t = some (x.sent env w t text) := by
  cases x with
  | submission =>
    rw [Recording.run, Scene.run_submit htext, afterCall,
      show S.ends (orderFor env t text) = .response r from hends,
      submissionOutcome_fields t _ (hlive rfl) hobject, herror]
    rfl
  | reconciliation =>
    have hanswer : S.answer env t = .error (.conversion e) := by
      rw [Scene.answer,
        show S.ends (queryRequest t.symbol t.clientOrderId) = .response r from hends]
      simp only [queryReply, hobject, herror]
    rw [Recording.run, Scene.run_reconcile (hopen rfl)]
    simp only [Scene.after, hanswer, Option.map_some]
    rfl

theorem Recording.edits_amounts (result : BinanceOrderResult) (now : DateTime) :
    (x.edits result now).executedQuantity = some (some result.executedQuantity) ∧
      (x.edits result now).cumulativeQuoteQuantity = some (some result.cumulativeQuoteQuantity) := by
  cases x <;> exact ⟨rfl, rfl⟩

/-- **Which recorded orders can be served.** Whatever object the exchange returns with a 2xx
status, to the order or to the query: the row that is committed can be served if and only if
neither amount of the object names an infinity or a NaN. Nothing is at stake where the
amounts are not the object's (an order that was only validated), where the order id does not
convert, and where the commit fails, as it does on an infinity and, if the row has amounts, on
a signaling NaN. -/
theorem serves_recorded_iff {r : Response} (ht : t ∈ w.trades.rows)
    (hopen : x = .reconciliation → t.isTerminal = false)
    (htext : formatDecimal t.quantity = some text)
    (hends : S.ends (x.request env t text) = .response r) (hok : r.statusCode < 300)
    (hbody : r.body = .json (.obj fields)) :
    ServesRecorded S env i tag w t x ↔
      (x = .submission ∧ env.settings.binanceDryRun = true) ∨
      (BinanceOrderResult.orderIdField fields).isOk = false ∨
      (∃ result, BinanceOrderResult.fromPayload env.repr fields = .ok result ∧
        (S.refusal w.clock t (x.edits result w.clock)).isSome) ∨
      (nonFiniteAmount env.repr fields "executedQty" = false ∧
        nonFiniteAmount env.repr fields "cummulativeQuoteQty" = false) := by
  have hobject := handleTransport_object hok hbody
  have hquantity : t.quantity.isFinite = true := by
    rw [← formatDecimal_isSome, htext]
    rfl
  by_cases hdry : x = .submission ∧ env.settings.binanceDryRun = true
  · apply iff_of_true _ (Or.inl hdry)
    obtain ⟨rfl, hdry⟩ := hdry
    obtain ⟨result, hresult, hexecuted, hquote⟩ := submissionOutcome_dryRun (t := t) hdry hobject
    have hrun := Recording.run_submission (S := S) (w := w) i tag htext
      ((congrArg _ hends).trans hresult)
    cases hrefused : S.refusal w.clock t (successEdits result) with
    | some e =>
      rw [hrefused] at hrun
      exact servesRecorded_of_uncommitted hrun
    | none =>
      rw [hrefused] at hrun
      apply (servesRecorded_recording ht hquantity rfl rfl hrun).mpr
      rw [hexecuted, hquote]
      exact ⟨rfl, rfl⟩
  have hlive : x = .submission → env.settings.binanceDryRun = false := by
    intro hx
    simpa [hx] using hdry
  rw [or_iff_right hdry, ← fromPayload_isOk env]
  cases hconverts : BinanceOrderResult.fromPayload env.repr fields with
  | error e =>
    apply iff_of_true _ (Or.inl rfl)
    exact servesRecorded_of_uncommitted
      (Recording.run_unconverted i tag hlive hopen htext hends hobject hconverts)
  | ok result =>
    have hrun := Recording.run_converted (w := w) i tag hlive hopen htext hends hobject hconverts
    obtain ⟨hexecuted, hquote⟩ := fromPayload_amounts hconverts
    rw [or_iff_right (by simp [Except.isOk, Except.toBool])]
    cases hrefused : S.refusal w.clock t (x.edits result w.clock) with
    | some e =>
      rw [hrefused] at hrun
      apply iff_of_true (servesRecorded_of_uncommitted hrun)
      exact Or.inl ⟨result, rfl, by rw [hrefused]; rfl⟩
    | none =>
      rw [hrefused] at hrun
      obtain ⟨hedit, hedit'⟩ := Recording.edits_amounts (x := x) result w.clock
      rw [servesRecorded_recording ht hquantity hedit hedit' hrun, hexecuted, hquote]
      simp [hrefused]

end Serving

theorem serves_recorded_iff_filled :
    ServesRecorded (.storing fun _ => .response Sample.filled.response) Sample.inline 0
      ⟨0, .execute 1⟩ Sample.claimed Sample.trade .submission :=
  (serves_recorded_iff Sample.trade_mem (fun _ => rfl) Sample.trade_quantity rfl (by decide)
    rfl).mpr (Or.inr (Or.inr (Or.inr ⟨by decide, by decide⟩)))

/-- The fields of an order whose executed quantity is a NaN. -/
def Sample.nanFields : List (String × Json) :=
  [("orderId", .int 77), ("status", .str "FILLED"), ("executedQty", .str "NaN"),
    ("cummulativeQuoteQty", .str "60.5")]

def Sample.nanReply : Response := ⟨200, none, .json (.obj nanFields)⟩

/-- The exchange answers an order with such fields: the row is committed, and cannot be
served. -/
theorem nan_recorded :
    ¬ ∀ (S : Scene) (w : World) (t : Trade) (text : String) (r : Response)
        (fields : List (String × Json)) (x : Recording), t ∈ w.trades.rows →
      t.isTerminal = false → formatDecimal t.quantity = some text →
      S.ends (x.request Sample.inline t text) = .response r → 200 ≤ r.statusCode →
      r.statusCode < 300 → r.body = .json (.obj fields) →
      ServesRecorded S Sample.inline 0 ⟨0, .execute 1⟩ w t x := by
  intro h
  have hserves := h (.storing fun _ => .response Sample.nanReply) Sample.claimed Sample.trade _ _
    Sample.nanFields .submission Sample.trade_mem rfl Sample.trade_quantity rfl (by decide)
    (by decide) rfl
  have hlive : Recording.submission = .submission →
      Sample.inline.settings.binanceDryRun = false := fun _ => rfl
  have hrun := Recording.run_converted (S := .storing fun _ => .response Sample.nanReply)
    (w := Sample.claimed) 0 ⟨0, .execute 1⟩ hlive (fun _ => rfl) Sample.trade_quantity rfl rfl rfl
  simp only [Recording.edits, Scene.refusal_storing] at hrun
  rw [(flushError_successEdits _ _).mpr (by decide +kernel)] at hrun
  have hfinite := (servesRecorded_recording Sample.trade_mem rfl rfl rfl hrun).mp hserves
  exact absurd hfinite.1 (by decide)

end AutoTrader
