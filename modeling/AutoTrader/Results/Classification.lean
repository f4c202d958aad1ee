import AutoTrader.System.Alone
import AutoTrader.System.Sample

/-!
# How the end of an order call is classified

`classify` is the status an order call should be given before anybody asks again, read
off the end of the call and nothing else. The client gives it this status for every
transport failure, every server error and every unreadable body. For a reply below 400
with a readable body it takes any JSON for an order: only an object that a 2xx response
carries, with a status text and an order id `int` accepts, is classified as it should.
-/

namespace AutoTrader

open Python Coroutine

/-- The status text of the order that a reply describes. -/
def Response.orderStatus? (r : Response) : Option String :=
  match r.body with
  | .json (.obj fields) =>
    match Json.get fields "status" with
    | some (.str status) => some status
    | _ => none
  | _ => none

/-- What is known after an order call: FAILED if no connection was made, REJECTED on a 4xx
response, the status of the order that a 2xx response describes, and otherwise nothing. -/
def classify : Transport → TradeStatus
  | .connectError | .connectTimeout => .failed
  | .timeout | .httpError => .unknown
  | .response r =>
    if 400 ≤ r.statusCode ∧ r.statusCode < 500 then .rejected
    else if 200 ≤ r.statusCode ∧ r.statusCode < 300 then
      match r.orderStatus? with
      | some status => binanceStatusMap status
      | none => .unknown
    else .unknown

/-- The order id of the reply is missing, null, or one that `int` accepts. -/
def Response.orderIdConverts (r : Response) : Bool :=
  match r.body with
  | .json (.obj fields) => (BinanceOrderResult.orderIdField fields).isOk
  | _ => false

/-- The ends of an order call that are classified as they should. -/
def Classifiable : Transport → Prop
  | .response r =>
    500 ≤ r.statusCode ∨ (400 ≤ r.statusCode ∧ r.body ≠ .tooDeep) ∨
      (r.statusCode < 400 ∧ r.body = .notJson) ∨
      (200 ≤ r.statusCode ∧ r.statusCode < 300 ∧ r.orderStatus?.isSome ∧ r.orderIdConverts = true)
  | _ => True

/-- The columns take what the submission of `t` commits: the outcome and, if that is
uncertain, the answer to the query. -/
def commitsSucceed (env : Deployment) (reply : Nat → Transport) (w : World) (t : Trade) : Bool :=
  match submissionOutcome env t (reply w.calls.length) with
  | .ok o =>
    (o.edits env).flushError? t = none &&
      match o, queryReply env (reply (w.calls.length + 1)) with
      | .uncertain _, .ok answer =>
        (answerEdits answer w.clock).flushError? ((o.edits env).flush t w.clock t) = none
      | _, _ => true
  | .error _ => true

/-- The submission of `t`, alone and with a database that commits, returns normally and
leaves the trade settled or open, but not PENDING; and before it asks again the trade has
the status that `classify` gives. -/
def HonestlyClassified (env : Deployment) (i : Nat) (tag : Tag) (reply : Nat → Transport)
    (w : World) (t : Trade) : Prop :=
  (∃ x u, runToQuery env i tag reply ((submitToBinance env).exec (.fresh t)) w = some (x, u) ∧
    u.status? t.id = some (classify (reply w.calls.length))) ∧
  ∃ j u s, runAlone env i tag true reply ((submitToBinance env).exec (.fresh t)) w =
    some ((.ok (), j), u) ∧ u.status? t.id = some s ∧ s ≠ .pending

/-! ## The handler -/

section Handler

variable {env : Deployment} {t : Trade} {outcome : Transport}

/-- The fields of an order convert exactly when its order id does. -/
theorem fromPayload_of_orderId (repr : ReprText) (fields : List (String × Json)) :
    (∃ result, BinanceOrderResult.fromPayload repr fields = .ok result ∧
      result.status = BinanceOrderResult.textField repr fields "status" ∧
        (BinanceOrderResult.orderIdField fields).isOk = true) ∨
      ∃ e, BinanceOrderResult.fromPayload repr fields = .error e ∧
        (BinanceOrderResult.orderIdField fields).isOk = false := by
  simp only [BinanceOrderResult.fromPayload, bind, Except.bind]
  cases BinanceOrderResult.orderIdField fields with
  | ok id => exact Or.inl ⟨_, rfl, rfl, rfl⟩
  | error e => exact Or.inr ⟨_, rfl, rfl⟩

/-- The handler commits the status that `classify` gives. -/
def ClassifiedBy (env : Deployment) (t : Trade) (outcome : Transport) : Prop :=
  ∃ o, submissionOutcome env t outcome = .ok o ∧ (o.edits env).status = some (classify outcome)

/-- A status that an order reply was mapped to is never the UNKNOWN of `classify`. -/
theorem not_classifiedBy_mapped {result : BinanceOrderResult}
    (h : submissionOutcome env t outcome = .ok (.settled result))
    (hc : classify outcome = .unknown) : ¬ ClassifiedBy env t outcome := by
  rintro ⟨o, ho, hs⟩
  rw [h] at ho
  cases ho
  rw [hc] at hs
  exact (binanceStatusMap_mirrored result.status).2.1 (Option.some.inj hs)

theorem not_classifiedBy_raised {e : Exc} (h : submissionOutcome env t outcome = .error e) :
    ¬ ClassifiedBy env t outcome := by
  rintro ⟨o, ho, -⟩
  rw [h] at ho
  cases ho

theorem classify_unknown {r : Response} (h : r.statusCode < 400)
    (h' : ¬ (200 ≤ r.statusCode ∧ r.statusCode < 300 ∧ r.orderStatus?.isSome)) :
    classify (.response r) = .unknown := by
  simp only [classify]
  rw [if_neg (by omega)]
  split
  · rename_i hok
    cases hs : r.orderStatus? with
    | none => rfl
    | some status => exact absurd ⟨hok.1, hok.2, by rw [hs]; rfl⟩ h'
  · rfl

/-- A reply below 400 that is an object. -/
theorem classifiedBy_object (hdry : env.settings.binanceDryRun = false) {r : Response}
    (h : r.statusCode < 400) {fields : List (String × Json)} (hb : r.body = .json (.obj fields)) :
    ClassifiedBy env t (.response r) ↔
      200 ≤ r.statusCode ∧ r.statusCode < 300 ∧ r.orderStatus?.isSome ∧
        r.orderIdConverts = true := by
  have hfields : handleTransport (.response r) = .ok fields := by
    simp only [handleTransport, handleResponse_success h, hb]
  have hconverts : r.orderIdConverts = (BinanceOrderResult.orderIdField fields).isOk := by
    simp only [Response.orderIdConverts, hb]
  have hout := submissionOutcome_fields t _ hdry hfields
  rcases fromPayload_of_orderId env.repr fields with
    ⟨result, hresult, hstatus, hid⟩ | ⟨e, herror, hid⟩
  · rw [hresult] at hout
    by_cases hok : 200 ≤ r.statusCode ∧ r.statusCode < 300 ∧ r.orderStatus?.isSome
    · refine iff_of_true ⟨_, hout, ?_⟩ ⟨hok.1, hok.2.1, hok.2.2, hconverts.trans hid⟩
      obtain ⟨status, hs⟩ := Option.isSome_iff_exists.mp hok.2.2
      have htext : result.status = status := by
        rw [hstatus]
        simp only [Response.orderStatus?, hb] at hs
        split at hs
        · rename_i s hget
          cases hs
          simp only [BinanceOrderResult.textField, hget]
          rfl
        · cases hs
      simp only [classify, hs]
      rw [if_neg (by omega), if_pos ⟨hok.1, hok.2.1⟩, ← htext]
      rfl
    · exact iff_of_false (not_classifiedBy_mapped hout (classify_unknown h hok))
        fun hall => hok ⟨hall.1, hall.2.1, hall.2.2.1⟩
  · rw [herror] at hout
    refine iff_of_false (not_classifiedBy_raised hout) fun hall => ?_
    rw [hconverts, hid] at hall
    cases hall.2.2.2

theorem classifiedBy_iff (hdry : env.settings.binanceDryRun = false) :
    ClassifiedBy env t outcome ↔ Classifiable outcome := by
  cases outcome with
  | connectError | connectTimeout | timeout | httpError => exact iff_of_true ⟨_, rfl, rfl⟩ trivial
  | response r =>
    rcases lt_or_ge r.statusCode 400 with hlow | hge
    · -- below 400 the body decides
      have hresponse := handleResponse_success hlow
      cases hb : r.body with
      | notJson =>
        rw [hb] at hresponse
        refine iff_of_true ⟨_, submissionOutcome_uncertain _ _ _ hresponse rfl, ?_⟩
          (Or.inr (Or.inr (Or.inl ⟨hlow, hb⟩)))
        rw [classify_unknown hlow (by simp [Response.orderStatus?, hb])]
        rfl
      | tooDeep =>
        rw [hb] at hresponse
        refine iff_of_false (not_classifiedBy_raised (e := .recursionError) ?_) ?_
        · simp only [submissionOutcome, orderReply, handleTransport, hresponse, orderOutcome]
        · rintro (h | ⟨h, -⟩ | ⟨-, h⟩ | ⟨-, -, h, -⟩)
          · omega
          · omega
          · rw [hb] at h
            cases h
          · simp [Response.orderStatus?, hb] at h
      | json v =>
        have hplain : Classifiable (.response r) ↔ 200 ≤ r.statusCode ∧ r.statusCode < 300 ∧
            r.orderStatus?.isSome ∧ r.orderIdConverts = true := by
          simp only [Classifiable, hb, ne_eq, reduceCtorEq, and_false, false_or, not_false_eq_true,
            and_true]
          constructor
          · rintro (h | h | h)
            · omega
            · omega
            · exact h
          · exact fun h => Or.inr (Or.inr h)
        rw [hplain]
        cases v with
        | obj fields => exact classifiedBy_object hdry hlow hb
        | _ =>
          rw [hb] at hresponse
          have hout := submissionOutcome_fields t (.response r) hdry hresponse
          refine iff_of_false (not_classifiedBy_mapped hout (classify_unknown hlow ?_)) ?_
          · simp [Response.orderStatus?, hb]
          · simp [Response.orderStatus?, hb]
    · rcases lt_or_ge r.statusCode 500 with hlt | hserver
      · have hclass : classify (.response r) = .rejected := by
          simp only [classify]
          rw [if_pos ⟨hge, hlt⟩]
        rcases handleResponse_client hge hlt with ⟨hb, hraise⟩ | ⟨hb, e, herror, hk⟩
        · refine iff_of_false (not_classifiedBy_raised (e := .recursionError) ?_) ?_
          · simp only [submissionOutcome, orderReply, handleTransport, hraise, orderOutcome]
          · rintro (h | ⟨-, h⟩ | ⟨h, -⟩ | ⟨-, h, -⟩)
            · omega
            · exact h hb
            · omega
            · omega
        · obtain ⟨code, message, hout⟩ := submissionOutcome_rejected env t (.response r) herror hk
          refine iff_of_true ⟨_, hout, ?_⟩ (Or.inr (Or.inl ⟨hge, hb⟩))
          rw [hclass]
          rfl
      · obtain ⟨e, herror, hk⟩ := handleResponse_server hserver
        refine iff_of_true ⟨_, submissionOutcome_uncertain env t (.response r) herror hk, ?_⟩
          (Or.inl hserver)
        simp only [classify]
        rw [if_neg (by omega), if_neg (by omega)]
        rfl

end Handler

/-! ## The submission -/

section Submission

variable {env : Deployment} {i : Nat} {tag : Tag} {reply : Nat → Transport} {w : World}
  {t : Trade} {text : String}

variable (env) in
theorem exists_status_edits (o : Outcome) : ∃ s, (o.edits env).status = some s := by
  cases o <;> exact ⟨_, rfl⟩

theorem status_recording (ht : t ∈ w.trades.rows) {e : Edits} {s : TradeStatus}
    (he : e.status = some s) : (w.recording t e).status? t.id = some s := by
  rw [World.status?, World.find?_recording ht, Option.map_some, status_flush he]

/-- The query after an uncertain outcome does not make the trade PENDING again, however it
ends. -/
theorem queryNow_ne_pending (ht : t ∈ w.trades.rows) (hs : t.status = .unknown)
    (hflush : ∀ answer, queryReply env (reply w.calls.length) = .ok answer →
      (answerEdits answer w.clock).flushError? t = none) :
    ∃ j u s, runAlone env i tag true reply (queryNow env (.fresh t)) w =
      some ((.ok (), j), u) ∧ u.status? t.id = some s ∧ s ≠ .pending := by
  have hterm : t.isTerminal = false := by
    rw [Trade.isTerminal, hs]
    rfl
  cases hreply : queryReply env (reply w.calls.length) with
  | ok answer =>
    obtain ⟨j, hj⟩ := runAlone_queryNow_answered i tag hterm hreply (hflush answer hreply)
    have hrecorded : (answerEdits answer w.clock).status =
        some ((answerEdits answer w.clock).status.getD .pending) := by cases answer <;> rfl
    refine ⟨j, _, _, hj, status_recording (w := w.asking t) ht hrecorded, ?_⟩
    cases answer with
    | none => simp [answerEdits, absentEdits]
    | some result => exact (binanceStatusMap_mirrored result.status).1
  | error e =>
    obtain ⟨j, u, hj, hu⟩ := runAlone_queryNow_failed i tag hterm hreply
    refine ⟨j, u, _, hj, ?_, show TradeStatus.unknown ≠ .pending by simp⟩
    rw [World.status?, hu, World.find?_of_mem ht, Option.map_some, hs]

theorem classify_ne_pending (outcome : Transport) : classify outcome ≠ .pending := by
  cases outcome with
  | response r =>
    simp only [classify]
    split
    · simp
    · split
      · split
        · exact (binanceStatusMap_mirrored _).1
        · simp
      · simp
  | _ => simp [classify]

/-- What is committed of an outcome and of the answer after it, when all commits succeed. -/
theorem commitsSucceed_outcome (h : commitsSucceed env reply w t = true) {o : Outcome}
    (ho : submissionOutcome env t (reply w.calls.length) = .ok o) :
    (o.edits env).flushError? t = none ∧ ∀ exc, o = .uncertain exc → ∀ answer,
      queryReply env (reply (w.calls.length + 1)) = .ok answer →
        (answerEdits answer w.clock).flushError? ((o.edits env).flush t w.clock t) = none := by
  simp only [commitsSucceed, ho, Bool.and_eq_true, decide_eq_true_eq] at h
  refine ⟨h.1, ?_⟩
  rintro exc rfl answer hanswer
  simpa [hanswer] using h.2

/-- **When an order call is classified honestly.** Outside dry-run mode and if all commits
succeed, whatever the order call and the query after it end in: the submission classifies
the end of the order call as it should if and only if that end is classifiable. -/
theorem honestly_classified_iff (hdry : env.settings.binanceDryRun = false)
    (ht : t ∈ w.trades.rows) (htext : formatDecimal t.quantity = some text)
    (hcommits : commitsSucceed env reply w t = true) :
    HonestlyClassified env i tag reply w t ↔ Classifiable (reply w.calls.length) := by
  rw [← classifiedBy_iff (t := t) hdry]
  have ht' : t ∈ (w.placing env t text).trades.rows := ht
  constructor
  · rintro ⟨⟨x, u, hto, hstatus⟩, j, u', s, hall, -, -⟩
    rw [runToQuery_submit htext, afterCall] at hto
    rw [runAlone_submit htext, afterCall] at hall
    cases hout : submissionOutcome env t (reply w.calls.length) with
    | error e =>
      simp only [hout] at hall
      cases hall
    | ok o =>
      simp only [hout] at hto
      obtain ⟨s', hs'⟩ := exists_status_edits env o
      obtain ⟨y, hy, -⟩ := runToQuery_settle env i tag reply
        (w := w.placing env t text) (t := t) o (commitsSucceed_outcome hcommits hout).1
      rw [hy] at hto
      cases hto
      rw [status_recording ht' hs'] at hstatus
      cases hstatus
      exact ⟨o, hout, hs'⟩
  · rintro ⟨o, hout, hs⟩
    obtain ⟨hflush, hanswer⟩ := commitsSucceed_outcome hcommits hout
    obtain ⟨x, hx, hrest⟩ := runToQuery_settle env i tag reply
      (w := w.placing env t text) (t := t) o hflush
    have hto : runToQuery env i tag reply ((submitToBinance env).exec (.fresh t)) w =
        some (x, (w.placing env t text).recording t (o.edits env)) := by
      rw [runToQuery_submit htext, afterCall, hout]
      exact hx
    refine ⟨⟨x, _, hto, status_recording ht' hs⟩, ?_⟩
    rw [runAlone, Host.drive_of_driveTo hto]
    rcases hrest with ⟨j, rfl⟩ | ⟨exc, rfl, rfl⟩
    · exact ⟨j, _, _, rfl, status_recording ht' hs, classify_ne_pending _⟩
    · refine queryNow_ne_pending (World.mem_recording ht' _) (status_flush rfl _ _) ?_
      have hcalls : ((w.placing env t text).recording t (Outcome.edits env (.uncertain exc))).calls =
          w.calls ++ [⟨orderFor env t text, .inFlight⟩] := rfl
      rw [hcalls, List.length_append]
      exact hanswer exc rfl

/-- The order was filled. -/
theorem honestly_classified_iff_filled :
    HonestlyClassified Sample.inline 0 ⟨0, .execute 1⟩ (fun _ => .response Sample.filled.response)
      Sample.claimed Sample.trade :=
  (honestly_classified_iff rfl Sample.trade_mem Sample.trade_quantity (by decide +kernel)).mpr
    (Or.inr (Or.inr (Or.inr ⟨by decide, by decide, by decide +kernel, by decide +kernel⟩)))

/-- A reply `{}` with status code 200. -/
def emptyReply : Response := ⟨200, none, .json (.obj [])⟩

/-- Not every end of an order call is classified as it should: a reply `{}` describes no
order, and the trade becomes NEW. -/
theorem misclassified_empty :
    ¬ ∀ (reply : Nat → Transport) (w : World) (t : Trade), t ∈ w.trades.rows →
      t.status = .pending → t.submittedAt.isSome → formatDecimal t.quantity = some "0.001" →
      commitsSucceed Sample.inline reply w t = true →
      HonestlyClassified Sample.inline 0 ⟨0, .execute 1⟩ reply w t := by
  intro h
  obtain ⟨⟨x, u, hto, hs⟩, -⟩ := h (fun _ => .response emptyReply) Sample.claimed Sample.trade
    Sample.trade_mem rfl rfl Sample.trade_quantity (by decide +kernel)
  have hnew : ((runToQuery Sample.inline 0 ⟨0, .execute 1⟩ (fun _ => .response emptyReply)
      ((submitToBinance Sample.inline).exec (.fresh Sample.trade)) Sample.claimed).bind
        fun p => p.2.status? 1) = some .new := by decide +kernel
  rw [hto] at hnew
  change u.status? 1 = some .new at hnew
  change u.status? 1 = some .unknown at hs
  rw [hnew] at hs
  cases hs

end Submission

end AutoTrader
