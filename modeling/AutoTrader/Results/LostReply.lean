import AutoTrader.System.Alone
import AutoTrader.System.Sample

/-!
# A lost reply

The same order reply reaches the service on three ways: as the answer to the order call;
to the query that follows an order call whose own reply was lost; to a reconciliation,
later, after the first commit of the outcome failed. The rows agree, but for the error
columns of an order that was REJECTED: reconciliation keeps what it finds there, and after
a lost reply it finds the error of the uncertain outcome.
-/

namespace AutoTrader

open Python Coroutine UnitOfWork

/-- The rows agree in every column but `reconciled_at` and `updated_at`. -/
def Trade.Agrees (s t : Trade) : Prop :=
  { s with reconciledAt := t.reconciledAt, updatedAt := t.updatedAt } = t

theorem Trade.Agrees.errorCode {s t : Trade} (h : s.Agrees t) : s.errorCode = t.errorCode := by
  have hall : ({ s with
    reconciledAt := t.reconciledAt, updatedAt := t.updatedAt } : Trade) = t := h
  have hcode := congrArg Trade.errorCode hall
  exact hcode

/-- The row with the error columns that were there before, if the order is REJECTED. -/
def keepingErrors (result : BinanceOrderResult) (errorCode errorMessage : Option String)
    (t : Trade) : Trade :=
  if binanceStatusMap result.status = .rejected then
    { t with errorCode := errorCode, errorMessage := errorMessage }
  else t

section LostReply

variable (env : Deployment) (i : Nat) (tag : Tag) (w : World) (t : Trade)

/-- The row after a submission whose order call is answered. -/
def afterReply (answer : Transport) : Option Trade :=
  (runAlone env i tag true (fun _ => answer) ((submitToBinance env).exec (.fresh t)) w).bind
    fun p => p.2.trades.find? t.id

/-- The row after a submission whose order call ends as `lost`, and whose query is
answered. -/
def afterLostReply (lost answer : Transport) : Option Trade :=
  (runAlone env i tag true (fun k => if k = w.calls.length then lost else answer)
    ((submitToBinance env).exec (.fresh t)) w).bind fun p => p.2.trades.find? t.id

/-- The row after a submission that cannot commit, and a reconciliation `d` later whose
query is answered. -/
def afterFailedCommit (first answer : Transport) (d : Int) : Option Trade := do
  let (_, u) ← runAlone env i tag false (fun _ => first) ((submitToBinance env).exec (.fresh t)) w
  let s ← u.trades.find? t.id
  let (_, v) ← runAlone env i tag true (fun _ => answer) ((reconcileTrade env).exec (.fresh s))
    { u with clock := u.clock + d }
  v.trades.find? t.id

variable {env i tag w t} {text : String} {answer : Transport} {payload : List (String × Json)}
  {result : BinanceOrderResult}

/-- A query records what the order call itself would have recorded, whatever status and
error the row has by then, but for that error. -/
theorem found_agrees_success (status : TradeStatus) (code message : Option String)
    (stamp now later : DateTime) {s : Trade}
    (hs : s = { t with
      status := status, errorCode := code, errorMessage := message, updatedAt := stamp }) :
    ((foundEdits result later).flush s later s).Agrees
      (keepingErrors result code message ((successEdits result).flush t now t)) := by
  subst hs
  have hfailed : binanceStatusMap result.status ≠ .failed :=
    (binanceStatusMap_mirrored result.status).2.2
  by_cases hrejected : binanceStatusMap result.status = .rejected
  · simp [Trade.Agrees, keepingErrors, foundEdits, successEdits, Edits.flush, hrejected]
  · simp [Trade.Agrees, keepingErrors, foundEdits, successEdits, Edits.flush, hrejected, hfailed]

variable (env t) in
theorem uncertain_flush (exc : BinanceError) (now : DateTime) :
    ∃ stamp, (uncertainEdits env exc).flush t now t =
      { t with
        status := .unknown
        errorCode := some (codeText env exc.code "uncertain")
        errorMessage := some exc.message
        updatedAt := stamp } := by
  refine ⟨if (uncertainEdits env exc).dirty t then now else t.updatedAt, ?_⟩
  simp [Edits.flush, uncertainEdits]

theorem submissionOutcome_settled (hdry : env.settings.binanceDryRun = false)
    (hpayload : handleTransport answer = .ok payload)
    (hresult : BinanceOrderResult.fromPayload env.repr payload = .ok result) :
    submissionOutcome env t answer = .ok (.settled result) := by
  simp only [submissionOutcome, orderReply, hpayload, hdry, Bool.false_eq_true, if_false, hresult,
    orderOutcome]

theorem queryReply_found (hpayload : handleTransport answer = .ok payload)
    (hresult : BinanceOrderResult.fromPayload env.repr payload = .ok result) :
    queryReply env answer = .ok (some result) := by
  simp only [queryReply, hpayload, hresult]

theorem afterReply_eq (hdry : env.settings.binanceDryRun = false)
    (ht : t ∈ w.trades.rows) (htext : formatDecimal t.quantity = some text)
    (hpayload : handleTransport answer = .ok payload)
    (hresult : BinanceOrderResult.fromPayload env.repr payload = .ok result)
    (hfits : result.fits t = true) :
    afterReply env i tag w t answer = some ((successEdits result).flush t w.clock t) := by
  have hout := submissionOutcome_settled (t := t) hdry hpayload hresult
  simp only [afterReply]
  rw [runAlone_submit htext, afterCall, hout]
  simp only [settle, Outcome.edits]
  rw [runAlone_commit ((flushError_successEdits result t).mpr hfits)]
  exact World.find?_recording (w := w.placing env t text) ht _

variable (i tag) in
theorem afterLostReply_eq (ht : t ∈ w.trades.rows)
    (htext : formatDecimal t.quantity = some text)
    (hpayload : handleTransport answer = .ok payload)
    (hresult : BinanceOrderResult.fromPayload env.repr payload = .ok result)
    (hfits : result.fits t = true) {lost : Transport} {exc : BinanceError}
    (hlost : submissionOutcome env t lost = .ok (.uncertain exc))
    (hflush : (uncertainEdits env exc).flushError? t = none) :
    ∃ s, s = (uncertainEdits env exc).flush t w.clock t ∧
      afterLostReply env i tag w t lost answer =
        some ((foundEdits result w.clock).flush s w.clock s) := by
  refine ⟨_, rfl, ?_⟩
  have hmem := World.mem_recording (w := w.placing env t text) ht (uncertainEdits env exc)
  have hterm : ((uncertainEdits env exc).flush t w.clock t).isTerminal = false := by
    rw [Trade.isTerminal, status_flush rfl]
    rfl
  -- the query is the call after the order call
  have hnext : ((w.placing env t text).recording t (uncertainEdits env exc)).calls.length =
      w.calls.length + 1 := List.length_append
  let reply := fun k => if k = w.calls.length then lost else answer
  have hreply : queryReply env
      (reply ((w.placing env t text).recording t (uncertainEdits env exc)).calls.length) =
        .ok (some result) := by
    rw [hnext]
    exact (congrArg _ (if_neg (by omega))).trans (queryReply_found hpayload hresult)
  have hanswer : (foundEdits result (w.placing env t text).clock).flushError?
      ((uncertainEdits env exc).flush t w.clock t) = none :=
    (flushError_foundEdits result _ _).mpr hfits
  obtain ⟨j, hj⟩ := runAlone_queryNow_answered i tag hterm hreply hanswer
  simp only [afterLostReply]
  rw [runAlone_submit htext]
  simp only [if_true, afterCall, hlost]
  rw [runAlone_uncertain hflush]
  rw [show (w.placing env t text).clock = w.clock from rfl, hj]
  exact World.find?_recording (World.mem_asking hmem) _

theorem afterFailedCommit_eq (ht : t ∈ w.trades.rows)
    (htext : formatDecimal t.quantity = some text)
    (hpayload : handleTransport answer = .ok payload)
    (hresult : BinanceOrderResult.fromPayload env.repr payload = .ok result)
    (hfits : result.fits t = true) (hopen : t.isTerminal = false) (first : Transport) (d : Int) :
    afterFailedCommit env i tag w t first answer d =
      some ((foundEdits result (w.clock + d)).flush t (w.clock + d) t) := by
  have hfirst : ∃ x u, runAlone env i tag false (fun _ => first)
      ((submitToBinance env).exec (.fresh t)) w = some (x, u) ∧ u.trades = w.trades ∧
        u.clock = w.clock := by
    rw [runAlone_submit htext, afterCall]
    cases submissionOutcome env t first with
    | error e => exact ⟨_, _, rfl, rfl, rfl⟩
    | ok o =>
      obtain ⟨e, j, hj⟩ := runAlone_uncommitted env i tag (fun _ => first) (w := w.placing env t text) (t := t) o
      exact ⟨_, _, hj, rfl, rfl⟩
  obtain ⟨x, u, hu, htrades, hclock⟩ := hfirst
  have htu : t ∈ u.trades.rows := by rwa [htrades]
  obtain ⟨s, j, hj⟩ := runAlone_answered i tag (fun _ => answer)
    (w := World.asking { u with clock := u.clock + d } t) (t := t) (queryReply_found hpayload hresult)
    ((flushError_foundEdits result t _).mpr hfits)
  rw [← runAlone_reconcile hopen] at hj
  have hrow := World.find?_recording
    (World.mem_asking (w := { u with clock := u.clock + d }) (s := t) htu)
    (answerEdits (some result) (u.clock + d))
  simp only [afterFailedCommit, hu, World.find?_of_mem htu, Option.bind_eq_bind, Option.bind_some]
  rw [hj, ← hclock]
  exact hrow

/-- **A lost reply is transparent**, but for the error of a rejected order. The row after a
lost reply to the order call and an answered query, and the row after a commit that failed
and a later reconciliation, agree with the row that the order call itself would have
led to; if the order is REJECTED they keep the error that the row had before. The row takes
the order, so that it is committed at all, and a lost reply is asked about once its own
outcome is. -/
theorem lost_reply_transparent (hdry : env.settings.binanceDryRun = false)
    (ht : t ∈ w.trades.rows) (hopen : t.isTerminal = false)
    (htext : formatDecimal t.quantity = some text)
    (hpayload : handleTransport answer = .ok payload)
    (hresult : BinanceOrderResult.fromPayload env.repr payload = .ok result)
    (hfits : result.fits t = true) :
    ∃ direct, afterReply env i tag w t answer = some direct ∧ direct.errorCode = none ∧
      direct.errorMessage = none ∧
      (∀ lost exc, submissionOutcome env t lost = .ok (.uncertain exc) →
        (uncertainEdits env exc).flushError? t = none →
        ∃ s, afterLostReply env i tag w t lost answer = some s ∧
          s.Agrees (keepingErrors result (some (codeText env exc.code "uncertain"))
            (some exc.message) direct)) ∧
      ∀ first d, ∃ s, afterFailedCommit env i tag w t first answer d = some s ∧
        s.Agrees (keepingErrors result t.errorCode t.errorMessage direct) := by
  refine ⟨_, afterReply_eq hdry ht htext hpayload hresult hfits, ?_, ?_, ?_, ?_⟩
  · simp [Edits.flush, successEdits]
  · simp [Edits.flush, successEdits]
  · intro lost exc hlost hflush
    obtain ⟨s, hs, hrow⟩ := afterLostReply_eq i tag ht htext hpayload hresult hfits hlost hflush
    obtain ⟨stamp, hstamp⟩ := uncertain_flush env t exc w.clock
    exact ⟨_, hrow, found_agrees_success _ _ _ _ _ _ (hs.trans hstamp)⟩
  · intro first d
    exact ⟨_, afterFailedCommit_eq ht htext hpayload hresult hfits hopen first d,
      found_agrees_success t.status _ _ t.updatedAt _ _ rfl⟩

/-- The order was filled; its reply was lost, or the commit failed. -/
theorem lost_reply_transparent_filled :
    ∃ result direct, afterReply Sample.inline 0 ⟨0, .execute 1⟩ Sample.claimed Sample.trade
        (.response Sample.filled.response) = some direct ∧ direct.errorCode = none ∧
      direct.errorMessage = none ∧
      (∀ lost exc, submissionOutcome Sample.inline Sample.trade lost = .ok (.uncertain exc) →
        (uncertainEdits Sample.inline exc).flushError? Sample.trade = none →
        ∃ s, afterLostReply Sample.inline 0 ⟨0, .execute 1⟩ Sample.claimed Sample.trade lost
            (.response Sample.filled.response) = some s ∧
          s.Agrees (keepingErrors result (some (codeText Sample.inline exc.code "uncertain"))
            (some exc.message) direct)) ∧
      ∀ first d, ∃ s, afterFailedCommit Sample.inline 0 ⟨0, .execute 1⟩ Sample.claimed Sample.trade
          first (.response Sample.filled.response) d = some s ∧
        s.Agrees (keepingErrors result none none direct) :=
  ⟨_, lost_reply_transparent rfl Sample.trade_mem rfl Sample.trade_quantity
    (show handleTransport (.response Sample.filled.response) = .ok Sample.filled.fields from rfl)
    rfl (by decide +kernel)⟩

/-- The order of the signal was refused. -/
def rejectedReply : Transport := .response (Sample.order .rejected "0" "0").response

/-- A lost reply shows when the order was REJECTED: the row keeps `timeout`, which the order
call itself would not have left there. -/
theorem lost_reply_shows :
    ¬ ∀ (w : World) (t : Trade) (lost answer : Transport) (exc : BinanceError)
      (result : BinanceOrderResult) (direct s : Trade),
      t ∈ w.trades.rows → t.status = .pending → t.submittedAt.isSome → t.errorCode = none →
      t.errorMessage = none → submissionOutcome Sample.inline t answer = .ok (.settled result) →
      result.fits t = true →
      afterReply Sample.inline 0 ⟨0, .execute 1⟩ w t answer = some direct →
      submissionOutcome Sample.inline t lost = .ok (.uncertain exc) →
      (uncertainEdits Sample.inline exc).flushError? t = none →
      afterLostReply Sample.inline 0 ⟨0, .execute 1⟩ w t lost answer = some s →
      s.Agrees direct := by
  intro h
  have hdirect : (afterReply Sample.inline 0 ⟨0, .execute 1⟩ Sample.claimed Sample.trade
      rejectedReply).map Trade.errorCode = some none := by decide +kernel
  have hlost : (afterLostReply Sample.inline 0 ⟨0, .execute 1⟩ Sample.claimed Sample.trade .timeout
      rejectedReply).map Trade.errorCode = some (some "timeout") := by decide +kernel
  obtain ⟨direct, hd, hdcode⟩ := Option.map_eq_some_iff.mp hdirect
  obtain ⟨s, hs, hscode⟩ := Option.map_eq_some_iff.mp hlost
  have hagrees := h Sample.claimed Sample.trade .timeout rejectedReply _ _ direct s
    Sample.trade_mem rfl rfl rfl rfl rfl (by decide +kernel) hd rfl (by decide +kernel) hs
  have hcode := hagrees.errorCode
  rw [hdcode, hscode] at hcode
  cases hcode

end LostReply

end AutoTrader
