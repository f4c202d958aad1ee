import AutoTrader.System.Scene
import AutoTrader.System.Sample

/-!
# When the commit of an outcome fails

The handlers of an outcome prepare for a commit that fails: roll back, leave a CRITICAL line
with the ids an operator needs, and raise the error again. The rollback expires the object
whose ids the line is to carry, so that reading the first of them raises instead. The line
is never written, and the caller sees another error.

The handler of an uncertain outcome does not roll back. Whatever the query that follows ends
in, it returns, unless the answer of that query cannot be flushed: then the session wants a
rollback before it lets the handler read the trade id for its log line. A COMMIT that fails
after its flush leaves the object readable, and the handler returns.
-/

namespace AutoTrader

open Python Coroutine UnitOfWork

variable {S : Scene} {env : Deployment} {i : Nat} {tag : Tag} {w : World} {t : Trade}

/-! ## The outcome of the order call -/

/-- The CRITICAL line for an outcome that could not be committed. -/
def Outcome.alarm (t : Trade) : Outcome → Option LogRecord
  | .settled result =>
    some (.orderSucceededButUpdateFailed t.id t.signalId t.clientOrderId result.orderId result.status)
  | .refused .. => some (.couldNotPersistFailure t.id t.signalId)
  | .uncertain _ => none

/-- The submission of `t` leaves the row as it was, for reconciliation and not for another
submission, raises the error of the commit, and has written the alarm. -/
def FailsLoudly (S : Scene) (env : Deployment) (i : Nat) (tag : Tag) (w : World) (t : Trade)
    (o : Outcome) (e : SqlError) : Prop :=
  ∃ j u, S.run env i tag ((submitToBinance env).exec (.fresh t)) w =
      some ((.error (.sqlalchemy e), j), u) ∧
    u.trades = w.trades ∧ t.status.isReconcilable = true ∧ t.unsent = false ∧
    ∃ record, o.alarm t = some record ∧ record ∈ u.logs.drop w.logs.length

variable (i tag) in
/-- A handler whose commit fails: the row stays, nothing is logged, and the error is that of
reading an expired object. -/
theorem run_settle_refused {o : Outcome} {x : CommitError} {e : SqlError}
    (halarm : (o.alarm t).isSome) (hx : S.refusal w.clock t (o.edits env) = some x)
    (he : x.exc = .sqlalchemy e) :
    ∃ j, S.run env i tag (settle env t o) w = some ((.error .missingGreenlet, j), w) := by
  rw [settle, Scene.run_commit, hx]
  cases o with
  | uncertain exc => cases halarm
  | settled result | refused status code message =>
    cases x with
    | comparison => cases he
    | statement _ | commit _ _ => exact ⟨_, rfl⟩

/-- **A failed commit is never reported.** Whatever outcome of an order call cannot be
committed, and whatever the error: the promise of its handler is not kept. The row is as it
was, but the last line in the log is the one that announced the order, and the caller sees
an error of the handler's own making. -/
theorem failed_commit_unreported {text : String} {o : Outcome} {x : CommitError} {e : SqlError}
    (htext : formatDecimal t.quantity = some text)
    (ho : submissionOutcome env t (S.ends (orderFor env t text)) = .ok o)
    (halarm : (o.alarm t).isSome) (hx : S.refusal w.clock t (o.edits env) = some x)
    (he : x.exc = .sqlalchemy e) :
    ¬ FailsLoudly S env i tag w t o e ∧
      ∃ j u, S.run env i tag ((submitToBinance env).exec (.fresh t)) w =
          some ((.error .missingGreenlet, j), u) ∧
        u.trades = w.trades ∧ u.logs = w.logs ++ [orderLine env t text] := by
  obtain ⟨j, hj⟩ := run_settle_refused i tag (w := w.placing env t text)
    halarm hx he
  have hrun : S.run env i tag ((submitToBinance env).exec (.fresh t)) w =
      some ((.error .missingGreenlet, j), w.placing env t text) := by
    rw [Scene.run_submit htext, afterCall, ho]
    exact hj
  refine ⟨?_, _, _, hrun, rfl, rfl⟩
  rintro ⟨j, u, hloud, -⟩
  rw [hrun] at hloud
  cases hloud

/-- Every order is filled, and no COMMIT succeeds. -/
def Sample.refusing : Scene :=
  ⟨fun _ => .response Sample.filled.response, fun _ _ => some (.commit .other)⟩

theorem failed_commit_unreported_filled :
    ∃ o, submissionOutcome Sample.inline Sample.trade (.response Sample.filled.response) = .ok o ∧
      ¬ FailsLoudly Sample.refusing Sample.inline 0 ⟨0, .execute 1⟩ Sample.claimed Sample.trade o
        .other :=
  ⟨_, rfl, (failed_commit_unreported (x := .commit .other Sample.claimed.clock)
    Sample.trade_quantity rfl rfl (by decide +kernel) rfl).1⟩

/-- The order of a claimed trade was filled, the commit fails, and nobody is told. -/
theorem filled_and_unreported :
    ¬ ∀ (S : Scene) (w : World) (t : Trade) (text : String) (o : Outcome) (x : CommitError)
      (e : SqlError),
      t ∈ w.trades.rows → t.status = .pending → t.submittedAt.isSome →
      formatDecimal t.quantity = some text →
      submissionOutcome Sample.inline t (S.ends (orderFor Sample.inline t text)) = .ok o →
      (o.alarm t).isSome → S.refusal w.clock t (o.edits Sample.inline) = some x →
      x.exc = .sqlalchemy e →
      FailsLoudly S Sample.inline 0 ⟨0, .execute 1⟩ w t o e := by
  intro h
  obtain ⟨j, u, hloud, -⟩ := h Sample.refusing Sample.claimed Sample.trade _ _
    (.commit .other Sample.claimed.clock) .other Sample.trade_mem rfl rfl Sample.trade_quantity rfl
    rfl (by decide +kernel) rfl
  have hgreenlet : ((Sample.refusing.run Sample.inline 0 ⟨0, .execute 1⟩
      ((submitToBinance Sample.inline).exec (.fresh Sample.trade)) Sample.claimed).map
        fun p => match p.1.1 with | .error .missingGreenlet => true | _ => false) = some true := by
    decide +kernel
  rw [hloud] at hgreenlet
  cases hgreenlet

/-! ## The query after an uncertain outcome -/

/-- The row after the commit of an uncertain outcome. -/
def uncertainRow (env : Deployment) (exc : BinanceError) (now : DateTime) (t : Trade) : Trade :=
  (uncertainEdits env exc).flush t now t

/-- The query for a trade is answered, and the flush of the answer fails. -/
def FailsFlush (S : Scene) (env : Deployment) (now : DateTime) (t : Trade) : Prop :=
  ∃ answer x, S.answer env t = .ok answer ∧ S.refusal now t (answerEdits answer now) = some x ∧
    x.inFlush = true

/-- The handler of an uncertain outcome returns, and unless the query that follows commits an
answer, the row is still the UNKNOWN one. -/
def AsksWithoutHarm (S : Scene) (env : Deployment) (i : Nat) (tag : Tag) (w : World) (t : Trade)
    (exc : BinanceError) : Prop :=
  ∃ j u, S.run env i tag ((handleUncertainOutcome env exc).exec (.fresh t)) w =
      some ((.ok (), j), u) ∧
    ((∀ answer, S.answer env t = .ok answer →
        (S.refusal w.clock (uncertainRow env exc w.clock t) (answerEdits answer w.clock)).isSome) →
      u.trades.find? t.id = some (uncertainRow env exc w.clock t))

variable (i tag) in
/-- The query itself, and what is left when its answer cannot be flushed. -/
theorem run_queryNow_unflushed (hopen : t.isTerminal = false) (h : FailsFlush S env w.clock t) :
    ∃ j, S.run env i tag (queryNow env (.fresh t)) w =
      some ((.error (.sqlalchemy .pendingRollback), j), w.asking t) := by
  obtain ⟨answer, x, hanswer, hx, hflush⟩ := h
  rw [Scene.run_queryNow hopen]
  simp only [Scene.outcome, Scene.after, hanswer, hx]
  cases x with
  | commit e now => cases hflush
  | comparison | statement e => exact ⟨_, rfl⟩

variable (i tag) in
/-- Otherwise the handler goes on to its end, and without a commit the row stays. -/
theorem run_queryNow_flushed (hopen : t.isTerminal = false) (h : ¬ FailsFlush S env w.clock t) :
    ∃ j u, S.run env i tag (queryNow env (.fresh t)) w = some ((.ok (), j), u) ∧
      ((∀ answer, S.answer env t = .ok answer →
        (S.refusal w.clock t (answerEdits answer w.clock)).isSome) → u.trades = w.trades) := by
  rw [Scene.run_queryNow hopen]
  cases hanswer : S.answer env t with
  | error e =>
    simp only [Scene.outcome, Scene.after, hanswer]
    cases e <;> exact ⟨_, _, rfl, fun _ => rfl⟩
  | ok answer =>
    cases hx : S.refusal w.clock t (answerEdits answer w.clock) with
    | none =>
      simp only [Scene.outcome, hanswer, hx]
      refine ⟨_, _, rfl, fun hrefused => ?_⟩
      have hsome := hrefused answer rfl
      rw [hx] at hsome
      cases hsome
    | some x =>
      simp only [Scene.outcome, Scene.after, hanswer, hx]
      cases x with
      | comparison => exact absurd ⟨answer, _, hanswer, hx, rfl⟩ h
      | statement e => exact absurd ⟨answer, _, hanswer, hx, rfl⟩ h
      | commit e now => exact ⟨_, _, rfl, fun _ => rfl⟩

/-- **When asking does no harm.** Once the UNKNOWN outcome is committed, its handler returns
normally, and keeps the UNKNOWN row unless an answer is committed, if and only if no answer
of the query fails in its flush. -/
theorem asks_without_harm_iff {exc : BinanceError} (ht : t ∈ w.trades.rows)
    (hfirst : S.refusal w.clock t (uncertainEdits env exc) = none) :
    AsksWithoutHarm S env i tag w t exc ↔
      ¬ FailsFlush S env w.clock (uncertainRow env exc w.clock t) := by
  have hrow : uncertainRow env exc w.clock t ∈ (w.recording t (uncertainEdits env exc)).trades.rows :=
    World.mem_recording ht _
  have hopen : (uncertainRow env exc w.clock t).isTerminal = false := by
    rw [Trade.isTerminal, uncertainRow, status_flush rfl]
    rfl
  have hrun : S.run env i tag ((handleUncertainOutcome env exc).exec (.fresh t)) w =
      S.run env i tag (queryNow env (.fresh (uncertainRow env exc w.clock t)))
        (w.recording t (uncertainEdits env exc)) := by
    rw [handleUncertainOutcome_exec, settle, Scene.run_commit, Outcome.edits, hfirst,
      uncertainRow, ← flushed_uncertain]
  simp only [AsksWithoutHarm, hrun]
  constructor
  · rintro ⟨j, u, hok, -⟩ hfails
    obtain ⟨k, hraises⟩ := run_queryNow_unflushed i tag
      (w := w.recording t (uncertainEdits env exc)) hopen hfails
    rw [hok] at hraises
    cases hraises
  · intro hflushes
    obtain ⟨j, u, hok, hkept⟩ := run_queryNow_flushed i tag
      (w := w.recording t (uncertainEdits env exc)) hopen hflushes
    refine ⟨j, u, hok, fun hnone => ?_⟩
    rw [hkept hnone]
    exact World.find?_of_mem hrow

/-- A timeout. -/
def Sample.timedOut : BinanceError :=
  ⟨.uncertain, "Binance did not respond in time; order status is unknown.", .str "timeout", none, none⟩

/-- The query times out as well. -/
theorem asks_without_harm_iff_timeout :
    AsksWithoutHarm (.storing fun _ => .timeout) Sample.inline 0 ⟨0, .execute 1⟩ Sample.claimed
      Sample.trade Sample.timedOut := by
  refine (asks_without_harm_iff Sample.trade_mem (by decide +kernel)).mpr ?_
  rintro ⟨answer, x, hanswer, -⟩
  cases hanswer

/-- The order turns out to be filled, and only the UPDATE with this answer fails. -/
def Sample.refusingAnswers : Scene :=
  ⟨fun _ => .response Sample.filled.response,
    fun _ e => if e.reconciledAt.isSome then some (.statement .other) else none⟩

/-- The follow-up's own commit fails in its flush, and the handler raises. -/
theorem asking_harms :
    ¬ ∀ (S : Scene) (w : World) (t : Trade) (exc : BinanceError), t ∈ w.trades.rows →
      exc.kind = .uncertain → S.refusal w.clock t (uncertainEdits Sample.inline exc) = none →
      AsksWithoutHarm S Sample.inline 0 ⟨0, .execute 1⟩ w t exc := by
  intro h
  obtain ⟨j, u, hok, -⟩ := h Sample.refusingAnswers Sample.claimed Sample.trade Sample.timedOut
    Sample.trade_mem rfl (by decide +kernel)
  have hraises : ((Sample.refusingAnswers.run Sample.inline 0 ⟨0, .execute 1⟩
      ((handleUncertainOutcome Sample.inline Sample.timedOut).exec (.fresh Sample.trade))
        Sample.claimed).map fun p => p.1.1.isOk) = some false := by
    decide +kernel
  rw [hok] at hraises
  cases hraises

end AutoTrader
