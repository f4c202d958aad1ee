import AutoTrader.System.World

/-!
# A submission that nothing interferes with

One thread runs and no other acts, so that the run is a function of how the calls to the
exchange end. The lemmas below compute a submission in two stages, up to the query that
an uncertain outcome leads to and from there on, and a reconciliation.
-/

namespace AutoTrader

open Python Coroutine

/-- The database does what it is asked, the commits if `commits` says so, and the call with
ticket `k` ends as `reply k`. -/
def alone (commits : Bool) (reply : Nat → Transport) : World → Op → Choice
  | _, .receive k => .reply (reply k)
  | _, .commit _ _ => if commits then .done else .failed
  | _, _ => .done

/-- The query that follows an uncertain outcome. -/
def Op.isQuery : Op → Bool
  | .send r => r.method = .get
  | _ => false

/-- Thread `i` runs `x` alone. -/
abbrev runAlone (env : Deployment) (i : Nat) (tag : Tag) (commits : Bool)
    (reply : Nat → Transport) {α : Type} (x : Free effects α) (w : World) : Option (α × World) :=
  (service env).drive (alone commits reply) i tag x w

/-- Thread `i` runs `x` alone up to the query. -/
abbrev runToQuery (env : Deployment) (i : Nat) (tag : Tag) (reply : Nat → Transport) {α : Type}
    (x : Free effects α) (w : World) : Option (Free effects α × World) :=
  (service env).driveTo (alone true reply) Op.isQuery i tag x w

namespace World

/-- The order of a trade was announced and its request sent. -/
def placing (w : World) (env : Deployment) (t : Trade) (text : String) : World :=
  { w with toLedger := (w.toLedger.log (orderLine env t text)).send (orderFor env t text) }

/-- The trade was queried. -/
def asking (w : World) (t : Trade) : World :=
  { w with toLedger := w.toLedger.send (queryRequest t.symbol t.clientOrderId) }

/-- The edits were committed. -/
def recording (w : World) (t : Trade) (e : Edits) : World :=
  { w with toLedger := w.toLedger.record t e w.clock }

/-- The committed status of a trade. -/
def status? (w : World) (id : TradeId) : Option TradeStatus :=
  (w.trades.find? id).map Trade.status

variable {w : World} {t : Trade}

theorem find?_of_mem (ht : t ∈ w.trades.rows) : w.trades.find? t.id = some t :=
  TradeTable.find?_eq_some.mpr ⟨ht, rfl⟩

theorem mem_asking {s : Trade} (ht : t ∈ w.trades.rows) : t ∈ (w.asking s).trades.rows := ht

/-- A commit from a copy that is the row. -/
theorem mem_recording (ht : t ∈ w.trades.rows) (e : Edits) :
    e.flush t w.clock t ∈ (w.recording t e).trades.rows :=
  TradeTable.mem_update.mpr ⟨t, ht, if_pos rfl⟩

theorem find?_recording (ht : t ∈ w.trades.rows) (e : Edits) :
    (w.recording t e).trades.find? t.id = some (e.flush t w.clock t) :=
  TradeTable.find?_eq_some.mpr ⟨mem_recording ht e, rfl⟩

end World

/-- From a fresh copy a commit sets the status it assigns. -/
theorem status_flush {e : Edits} {s : TradeStatus} (he : e.status = some s) (t : Trade)
    (now : DateTime) : (e.flush t now t).status = s := by
  simp only [Edits.flush, he, UnitOfWork.plain_flush_self]

/-- A commit that nothing stands in the way of. -/
theorem execCommit_done {w : World} {t : Trade} {e : Edits} (h : e.flushError? t = none) :
    execCommit w t e .done = some (.ok w.clock, w.recording t e) := by
  unfold execCommit
  rw [h]
  rfl

/-- A commit of a database that succeeds. -/
theorem execCommit_of_succeeds {w w' : World} {t : Trade} {e : Edits} {c : Choice}
    {r : Except CommitError DateTime} (hc : c.succeeds = true)
    (h : execCommit w t e c = some (r, w')) :
    (e.flushError? t = none ∧ r = .ok w.clock ∧ w' = w.recording t e) ∨
      ∃ error, e.flushError? t = some error ∧ r = .error error ∧ w' = w := by
  unfold execCommit at h
  cases hflush : e.flushError? t with
  | none =>
    rw [hflush] at h
    cases c with
    | done =>
      cases h
      exact Or.inl ⟨rfl, rfl, rfl⟩
    | failed | unacknowledged | uncommitted => cases hc
    | delivered | reply => cases h
  | some error =>
    rw [hflush] at h
    cases c with
    | done =>
      cases h
      exact Or.inr ⟨error, rfl, rfl, rfl⟩
    | failed | unacknowledged | uncommitted => cases hc
    | delivered | reply => cases h

section Alone

variable {env : Deployment} {i : Nat} {tag : Tag} {reply : Nat → Transport} {w : World}
  {t : Trade} {text : String}

theorem runAlone_commit {α : Type} {e : Edits} (h : e.flushError? t = none)
    (next : Except CommitError DateTime → Free effects α) :
    runAlone env i tag true reply (.op (.commit t e) next) w =
      runAlone env i tag true reply (next (.ok w.clock)) (w.recording t e) := by
  rw [runAlone, Host.drive_op]
  change (execCommit w t e .done).bind _ = _
  rw [execCommit_done h]
  rfl

variable (t) in
/-- The commit of edits that are stamped with the time. -/
theorem runAlone_stamped {α : Type} (edits : DateTime → Edits)
    (h : (edits w.clock).flushError? t = none)
    (next : DateTime → Except CommitError DateTime → Free effects α) :
    runAlone env i tag true reply (.op .clock fun now => .op (.commit t (edits now)) (next now)) w =
      runAlone env i tag true reply (next w.clock (.ok w.clock)) (w.recording t (edits w.clock)) :=
  runAlone_commit h _

theorem runToQuery_commit {α : Type} {e : Edits} (h : e.flushError? t = none)
    (next : Except CommitError DateTime → Free effects α) :
    runToQuery env i tag reply (.op (.commit t e) next) w =
      runToQuery env i tag reply (next (.ok w.clock)) (w.recording t e) := by
  change (execCommit w t e .done).bind _ = _
  rw [execCommit_done h]
  rfl

/-! ## The order call -/

/-- What is left of a submission when its order call has ended. -/
def afterCall (env : Deployment) (t : Trade) (outcome : Transport) :
    Free effects (Except Exc Unit × Instance) :=
  match submissionOutcome env t outcome with
  | .ok o => settle env t o
  | .error e => .pure (.error e, .fresh t)

theorem runToQuery_submit (htext : formatDecimal t.quantity = some text) :
    runToQuery env i tag reply ((submitToBinance env).exec (.fresh t)) w =
      runToQuery env i tag reply (afterCall env t (reply w.calls.length))
        (w.placing env t text) := by
  rw [submitToBinance_exec, htext]
  rfl

theorem runAlone_submit {commits : Bool} (htext : formatDecimal t.quantity = some text) :
    runAlone env i tag commits reply ((submitToBinance env).exec (.fresh t)) w =
      runAlone env i tag commits reply (afterCall env t (reply w.calls.length))
        (w.placing env t text) := by
  rw [submitToBinance_exec, htext]
  rfl

/-! ## The outcome -/

/-- The copy of a trade whose outcome is uncertain, after the commit: it is the row. -/
theorem flushed_uncertain (t : Trade) (exc : BinanceError) (now : DateTime) :
    ((Outcome.uncertain exc).held env t).flushed now =
      .fresh ((uncertainEdits env exc).flush t now t) := by
  simp only [Outcome.held, Outcome.edits, Instance.flushed, Instance.current, Edits.view,
    Edits.flush, uncertainEdits, UnitOfWork.Attribute.flush_within, UnitOfWork.plain_flush_self,
    Option.getD_some, Option.getD_none, UnitOfWork.Attribute.flush_none]
  rfl

variable (env i tag reply) in
/-- Handling an outcome, up to the query if it comes to one. -/
theorem runToQuery_settle (o : Outcome) (hflush : (o.edits env).flushError? t = none) :
    ∃ x, runToQuery env i tag reply (settle env t o) w = some (x, w.recording t (o.edits env)) ∧
      ((∃ j, x = .pure (.ok (), j)) ∨ ∃ exc, o = .uncertain exc ∧
        x = queryNow env (.fresh ((o.edits env).flush t w.clock t))) := by
  rw [settle, runToQuery_commit hflush]
  cases o with
  | settled result => exact ⟨_, rfl, Or.inl ⟨_, rfl⟩⟩
  | refused status code message => exact ⟨_, rfl, Or.inl ⟨_, rfl⟩⟩
  | uncertain exc =>
    refine ⟨_, ?_, Or.inr ⟨exc, rfl, rfl⟩⟩
    have hterm : ((uncertainEdits env exc).flush t w.clock t).isTerminal = false := by
      rw [Trade.isTerminal, status_flush rfl]
      rfl
    have hstop : runToQuery env i tag reply
        (queryNow env (.fresh ((uncertainEdits env exc).flush t w.clock t)))
        (w.recording t (uncertainEdits env exc)) =
          some (queryNow env (.fresh ((uncertainEdits env exc).flush t w.clock t)),
            w.recording t (uncertainEdits env exc)) := by
      rw [queryNow, reconcileTrade_exec, hterm]
      rfl
    rw [Outcome.edits, ← hstop, ← flushed_uncertain]

/-- The uncertain handler goes on to its query. -/
theorem runAlone_uncertain {exc : BinanceError}
    (hflush : (uncertainEdits env exc).flushError? t = none) :
    runAlone env i tag true reply (settle env t (.uncertain exc)) w =
      runAlone env i tag true reply
        (queryNow env (.fresh ((uncertainEdits env exc).flush t w.clock t)))
        (w.recording t (uncertainEdits env exc)) := by
  rw [settle, Outcome.edits, runAlone_commit hflush, ← flushed_uncertain]

variable (env i tag reply) in
/-- Whatever was to be recorded, with no commit the row stays. -/
theorem runAlone_uncommitted (o : Outcome) :
    ∃ e j, runAlone env i tag false reply (settle env t o) w = some ((.error e, j), w) := by
  cases o with
  | settled result => exact ⟨_, _, rfl⟩
  | refused status code message => exact ⟨_, _, rfl⟩
  | uncertain exc => exact ⟨_, _, rfl⟩

/-! ## The query -/

/-- What is left of a reconciliation when its query has ended. -/
def afterQuery (env : Deployment) (t : Trade) (outcome : Transport) :
    Free effects (Except Exc TradeStatus × Instance) :=
  match queryReply env outcome with
  | .ok answer =>
    .op .clock fun now =>
    .op (.commit t (answerEdits answer now)) fun r =>
    match r with
    | .ok stamp =>
      .pure (.ok ((answerEdits answer now).view t).status,
        (⟨t, answerEdits answer now, .loaded⟩ : Instance).flushed stamp)
    | .error e => .pure (.error e.exc, (⟨t, answerEdits answer now, .loaded⟩ : Instance).failed e)
  | .error (.binance _) => .pure (.ok t.status, .fresh t)
  | .error e => .pure (.error e, .fresh t)

theorem runAlone_reconcile {commits : Bool} (hterm : t.isTerminal = false) :
    runAlone env i tag commits reply ((reconcileTrade env).exec (.fresh t)) w =
      runAlone env i tag commits reply (afterQuery env t (reply w.calls.length))
        (w.asking t) := by
  rw [reconcileTrade_exec, hterm]
  rfl

variable (i tag reply) in
theorem runAlone_answered {answer : Option BinanceOrderResult} {outcome : Transport}
    (h : queryReply env outcome = .ok answer)
    (hflush : (answerEdits answer w.clock).flushError? t = none) :
    ∃ s j, runAlone env i tag true reply (afterQuery env t outcome) w =
      some ((.ok s, j), w.recording t (answerEdits answer w.clock)) := by
  rw [afterQuery, h]
  exact ⟨_, _, runAlone_stamped t (answerEdits answer) hflush _⟩

/-- The end of the uncertain handler, when its query has ended. -/
def queried : Except Exc TradeStatus × Instance → Free effects (Except Exc Unit × Instance)
  | (.ok _, j) => .pure (.ok (), j)
  | (.error _, j) =>
    match j.access.error? with
    | none => .op (.log (.immediateReconciliationFailed j.current.id)) fun _ => .pure (.ok (), j)
    | some e => .pure (.error e, j)

theorem runAlone_queryNow (hterm : t.isTerminal = false) :
    runAlone env i tag true reply (queryNow env (.fresh t)) w =
      runAlone env i tag true reply
        ((afterQuery env t (reply w.calls.length)).bind queried) (w.asking t) := by
  rw [queryNow, reconcileTrade_exec, hterm]
  rfl

variable (i tag) in
theorem runAlone_queryNow_answered (hterm : t.isTerminal = false)
    {answer : Option BinanceOrderResult} (h : queryReply env (reply w.calls.length) = .ok answer)
    (hflush : (answerEdits answer w.clock).flushError? t = none) :
    ∃ j, runAlone env i tag true reply (queryNow env (.fresh t)) w =
      some ((.ok (), j), (w.asking t).recording t (answerEdits answer w.clock)) := by
  rw [runAlone_queryNow hterm, afterQuery, h]
  exact ⟨_, runAlone_stamped (w := w.asking t) t (answerEdits answer) hflush _⟩

variable (i tag) in
/-- A query that is not answered records nothing. -/
theorem runAlone_queryNow_failed (hterm : t.isTerminal = false) {e : Exc}
    (h : queryReply env (reply w.calls.length) = .error e) :
    ∃ j u, runAlone env i tag true reply (queryNow env (.fresh t)) w =
      some ((.ok (), j), u) ∧ u.trades = w.trades := by
  rw [runAlone_queryNow hterm, afterQuery, h]
  cases e <;> exact ⟨_, _, rfl, rfl⟩

end Alone

end AutoTrader
