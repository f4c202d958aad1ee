import AutoTrader.System.Alone
import AutoTrader.System.Ledger

/-!
# The errand of a thread

A second contract, closer to the code than the first: it follows a signal or a queued id
operation by operation, from the row to the commit that ends the submission. An errand
that ends early (a claim that is lost, a call that raises) is `done`. Reconciliations have
no errand here; they are `other`, which may do anything.

`keeps_errand` goes through the code once; the results on queued execution use it.
-/

namespace AutoTrader

open Python Coroutine

inductive Errand
  /-- About to select what was never sent. -/
  | resuming
  /-- About to queue these ids. -/
  | filling (ids : List TradeId)
  /-- A signal without a row, and the owner id once it is known. -/
  | signal (payload : TradingViewWebhookPayload) (owner : Option UserId)
  /-- A signal whose INSERT was refused. -/
  | refused
  /-- A committed row that is to be queued. -/
  | accepted (id : TradeId)
  | claiming (id : TradeId)
  /-- The claim changed the row. -/
  | reloading (id : TradeId)
  | holding (t : Trade)
  /-- The order is announced. -/
  | calling (t : Trade) (text : String)
  | posted (t : Trade) (ticket : Nat)
  /-- The order call has come to this outcome. -/
  | heard (t : Trade) (o : Outcome)
  /-- The uncertain outcome is committed. -/
  | doubtful (t : Trade)
  | asked (t : Trade) (ticket : Nat)
  | learnt (t : Trade) (answer : Option BinanceOrderResult)
  | dated (t : Trade) (answer : Option BinanceOrderResult) (now : DateTime)
  | done
  | other

namespace Errand

def start : Task → Errand
  | .request payload => .signal payload none
  | .execute id => .claiming id
  | .resume => .resuming
  | .reconcile _ _ | .batch _ _ => .other

def permits (env : Deployment) : Errand → Op → Prop
  | .resuming, .selectUnsent limit => limit = env.settings.executorQueueSize
  | .filling (id :: _), .enqueue id' => id' = id
  | .signal payload none, .cachedOwner => validateSignal env payload = .ok ()
  | .signal payload none, .selectOwner email =>
    validateSignal env payload = .ok () ∧ email = env.settings.webhookTradeOwnerEmail
  | .signal payload (some owner), .cacheOwner id => validateSignal env payload = .ok () ∧ id = owner
  | .signal payload (some owner), .insert n =>
    validateSignal env payload = .ok () ∧ n = pendingTrade env payload owner
  | .refused, .selectBySignal _ => True
  | .accepted id, .enqueue id' => id' = id
  | .claiming _, .clock => True
  | .claiming id, .claim id' _ => id' = id
  | .reloading id, .get id' => id' = id
  | .holding t, .log r => ∃ text, formatDecimal t.quantity = some text ∧ r = orderLine env t text
  | .calling t text, .send r => formatDecimal t.quantity = some text ∧ r = orderFor env t text
  | .posted _ k, .receive k' => k' = k
  | .heard t o, .commit t' e => t' = t ∧ e = o.edits env
  | .doubtful t, .send r => r = queryRequest t.symbol t.clientOrderId
  | .asked _ k, .receive k' => k' = k
  | .learnt _ _, .clock => True
  | .dated t answer now, .commit t' e => t' = t ∧ e = answerEdits answer now
  | .done, .log r => r.announced? = none
  | .other, _ => True
  | _, _ => False

/-- After a call to the exchange has ended. -/
def hear (env : Deployment) (t : Trade) (outcome : Transport) : Errand :=
  match submissionOutcome env t outcome with
  | .ok o => .heard t o
  | .error _ => .done

def learn (env : Deployment) (t : Trade) (outcome : Transport) : Errand :=
  match queryReply env outcome with
  | .ok answer => .learnt t answer
  | .error _ => .done

/-- After the commit of an outcome. -/
def conclude (env : Deployment) (t : Trade) : Outcome → Except CommitError DateTime → Errand
  | .uncertain exc, .ok now => .doubtful ((uncertainEdits env exc).flush t now t)
  | _, _ => .done

/-- After the INSERT. -/
def insertion (env : Deployment) : Except SqlError Trade → Errand
  | .ok row => if env.settings.webhookAsyncExecution then .accepted row.id else .claiming row.id
  | .error .integrity => .refused
  | .error _ => .done

def next (env : Deployment) : Errand → (o : Op) → o.Res → Errand
  | .resuming, .selectUnsent _, .ok ids => .filling ids
  | .filling (_ :: rest), .enqueue _, _ => .filling rest
  | .signal payload none, .cachedOwner, owner => .signal payload owner
  | .signal payload none, .selectOwner _, .ok (some owner) => .signal payload (some owner)
  | .signal payload owner, .cacheOwner _, _ => .signal payload owner
  | .signal _ _, .insert _, r => insertion env r
  | .claiming id, .clock, _ => .claiming id
  | .claiming id, .claim _ _, .ok 1 => .reloading id
  | .reloading _, .get _, .ok (some t) => .holding t
  | .holding t, .log (.orderRequest _ _ _ text _), _ => .calling t text
  | .calling t _, .send _, k => .posted t k
  | .posted t _, .receive _, outcome => hear env t outcome
  | .heard t o, .commit _ _, r => conclude env t o r
  | .doubtful t, .send _, k => .asked t k
  | .asked t _, .receive _, outcome => learn env t outcome
  | .learnt t answer, .clock, now => .dated t answer now
  | .other, _, _ => .other
  | _, _, _ => .done

/-- Where a thread may stop: nothing is left to do, or it is a signal that is not valid, or an
order that cannot be written down. -/
def final (env : Deployment) : Errand → Prop
  | .filling ids => ids = []
  | .signal payload _ => validateSignal env payload ≠ .ok ()
  | .holding t => formatDecimal t.quantity = none
  | .done | .other => True
  | _ => False

/-- The copy of the row a thread works on. -/
def copy? : Errand → Option Trade
  | .holding t | .calling t _ | .posted t _ | .heard t _ | .doubtful t | .asked t _ | .learnt t _
  | .dated t _ _ => some t
  | _ => none

/-- The row a thread has claimed. -/
def claimed? : Errand → Option TradeId
  | .reloading id => some id
  | q => q.copy?.map Trade.id

variable {env : Deployment} {q : Errand} {id : TradeId} {t : Trade}

/-! Who issues an operation. -/

theorem of_clock (h : q.permits env .clock) :
    (∃ id, q = .claiming id) ∨ (∃ t answer, q = .learnt t answer) ∨ q = .other := by
  cases q with
  | claiming id => exact Or.inl ⟨id, rfl⟩
  | learnt t answer => exact Or.inr (Or.inl ⟨t, answer, rfl⟩)
  | other => exact Or.inr (Or.inr rfl)
  | filling ids => cases ids <;> cases h
  | signal payload owner => cases owner <;> cases h
  | _ => cases h

theorem of_claim {now : DateTime} (h : q.permits env (.claim id now)) :
    q = .claiming id ∨ q = .other := by
  cases q with
  | claiming id' =>
    obtain rfl : id = id' := h
    exact Or.inl rfl
  | other => exact Or.inr rfl
  | filling ids => cases ids <;> cases h
  | signal payload owner => cases owner <;> cases h
  | _ => cases h

theorem of_get (h : q.permits env (.get id)) : q = .reloading id ∨ q = .other := by
  cases q with
  | reloading id' =>
    obtain rfl : id = id' := h
    exact Or.inl rfl
  | other => exact Or.inr rfl
  | filling ids => cases ids <;> cases h
  | signal payload owner => cases owner <;> cases h
  | _ => cases h

theorem of_selectUnsent {limit : Nat} (h : q.permits env (.selectUnsent limit)) :
    (q = .resuming ∧ limit = env.settings.executorQueueSize) ∨ q = .other := by
  cases q with
  | resuming => exact Or.inl ⟨rfl, h⟩
  | other => exact Or.inr rfl
  | filling ids => cases ids <;> cases h
  | signal payload owner => cases owner <;> cases h
  | _ => cases h

theorem of_enqueue (h : q.permits env (.enqueue id)) :
    (∃ rest, q = .filling (id :: rest)) ∨ q = .accepted id ∨ q = .other := by
  cases q with
  | filling ids =>
    cases ids with
    | nil => cases h
    | cons id' rest =>
      obtain rfl : id = id' := h
      exact Or.inl ⟨rest, rfl⟩
  | accepted id' =>
    obtain rfl : id = id' := h
    exact Or.inr (Or.inl rfl)
  | other => exact Or.inr (Or.inr rfl)
  | signal payload owner => cases owner <;> cases h
  | _ => cases h

theorem of_insert {n : NewTrade} (h : q.permits env (.insert n)) :
    (∃ payload owner, q = .signal payload (some owner) ∧ validateSignal env payload = .ok () ∧
      n = pendingTrade env payload owner) ∨ q = .other := by
  cases q with
  | signal payload owner =>
    cases owner with
    | none => cases h
    | some owner => exact Or.inl ⟨payload, owner, rfl, h.1, h.2⟩
  | other => exact Or.inr rfl
  | filling ids => cases ids <;> cases h
  | _ => cases h

theorem of_log {record : LogRecord} (h : q.permits env (.log record)) :
    (∃ t text, q = .holding t ∧ formatDecimal t.quantity = some text ∧
      record = orderLine env t text) ∨ (q = .done ∧ record.announced? = none) ∨ q = .other := by
  cases q with
  | holding t =>
    obtain ⟨text, htext, hrecord⟩ := h
    exact Or.inl ⟨t, text, rfl, htext, hrecord⟩
  | done => exact Or.inr (Or.inl ⟨rfl, h⟩)
  | other => exact Or.inr (Or.inr rfl)
  | filling ids => cases ids <;> cases h
  | signal payload owner => cases owner <;> cases h
  | _ => cases h

theorem of_send {request : HttpRequest} (h : q.permits env (.send request)) :
    (∃ t text, q = .calling t text ∧ formatDecimal t.quantity = some text ∧
      request = orderFor env t text) ∨
    (∃ t, q = .doubtful t ∧ request = queryRequest t.symbol t.clientOrderId) ∨ q = .other := by
  cases q with
  | calling t text => exact Or.inl ⟨t, text, rfl, h.1, h.2⟩
  | doubtful t => exact Or.inr (Or.inl ⟨t, rfl, h⟩)
  | other => exact Or.inr (Or.inr rfl)
  | filling ids => cases ids <;> cases h
  | signal payload owner => cases owner <;> cases h
  | _ => cases h

theorem of_receive {k : Nat} (h : q.permits env (.receive k)) :
    (∃ t, q = .posted t k) ∨ (∃ t, q = .asked t k) ∨ q = .other := by
  cases q with
  | posted t k' =>
    obtain rfl : k = k' := h
    exact Or.inl ⟨t, rfl⟩
  | asked t k' =>
    obtain rfl : k = k' := h
    exact Or.inr (Or.inl ⟨t, rfl⟩)
  | other => exact Or.inr (Or.inr rfl)
  | filling ids => cases ids <;> cases h
  | signal payload owner => cases owner <;> cases h
  | _ => cases h

theorem of_commit {e : Edits} (h : q.permits env (.commit t e)) :
    (∃ o, q = .heard t o ∧ e = o.edits env) ∨
    (∃ answer now, q = .dated t answer now ∧ e = answerEdits answer now) ∨ q = .other := by
  cases q with
  | heard t' o =>
    obtain ⟨rfl, he⟩ := h
    exact Or.inl ⟨o, rfl, he⟩
  | dated t' answer now =>
    obtain ⟨rfl, he⟩ := h
    exact Or.inr (Or.inl ⟨answer, now, rfl, he⟩)
  | other => exact Or.inr (Or.inr rfl)
  | filling ids => cases ids <;> cases h
  | signal payload owner => cases owner <;> cases h
  | _ => cases h

end Errand

abbrev errand (env : Deployment) : Contract effects where
  State := Errand
  Move := Unit
  permits q _ o := q.permits env o
  answers _ _ _ := True
  next q _ o r := q.next env o r
  final := Errand.final env

/-! ## Every function keeps the contract -/

variable {env : Deployment}

/-- Issue an operation. -/
theorem errand_op {α : Type} {q : Errand} {o : Op} {next : o.Res → Free effects α}
    {Q : α → Errand → Prop} (hp : q.permits env o)
    (h : ∀ r, (next r).Meets (errand env) (q.next env o r) Q) :
    (Free.op o next : Free effects α).Meets (errand env) q Q :=
  ⟨(), hp, fun r _ => h r⟩

theorem errand_other {α : Type} (x : Free effects α) :
    x.Meets (errand env) .other fun _ q => q = .other := by
  induction x with
  | pure a => rfl
  | op o next ih =>
    refine errand_op (by unfold Errand.permits; trivial) fun r => ?_
    have hnext : Errand.next env .other o r = .other := by cases o <;> rfl
    rw [hnext]
    exact ih r

theorem errand_reconcileTrade {t : Trade} (hopen : t.isTerminal = false) :
    ((reconcileTrade env).exec (.fresh t)).Meets (errand env) (.doubtful t)
      fun _ q => q = .done := by
  rw [reconcileTrade_exec, hopen]
  refine errand_op rfl fun k => ?_
  refine errand_op rfl fun outcome => ?_
  simp only [Errand.next, Errand.learn]
  cases queryReply env outcome with
  | error e => cases e <;> rfl
  | ok answer =>
    refine errand_op trivial fun now => ?_
    refine errand_op ⟨rfl, rfl⟩ fun r => ?_
    cases r <;> rfl

theorem errand_queryNow {t : Trade} (hopen : t.isTerminal = false) :
    (queryNow env (.fresh t)).Keeps (errand env) (.doubtful t) := by
  refine Free.Meets.bind (errand_reconcileTrade hopen) ?_
  rintro ⟨r, j⟩ q rfl
  cases r with
  | ok _ => trivial
  | error e =>
    simp only []
    split
    · exact errand_op rfl fun _ => trivial
    · trivial

theorem errand_settle (t : Trade) (o : Outcome) :
    (settle env t o).Keeps (errand env) (.heard t o) := by
  refine errand_op ⟨rfl, rfl⟩ fun r => ?_
  cases r with
  | error e => cases o <;> trivial
  | ok now =>
    cases o with
    | settled _ => trivial
    | refused _ _ _ => trivial
    | uncertain exc =>
      simp only [Outcome.edits]
      rw [flushed_uncertain]
      apply errand_queryNow
      rw [Trade.isTerminal, status_flush rfl]
      rfl

theorem errand_submitToBinance (t : Trade) :
    ((submitToBinance env).exec (.fresh t)).Keeps (errand env) (.holding t) := by
  rw [submitToBinance_exec]
  cases htext : formatDecimal t.quantity with
  | none => exact htext
  | some text =>
    refine errand_op ⟨text, htext, rfl⟩ fun _ => ?_
    refine errand_op ⟨htext, rfl⟩ fun k => ?_
    refine errand_op rfl fun outcome => ?_
    simp only [Errand.next, orderLine, Errand.hear]
    cases submissionOutcome env t outcome with
    | error e => trivial
    | ok o => exact errand_settle t o

theorem errand_claimForSubmission (id : TradeId) :
    (claimForSubmission id).run.Meets (errand env) (.claiming id) fun r q =>
      match r with
      | .ok (some i) => ∃ t, i = .fresh t ∧ q = .holding t
      | _ => q = .done := by
  rw [claimForSubmission_run]
  refine errand_op trivial fun now => ?_
  refine errand_op rfl fun r => ?_
  cases r with
  | error e => rfl
  | ok rowcount =>
    by_cases hone : rowcount = 1
    · subst hone
      simp only [ne_eq, not_true_eq_false, if_false]
      refine errand_op rfl fun r => ?_
      rcases r with e | _ | t
      · rfl
      · rfl
      · exact ⟨t, rfl, rfl⟩
    · simp only [ne_eq, hone, not_false_eq_true, if_true]
      change Errand.next env (.claiming id) (.claim id now) (.ok rowcount) = .done
      unfold Errand.next
      split <;> simp_all

/-- The claim and the submission of what was claimed. -/
theorem errand_claimed {β : Type} (id : TradeId) {lost : App β} {f : Unit × Instance → App β}
    (hlost : lost.run.Keeps (errand env) .done)
    (hf : ∀ x q, q.final env → (f x).run.Keeps (errand env) q) :
    (claimForSubmission id >>= fun claimed =>
      match claimed with
      | none => lost
      | some trade => OnTrade.on trade (submitToBinance env) >>= f).run.Keeps (errand env)
        (.claiming id) := by
  rw [App.run_bind]
  refine Free.Meets.bind (errand_claimForSubmission id) ?_
  intro r q hr
  match r with
  | .error e =>
    rw [show q = .done from hr]
    trivial
  | .ok none =>
    rw [show q = .done from hr]
    exact hlost
  | .ok (some i) =>
    obtain ⟨t, rfl, rfl⟩ := hr
    simp only [App.run_bind, OnTrade.on, App.run_mk, Free.bind_assoc]
    refine Free.Meets.bind (errand_submitToBinance t) ?_
    rintro ⟨_ | _, j⟩ q hq
    · exact hq
    · exact hf _ q hq

theorem errand_execute (id : TradeId) :
    (execute env id).run.Keeps (errand env) (.claiming id) := by
  refine errand_claimed id trivial ?_
  intro x q hq
  exact hq

theorem errand_submitAll (ids : List TradeId) :
    (submitAll ids).run.Keeps (errand env) (.filling ids) := by
  induction ids with
  | nil => rfl
  | cons id rest ih =>
    simp only [submitAll, App.run_bind, App.run_perform, Free.bind_op, Free.bind_pure]
    exact errand_op rfl fun _ => ih

theorem errand_resumePending : (resumePending env).run.Keeps (errand env) .resuming := by
  simp only [resumePending, App.run_bind, App.run_db, App.run_perform, Free.bind_op,
    Free.bind_pure]
  refine errand_op rfl fun r => ?_
  cases r with
  | error e => trivial
  | ok ids =>
    simp only [Free.bind_pure]
    refine Free.Meets.bind (errand_submitAll ids) ?_
    rintro (_ | _) q hq <;> exact hq

theorem errand_resolveTradeOwnerId {payload : TradingViewWebhookPayload}
    (hv : validateSignal env payload = .ok ()) :
    (resolveTradeOwnerId env).run.Meets (errand env) (.signal payload none) fun r q =>
      match r with
      | .ok owner => q = .signal payload (some owner)
      | .error _ => q = .done := by
  simp only [resolveTradeOwnerId, App.run_bind, App.run_perform, Free.bind_op, Free.bind_pure]
  refine errand_op hv fun cached => ?_
  cases cached with
  | some id => rfl
  | none =>
    simp only [App.run_bind, App.run_db, App.run_perform, Free.bind_op, Free.bind_pure]
    refine errand_op ⟨hv, rfl⟩ fun r => ?_
    rcases r with e | _ | id
    · rfl
    · rfl
    · simp only [Free.bind_pure, App.run_bind, App.run_perform, Free.bind_op]
      exact errand_op ⟨hv, rfl⟩ fun _ => rfl

theorem errand_createPendingTrade {payload : TradingViewWebhookPayload} {owner : UserId}
    (hv : validateSignal env payload = .ok ()) :
    (createPendingTrade env payload owner).run.Meets (errand env) (.signal payload (some owner))
      fun r q =>
        match r with
        | .ok t => q = Errand.insertion env (.ok t)
        | .error _ => q = .done := by
  simp only [createPendingTrade, App.run_bind, App.run_perform, Free.bind_op, Free.bind_pure]
  refine errand_op ⟨hv, rfl⟩ fun r => ?_
  rcases r with (_ | _ | _) | row
  · simp only [App.run_bind, App.run_db, App.run_perform, Free.bind_op, Free.bind_pure]
    refine errand_op trivial fun r => ?_
    cases r <;> rfl
  · rfl
  · rfl
  · rfl

theorem errand_processSignal (payload : TradingViewWebhookPayload) :
    (processSignal env payload).run.Keeps (errand env) (.signal payload none) := by
  simp only [processSignal, App.run_bind, App.run_mk, Free.pure_eq, Free.bind_pure]
  cases hv : validateSignal env payload with
  | error e =>
    change validateSignal env payload ≠ .ok ()
    rw [hv]
    exact fun h => by cases h
  | ok _ =>
    refine Free.Meets.bind (errand_resolveTradeOwnerId hv) ?_
    rintro owner q hq
    cases owner with
    | error e =>
      rw [show q = .done from hq]
      trivial
    | ok owner =>
      rw [show q = .signal payload (some owner) from hq]
      refine Free.Meets.bind (errand_createPendingTrade hv) ?_
      rintro trade q' hq'
      cases trade with
      | error e =>
        rw [show q' = .done from hq']
        trivial
      | ok trade =>
        rw [show q' = Errand.insertion env (.ok trade) from hq']
        simp only [Errand.insertion]
        split
        · simp only [App.run_bind, App.run_perform, Free.bind_op, Free.bind_pure]
          exact errand_op rfl fun _ => trivial
        · refine errand_claimed trade.id trivial ?_
          rintro ⟨-, i⟩ q hq
          exact hq

/-- **Every task keeps the contract.** -/
theorem keeps_errand (env : Deployment) (task : Task) :
    (task.program env).Keeps (errand env) (.start task) := by
  have drop : ∀ {α : Type} {x : App α} {q : Errand},
      x.run.Keeps (errand env) q → (effectsOnly x).Keeps (errand env) q :=
    fun h => Free.Meets.bind h fun _ _ hq => hq
  have free : ∀ x : Free effects Unit, x.Keeps (errand env) .other := by
    intro x
    refine (errand_other x).mono ?_
    rintro _ q rfl
    trivial
  cases task with
  | request payload => exact drop (errand_processSignal payload)
  | execute id => exact drop (errand_execute id)
  | resume => exact drop errand_resumePending
  | reconcile user id => exact free _
  | batch olderThanSeconds limit => exact free _

end AutoTrader
