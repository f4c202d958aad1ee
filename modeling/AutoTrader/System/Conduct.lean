import AutoTrader.System.World

/-!
# How the service's threads conduct themselves

The contract all tasks of the service keep. A thread's stance is what it has loaded so
far and how far it has come with the trade in its hands; `Stance.permits` lists what it
may do there. Whoever places an order has won the claim, reloaded the row, announced
the order, and places the order of that copy; whoever commits an outcome has just
received the reply that the outcome is derived from; a query is made for a loaded copy
that is not settled.

`keeps_conduct` says that every task keeps the contract. It is the only place where the
code of the tasks is gone through for the results on interleavings.
-/

namespace AutoTrader

open Python Coroutine

/-- How far a thread has come with the trade in its hands. -/
inductive Phase
  | idle
  /-- Its claim changed the row. -/
  | won (id : TradeId)
  /-- It has reloaded the row it claimed. -/
  | holding (t : Trade)
  /-- It has announced the order. -/
  | calling (t : Trade)
  | posted (t : Trade) (ticket : Nat)
  | replied (t : Trade) (outcome : Transport)
  | asked (t : Trade) (ticket : Nat)
  | answered (t : Trade) (outcome : Transport)
  /-- It won a claim and could not reload the row. -/
  | over

namespace Phase

/-- No claim, and no call to the exchange, is waiting to be followed up. -/
def relaxed : Phase → Prop
  | idle | replied _ _ | answered _ _ => True
  | _ => False

/-- A thread may stop here: no claim is left without its order, unless the order cannot be
written down, and no call is waited for. -/
def finished : Phase → Prop
  | won _ | calling _ | posted _ _ | asked _ _ => False
  | holding t => formatDecimal t.quantity = none
  | _ => True

theorem finished_of_relaxed {phase : Phase} (h : phase.relaxed) : phase.finished := by
  cases phase <;> trivial

theorem relaxed_of_idle {phase : Phase} (h : phase = .idle) : phase.relaxed := by
  rw [h]
  trivial

end Phase

structure Stance where
  payload : Option TradingViewWebhookPayload
  /-- Every state of a row that the thread's session has held. -/
  copies : List Trade
  phase : Phase

/-- What an operation is meant for, where that is not clear from the operation. -/
inductive Move
  | plain
  | ask (t : Trade)

namespace Stance

def start (task : Task) : Stance := ⟨task.payload?, [], .idle⟩

/-- The edits an outcome handler may commit on the copy `t`. -/
def concludes (env : Deployment) (q : Stance) (t : Trade) (e : Edits) : Prop :=
  (∃ outcome o, q.phase = .replied t outcome ∧ submissionOutcome env t outcome = .ok o ∧
    e = o.edits env) ∨
  ∃ outcome answer now, q.phase = .answered t outcome ∧ queryReply env outcome = .ok answer ∧
    e = answerEdits answer now

def permits (env : Deployment) (q : Stance) : Move → Op → Prop
  | .ask t, .send r =>
    q.phase.relaxed ∧ t ∈ q.copies ∧ t.isTerminal = false ∧
      r = queryRequest t.symbol t.clientOrderId
  | .ask _, _ => False
  | .plain, .send r =>
    ∃ t text, q.phase = .calling t ∧ formatDecimal t.quantity = some text ∧
      r = orderFor env t text
  | .plain, .insert n =>
    q.phase = .idle ∧ ∃ payload owner, q.payload = some payload ∧
      validateSignal env payload = .ok () ∧ n = pendingTrade env payload owner
  | .plain, .claim _ _ => q.phase = .idle
  | .plain, .get id => q.phase = .won id
  | .plain, .log (.orderRequest path side symbol quantity clientOrderId) =>
    ∃ t text, q.phase = .holding t ∧ formatDecimal t.quantity = some text ∧
      .orderRequest path side symbol quantity clientOrderId = orderLine env t text
  | .plain, .receive k => ∃ t, q.phase = .posted t k ∨ q.phase = .asked t k
  | .plain, .commit t e => t ∈ q.copies ∧ q.concludes env t e
  | .plain, _ => q.phase.relaxed

/-- The copy after a flush. -/
def flushedCopy (t : Trade) (e : Edits) (now : DateTime) : Trade :=
  ((⟨t, e, .loaded⟩ : Instance).flushed now).loaded

def next (q : Stance) (m : Move) : (o : Op) → o.Res → Stance
  | .claim id _, r =>
    match r with
    | .ok 1 => { q with phase := .won id }
    | _ => q
  | .get _, r =>
    match r with
    | .ok (some t) => { q with copies := t :: q.copies, phase := .holding t }
    | _ => { q with phase := .over }
  | .getForUser _ _, r =>
    match r with
    | .ok (some t) => { q with copies := t :: q.copies }
    | _ => q
  | .selectReconcilable _ _, r =>
    match r with
    | .ok ts => { q with copies := ts ++ q.copies }
    | _ => q
  | .commit t e, r =>
    { q with
      copies := match r with
        | .ok now => flushedCopy t e now :: q.copies
        | .error _ => q.copies
      phase := match q.phase with
        | .answered _ _ => .idle
        | phase => phase }
  | .send _, k =>
    match m, q.phase with
    | .ask t, _ => { q with phase := .asked t k }
    | .plain, .calling t => { q with phase := .posted t k }
    | .plain, _ => q
  | .receive _, outcome =>
    match q.phase with
    | .posted t _ => { q with phase := .replied t outcome }
    | .asked t _ => { q with phase := .answered t outcome }
    | _ => q
  | .log (.orderRequest _ _ _ _ _), _ =>
    match q.phase with
    | .holding t => { q with phase := .calling t }
    | _ => q
  | _, _ => q

/-- A claim that changed no row. -/
theorem next_claim (q : Stance) (m : Move) (id : TradeId) (now : DateTime)
    {r : Except SqlError Nat} (hr : r ≠ .ok 1) : q.next m (.claim id now) r = q := by
  rcases r with e | n
  · rfl
  · simp [Stance.next]

end Stance

abbrev conduct (env : Deployment) : Contract effects where
  State := Stance
  Move := Move
  permits := Stance.permits env
  answers _ _ _ := True
  next := Stance.next
  final q := q.phase.finished

/-! ## Every function keeps the contract -/

variable {env : Deployment} {q : Stance}

theorem meets_reconcileTrade {t : Trade} (ht : t ∈ q.copies) (hq : q.phase.relaxed) :
    ((reconcileTrade env).exec (.fresh t)).Meets (conduct env) q fun _ q' =>
      q'.phase.relaxed ∧ q.copies ⊆ q'.copies := by
  rw [reconcileTrade_exec]
  split
  · exact ⟨hq, List.Subset.refl _⟩
  · rename_i hterm
    refine Free.meets_op_of (.ask t) ⟨hq, ht, by simpa using hterm, rfl⟩ fun k _ => ?_
    refine Free.meets_op_of .plain ⟨t, Or.inr rfl⟩ fun outcome _ => ?_
    cases hreply : queryReply env outcome with
    | error e =>
      cases e <;> exact ⟨trivial, List.Subset.refl _⟩
    | ok answer =>
      refine Free.meets_op_of .plain trivial fun now _ => ?_
      refine Free.meets_op_of .plain
        ⟨ht, Or.inr ⟨outcome, answer, now, rfl, hreply, rfl⟩⟩ fun r _ => ?_
      cases r with
      | error e => exact ⟨trivial, List.Subset.refl _⟩
      | ok stamp => exact ⟨trivial, List.subset_cons_self _ _⟩

theorem meets_queryNow {t : Trade} (ht : t ∈ q.copies) (hq : q.phase.relaxed) :
    (queryNow env (.fresh t)).Keeps (conduct env) q := by
  refine Free.Meets.bind (meets_reconcileTrade ht hq) ?_
  rintro ⟨r, j⟩ q' ⟨hq', -⟩
  have hfinished := Phase.finished_of_relaxed hq'
  cases r with
  | ok _ => exact hfinished
  | error e =>
    simp only []
    split
    · exact Free.meets_op_of .plain hq' fun _ _ => hfinished
    · exact hfinished

theorem meets_settle {t : Trade} {outcome : Transport} {o : Outcome} (ht : t ∈ q.copies)
    (hq : q.phase = .replied t outcome) (ho : submissionOutcome env t outcome = .ok o) :
    (settle env t o).Keeps (conduct env) q := by
  refine Free.meets_op_of .plain ⟨ht, Or.inl ⟨outcome, o, hq, ho, rfl⟩⟩ fun r _ => ?_
  have hrelaxed : (q.next .plain (.commit t (o.edits env)) r).phase.relaxed := by
    simp only [Stance.next, hq]
    trivial
  have hfinished := Phase.finished_of_relaxed hrelaxed
  cases r with
  | error e => exact hfinished
  | ok now =>
    cases o with
    | settled _ => exact hfinished
    | refused _ _ _ => exact hfinished
    | uncertain exc => exact meets_queryNow List.mem_cons_self hrelaxed

theorem meets_submitToBinance {t : Trade} (ht : t ∈ q.copies) (hq : q.phase = .holding t) :
    ((submitToBinance env).exec (.fresh t)).Keeps (conduct env) q := by
  rw [submitToBinance_exec]
  cases htext : formatDecimal t.quantity with
  | none =>
    change q.phase.finished
    rw [hq]
    exact htext
  | some text =>
    refine Free.meets_op_of .plain ⟨t, text, hq, htext, rfl⟩ fun _ _ => ?_
    have hcalling : ((conduct env).next q .plain (.log (orderLine env t text)) ()) =
        { q with phase := .calling t } := by
      simp [conduct, Stance.next, orderLine, hq]
    rw [hcalling]
    refine Free.meets_op_of .plain ⟨t, text, rfl, htext, rfl⟩ fun k _ => ?_
    refine Free.meets_op_of .plain ⟨t, Or.inl rfl⟩ fun outcome _ => ?_
    cases ho : submissionOutcome env t outcome with
    | error e => trivial
    | ok o => exact meets_settle ht rfl ho

theorem meets_claimForSubmission {id : TradeId} (hq : q.phase = .idle) :
    (claimForSubmission id).run.Meets (conduct env) q fun r q' =>
      match r with
      | .ok (some i) => ∃ t, i = .fresh t ∧ q'.phase = .holding t ∧ t ∈ q'.copies
      | _ => q'.phase.finished := by
  have hfinished := Phase.finished_of_relaxed (Phase.relaxed_of_idle hq)
  rw [claimForSubmission_run]
  refine Free.meets_op_of .plain (by simp [Stance.permits, hq, Phase.relaxed])
    fun now _ => ?_
  refine Free.meets_op_of .plain hq fun r _ => ?_
  cases r with
  | error e => exact hfinished
  | ok rowcount =>
    by_cases hcount : rowcount ≠ 1
    · simp only [if_pos hcount]
      change (q.next .plain (.claim id now) (.ok rowcount)).phase.finished
      rw [Stance.next_claim q .plain id now fun h => hcount (Except.ok.inj h)]
      exact hfinished
    · have hone : rowcount = 1 := not_not.mp hcount
      subst hone
      simp only [if_neg hcount]
      refine Free.meets_op_of .plain rfl fun r _ => ?_
      rcases r with e | _ | t
      · trivial
      · trivial
      · exact ⟨t, rfl, rfl, List.mem_cons_self⟩

theorem meets_on {t : Trade} {α : Type} {x : OnTrade α}
    (h : (x.exec (.fresh t)).Keeps (conduct env) q) :
    (OnTrade.on (.fresh t) x).run.Keeps (conduct env) q := by
  refine Free.Meets.bind h ?_
  rintro ⟨r, j⟩ q' hq'
  cases r <;> exact hq'

theorem meets_execute {id : TradeId} (hq : q.phase = .idle) :
    (execute env id).run.Keeps (conduct env) q := by
  rw [execute, App.run_bind]
  refine Free.Meets.bind (meets_claimForSubmission hq) ?_
  intro r q' hr
  match r with
  | .error e => exact hr
  | .ok none => exact hr
  | .ok (some i) =>
    obtain ⟨t, rfl, hphase, ht⟩ := hr
    simp only [App.run_bind]
    refine Free.Meets.bind (meets_on (meets_submitToBinance ht hphase)) ?_
    rintro (_ | _) q'' hq'' <;> exact hq''

theorem meets_resolveTradeOwnerId (hq : q.phase = .idle) :
    (resolveTradeOwnerId env).run.Meets (conduct env) q fun _ q' => q' = q := by
  have hrelaxed := Phase.relaxed_of_idle hq
  simp only [resolveTradeOwnerId, App.run_bind, App.run_perform, Free.bind_op, Free.bind_pure]
  refine Free.meets_op_of .plain hrelaxed fun cached _ => ?_
  cases cached with
  | some id => rfl
  | none =>
    simp only [App.run_bind, App.run_db, App.run_perform, Free.bind_op, Free.bind_pure]
    refine Free.meets_op_of .plain hrelaxed fun r _ => ?_
    rcases r with e | _ | id
    · rfl
    · rfl
    · simp only [Free.bind_pure, App.run_bind, App.run_perform, Free.bind_op]
      exact Free.meets_op_of .plain hrelaxed fun _ _ => rfl

theorem meets_createPendingTrade {payload : TradingViewWebhookPayload} {owner : UserId}
    (hq : q.phase = .idle) (hp : q.payload = some payload)
    (hv : validateSignal env payload = .ok ()) :
    (createPendingTrade env payload owner).run.Meets (conduct env) q fun _ q' => q' = q := by
  have hrelaxed := Phase.relaxed_of_idle hq
  simp only [createPendingTrade, App.run_bind, App.run_perform, Free.bind_op, Free.bind_pure]
  refine Free.meets_op_of .plain ⟨hq, payload, owner, hp, hv, rfl⟩ fun r _ => ?_
  rcases r with (_ | _ | _) | row
  · simp only [App.run_bind, App.run_db, App.run_perform, Free.bind_op, Free.bind_pure]
    refine Free.meets_op_of .plain hrelaxed fun r _ => ?_
    cases r <;> rfl
  · rfl
  · rfl
  · rfl

theorem meets_processSignal {payload : TradingViewWebhookPayload} (hq : q.phase = .idle)
    (hp : q.payload = some payload) :
    (processSignal env payload).run.Keeps (conduct env) q := by
  have hfinished := Phase.finished_of_relaxed (Phase.relaxed_of_idle hq)
  simp only [processSignal, App.run_bind, App.run_mk, Free.pure_eq, Free.bind_pure]
  cases hv : validateSignal env payload with
  | error e => exact hfinished
  | ok _ =>
    refine Free.Meets.bind (meets_resolveTradeOwnerId hq) ?_
    rintro owner q' rfl
    cases owner with
    | error e => exact hfinished
    | ok owner =>
      simp only
      refine Free.Meets.bind (meets_createPendingTrade hq hp hv) ?_
      rintro trade q'' rfl
      cases trade with
      | error e => exact hfinished
      | ok trade =>
        simp only []
        split
        · simp only [App.run_bind, App.run_perform, Free.bind_op, Free.bind_pure]
          exact Free.meets_op_of .plain (Phase.relaxed_of_idle hq) fun _ _ => hfinished
        · rw [App.run_bind]
          refine Free.Meets.bind (meets_claimForSubmission hq) ?_
          intro r q' hr
          match r with
          | .error e => exact hr
          | .ok none => exact hr
          | .ok (some i) =>
            obtain ⟨t, rfl, hphase, ht⟩ := hr
            simp only [App.run_bind]
            refine Free.Meets.bind (meets_on (meets_submitToBinance ht hphase)) ?_
            rintro (_ | _) q'' hq'' <;> exact hq''

theorem meets_submitAll (ids : List TradeId) (hq : q.phase = .idle) :
    (submitAll ids).run.Keeps (conduct env) q := by
  induction ids with
  | nil => exact Phase.finished_of_relaxed (Phase.relaxed_of_idle hq)
  | cons id rest ih =>
    simp only [submitAll, App.run_bind, App.run_perform, Free.bind_op, Free.bind_pure]
    exact Free.meets_op_of .plain (Phase.relaxed_of_idle hq) fun _ _ => ih

theorem meets_resumePending (hq : q.phase = .idle) :
    (resumePending env).run.Keeps (conduct env) q := by
  simp only [resumePending, App.run_bind, App.run_db, App.run_perform, Free.bind_op,
    Free.bind_pure]
  refine Free.meets_op_of .plain (Phase.relaxed_of_idle hq) fun r _ => ?_
  cases r with
  | error e => exact Phase.finished_of_relaxed (Phase.relaxed_of_idle hq)
  | ok ids =>
    simp only [Free.bind_pure]
    refine Free.Meets.bind (meets_submitAll ids hq) ?_
    rintro (_ | _) q' hq' <;> exact hq'

theorem meets_reconcileRoute {user : UserId} {id : TradeId} (hq : q.phase = .idle) :
    (reconcileRoute env user id).run.Keeps (conduct env) q := by
  simp only [reconcileRoute, App.run_bind, App.run_db, App.run_perform, Free.bind_op,
    Free.bind_pure]
  refine Free.meets_op_of .plain (Phase.relaxed_of_idle hq) fun r _ => ?_
  have hrelaxed := Phase.relaxed_of_idle hq
  rcases r with e | _ | t
  · exact Phase.finished_of_relaxed hrelaxed
  · exact Phase.finished_of_relaxed hrelaxed
  · simp only [Free.bind_pure, App.run_bind]
    refine Free.Meets.bind (meets_on ?_) ?_
    · exact (meets_reconcileTrade (q := { q with copies := t :: q.copies }) List.mem_cons_self
        hrelaxed).mono fun _ _ hq' => Phase.finished_of_relaxed hq'.1
    · rintro (_ | _) q' hq' <;> exact hq'

theorem meets_reconcileEach (ts : List Trade) (summary : Summary) (hq : q.phase.relaxed)
    (hts : ts ⊆ q.copies) :
    (reconcileEach env ts summary).run.Keeps (conduct env) q := by
  induction ts generalizing q summary with
  | nil => exact Phase.finished_of_relaxed hq
  | cons t rest ih =>
    simp only [reconcileEach, App.run_bind, OnTrade.on, App.run_mk, Free.bind_assoc]
    refine Free.Meets.bind (meets_reconcileTrade (hts List.mem_cons_self) hq) ?_
    rintro ⟨r, j⟩ q' ⟨hq', hsub⟩
    cases r with
    | error e => exact Phase.finished_of_relaxed hq'
    | ok status =>
      exact ih _ hq' (List.Subset.trans (List.subset_of_cons_subset hts) hsub)

theorem meets_reconcilePendingTrades {olderThanSeconds : Int} {limit : Nat}
    (hq : q.phase = .idle) :
    (reconcilePendingTrades env olderThanSeconds limit).run.Keeps (conduct env) q := by
  have hrelaxed := Phase.relaxed_of_idle hq
  simp only [reconcilePendingTrades, findReconcilableTrades, App.run_bind, App.run_db,
    App.run_perform, Free.bind_op, Free.bind_pure]
  refine Free.meets_op_of .plain hrelaxed fun now _ => ?_
  refine Free.meets_op_of .plain hrelaxed fun r _ => ?_
  cases r with
  | error e => exact Phase.finished_of_relaxed hrelaxed
  | ok ts => exact meets_reconcileEach ts _ hrelaxed (List.subset_append_left _ _)

/-- **Every task keeps the contract.** -/
theorem keeps_conduct (env : Deployment) (task : Task) :
    (task.program env).Keeps (conduct env) (.start task) := by
  have drop : ∀ {α : Type} {x : App α} {q : Stance},
      x.run.Keeps (conduct env) q →
        (effectsOnly x).Keeps (conduct env) q :=
    fun h => Free.Meets.bind h fun _ _ hq => hq
  cases task with
  | request payload => exact drop (meets_processSignal rfl rfl)
  | execute id => exact drop (meets_execute rfl)
  | resume => exact drop (meets_resumePending rfl)
  | reconcile user id => exact drop (meets_reconcileRoute rfl)
  | batch olderThanSeconds limit => exact drop (meets_reconcilePendingTrades rfl)

end AutoTrader
