import AutoTrader.System.World

/-!
# What a thread is there for

A third contract. It does not follow the code step by step; it says which trades a thread may
touch at all. A request has the trade of its signal, an execution the trade of its id, a
reconciliation the trade it was asked for, a batch the trades it selected, a resumption none.
Whoever is not there to submit never claims and never places an order.
-/

namespace AutoTrader

open Python Coroutine

/-- The tasks that may hand a trade to the exchange. -/
def Task.submits : Task → Bool
  | .request _ | .execute _ => true
  | _ => false

structure Duty where
  task : Task
  /-- The account new trades belong to, once it is known. -/
  owner : Option UserId
  /-- The trades in the thread's hands. -/
  ids : List TradeId
  /-- What was asked for in the trades that it has loaded. -/
  copies : List Trade.Terms

namespace Duty

def start (task : Task) : Duty where
  task := task
  owner := none
  ids := match task with
    | .execute id => [id]
    | _ => []
  copies := []

def permits (env : Deployment) (q : Duty) : Op → Prop
  | .selectOwner email => email = env.settings.webhookTradeOwnerEmail
  | .cacheOwner id => q.owner = some id
  | .insert n => ∃ payload owner, q.task = .request payload ∧ q.owner = some owner ∧
      n = pendingTrade env payload owner
  | .claim id _ | .get id => q.task.submits = true ∧ id ∈ q.ids
  | .getForUser user id => q.task = .reconcile user id
  | .selectUnsent _ => q.task = .resume
  | .selectReconcilable _ limit => ∃ olderThanSeconds, q.task = .batch olderThanSeconds limit
  | .commit t _ => t.terms ∈ q.copies
  | .enqueue id => id ∈ q.ids
  | .send r =>
    (q.task.submits = true ∧ ∃ (t : Trade) (text : String), t.terms ∈ q.copies ∧
      r = orderFor env t text) ∨
      ∃ t : Trade, t.terms ∈ q.copies ∧ r = queryRequest t.symbol t.clientOrderId
  | _ => True

/-- What comes back from the database is what was asked for. -/
def answers : (o : Op) → o.Res → Prop
  | .get id, .ok (some t) => t.id = id
  | .getForUser user id, .ok (some t) => t.userId = user ∧ t.id = id
  | _, _ => True

def next (q : Duty) : (o : Op) → o.Res → Duty
  | .cachedOwner, owner => { q with owner := owner }
  | .selectOwner _, .ok owner => { q with owner := owner }
  | .insert _, .ok row => { q with ids := row.id :: q.ids }
  | .get _, .ok (some t) => { q with copies := t.terms :: q.copies }
  | .getForUser _ _, .ok (some t) => { q with copies := t.terms :: q.copies }
  | .selectUnsent _, .ok ids => { q with ids := ids ++ q.ids }
  | .selectReconcilable _ _, .ok ts => { q with copies := ts.map Trade.terms ++ q.copies }
  | _, _ => q

@[simp] theorem task_next (q : Duty) (o : Op) (r : o.Res) : (q.next o r).task = q.task := by
  cases o with
  | selectOwner | insert | selectUnsent | selectReconcilable =>
    rcases r with _ | _ <;> rfl
  | get | getForUser => rcases r with _ | _ | _ <;> rfl
  | _ => rfl

end Duty

abbrev duty (env : Deployment) : Contract effects where
  State := Duty
  Move := Unit
  permits q _ := q.permits env
  answers _ := Duty.answers
  next q _ := q.next
  final _ := True

/-! ## Every function keeps the contract -/

variable {env : Deployment} {q : Duty}

/-- Issue an operation that is permitted. -/
theorem duty_op {α : Type} {o : Op} {next : o.Res → Free effects α} {Q : α → Duty → Prop}
    (hp : q.permits env o)
    (h : ∀ r, Duty.answers o r → (next r).Meets (duty env) (q.next o r) Q) :
    (Free.op o next : Free effects α).Meets (duty env) q Q :=
  Free.meets_op_of (K := duty env) () hp h

theorem duty_reconcileTrade {t : Trade} (ht : t.terms ∈ q.copies) :
    ((reconcileTrade env).exec (.fresh t)).Meets (duty env) q fun _ q' => q' = q := by
  rw [reconcileTrade_exec]
  split
  · rfl
  · refine duty_op (Or.inr ⟨t, ht, rfl⟩) fun k _ => ?_
    refine duty_op trivial fun outcome _ => ?_
    cases hreply : queryReply env outcome with
    | error e => cases e <;> rfl
    | ok answer =>
      refine duty_op trivial fun now _ => ?_
      refine duty_op ht fun r _ => ?_
      cases r <;> rfl

theorem duty_queryNow {t : Trade} (ht : t.terms ∈ q.copies) :
    (queryNow env (.fresh t)).Keeps (duty env) q := by
  refine Free.Meets.bind (duty_reconcileTrade ht) ?_
  rintro ⟨r, j⟩ q' -
  cases r with
  | ok _ => trivial
  | error e =>
    simp only []
    split
    · exact duty_op trivial fun _ _ => trivial
    · trivial

theorem duty_settle {t : Trade} (o : Outcome) (ht : t.terms ∈ q.copies) :
    (settle env t o).Keeps (duty env) q := by
  refine duty_op ht fun r _ => ?_
  cases r with
  | error e => trivial
  | ok now =>
    cases o with
    | uncertain exc => exact duty_queryNow ht
    | _ => trivial

theorem duty_submitToBinance {t : Trade} (ht : t.terms ∈ q.copies) (hq : q.task.submits = true) :
    ((submitToBinance env).exec (.fresh t)).Keeps (duty env) q := by
  rw [submitToBinance_exec]
  cases formatDecimal t.quantity with
  | none => trivial
  | some text =>
    refine duty_op trivial fun _ _ => ?_
    refine duty_op (Or.inl ⟨hq, t, text, ht, rfl⟩) fun k _ => ?_
    refine duty_op trivial fun outcome _ => ?_
    cases submissionOutcome env t outcome with
    | error e => trivial
    | ok o => exact duty_settle o ht

theorem duty_claimForSubmission {id : TradeId} (hq : q.task.submits = true) (hid : id ∈ q.ids) :
    (claimForSubmission id).run.Meets (duty env) q fun r q' =>
      ∀ i, r = .ok (some i) → q'.task = q.task ∧ ∃ t, i = .fresh t ∧ t.terms ∈ q'.copies := by
  rw [claimForSubmission_run]
  refine duty_op trivial fun now _ => ?_
  refine duty_op ⟨hq, hid⟩ fun r _ => ?_
  cases r with
  | error e => exact fun i hi => by cases hi
  | ok rowcount =>
    simp only
    split
    · exact fun i hi => by cases hi
    · refine duty_op ⟨hq, hid⟩ fun r _ => ?_
      rcases r with e | _ | t
      · exact fun i hi => by cases hi
      · exact fun i hi => by cases hi
      · intro i hi
        cases hi
        exact ⟨rfl, t, rfl, List.mem_cons_self⟩

theorem duty_on {t : Trade} {α : Type} {x : OnTrade α} (h : (x.exec (.fresh t)).Keeps (duty env) q) :
    (OnTrade.on (.fresh t) x).run.Keeps (duty env) q := by
  refine Free.Meets.bind h ?_
  rintro ⟨r, j⟩ q' -
  cases r <;> trivial

/-- A claim, and the submission of the row that it loaded. -/
theorem duty_submit {id : TradeId} {α : Type} {f : Except Exc (Option Instance) → Free effects α}
    (hq : q.task.submits = true) (hid : id ∈ q.ids)
    (hnone : ∀ r q', (∀ i, r ≠ .ok (some i)) → (f r).Keeps (duty env) q')
    (hsome : ∀ t q', q'.task.submits = true → t.terms ∈ q'.copies →
      (f (.ok (some (.fresh t)))).Keeps (duty env) q') :
    ((claimForSubmission id).run.bind f).Keeps (duty env) q := by
  refine Free.Meets.bind (duty_claimForSubmission hq hid) ?_
  intro r q' hr
  match r with
  | .error e => exact hnone _ _ fun i hi => by cases hi
  | .ok none => exact hnone _ _ fun i hi => by cases hi
  | .ok (some i) =>
    obtain ⟨htask, t, rfl, ht⟩ := hr i rfl
    exact hsome t q' (htask ▸ hq) ht

theorem duty_execute {id : TradeId} : (execute env id).run.Keeps (duty env) (.start (.execute id)) := by
  rw [execute, App.run_bind]
  refine duty_submit rfl List.mem_cons_self ?_ ?_
  · intro r q' hr
    match r with
    | .error e => trivial
    | .ok none => trivial
    | .ok (some i) => exact absurd rfl (hr i)
  · intro t q' hq' ht
    simp only [App.run_bind]
    refine Free.Meets.bind (duty_on (duty_submitToBinance ht hq')) ?_
    rintro (_ | _) q'' - <;> trivial

theorem duty_resolveTradeOwnerId :
    (resolveTradeOwnerId env).run.Meets (duty env) q fun r q' =>
      q'.task = q.task ∧ ∀ owner, r = .ok owner → q'.owner = some owner := by
  simp only [resolveTradeOwnerId, App.run_bind, App.run_perform, Free.bind_op, Free.bind_pure]
  refine duty_op trivial fun cached _ => ?_
  cases cached with
  | some id =>
    refine ⟨rfl, fun owner h => ?_⟩
    cases h
    rfl
  | none =>
    simp only [App.run_bind, App.run_db, App.run_perform, Free.bind_op, Free.bind_pure]
    refine duty_op rfl fun r _ => ?_
    rcases r with e | _ | id
    · exact ⟨rfl, fun owner h => by cases h⟩
    · exact ⟨rfl, fun owner h => by cases h⟩
    · simp only [Free.bind_pure, App.run_bind, App.run_perform, Free.bind_op]
      refine duty_op rfl fun _ _ => ⟨rfl, fun owner h => ?_⟩
      cases h
      rfl

theorem duty_createPendingTrade {payload : TradingViewWebhookPayload} {owner : UserId}
    (hq : q.task = .request payload) (ho : q.owner = some owner) :
    (createPendingTrade env payload owner).run.Meets (duty env) q fun r q' =>
      q'.task = q.task ∧ ∀ row, r = .ok row → row.id ∈ q'.ids := by
  simp only [createPendingTrade, App.run_bind, App.run_perform, Free.bind_op, Free.bind_pure]
  refine duty_op ⟨payload, owner, hq, ho, rfl⟩ fun r _ => ?_
  rcases r with (_ | _ | _) | row
  · simp only [App.run_bind, App.run_db, App.run_perform, Free.bind_op, Free.bind_pure]
    refine duty_op trivial fun r _ => ?_
    cases r <;> exact ⟨rfl, fun row h => by cases h⟩
  · exact ⟨rfl, fun row h => by cases h⟩
  · exact ⟨rfl, fun row h => by cases h⟩
  · refine ⟨rfl, fun row' h => ?_⟩
    cases h
    exact List.mem_cons_self

theorem duty_processSignal (payload : TradingViewWebhookPayload) :
    (processSignal env payload).run.Keeps (duty env) (.start (.request payload)) := by
  simp only [processSignal, App.run_bind, App.run_mk, Free.pure_eq, Free.bind_pure]
  cases validateSignal env payload with
  | error e => trivial
  | ok _ =>
    refine Free.Meets.bind duty_resolveTradeOwnerId ?_
    rintro owner q ⟨htask, howner⟩
    cases owner with
    | error e => trivial
    | ok owner =>
      simp only
      refine Free.Meets.bind (duty_createPendingTrade htask (howner owner rfl)) ?_
      rintro trade q' ⟨htask', hid⟩
      cases trade with
      | error e => trivial
      | ok trade =>
        simp only []
        split
        · simp only [App.run_bind, App.run_perform, Free.bind_op, Free.bind_pure]
          exact duty_op (hid trade rfl) fun _ _ => trivial
        · rw [App.run_bind]
          refine duty_submit (by rw [htask', htask]; rfl) (hid trade rfl) ?_ ?_
          · intro r q'' hr
            match r with
            | .error e => trivial
            | .ok none => trivial
            | .ok (some i) => exact absurd rfl (hr i)
          · intro t q'' hq'' ht
            simp only [App.run_bind]
            refine Free.Meets.bind (duty_on (duty_submitToBinance ht hq'')) ?_
            rintro (_ | _) q''' - <;> trivial

theorem duty_submitAll (ids : List TradeId) (hids : ids ⊆ q.ids) :
    (submitAll ids).run.Keeps (duty env) q := by
  induction ids with
  | nil => trivial
  | cons id rest ih =>
    simp only [submitAll, App.run_bind, App.run_perform, Free.bind_op, Free.bind_pure]
    exact duty_op (hids List.mem_cons_self) fun _ _ => ih (List.subset_of_cons_subset hids)

theorem duty_resumePending : (resumePending env).run.Keeps (duty env) (.start .resume) := by
  simp only [resumePending, App.run_bind, App.run_db, App.run_perform, Free.bind_op,
    Free.bind_pure]
  refine duty_op rfl fun r _ => ?_
  cases r with
  | error e => trivial
  | ok ids =>
    simp only [Free.bind_pure]
    refine Free.Meets.bind (duty_submitAll ids (List.subset_append_left _ _)) ?_
    rintro (_ | _) q' - <;> trivial

theorem duty_reconcileRoute (user : UserId) (id : TradeId) :
    (reconcileRoute env user id).run.Keeps (duty env) (.start (.reconcile user id)) := by
  simp only [reconcileRoute, App.run_bind, App.run_db, App.run_perform, Free.bind_op,
    Free.bind_pure]
  refine duty_op rfl fun r _ => ?_
  rcases r with e | _ | t
  · trivial
  · trivial
  · simp only [Free.bind_pure, App.run_bind]
    refine Free.Meets.bind (duty_on ((duty_reconcileTrade (t := t) List.mem_cons_self).mono
      fun _ _ _ => trivial)) ?_
    rintro (_ | _) q' - <;> trivial

theorem duty_reconcileEach (ts : List Trade) (summary : Summary)
    (hts : ∀ t ∈ ts, t.terms ∈ q.copies) : (reconcileEach env ts summary).run.Keeps (duty env) q := by
  induction ts generalizing summary with
  | nil => trivial
  | cons t rest ih =>
    simp only [reconcileEach, App.run_bind, OnTrade.on, App.run_mk, Free.bind_assoc]
    refine Free.Meets.bind (duty_reconcileTrade (hts t List.mem_cons_self)) ?_
    rintro ⟨r, j⟩ q' rfl
    cases r with
    | error e => trivial
    | ok status => exact ih _ fun t ht => hts t (List.mem_cons_of_mem _ ht)

theorem duty_reconcilePendingTrades (olderThanSeconds : Int) (limit : Nat) :
    (reconcilePendingTrades env olderThanSeconds limit).run.Keeps (duty env)
      (.start (.batch olderThanSeconds limit)) := by
  simp only [reconcilePendingTrades, findReconcilableTrades, App.run_bind, App.run_db,
    App.run_perform, Free.bind_op, Free.bind_pure]
  refine duty_op trivial fun now _ => ?_
  refine duty_op ⟨olderThanSeconds, rfl⟩ fun r _ => ?_
  cases r with
  | error e => trivial
  | ok ts =>
    refine duty_reconcileEach ts _ fun t ht => ?_
    exact List.mem_append_left _ (List.mem_map_of_mem ht)

/-- **Every task keeps the contract.** -/
theorem keeps_duty (env : Deployment) (task : Task) :
    (task.program env).Keeps (duty env) (.start task) := by
  have drop : ∀ {α : Type} {x : App α} {q : Duty},
      x.run.Keeps (duty env) q → (effectsOnly x).Keeps (duty env) q :=
    fun h => Free.Meets.bind h fun _ _ hq => hq
  cases task with
  | request payload => exact drop (duty_processSignal payload)
  | execute id => exact drop duty_execute
  | resume => exact drop duty_resumePending
  | reconcile user id => exact drop (duty_reconcileRoute user id)
  | batch olderThanSeconds limit => exact drop (duty_reconcilePendingTrades olderThanSeconds limit)

end AutoTrader
