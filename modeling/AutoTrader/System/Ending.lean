import AutoTrader.System.Queued

/-!
# How a signal ends

Whatever its operations return, a call of `process_signal` ends with a trade, with one of the
refusals, or with an error that only the server is to blame for; no error of the exchange gets
out. And the only owner id it caches is the one that its SELECT has found.
-/

namespace AutoTrader.Webhook

open Python Coroutine

variable {env : Deployment}

/-! ## What can leave the service -/

/-- The errors that only the server is to blame for. -/
def isInternal : Exc → Bool
  | .sqlalchemy _ | .conversion _ | .recursionError | .invalidOperation | .missingGreenlet => true
  | _ => false

theorem validateSignal_refusal {payload : TradingViewWebhookPayload} {e : Exc}
    (h : validateSignal env payload = .error e) : e.isRefusal = true := by
  simp only [validateSignal, bind, Except.bind, throw, throwThe, MonadExceptOf.throw] at h
  split at h
  · cases h
    rfl
  · split at h
    · cases h
      rfl
    · split at h
      · cases h
        rfl
      · cases h

theorem handleTransport_internal {o : Transport} {e : Exc} (h : handleTransport o = .error e) :
    (∃ b, e = .binance b) ∨ isInternal e = true := by
  cases o with
  | connectError | connectTimeout | timeout | httpError =>
    cases h
    exact Or.inl ⟨_, rfl⟩
  | response r =>
    have h : handleResponse r = .error e := h
    by_cases hserver : 500 ≤ r.statusCode
    · obtain ⟨b, hb, -⟩ := handleResponse_server hserver
      rw [hb] at h
      cases h
      exact Or.inl ⟨b, rfl⟩
    · by_cases hclient : 400 ≤ r.statusCode
      · rcases handleResponse_client hclient (by omega) with ⟨-, hb⟩ | ⟨-, b, hb, -⟩
        · rw [hb] at h
          cases h
          exact Or.inr rfl
        · rw [hb] at h
          cases h
          exact Or.inl ⟨b, rfl⟩
      · rw [handleResponse_success (by omega)] at h
        split at h
        · cases h
        · cases h
        · cases h
          exact Or.inl ⟨_, rfl⟩
        · cases h
          exact Or.inr rfl

/-- The ladder of handlers lets no error of the exchange through. -/
theorem submissionOutcome_internal {t : Trade} {o : Transport} {e : Exc}
    (h : submissionOutcome env t o = .error e) : isInternal e = true := by
  unfold submissionOutcome orderReply at h
  cases ho : handleTransport o with
  | error e' =>
    rw [ho] at h
    rcases handleTransport_internal ho with ⟨b, rfl⟩ | hinternal
    · simp only [orderOutcome] at h
      split at h <;> cases h
    · cases e' with
      | binance b => cases hinternal
      | _ =>
        cases h
        exact hinternal
  | ok fields =>
    rw [ho] at h
    simp only [] at h
    split at h
    · cases h
    · cases hresult : BinanceOrderResult.fromPayload env.repr fields with
      | ok result =>
        rw [hresult] at h
        cases h
      | error e' =>
        rw [hresult] at h
        cases h
        rfl

/-- The errors of a signal. -/
def isSignalError (e : Exc) : Bool := e.isRefusal || isInternal e

/-- The result is an error of this kind, if it is one. -/
def Raises (kind : Exc → Bool) {α : Type} (r : Except Exc α) : Prop :=
  ∀ e, r = .error e → kind e = true

section Raises

variable {kind : Exc → Bool} {α : Type}

theorem raises_ok (a : α) : Raises kind (.ok a) := by
  intro e he
  cases he

theorem raises_error {e : Exc} (h : kind e = true) : Raises kind (.error e : Except Exc α) := by
  intro e' he
  cases he
  exact h

end Raises

/-! ### What is cached is what was found

A contract for one call of `process_signal`; its state is the owner id that the SELECT found. -/

/-- The owner id that is found after an operation. -/
def found (env : Deployment) (q : Option UserId) : (o : Op) → o.Res → Option UserId
  | .selectOwner email, .ok id => if email = env.settings.webhookTradeOwnerEmail then id else q
  | _, _ => q

abbrev caching (env : Deployment) : Contract effects where
  State := Option UserId
  Move := Unit
  permits q _ o := ∀ id, o = .cacheOwner id → q = some id
  answers _ _ _ := True
  next q _ o r := found env q o r
  final _ := True

def writesCache : Op → Bool
  | .cacheOwner _ => true
  | _ => false

variable {q : Option UserId}

theorem meets_uncached {α : Type} {o : Op} {next : o.Res → Free effects α}
    {Q : α → Option UserId → Prop} (ho : writesCache o = false)
    (h : ∀ r q', (next r).Meets (caching env) q' Q) :
    (Free.op (S := effects) o next).Meets (caching env) q Q := by
  refine Free.meets_op_of () ?_ fun r _ => h r _
  rintro id rfl
  cases ho

variable (q)

theorem meets_reconcileTrade (t : Trade) :
    ((reconcileTrade env).exec (.fresh t)).Meets (caching env) q fun _ _ => True := by
  rw [reconcileTrade_exec]
  split
  · trivial
  · refine meets_uncached rfl fun k q => meets_uncached rfl fun outcome q => ?_
    cases queryReply env outcome with
    | error e => cases e <;> trivial
    | ok answer =>
      refine meets_uncached rfl fun now q => meets_uncached rfl fun r q => ?_
      cases r <;> trivial

theorem meets_queryNow (t : Trade) :
    (queryNow env (.fresh t)).Meets (caching env) q fun x _ => Raises isInternal x.1 := by
  refine Free.Meets.bind (meets_reconcileTrade q t) ?_
  rintro ⟨r, j⟩ q' -
  cases r with
  | ok status => exact raises_ok ()
  | error e =>
    simp only []
    cases j.access with
    | loaded => exact meets_uncached rfl fun _ _ => raises_ok ()
    | pendingRollback | expired => exact raises_error rfl

theorem unrecorded_internal (t : Trade) (o : Outcome) (e : CommitError) :
    Raises isInternal (o.unrecorded env t e).1 := by
  cases o <;> cases e <;> exact raises_error rfl

theorem meets_settle (t : Trade) (o : Outcome) :
    (settle env t o).Meets (caching env) q fun x _ => Raises isInternal x.1 := by
  refine meets_uncached rfl fun r q => ?_
  cases r with
  | error e => exact unrecorded_internal t o e
  | ok now =>
    cases o with
    | settled | refused => exact raises_ok ()
    | uncertain exc => exact meets_queryNow q _

theorem meets_submitToBinance (t : Trade) :
    ((submitToBinance env).exec (.fresh t)).Meets (caching env) q fun x _ => Raises isInternal x.1 := by
  rw [submitToBinance_exec]
  cases formatDecimal t.quantity with
  | none => exact raises_error rfl
  | some text =>
    refine meets_uncached rfl fun _ q => meets_uncached rfl fun k q =>
      meets_uncached rfl fun outcome q => ?_
    cases ho : submissionOutcome env t outcome with
    | ok o => exact meets_settle q t o
    | error e => exact raises_error (submissionOutcome_internal ho)

theorem meets_claimForSubmission (id : TradeId) :
    (claimForSubmission id).run.Meets (caching env) q fun r _ =>
      Raises isInternal r ∧ ∀ claimed, r = .ok (some claimed) → ∃ t, claimed = .fresh t := by
  have herror : ∀ e : SqlError, Raises isInternal (.error (.sqlalchemy e) : Except Exc (Option Instance)) ∧
      ∀ claimed, (.error (.sqlalchemy e) : Except Exc (Option Instance)) = .ok (some claimed) →
        ∃ t, claimed = .fresh t := fun e => ⟨raises_error rfl, fun _ he => by cases he⟩
  rw [claimForSubmission_run]
  refine meets_uncached rfl fun now q => meets_uncached rfl fun r q => ?_
  cases r with
  | error e => exact herror e
  | ok rowcount =>
    simp only []
    split
    · exact ⟨raises_ok _, fun _ he => by cases he⟩
    · refine meets_uncached rfl fun r q => ?_
      rcases r with e | _ | t
      · exact herror e
      · exact ⟨raises_ok _, fun _ he => by cases he⟩
      · refine ⟨raises_ok _, fun claimed he => ?_⟩
        cases he
        exact ⟨t, rfl⟩

/-- A row that is committed. -/
theorem meets_handOver (t : Trade) :
    (handOver env t).run.Meets (caching env) q fun r _ => Raises isInternal r := by
  unfold handOver
  split
  · exact meets_uncached rfl fun _ _ => raises_ok t
  · simp only [App.run_bind]
    refine Free.Meets.bind (meets_claimForSubmission q t.id) ?_
    rintro (e | _ | claimed) q' ⟨hr, hclaimed⟩
    · exact raises_error (hr e rfl)
    · exact raises_ok t
    · obtain ⟨t', rfl⟩ := hclaimed claimed rfl
      simp only [OnTrade.on, App.run_bind, App.run_mk, Free.bind_assoc]
      refine Free.Meets.bind (meets_submitToBinance q' t') ?_
      rintro ⟨e | _, j⟩ q'' hr
      · exact raises_error (hr e rfl)
      · exact raises_ok _

theorem meets_resolveTradeOwnerId :
    (resolveTradeOwnerId env).run.Meets (caching env) q fun r _ => Raises isSignalError r := by
  simp only [resolveTradeOwnerId, App.run_bind, App.run_perform, Free.bind_op, Free.bind_pure]
  refine meets_uncached rfl fun cached q => ?_
  cases cached with
  | some id => exact raises_ok id
  | none =>
    simp only [App.run_bind, App.run_db, App.run_perform, Free.bind_op, Free.bind_pure]
    refine Free.meets_op_of () (fun _ he => by cases he) fun r _ => ?_
    rcases r with e | _ | id
    · exact raises_error rfl
    · exact raises_error rfl
    · simp only [Free.bind_pure, App.run_bind, App.run_perform, Free.bind_op]
      refine Free.meets_op_of () ?_ fun _ _ => raises_ok id
      intro id' he
      cases he
      exact if_pos rfl

theorem meets_createPendingTrade (payload : TradingViewWebhookPayload) (owner : UserId) :
    (createPendingTrade env payload owner).run.Meets (caching env) q fun r _ =>
      Raises isSignalError r := by
  simp only [createPendingTrade, App.run_bind, App.run_perform, Free.bind_op, Free.bind_pure]
  refine meets_uncached rfl fun r q => ?_
  rcases r with (_ | _ | _) | row
  · simp only [App.run_bind, App.run_db, App.run_perform, Free.bind_op, Free.bind_pure]
    refine meets_uncached rfl fun r q => ?_
    cases r with
    | error e => exact raises_error rfl
    | ok winner => exact raises_error rfl
  · exact raises_error rfl
  · exact raises_error rfl
  · exact raises_ok row

/-- A signal ends with a trade, a refusal, or an error of the server. -/
theorem meets_processSignal (payload : TradingViewWebhookPayload) :
    (processSignal env payload).run.Meets (caching env) q fun r _ => Raises isSignalError r := by
  simp only [processSignal, App.run_bind, App.run_mk, Free.pure_eq, Free.bind_pure]
  cases hvalid : validateSignal env payload with
  | error e =>
    refine raises_error ?_
    rw [isSignalError, validateSignal_refusal hvalid, Bool.true_or]
  | ok _ =>
    refine Free.Meets.bind (meets_resolveTradeOwnerId q) ?_
    rintro (e | owner) q' hr
    · exact raises_error (hr e rfl)
    · refine Free.Meets.bind (meets_createPendingTrade q' payload owner) ?_
      rintro (e | t) q'' hr
      · exact raises_error (hr e rfl)
      · refine (meets_handOver q'' t).mono fun r _ hr e he => ?_
        rw [isSignalError, hr e he, Bool.or_true]

/-! ## Owner caches -/

/-- Every owner id that is cached is the registered one. -/
def Cached (env : Deployment) (w : World) : Prop :=
  ∀ p id, (w.processes p).owner = some id → registeredOwner env w.users = some id

section Caches

variable {S : Scene} {i p : Nat} {tag : Tag} {w w' : World} {c : Choice}

/-- Only one operation writes an owner cache, and none an account. -/
theorem owner_exec {o : Op} {r : o.Res} (h : S.exec env i tag w o c = some (r, w')) :
    w'.users = w.users ∧ ((∀ p, (w'.processes p).owner = (w.processes p).owner) ∨
      ∃ id, o = .cacheOwner id ∧
        ∀ p, (w'.processes p).owner = (w.processes p).owner ∨ (w'.processes p).owner = some id) := by
  cases o with
  | cacheOwner id =>
    cases h
    refine ⟨rfl, Or.inr ⟨id, rfl, fun p => ?_⟩⟩
    by_cases hp : p = tag.process
    · subst hp
      exact Or.inr (by simp [World.setProcess])
    · exact Or.inl (by simp [World.setProcess, hp])
  | insert n =>
    have h : AutoTrader.exec env i tag w (.insert n) .done = some (r, w') := h
    rcases exec_insert h with rfl | ⟨hfit, rfl⟩
    · exact ⟨rfl, Or.inl fun _ => rfl⟩
    · exact ⟨rfl, Or.inl fun _ => rfl⟩
  | claim id now =>
    have h : AutoTrader.exec env i tag w (.claim id now) .done = some (r, w') := h
    rcases exec_claim h with ⟨rfl, -⟩ | ⟨-, -, -, -, -, rfl⟩
    · exact ⟨rfl, Or.inl fun _ => rfl⟩
    · exact ⟨rfl, Or.inl fun _ => rfl⟩
  | commit t e =>
    simp only [Scene.exec] at h
    split at h
    · cases h
      exact ⟨rfl, Or.inl fun _ => rfl⟩
    · rcases exec_commit h with ⟨rfl, -⟩ | ⟨rfl, -⟩
      · exact ⟨rfl, Or.inl fun _ => rfl⟩
      · exact ⟨rfl, Or.inl fun _ => rfl⟩
  | enqueue id =>
    have h : AutoTrader.exec env i tag w (.enqueue id) .done = some (r, w') := h
    have hw := exec_enqueue h
    simp only [execEnqueue] at hw
    split at hw
    · cases hw
      refine ⟨rfl, Or.inl fun p => ?_⟩
      by_cases hp : p = tag.process
      · subst hp
        simp [World.setProcess]
      · simp [World.setProcess, hp]
    · cases hw
      exact ⟨rfl, Or.inl fun _ => rfl⟩
  | receive k =>
    obtain ⟨call, -, hcall⟩ := Option.map_eq_some_iff.mp h
    cases hcall
    exact ⟨rfl, Or.inl fun _ => rfl⟩
  | clock | cachedOwner | selectOwner | selectBySignal | get | getForUser | selectUnsent
  | selectReconcilable | send | log =>
    cases h
    exact ⟨rfl, Or.inl fun _ => rfl⟩

/-- A signal leaves the accounts alone and the caches right, and raises what it may. -/
theorem run_processSignal_ends {payload : TradingViewWebhookPayload} {r : Except Exc Trade}
    {u : World} (hw : Cached env w)
    (h : S.run env i tag (processSignal env payload).run w = some (r, u)) :
    u.users = w.users ∧ Cached env u ∧ Raises isSignalError r := by
  let R (q : Option UserId) (v : World) : Prop := v.users = w.users ∧ Cached env v ∧
    ∀ id, q = some id → registeredOwner env w.users = some id
  have hends := Host.drive_meets (H := S.host env) (K := caching env) (R := R) ?_
    (meets_processSignal none payload) ⟨rfl, hw, fun id hid => by cases hid⟩ h
  · obtain ⟨-, hr, husers, hcached, -⟩ := hends
    exact ⟨husers, hcached, hr⟩
  · rintro q m o v r v' hpermits ⟨husers, hcached, hq⟩ hexec
    obtain ⟨husers', howner⟩ := owner_exec hexec
    refine ⟨trivial, husers'.trans husers, ?_, ?_⟩
    · intro p id hid
      rw [husers', husers]
      rcases howner with hsame | ⟨id', rfl, hset⟩
      · rw [hsame] at hid
        rw [← husers]
        exact hcached p id hid
      · rcases hset p with hsame | hnew
        · rw [hsame] at hid
          rw [← husers]
          exact hcached p id hid
        · rw [hnew] at hid
          cases hid
          exact hq id (hpermits id rfl)
    · intro id hid
      cases o with
      | selectOwner email =>
        cases hexec
        simp only [found] at hid
        split at hid
        · rename_i hemail
          rw [registeredOwner, ← husers, ← hemail]
          exact hid
        · exact hq id hid
      | _ => exact hq id hid

end Caches

end AutoTrader.Webhook
