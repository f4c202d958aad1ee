import AutoTrader.System.Scene

/-!
# A signal in a scene

`process_signal` up to the committed row, as a function of the world: which owner id it comes
to, and what the insert answers. From the row on the signal is accepted, and none of the
errors of a refusal can come any more (`run_handOver`).
-/

namespace AutoTrader

open Python Coroutine

/-- The owner id that `_resolve_trade_owner_id` comes to in process `p`. -/
def World.ownerFor (w : World) (env : Deployment) (p : Nat) : Option UserId :=
  match (w.processes p).owner with
  | some id => some id
  | none => (w.users.find? fun u => u.email = env.settings.webhookTradeOwnerEmail).map User.id

/-- The world in which that id is cached. -/
def World.owning (w : World) (env : Deployment) (p : Nat) : World :=
  match (w.processes p).owner with
  | some _ => w
  | none =>
    match w.ownerFor env p with
    | some id => w.setProcess p { w.processes p with owner := some id }
    | none => w

/-- The row that a signal is to become. -/
def World.rowFor (w : World) (env : Deployment) (payload : TradingViewWebhookPayload)
    (owner : UserId) : Trade := (pendingTrade env payload owner).row w.nextTradeId w.clock

/-- The world with that row. -/
def World.accepting (w : World) (env : Deployment) (payload : TradingViewWebhookPayload)
    (owner : UserId) (h : w.trades.Fits (w.rowFor env payload owner)) : World :=
  { w with
    toLedger := w.toLedger.insert (w.rowFor env payload owner) h
    nextTradeId := w.nextTradeId + 1 }

/-- What `process_signal` does with the committed row. -/
def handOver (env : Deployment) (t : Trade) : App Trade :=
  if env.settings.webhookAsyncExecution then do
    let _ ← App.perform (.enqueue t.id)
    return t
  else do
    match ← claimForSubmission t.id with
    | none => return t
    | some claimed =>
      let (_, i) ← OnTrade.on claimed (submitToBinance env)
      return i.current

/-- The error of a server whose owner account is not registered. -/
def unregistered : Exc :=
  .configuration "Webhook trade owner account is not registered on this server."

namespace World

variable {w : World} {env : Deployment} {p : Nat}

variable (w env p) in
theorem owning_cases : w.owning env p = w ∨
    ∃ id, w.owning env p = w.setProcess p { w.processes p with owner := some id } := by
  unfold owning
  split
  · exact Or.inl rfl
  · split
    · exact Or.inr ⟨_, rfl⟩
    · exact Or.inl rfl

variable (w env p) in
/-- Nothing but the cache changes. -/
theorem owning_frame :
    (w.owning env p).toLedger = w.toLedger ∧ (w.owning env p).users = w.users ∧
      (w.owning env p).clock = w.clock ∧ (w.owning env p).nextTradeId = w.nextTradeId ∧
      ∀ p', ((w.owning env p).processes p').queue = (w.processes p').queue := by
  rcases owning_cases w env p with h | ⟨id, h⟩
  · rw [h]
    exact ⟨rfl, rfl, rfl, rfl, fun _ => rfl⟩
  · rw [h]
    refine ⟨rfl, rfl, rfl, rfl, fun p' => ?_⟩
    by_cases hp : p' = p
    · subst hp
      simp [setProcess]
    · simp [setProcess, hp]

end World

/-! ## Once the row is committed -/

/-- Rows have been rewritten, none was added or removed, and what was asked for stays. -/
structure World.Retains (w u : World) : Prop where
  terms : u.trades.rows.map Trade.terms = w.trades.rows.map Trade.terms
  nextTradeId : u.nextTradeId = w.nextTradeId
  users : u.users = w.users

namespace World.Retains

variable {w u v : World}

theorem refl (w : World) : w.Retains w := ⟨rfl, rfl, rfl⟩

theorem trans (h : w.Retains u) (h' : u.Retains v) : w.Retains v :=
  ⟨h'.terms.trans h.terms, h'.nextTradeId.trans h.nextTradeId, h'.users.trans h.users⟩

theorem terms_update {T : TradeTable} {id : TradeId} {x : TradeTable.Update}
    (hx : ∀ t, (x.write t).terms = t.terms) :
    (T.update id x).rows.map Trade.terms = T.rows.map Trade.terms := by
  unfold TradeTable.update
  rw [List.map_map]
  apply List.map_congr_left
  intro t _
  simp only [Function.comp_apply]
  split
  · exact hx t
  · rfl

theorem recording (w : World) (t : Trade) (e : Edits) : w.Retains (w.recording t e) :=
  ⟨terms_update fun _ => rfl, rfl, rfl⟩

end World.Retains

theorem handleTransport_error {o : Transport} {e : Exc} (h : handleTransport o = .error e) :
    e.isRefusal = false := by
  cases o with
  | connectError | connectTimeout | timeout | httpError =>
    cases h
    rfl
  | response r =>
    have h : handleResponse r = .error e := h
    by_cases hserver : 500 ≤ r.statusCode
    · obtain ⟨b, hb, -⟩ := handleResponse_server hserver
      rw [hb] at h
      cases h
      rfl
    · by_cases hclient : 400 ≤ r.statusCode
      · rcases handleResponse_client hclient (by omega) with ⟨-, hb⟩ | ⟨-, b, hb, -⟩
        · rw [hb] at h
          cases h
          rfl
        · rw [hb] at h
          cases h
          rfl
      · rw [handleResponse_success (by omega)] at h
        split at h
        · cases h
        · cases h
        · cases h
          rfl
        · cases h
          rfl

theorem submissionOutcome_error {env : Deployment} {t : Trade} {o : Transport} {e : Exc}
    (h : submissionOutcome env t o = .error e) : e.isRefusal = false := by
  unfold submissionOutcome orderReply at h
  cases ho : handleTransport o with
  | error e' =>
    rw [ho] at h
    have hrefusal := handleTransport_error ho
    cases e' with
    | binance b =>
      simp only [orderOutcome] at h
      split at h <;> cases h
    | _ =>
      cases h
      exact hrefusal
  | ok fields =>
    rw [ho] at h
    simp only [] at h
    split at h
    · cases h
    · cases hresult : BinanceOrderResult.fromPayload env.repr fields with
      | ok result =>
        rw [hresult] at h
        cases h
      | error e' =>
        rw [hresult] at h
        cases h
        rfl

namespace Scene

section Submission

variable (S : Scene) (env : Deployment) (i : Nat) (tag : Tag) (w : World) (t : Trade)

theorem retains_after : w.Retains (S.after env w t) := by
  have hasking : w.Retains (w.asking t) := ⟨rfl, rfl, rfl⟩
  unfold after
  split
  · split
    · exact hasking.trans (World.Retains.recording _ t _)
    · exact hasking
  · exact hasking

/-- The query after an uncertain outcome. -/
theorem run_queryNow_ends (hopen : t.isTerminal = false) :
    ∃ r j u, S.run env i tag (queryNow env (.fresh t)) w = some ((r, j), u) ∧ w.Retains u ∧
      ∀ e, r = .error e → e.isRefusal = false := by
  rw [run_queryNow hopen]
  have hafter := S.retains_after env w t
  rcases S.outcome env w.clock t with ⟨_ | status, j⟩
  · unfold queried
    split
    · rename_i h
      cases h
    · rename_i h
      cases h
      split
      · exact ⟨_, _, _, rfl, ⟨hafter.terms, hafter.nextTradeId, hafter.users⟩,
          fun e he => by cases he⟩
      · rename_i x hx
        refine ⟨_, _, _, rfl, hafter, ?_⟩
        intro e he
        cases he
        exact Access.isRefusal_error hx
  · exact ⟨_, _, _, rfl, hafter, fun e he => by cases he⟩

/-- A submission ends, it rewrites rows at most, and it raises no refusal. -/
theorem run_submit_ends :
    ∃ r j u, S.run env i tag ((submitToBinance env).exec (.fresh t)) w = some ((r, j), u) ∧
      w.Retains u ∧ ∀ e, r = .error e → e.isRefusal = false := by
  cases htext : formatDecimal t.quantity with
  | none =>
    rw [submitToBinance_exec, htext]
    refine ⟨_, _, _, rfl, World.Retains.refl w, ?_⟩
    intro e he
    cases he
    rfl
  | some text =>
    rw [run_submit htext]
    unfold afterCall
    have hplacing : w.Retains (w.placing env t text) := ⟨rfl, rfl, rfl⟩
    cases ho : submissionOutcome env t (S.ends (orderFor env t text)) with
    | error e =>
      refine ⟨_, _, _, rfl, hplacing, ?_⟩
      intro e' he'
      cases he'
      exact submissionOutcome_error ho
    | ok o =>
      simp only [settle, run_commit]
      cases S.refusal (w.placing env t text).clock t (o.edits env) with
      | some e =>
        obtain ⟨exc, j, hend, hexc⟩ := unrecorded_eq env t o e
        refine ⟨_, j, _, congrArg (fun x => some (x, _)) hend, hplacing, ?_⟩
        intro e' he'
        cases he'
        exact hexc
      | none =>
        have hrecording := hplacing.trans (World.Retains.recording _ t (o.edits env))
        cases o with
        | settled result => exact ⟨_, _, _, rfl, hrecording, fun e he => by cases he⟩
        | refused status code message => exact ⟨_, _, _, rfl, hrecording, fun e he => by cases he⟩
        | uncertain exc =>
          simp only [Outcome.edits]
          rw [flushed_uncertain]
          have hopen : ((uncertainEdits env exc).flush t (w.placing env t text).clock t).isTerminal =
              false := by
            rw [Trade.isTerminal, status_flush rfl]
            rfl
          obtain ⟨r, j, u, hrun, hu, hr⟩ := S.run_queryNow_ends env i tag
            ((w.placing env t text).recording t (uncertainEdits env exc)) _ hopen
          exact ⟨r, j, u, hrun, hrecording.trans hu, hr⟩

end Submission

variable {S : Scene} {env : Deployment} {i p : Nat} {task : Task} {w : World} {t : Trade}
  {payload : TradingViewWebhookPayload} {owner : UserId}

theorem run_resolveTradeOwnerId :
    S.run env i ⟨p, task⟩ (resolveTradeOwnerId env).run w =
      some (match w.ownerFor env p with
        | some id => .ok id
        | none => .error unregistered, w.owning env p) := by
  simp only [resolveTradeOwnerId, App.run_bind, App.run_perform, Free.bind_op, Free.bind_pure]
  rw [run, Host.drive_op]
  simp only [exec, AutoTrader.exec, Option.bind_some]
  unfold World.owning World.ownerFor
  cases hcached : (w.processes p).owner with
  | some id => rfl
  | none =>
    simp only [App.run_bind, App.run_db, App.run_perform, Free.bind_op, Free.bind_pure]
    rw [Host.drive_op]
    simp only [exec, AutoTrader.exec, Choice.query, Option.bind_some]
    cases (w.users.find? fun u => u.email = env.settings.webhookTradeOwnerEmail).map User.id with
    | none => rfl
    | some id => rfl

theorem fits_pendingTrade {b : Bool} (h : payload.quantity.isStorable = b) :
    (!(pendingTrade env payload owner).fits) = !b :=
  congrArg not h

/-- The insert goes through. -/
theorem run_createPendingTrade (hstore : payload.quantity.isStorable = true)
    (hfit : w.trades.Fits (w.rowFor env payload owner))
    (huser : w.users.any fun u => u.id = owner) :
    S.run env i ⟨p, task⟩ (createPendingTrade env payload owner).run w =
      some (.ok (w.rowFor env payload owner), w.accepting env payload owner hfit) := by
  simp only [createPendingTrade, App.run_bind, App.run_perform, Free.bind_op, Free.bind_pure]
  rw [run, Host.drive_op]
  have hinsert : execInsert w (pendingTrade env payload owner) .done =
      some (.ok (w.rowFor env payload owner), w.accepting env payload owner hfit) := by
    unfold execInsert
    rw [fits_pendingTrade hstore]
    exact (dif_pos hfit).trans (if_pos huser)
  simp only [exec, AutoTrader.exec, hinsert, Option.bind_some]
  rfl

/-- Whichever constraint it breaks, the insert is taken for a duplicate. -/
theorem run_createPendingTrade_refused (hstore : payload.quantity.isStorable = true)
    (h : ¬ (w.trades.Fits (w.rowFor env payload owner) ∧ w.users.any fun u => u.id = owner)) :
    S.run env i ⟨p, task⟩ (createPendingTrade env payload owner).run w =
      some (.error (.duplicateSignal ((w.trades.findBySignal? payload.signalId).map Trade.id)),
        w) := by
  simp only [createPendingTrade, App.run_bind, App.run_perform, Free.bind_op, Free.bind_pure]
  rw [run, Host.drive_op]
  have hinsert : execInsert w (pendingTrade env payload owner) .done =
      some (.error .integrity, w) := by
    unfold execInsert
    rw [fits_pendingTrade hstore]
    by_cases hfit : w.trades.Fits (w.rowFor env payload owner)
    · exact (dif_pos hfit).trans (if_neg fun huser => h ⟨hfit, huser⟩)
    · exact dif_neg hfit
  simp only [exec, AutoTrader.exec, hinsert, Option.bind_some]
  rfl

/-- A quantity that overflows its column is an error of the database. -/
theorem run_createPendingTrade_overflow (hstore : payload.quantity.isStorable = false) :
    S.run env i ⟨p, task⟩ (createPendingTrade env payload owner).run w =
      some (.error (.sqlalchemy .other), w) := by
  simp only [createPendingTrade, App.run_bind, App.run_perform, Free.bind_op, Free.bind_pure]
  rw [run, Host.drive_op]
  have hinsert : execInsert w (pendingTrade env payload owner) .done =
      some (.error .other, w) := by
    unfold execInsert
    rw [fits_pendingTrade hstore]
    rfl
  simp only [exec, AutoTrader.exec, hinsert, Option.bind_some]
  rfl

/-- The signal as a whole. -/
theorem run_processSignal :
    S.run env i ⟨p, task⟩ (processSignal env payload).run w =
      match validateSignal env payload with
      | .error e => some (.error e, w)
      | .ok () =>
        match w.ownerFor env p with
        | none => some (.error unregistered, w.owning env p)
        | some owner =>
          (S.run env i ⟨p, task⟩ (createPendingTrade env payload owner).run (w.owning env p)).bind
            fun x =>
              match x with
              | (.ok t, u) => S.run env i ⟨p, task⟩ (handOver env t).run u
              | (.error e, u) => some (.error e, u) := by
  simp only [processSignal, App.run_bind, App.run_mk, Free.pure_eq, Free.bind_pure]
  cases validateSignal env payload with
  | error e => rfl
  | ok _ =>
    simp only []
    rw [run_bind, run_resolveTradeOwnerId]
    simp only [Option.bind_some]
    cases w.ownerFor env p with
    | none => rfl
    | some owner =>
      simp only []
      rw [run_bind]
      apply congrArg
      funext x
      rcases x with ⟨_ | t, u⟩
      · rfl
      · rfl

variable (S env i p task) in
/-- A claim ends, with a row or without. -/
theorem run_claimForSubmission (id : TradeId) (w : World) :
    ∃ t u, S.run env i ⟨p, task⟩ (claimForSubmission id).run w =
      some (.ok (Option.map Instance.fresh t), u) ∧ w.Retains u := by
  rw [claimForSubmission_run, run_clock, run, Host.drive_op]
  simp only [exec, AutoTrader.exec]
  unfold execClaim
  split
  · exact ⟨_, _, rfl, World.Retains.terms_update fun _ => rfl, rfl, rfl⟩
  · exact ⟨none, w, rfl, World.Retains.refl w⟩

variable (S env i p task) in
/-- An accepted signal is not refused any more. -/
theorem run_handOver (w : World) (t : Trade) :
    ∃ r u, S.run env i ⟨p, task⟩ (handOver env t).run w = some (r, u) ∧ w.Retains u ∧
      ∀ e, r = .error e → e.isRefusal = false := by
  unfold handOver
  split
  · refine ⟨_, _, rfl, ?_, fun e he => by cases he⟩
    simp only [execEnqueue]
    split
    · exact ⟨rfl, rfl, rfl⟩
    · exact World.Retains.refl w
  · obtain ⟨claimed, u, hclaim, hu⟩ := run_claimForSubmission S env i p task t.id w
    simp only [App.run_bind]
    rw [run_bind, hclaim, Option.bind_some]
    cases claimed with
    | none => exact ⟨_, _, rfl, hu, fun e he => by cases he⟩
    | some t' =>
      obtain ⟨r, j, v, hrun, hv, hr⟩ := S.run_submit_ends env i ⟨p, task⟩ u t'
      simp only [Option.map_some, OnTrade.on, App.run_bind, App.run_mk, Free.bind_assoc]
      rw [run_bind, hrun, Option.bind_some]
      cases r with
      | ok _ => exact ⟨_, _, rfl, hu.trans hv, fun e he => by cases he⟩
      | error e =>
        refine ⟨_, _, rfl, hu.trans hv, ?_⟩
        intro e' he'
        cases he'
        exact hr e rfl

end Scene

end AutoTrader
