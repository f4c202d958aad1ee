import AutoTrader.System.Signal

/-!
# What becomes of a trade

Where the exchange answers by the request and every commit goes through, what becomes of a
claimed trade is a function of its row, and only of its *content*: the columns that are
neither the id nor a timestamp. `submitted` is that function. A signal that is processed
inline adds a row with the content that it gives, and so does one signal after another
(`inline_of_fits`).
-/

namespace AutoTrader

open Python Coroutine

/-- A row without its id and its timestamps. -/
def Trade.content (t : Trade) : Trade :=
  { t with id := 0, submittedAt := none, reconciledAt := none, createdAt := 0, updatedAt := 0 }

namespace Scene

variable (S : Scene) (env : Deployment)

/-- The row of an open trade when its query has been answered. -/
def answered (t : Trade) (answer : Option BinanceOrderResult) : Trade :=
  match S.refusal 0 t (answerEdits answer 0) with
  | none => (answerEdits answer 0).flush t 0 t
  | some _ => t

/-- The row of a claimed trade when its order call has come to an outcome. -/
def concluded (t : Trade) (o : Outcome) : Trade :=
  match S.refusal 0 t (o.edits env) with
  | some _ => t
  | none =>
    match o with
    | .uncertain exc => S.reconciled env 0 ((uncertainEdits env exc).flush t 0 t)
    | _ => (o.edits env).flush t 0 t

/-- The row of a claimed trade after its submission. -/
def submitted (t : Trade) : Trade :=
  match formatDecimal t.quantity with
  | none => t
  | some text =>
    match submissionOutcome env t (S.ends (orderFor env t text)) with
    | .ok o => S.concluded env t o
    | .error _ => t

variable {S env} {t : Trade}

theorem submitted_of_outcome {text : String} (htext : formatDecimal t.quantity = some text)
    {o : Outcome} (h : submissionOutcome env t (S.ends (orderFor env t text)) = .ok o) :
    S.submitted env t = S.concluded env t o := by
  simp only [submitted, htext, h]

theorem submitted_of_raised {text : String} (htext : formatDecimal t.quantity = some text)
    {e : Exc} (h : submissionOutcome env t (S.ends (orderFor env t text)) = .error e) :
    S.submitted env t = t := by
  simp only [submitted, htext, h]

theorem reconciled_of_answer {answer : Option BinanceOrderResult}
    (h : S.answer env t = .ok answer) : S.reconciled env 0 t = S.answered t answer := by
  unfold reconciled
  rw [h]
  rfl

theorem reconciled_of_raised {e : Exc} (h : S.answer env t = .error e) (now : DateTime) :
    S.reconciled env now t = t := by
  simp only [reconciled, h]

end Scene

/-! ## Only the content matters -/

section Content

variable {ends : HttpRequest → Transport} {env : Deployment} {s t : Trade}

theorem flushError_content (e : Edits) (t : Trade) : e.flushError? t.content = e.flushError? t :=
  rfl

/-- When an answer is recorded does not matter to the columns. -/
theorem flushError_answerEdits (answer : Option BinanceOrderResult) (now stamp : DateTime)
    (t : Trade) : (answerEdits answer now).flushError? t = (answerEdits answer stamp).flushError? t := by
  cases answer <;> rfl

theorem content_answerEdits (answer : Option BinanceOrderResult) (now stamp : DateTime)
    (t : Trade) :
    ((answerEdits answer now).flush t stamp t).content =
      ((answerEdits answer 0).flush t.content 0 t.content).content := by
  cases answer <;> rfl

namespace Scene

variable (ends env) in
theorem content_reconciled (now : DateTime) (t : Trade) :
    ((storing ends).reconciled env now t).content =
      ((storing ends).reconciled env 0 t.content).content := by
  have hanswer : (storing ends).answer env t.content = (storing ends).answer env t := rfl
  unfold reconciled
  rw [hanswer]
  cases (storing ends).answer env t with
  | error e => rfl
  | ok answer =>
    simp only [refusal_storing, flushError_content, flushError_answerEdits answer now 0 t]
    cases (answerEdits answer 0).flushError? t with
    | none => exact content_answerEdits answer now now t
    | some e => rfl

theorem reconciled_congr {now stamp : DateTime} (h : s.content = t.content) :
    ((storing ends).reconciled env now s).content =
      ((storing ends).reconciled env stamp t).content := by
  rw [content_reconciled, h, ← content_reconciled]

variable (ends env) in
theorem content_concluded (t : Trade) (o : Outcome) :
    ((storing ends).concluded env t o).content =
      ((storing ends).concluded env t.content o).content := by
  unfold concluded
  simp only [refusal_storing, flushError_content]
  cases (o.edits env).flushError? t with
  | some e => rfl
  | none =>
    cases o with
    | settled result => rfl
    | refused status code message => rfl
    | uncertain exc => exact reconciled_congr rfl

variable (ends env) in
theorem content_submitted (t : Trade) :
    ((storing ends).submitted env t).content =
      ((storing ends).submitted env t.content).content := by
  have houtcome : ∀ outcome,
      submissionOutcome env t.content outcome = submissionOutcome env t outcome := fun _ => rfl
  have hquantity : t.content.quantity = t.quantity := rfl
  unfold submitted
  rw [hquantity]
  cases formatDecimal t.quantity with
  | none => rfl
  | some text =>
    have horder : orderFor env t.content text = orderFor env t text := rfl
    simp only [houtcome, horder]
    cases submissionOutcome env t ((storing ends).ends (orderFor env t text)) with
    | error e => rfl
    | ok o => exact content_concluded ends env t o

/-- A submission leaves what was asked for as it is. -/
theorem terms_submitted (S : Scene) (env : Deployment) (t : Trade) :
    (S.submitted env t).terms = t.terms := by
  have hreconciled : ∀ s now, (S.reconciled env now s).terms = s.terms := by
    intro s now
    unfold reconciled
    split
    · split <;> rfl
    · rfl
  unfold submitted
  split
  · rfl
  · split
    · rename_i o _
      unfold concluded
      split
      · rfl
      · cases o with
        | settled result => rfl
        | refused status code message => rfl
        | uncertain exc => exact hreconciled _ _
    · rfl

theorem submitted_congr (h : s.content = t.content) :
    ((storing ends).submitted env s).content = ((storing ends).submitted env t).content := by
  rw [content_submitted, h, ← content_submitted]

end Scene

end Content

/-! ## Inline -/

section Inline

variable {ends : HttpRequest → Transport} {env : Deployment} {i p : Nat} {task : Task}
  {w : World} {t : Trade} {init : List Trade}

/-- An UPDATE of the last row. -/
theorem TradeTable.update_last {T : TradeTable} (hrows : T.rows = init ++ [t])
    (u : TradeTable.Update) : (T.update t.id u).rows = init ++ [u.write t] := by
  have hkey := T.primaryKey
  rw [hrows, List.map_append, List.nodup_append] at hkey
  have hinit : ∀ s ∈ init, (if s.id = t.id then u.write s else s) = s := by
    intro s hs
    apply if_neg
    exact hkey.2.2 _ (List.mem_map_of_mem hs) _ (List.mem_singleton.mpr rfl)
  calc (T.update t.id u).rows
      = (init ++ [t]).map (fun s => if s.id = t.id then u.write s else s) := by
        rw [← hrows]
        rfl
    _ = init ++ [u.write t] := by
        rw [List.map_append, List.map_congr_left hinit, List.map_id', List.map_singleton,
          if_pos rfl]

namespace Scene

/-- The thread ends and has changed nothing but the ledger, whose last row has become one with
the content of `t'`. -/
def Leaves (S : Scene) (env : Deployment) (i : Nat) (tag : Tag) {α : Type} (x : Free effects α)
    (w : World) (init : List Trade) (t' : Trade) : Prop :=
  ∃ a l row, S.run env i tag x w = some (a, { w with toLedger := l }) ∧
    l.trades.rows = init ++ [row] ∧ row.content = t'.content

variable (ends env i) in
/-- The query that follows an uncertain outcome. -/
theorem leaves_queryNow (tag : Tag) (hrows : w.trades.rows = init ++ [t])
    (hopen : t.isTerminal = false) :
    (storing ends).Leaves env i tag (queryNow env (.fresh t)) w init
      ((storing ends).reconciled env 0 t) := by
  have hcontent := content_reconciled ends env 0 t
  unfold Leaves
  rw [run_queryNow hopen, hcontent]
  unfold outcome after reconciled
  have hanswer : (storing ends).answer env t.content = (storing ends).answer env t := rfl
  rw [hanswer]
  cases (storing ends).answer env t with
  | error e => cases e <;> exact ⟨_, _, t, rfl, hrows, rfl⟩
  | ok answer =>
    have hlast := TradeTable.update_last hrows ((answerEdits answer w.clock).update t w.clock)
    simp only [refusal_storing, flushError_content, flushError_answerEdits answer w.clock 0 t]
    cases (answerEdits answer 0).flushError? t with
    | none => exact ⟨_, _, _, rfl, hlast, content_answerEdits answer _ _ t⟩
    | some e => cases e <;> exact ⟨_, _, t, rfl, hrows, rfl⟩

variable (ends env i) in
/-- A submission, from a copy that is the last row. -/
theorem leaves_submit (tag : Tag) (hrows : w.trades.rows = init ++ [t]) :
    (storing ends).Leaves env i tag ((submitToBinance env).exec (.fresh t)) w init
      ((storing ends).submitted env t) := by
  unfold Leaves submitted
  cases htext : formatDecimal t.quantity with
  | none =>
    rw [submitToBinance_exec, htext]
    exact ⟨_, _, t, rfl, hrows, rfl⟩
  | some text =>
    rw [run_submit htext]
    unfold afterCall
    simp only []
    cases submissionOutcome env t ((storing ends).ends (orderFor env t text)) with
    | error e => exact ⟨_, _, t, rfl, hrows, rfl⟩
    | ok o =>
      have hlast := TradeTable.update_last hrows ((o.edits env).update t w.clock)
      simp only [concluded, settle, run_commit, refusal_storing]
      cases hflush : (o.edits env).flushError? t with
      | some e => exact ⟨_, _, t, rfl, hrows, rfl⟩
      | none =>
      cases o with
      | settled result => exact ⟨_, _, _, rfl, hlast, rfl⟩
      | refused status code message => exact ⟨_, _, _, rfl, hlast, rfl⟩
      | uncertain exc =>
        have hopen : ((uncertainEdits env exc).flush t w.clock t).isTerminal = false := by
          rw [Trade.isTerminal, status_flush rfl]
          rfl
        obtain ⟨a, l, row, hrun, hl, hrow⟩ := leaves_queryNow ends env i tag
          (w := (w.placing env t text).recording t (uncertainEdits env exc)) hlast hopen
        have hcopy : (storing ends).run env i tag
            (queryNow env (((Outcome.uncertain exc).held env t).flushed w.clock))
            ((w.placing env t text).recording t (uncertainEdits env exc)) =
              (storing ends).run env i tag
                (queryNow env (.fresh ((uncertainEdits env exc).flush t w.clock t)))
                ((w.placing env t text).recording t (uncertainEdits env exc)) := by
          rw [flushed_uncertain]
        exact ⟨a, l, row, hcopy.trans hrun, hl, hrow.trans (reconciled_congr rfl)⟩

/-- The claim of the last row. -/
theorem run_claim_last (hrows : w.trades.rows = init ++ [t]) (hunsent : t.unsent = true) :
    (storing ends).run env i ⟨p, task⟩ (claimForSubmission t.id).run w =
      some (.ok (some (.fresh ((claimUpdate w.clock).write t))),
        { w with toLedger := w.toLedger.claim i t.id w.clock }) := by
  have hfind : w.trades.find? t.id = some t := by
    apply World.find?_of_mem
    rw [hrows]
    exact List.mem_append_right _ (List.mem_singleton.mpr rfl)
  have hclaim : execClaim i w t.id w.clock .done =
      some (.ok 1, { w with toLedger := w.toLedger.claim i t.id w.clock }) := by
    unfold execClaim
    rw [hfind]
    exact if_pos hunsent
  have hget : (w.trades.update t.id (claimUpdate w.clock)).find? t.id =
      some ((claimUpdate w.clock).write t) := by
    rw [TradeTable.find?_eq_some, TradeTable.update_last hrows]
    exact ⟨List.mem_append_right _ (List.mem_singleton.mpr rfl), rfl⟩
  rw [claimForSubmission_run, run_clock, run, Host.drive_op]
  simp only [exec, AutoTrader.exec, hclaim, Option.bind_some]
  change some (Except.ok (Option.map Instance.fresh
    ((w.trades.update t.id (claimUpdate w.clock)).find? t.id)), _) = _
  rw [hget]
  rfl

variable (ends i p task) in
/-- What is done inline with a row just committed. -/
theorem leaves_handOver (hinline : env.settings.webhookAsyncExecution = false)
    (hrows : w.trades.rows = init ++ [t]) (hunsent : t.unsent = true) :
    (storing ends).Leaves env i ⟨p, task⟩ (handOver env t).run w init
      ((storing ends).submitted env t) := by
  obtain ⟨⟨r, j⟩, l, row, hrun, hl, hrow⟩ := leaves_submit ends env i ⟨p, task⟩
    (w := { w with toLedger := w.toLedger.claim i t.id w.clock })
    (TradeTable.update_last hrows (claimUpdate w.clock))
  unfold handOver Leaves
  simp only [hinline, Bool.false_eq_true, if_false, App.run_bind]
  rw [run_bind, run_claim_last hrows hunsent]
  simp only [Option.bind_some, OnTrade.on, App.run_bind, App.run_mk, Free.bind_assoc]
  rw [run_bind, hrun]
  have hclaimed : ((claimUpdate w.clock).write t).content = t.content := rfl
  have hcontent := hrow.trans (submitted_congr hclaimed)
  cases r with
  | error e => exact ⟨_, l, row, rfl, hl, hcontent⟩
  | ok _ => exact ⟨_, l, row, rfl, hl, hcontent⟩

end Scene

end Inline

/-! ## One signal after another -/

/-- The deployment with queued or with inline execution. -/
def Deployment.withAsyncExecution (env : Deployment) (async : Bool) : Deployment :=
  { env with settings := { env.settings with webhookAsyncExecution := async } }

namespace Scene

/-- The content of the row that a signal's trade becomes. -/
def traded (S : Scene) (env : Deployment) (payload : TradingViewWebhookPayload) (owner : UserId) :
    Trade :=
  (S.submitted env ((pendingTrade env payload owner).row 0 0)).content

variable {S : Scene} {env : Deployment} {payload : TradingViewWebhookPayload} {owner : UserId}

theorem signalId_traded : (S.traded env payload owner).signalId = payload.signalId :=
  congrArg Trade.Terms.signalId
    (terms_submitted S env ((pendingTrade env payload owner).row 0 0))

theorem clientOrderId_traded :
    (S.traded env payload owner).clientOrderId = buildClientOrderId env payload.signalId :=
  congrArg Trade.Terms.clientOrderId
    (terms_submitted S env ((pendingTrade env payload owner).row 0 0))

/-- The signals are processed by process `p`, one after another. -/
def processAll (S : Scene) (env : Deployment) (p : Nat) :
    List TradingViewWebhookPayload → World → Option World
  | [], w => some w
  | payload :: rest, w =>
    (S.run env 0 ⟨p, .request payload⟩ (processSignal env payload).run w).bind fun x =>
      S.processAll env p rest x.2

section Inline

variable {ends : HttpRequest → Transport} {env : Deployment} {p : Nat} {w : World}
  {payload : TradingViewWebhookPayload} {owner : UserId}

theorem ownerFor_owning (howner : w.ownerFor env p = some owner) :
    (w.owning env p).ownerFor env p = some owner := by
  cases hcached : (w.processes p).owner with
  | some id =>
    have hsame : w.owning env p = w := by
      unfold World.owning
      rw [hcached]
    rw [hsame, howner]
  | none =>
    have hset : w.owning env p =
        w.setProcess p { w.processes p with owner := some owner } := by
      unfold World.owning
      rw [hcached, howner]
    rw [hset]
    simp [World.ownerFor, World.setProcess]

variable (ends) in
/-- An accepted signal, processed inline, leaves its row behind. -/
theorem run_inline (hinline : env.settings.webhookAsyncExecution = false)
    (hvalid : validateSignal env payload = .ok ()) (howner : w.ownerFor env p = some owner)
    (huser : w.users.any fun u => u.id = owner) (hstore : payload.quantity.isStorable = true)
    (hfit : w.trades.Fits (w.rowFor env payload owner)) :
    ∃ a u row, (storing ends).run env 0 ⟨p, .request payload⟩ (processSignal env payload).run w =
        some (a, u) ∧ u.trades.rows = w.trades.rows ++ [row] ∧
      row.content = (storing ends).traded env payload owner ∧ row.id = w.nextTradeId ∧
      u.nextTradeId = w.nextTradeId + 1 ∧ u.users = w.users ∧ u.ownerFor env p = some owner := by
  obtain ⟨hledger, husers, hclock, hnext, -⟩ := World.owning_frame w env p
  have hrow : (w.owning env p).rowFor env payload owner = w.rowFor env payload owner := by
    rw [World.rowFor, hnext, hclock, World.rowFor]
  have htrades : (w.owning env p).trades = w.trades := congrArg Ledger.trades hledger
  have hfit' : (w.owning env p).trades.Fits ((w.owning env p).rowFor env payload owner) := by
    rw [htrades, hrow]
    exact hfit
  have hrows : ((w.owning env p).accepting env payload owner hfit').trades.rows =
      w.trades.rows ++ [w.rowFor env payload owner] := by
    change (w.owning env p).trades.rows ++ [_] = _
    rw [htrades, hrow]
  obtain ⟨a, l, row, hrun, hl, hcontent⟩ := leaves_handOver ends 0 p (.request payload) hinline
    hrows rfl
  obtain ⟨a', u, hrun', hretains, -⟩ := run_handOver (storing ends) env 0 p (.request payload)
    ((w.owning env p).accepting env payload owner hfit') (w.rowFor env payload owner)
  obtain ⟨rfl, rfl⟩ := Prod.mk.inj (Option.some.inj (hrun.symm.trans hrun'))
  refine ⟨a, { (w.owning env p).accepting env payload owner hfit' with toLedger := l }, row, ?_,
    hl, ?_, ?_, ?_, ?_, ?_⟩
  · rw [run_processSignal, hvalid]
    simp only [howner]
    rw [run_createPendingTrade hstore hfit' (husers ▸ huser), hrow]
    exact hrun
  · exact hcontent.trans (submitted_congr rfl)
  · have hterms : l.trades.rows.map Trade.terms =
        ((w.owning env p).accepting env payload owner hfit').trades.rows.map Trade.terms :=
      hretains.terms
    rw [hl, hrows, List.map_append, List.map_append] at hterms
    have hlast := List.append_cancel_left hterms
    exact congrArg Trade.Terms.id (List.cons.inj hlast).1
  · exact congrArg (· + 1) hnext
  · exact husers
  · exact ownerFor_owning howner

variable (ends env p) in
/-- **Processing inline adds one row for each signal**, with the content that its submission
gives. -/
theorem processAll_of_fits (hinline : env.settings.webhookAsyncExecution = false)
    {signals : List TradingViewWebhookPayload}
    (hvalid : ∀ payload ∈ signals, validateSignal env payload = .ok ())
    (hstore : ∀ payload ∈ signals, payload.quantity.isStorable = true)
    (howner : w.ownerFor env p = some owner) (huser : w.users.any fun u => u.id = owner)
    (hids : ∀ r ∈ w.trades.rows, r.id < w.nextTradeId)
    (hsignals : (w.trades.rows.map Trade.signalId ++
      signals.map TradingViewWebhookPayload.signalId).Nodup)
    (hclients : (w.trades.rows.map Trade.clientOrderId ++
      signals.map fun payload => buildClientOrderId env payload.signalId).Nodup) :
    ∃ u, (storing ends).processAll env p signals w = some u ∧
      u.trades.rows.map Trade.content = w.trades.rows.map Trade.content ++
        signals.map fun payload => (storing ends).traded env payload owner := by
  induction signals generalizing w with
  | nil => exact ⟨w, rfl, (List.append_nil _).symm⟩
  | cons payload rest ih =>
    have hfit : w.trades.Fits (w.rowFor env payload owner) := by
      refine ⟨fun r hr => Nat.ne_of_lt (hids r hr), fun r hr => ?_, fun r hr => ?_⟩
      · exact (List.nodup_append.mp hsignals).2.2 _ (List.mem_map_of_mem hr) _
          List.mem_cons_self
      · exact (List.nodup_append.mp hclients).2.2 _ (List.mem_map_of_mem hr) _
          List.mem_cons_self
    obtain ⟨a, v, row, hrun, hrows, hcontent, hid, hnext, husers, howner'⟩ :=
      run_inline ends hinline (hvalid _ List.mem_cons_self) howner huser
        (hstore _ List.mem_cons_self) hfit
    have hsignalId : row.signalId = payload.signalId :=
      (congrArg Trade.signalId hcontent).trans signalId_traded
    have hclientOrderId : row.clientOrderId = buildClientOrderId env payload.signalId :=
      (congrArg Trade.clientOrderId hcontent).trans clientOrderId_traded
    obtain ⟨u, hu, hcontents⟩ := ih (w := v)
      (fun y hy => hvalid y (List.mem_cons_of_mem _ hy))
      (fun y hy => hstore y (List.mem_cons_of_mem _ hy)) howner' (husers ▸ huser)
      (by
        intro r hr
        rw [hrows, List.mem_append, List.mem_singleton] at hr
        rw [hnext]
        rcases hr with hr | rfl
        · exact Nat.lt_succ_of_lt (hids r hr)
        · exact Nat.lt_succ_of_le (Nat.le_of_eq hid))
      (by rwa [hrows, List.map_append, List.append_assoc, List.map_singleton, hsignalId])
      (by rwa [hrows, List.map_append, List.append_assoc, List.map_singleton, hclientOrderId])
    refine ⟨u, ?_, ?_⟩
    · rw [processAll, hrun]
      exact hu
    · rw [hcontents, hrows, List.map_append, List.append_assoc, List.map_singleton, hcontent]
      rfl

end Inline

end Scene

end AutoTrader
