import AutoTrader.Results.Gate
import AutoTrader.Results.Refusals
import AutoTrader.System.Ending

/-!
# The answers of the webhook

Seen from outside, the endpoint is a set of signal ids: a request is refused for a reason that
can be read off it and off the ids on record, or it is taken, and its id is on record from then
on. One of the reasons is an error of the server: the quantity overflows its column. The code answers like that, whatever the exchange does and whichever commits of an outcome
the database refuses. So a caller that does not know what became of a request may send it again.
-/

namespace AutoTrader.Webhook

open Python Coroutine

variable {env : Deployment}

/-! ## The endpoint and its code -/

inductive Verdict
  | refused (e : ErrorResponse)
  | taken (signalId : String)

/-- What a request comes to, with the signal ids `known` on record. -/
def verdict (env : Deployment) (secret : String) (registered : Bool) (known : List String)
    (r : Request) : Verdict :=
  match signalOf secret r with
  | .error e => .refused e.response
  | .ok payload =>
    match validateSignal env payload with
    | .error e => .refused (serviceError e)
    | .ok () =>
      if registered then
        if payload.quantity.isStorable then
          if payload.signalId ∈ known then .refused (serviceError (.duplicateSignal none))
          else .taken payload.signalId
        else .refused databaseError
      else .refused (serviceError unregistered)

/-- What a verdict adds to the record. -/
def Verdict.signalIds : Verdict → List String
  | refused _ => []
  | taken signalId => [signalId]

/-- One request after another. -/
def verdicts (env : Deployment) (secret : String) (registered : Bool) :
    List String → List Request → List Verdict
  | _, [] => []
  | known, r :: rs =>
    let v := verdict env secret registered known r
    v :: verdicts env secret registered (known ++ v.signalIds) rs

/-- The caller learns that its signal was taken, or that something went wrong with it. -/
def Verdict.Answers : Verdict → Response → Prop
  | refused e, a => a = .error e
  | taken _, a =>
    (∃ detail trade, a = .accepted detail trade) ∨ a = .error unexpected ∨
      a = .error databaseError

/-- A request, and what it meets: the process that serves it, the exchange and the database. -/
structure Delivery where
  scene : Scene
  process : Nat
  request : Request

/-- The signal ids on record. -/
def onRecord (w : World) : List String := w.trades.rows.map Trade.signalId

section Deliveries

variable (env : Deployment) (secret : String) (i : Nat) (task : Task)

def Delivery.serve (d : Delivery) (w : World) : Option (Response × World) :=
  d.scene.run env i ⟨d.process, task⟩ (tradingviewWebhook env secret d.request) w

/-- The responses to one request after another. -/
def converse : List Delivery → World → Option (List Response × World)
  | [], w => some ([], w)
  | d :: ds, w => (d.serve env secret i task w).bind fun x =>
    (converse ds x.2).map fun y => (x.1 :: y.1, y.2)

end Deliveries

/-- Nothing has happened, as far as the rows, the queues and the exchange are concerned. -/
def Untouched (w u : World) : Prop :=
  u.toLedger = w.toLedger ∧ ∀ p, (u.processes p).queue = (w.processes p).queue

theorem Untouched.trans {w u v : World} (h : Untouched w u) (h' : Untouched u v) :
    Untouched w v := ⟨h'.1.trans h.1, fun p => (h'.2 p).trans (h.2 p)⟩

/-- What holds between two requests. -/
structure Ready (env : Deployment) (ids : Set String) (w : World) : Prop where
  keyed : w.Keyed env ids
  cached : Cached env w

section Serving

variable {secret : String} {i p : Nat} {task : Task} {w u : World} {ids : Set String}

theorem ownerFor_eq (hw : Cached env w) (p : Nat) :
    w.ownerFor env p = registeredOwner env w.users := by
  unfold World.ownerFor
  cases hcached : (w.processes p).owner with
  | none => rfl
  | some id => exact (hw p id hcached).symm

theorem exists_registered {users : List User} {owner : UserId}
    (h : registeredOwner env users = some owner) : ∃ x ∈ users, x.id = owner := by
  obtain ⟨x, hx, hid⟩ := Option.map_eq_some_iff.mp h
  exact ⟨x, List.mem_of_find?_eq_some hx, hid⟩

theorem onRecord_retains (h : w.Retains u) : onRecord u = onRecord w := by
  have hids : ∀ v : World, onRecord v = (v.trades.rows.map Trade.terms).map Trade.Terms.signalId := by
    intro v
    rw [onRecord, List.map_map]
    rfl
  rw [hids, hids, h.terms]

theorem untouched_owning (env : Deployment) (w : World) (p : Nat) : Untouched w (w.owning env p) := by
  obtain ⟨hledger, -, -, -, hqueue⟩ := World.owning_frame w env p
  exact ⟨hledger, hqueue⟩

theorem onRecord_untouched (h : Untouched w u) : onRecord u = onRecord w := by
  rw [onRecord, h.1, onRecord]

/-- The response to a signal that was taken, whatever came of it. -/
theorem answers_taken {r : Except Exc Trade} {signalId : String} (hr : Raises isSignalError r)
    (hrefusal : ∀ e, r = .error e → e.isRefusal = false) :
    (Verdict.taken signalId).Answers (reply r) := by
  cases r with
  | ok t =>
    simp only [reply]
    cases TradeRead.ofTrade t with
    | none => exact Or.inr (Or.inl rfl)
    | some trade => exact Or.inl ⟨_, _, rfl⟩
  | error e =>
    have hkind := hr e rfl
    rw [isSignalError, hrefusal e rfl, Bool.false_or] at hkind
    cases e with
    | sqlalchemy | missingGreenlet => exact Or.inr (Or.inr rfl)
    | conversion | recursionError | invalidOperation => exact Or.inr (Or.inl rfl)
    | businessValidation | configuration | duplicateSignal | resourceNotFound | binance =>
      cases hkind

variable (i task) in
/-- **One request.** -/
theorem serve_ends {d : Delivery} (hw : Ready env ids w)
    (hinj : Set.InjOn (buildClientOrderId env) ids)
    (hids : ∀ payload, signalOf secret d.request = .ok payload → payload.signalId ∈ ids) :
    ∃ a u v, verdict env secret (registeredOwner env w.users).isSome (onRecord w) d.request = v ∧
      d.serve env secret i task w = some (a, u) ∧ v.Answers a ∧ Ready env ids u ∧
      u.users = w.users ∧ onRecord u = onRecord w ++ v.signalIds ∧
      (v.signalIds = [] → Untouched w u) := by
  have hserve : ∀ a u, d.scene.run env i ⟨d.process, task⟩
      (tradingviewWebhook env secret d.request) w = some (a, u) →
        d.serve env secret i task w = some (a, u) := fun _ _ h => h
  unfold verdict
  cases hsignal : signalOf secret d.request with
  | error e =>
    refine ⟨_, w, _, rfl, hserve _ _ ?_, rfl, hw, rfl, (List.append_nil _).symm,
      fun _ => ⟨rfl, fun _ => rfl⟩⟩
    rw [tradingviewWebhook, hsignal]
    rfl
  | ok payload =>
    obtain ⟨r, u, hrun, hends⟩ := signal_ends d.scene i d.process task hw.keyed hinj
      (hids payload hsignal)
    obtain ⟨husers, hcached, hraises⟩ := run_processSignal_ends hw.cached hrun
    have hreply : d.serve env secret i task w = some (reply r, u) := by
      apply hserve
      rw [tradingviewWebhook, hsignal]
      simp only []
      rw [Scene.run_bind, hrun]
      rfl
    rw [ownerFor_eq hw.cached] at hends
    have howning := untouched_owning env w d.process
    simp only []
    rcases hends with ⟨e, hvalid, rfl, rfl⟩ | ⟨hvalid, howner, rfl, rfl⟩ |
      ⟨owner, hvalid, howner, hwhy, rfl, rfl, hstore⟩ | ⟨hvalid, howner, hstore, rfl, rfl⟩ |
      ⟨owner, hfit, hstore, hvalid, howner, hnew, -, hu, hr⟩
    · rw [hvalid]
      exact ⟨_, _, _, rfl, hreply, rfl, hw, rfl, (List.append_nil _).symm,
        fun _ => ⟨rfl, fun _ => rfl⟩⟩
    · rw [hvalid, howner]
      refine ⟨_, _, _, rfl, hreply, rfl, ⟨hw.keyed.owning _, hcached⟩, husers, ?_, fun _ => howning⟩
      rw [onRecord_untouched howning]
      exact (List.append_nil _).symm
    · have hdup : payload.signalId ∈ onRecord w := by
        rcases hwhy with ⟨t, ht, hid⟩ | hgone
        · rw [← hid]
          exact List.mem_map_of_mem ht
        · obtain ⟨x, hx, hid⟩ := exists_registered howner
          exact absurd hid (hgone x hx)
      rw [hvalid, howner]
      simp only [Option.isSome_some, if_true, if_pos hdup, if_pos hstore]
      refine ⟨_, _, _, rfl, hreply, rfl, ⟨hw.keyed.owning _, hcached⟩, husers, ?_, fun _ => howning⟩
      rw [onRecord_untouched howning]
      exact (List.append_nil _).symm
    · rw [hvalid]
      simp only [howner, hstore, if_true, Bool.false_eq_true, if_false]
      refine ⟨_, _, _, rfl, hreply, rfl, ⟨hw.keyed.owning _, hcached⟩, husers, ?_, fun _ => howning⟩
      rw [onRecord_untouched howning]
      exact (List.append_nil _).symm
    · have hfresh : payload.signalId ∉ onRecord w := by
        intro hmem
        obtain ⟨t, ht, hid⟩ := List.mem_map.mp hmem
        exact hnew t ht hid
      rw [hvalid, howner]
      simp only [Option.isSome_some, if_true, if_neg hfresh, if_pos hstore]
      refine ⟨_, _, _, rfl, hreply, answers_taken hraises hr, ⟨?_, hcached⟩, husers, ?_, ?_⟩
      · exact ((hw.keyed.owning _).insert (hids payload hsignal) hfit).retains hu
      · rw [onRecord_retains hu]
        change ((w.owning env d.process).trades.rows ++ [_]).map Trade.signalId = _
        rw [List.map_append, howning.1]
        rfl
      · intro hnil
        cases hnil

/-- Every request of the deliveries carries one of these signal ids, if any. -/
def Among (secret : String) (ids : Set String) (ds : List Delivery) : Prop :=
  ∀ d ∈ ds, ∀ payload, signalOf secret d.request = .ok payload → payload.signalId ∈ ids

variable (i task) in
/-- **Any number of requests.** -/
theorem converse_ends {ds : List Delivery} (hw : Ready env ids w)
    (hinj : Set.InjOn (buildClientOrderId env) ids) (hds : Among secret ids ds) :
    ∃ as u vs, verdicts env secret (registeredOwner env w.users).isSome (onRecord w)
        (ds.map Delivery.request) = vs ∧
      converse env secret i task ds w = some (as, u) ∧ List.Forall₂ Verdict.Answers vs as ∧
      Ready env ids u ∧ u.users = w.users ∧
      onRecord u = onRecord w ++ vs.flatMap Verdict.signalIds ∧
      (vs.flatMap Verdict.signalIds = [] → Untouched w u) := by
  induction ds generalizing w with
  | nil =>
    exact ⟨[], w, [], rfl, rfl, .nil, hw, rfl, (List.append_nil _).symm,
      fun _ => ⟨rfl, fun _ => rfl⟩⟩
  | cons d ds ih =>
    obtain ⟨a, u, v, hv, hserve, ha, hu, husers, hrecord, hstill⟩ := serve_ends i task hw hinj
      (hds d List.mem_cons_self)
    obtain ⟨as, u', vs, hvs, hconverse, has, hu', husers', hrecord', hstill'⟩ :=
      ih hu fun d' hd' => hds d' (List.mem_cons_of_mem _ hd')
    rw [husers, hrecord] at hvs
    refine ⟨a :: as, u', v :: vs, ?_, ?_, .cons ha has, hu', husers'.trans husers, ?_, ?_⟩
    · rw [List.map_cons, verdicts, hv, hvs]
    · rw [converse, hserve, Option.bind_some, hconverse]
      rfl
    · rw [hrecord', hrecord, List.flatMap_cons, List.append_assoc]
    · intro hnil
      rw [List.flatMap_cons, List.append_eq_nil_iff] at hnil
      exact (hstill hnil.1).trans (hstill' hnil.2)

namespace Sample

open AutoTrader.Sample (inline users filling)

/-- Process 0 serves the request, and the order is filled. -/
def deliver (r : Request) : Delivery := ⟨filling, 0, r⟩

theorem ready_initial (ids : Set String) : Ready inline ids (.initial users 0) :=
  ⟨AutoTrader.Sample.keyed_initial ids, fun p id hid => by cases hid⟩

theorem among_alerts {ds : List Delivery} (hds : ∀ d ∈ ds, d = deliver guess ∨ d = deliver alert) :
    Among sharedSecret {"sig-1"} ds := by
  have hguess : (signalOf sharedSecret guess).toOption.map TradingViewWebhookPayload.signalId =
      none := by decide +kernel
  have halert : (signalOf sharedSecret alert).toOption.map TradingViewWebhookPayload.signalId =
      some "sig-1" := by decide +kernel
  intro d hd payload hsignal
  rcases hds d hd with rfl | rfl
  · have hsignal : signalOf sharedSecret guess = .ok payload := hsignal
    rw [hsignal] at hguess
    cases hguess
  · have hsignal : signalOf sharedSecret alert = .ok payload := hsignal
    rw [hsignal] at halert
    exact Option.some.inj halert

end Sample

variable (i task) in
/-- **The endpoint answers from its record.** One request after another, in whatever processes,
with whatever answers of the exchange and whichever commits of an outcome refused:

* each is answered as the signal ids on record demand: refused with the error that is due, a
  quantity that overflows its column included, or taken, and then answered 202 or with an error
  of the server;
* the ids of those that are taken come on record, each once, and no others;
* if none is taken, the rows, the queues and the exchange are left alone. -/
theorem answers_follow_the_record {ds : List Delivery} (hw : Ready env ids w)
    (hinj : Set.InjOn (buildClientOrderId env) ids) (hds : Among secret ids ds) :
    ∃ as u vs, verdicts env secret (registeredOwner env w.users).isSome (onRecord w)
        (ds.map Delivery.request) = vs ∧
      converse env secret i task ds w = some (as, u) ∧ List.Forall₂ Verdict.Answers vs as ∧
      onRecord u = onRecord w ++ vs.flatMap Verdict.signalIds ∧ (onRecord u).Nodup ∧
      Ready env ids u ∧ (vs.flatMap Verdict.signalIds = [] → Untouched w u) := by
  obtain ⟨as, u, vs, hvs, hconverse, has, hu, -, hrecord, hstill⟩ := converse_ends i task hw
    hinj hds
  exact ⟨as, u, vs, hvs, hconverse, has, hrecord, u.trades.uniqueSignalId, hu, hstill⟩

theorem answers_follow_the_record_alerts :
    ∃ as u, converse AutoTrader.Sample.inline Sample.sharedSecret 0 .resume
        ([Sample.guess, Sample.alert, Sample.alert].map Sample.deliver)
        (.initial AutoTrader.Sample.users 0) = some (as, u) ∧ onRecord u = ["sig-1"] := by
  have hds : ∀ d ∈ [Sample.guess, Sample.alert, Sample.alert].map Sample.deliver,
      d = Sample.deliver Sample.guess ∨ d = Sample.deliver Sample.alert := by
    simp
  obtain ⟨as, u, vs, hvs, hconverse, -, hrecord, -⟩ := answers_follow_the_record 0 .resume
    (Sample.ready_initial _) (Set.injOn_singleton _ _) (Sample.among_alerts hds)
  have hids : vs.flatMap Verdict.signalIds = ["sig-1"] := by
    rw [← hvs]
    decide +kernel
  refine ⟨as, u, hconverse, ?_⟩
  rw [hrecord, hids]
  rfl

/-! ## Once more -/

/-- A second look at the same request, with more on record. -/
theorem verdict_again {registered : Bool} {known known' : List String} {r : Request}
    (hknown : known ++ (verdict env secret registered known r).signalIds ⊆ known') :
    (∃ e, verdict env secret registered known r = .refused e ∧
      verdict env secret registered known' r = .refused e) ∨
    ∃ signalId, verdict env secret registered known r = .taken signalId ∧
      verdict env secret registered known' r = .refused (serviceError (.duplicateSignal none)) := by
  unfold verdict at hknown ⊢
  cases hsignal : signalOf secret r with
  | error e => exact Or.inl ⟨_, rfl, rfl⟩
  | ok payload =>
    cases hvalid : validateSignal env payload with
    | error e =>
      refine Or.inl ⟨serviceError e, ?_, ?_⟩
      · simp only [hvalid]
      · simp only [hvalid]
    | ok _ =>
      cases registered with
      | false =>
        refine Or.inl ⟨serviceError unregistered, ?_, ?_⟩
        · simp only [hvalid, Bool.false_eq_true, if_false]
        · simp only [hvalid, Bool.false_eq_true, if_false]
      | true =>
        simp only [hsignal, hvalid, if_true] at hknown ⊢
        cases hstore : payload.quantity.isStorable with
        | false =>
          simp only [Bool.false_eq_true, if_false]
          exact Or.inl ⟨_, rfl, rfl⟩
        | true =>
        simp only [hstore, if_true] at hknown ⊢
        by_cases hdup : payload.signalId ∈ known
        · rw [if_pos hdup]
          rw [if_pos hdup] at hknown
          rw [if_pos (hknown (List.mem_append_left _ hdup))]
          exact Or.inl ⟨_, rfl, rfl⟩
        · rw [if_neg hdup]
          rw [if_neg hdup] at hknown
          rw [if_pos (hknown (List.mem_append_right _ List.mem_cons_self))]
          exact Or.inr ⟨_, rfl, rfl⟩

variable (i task) in
/-- **A request may be sent again.** Whatever requests came before and in between, and whatever
the first try met: the second try leaves the rows, the queues and the exchange alone. It is
answered with the error of the first try, or, if the signal was taken then, with 409. -/
theorem retry_is_safe {before between : List Delivery} {d d' : Delivery} (hw : Ready env ids w)
    (hinj : Set.InjOn (buildClientOrderId env) ids)
    (hds : Among secret ids (before ++ d :: between)) (hsame : d'.request = d.request) :
    ∃ as w₁ a w₂ bs w₃ a' u, converse env secret i task before w = some (as, w₁) ∧
      d.serve env secret i task w₁ = some (a, w₂) ∧
      converse env secret i task between w₂ = some (bs, w₃) ∧
      d'.serve env secret i task w₃ = some (a', u) ∧ Untouched w₃ u ∧
      ((∃ e, a = .error e ∧ a' = .error e) ∨
        ∃ signalId, (Verdict.taken signalId).Answers a ∧ signalId ∈ onRecord w₂ ∧
          a' = .error ⟨409, "duplicate_signal", "This signal has already been processed.", false⟩) := by
  have hd : d ∈ before ++ d :: between := List.mem_append_right _ List.mem_cons_self
  obtain ⟨as, w₁, -, -, hbefore, -, hw₁, husers₁, -, -⟩ := converse_ends i task hw hinj
    fun x hx => hds x (List.mem_append_left _ hx)
  obtain ⟨a, w₂, v, hv, hserve, ha, hw₂, husers₂, hrecord₂, -⟩ := serve_ends i task hw₁ hinj
    (hds d hd)
  obtain ⟨bs, w₃, vs, -, hbetween, -, hw₃, husers₃, hrecord₃, -⟩ := converse_ends i task hw₂ hinj
    fun x hx => hds x (List.mem_append_right _ (List.mem_cons_of_mem _ hx))
  obtain ⟨a', u, v', hv', hserve', ha', -, -, -, hstill⟩ := serve_ends i task (d := d') hw₃
    hinj (hsame ▸ hds d hd)
  have hknown : onRecord w₁ ++ v.signalIds ⊆ onRecord w₃ := by
    rw [hrecord₃, hrecord₂]
    exact List.subset_append_left _ _
  rw [hsame, husers₃, husers₂] at hv'
  subst hv hv'
  refine ⟨as, w₁, a, w₂, bs, w₃, a', u, hbefore, hserve, hbetween, hserve', ?_⟩
  rcases verdict_again hknown with ⟨e, hfirst, hsecond⟩ | ⟨signalId, hfirst, hsecond⟩
  · rw [hsecond] at ha' hstill
    rw [hfirst] at ha
    exact ⟨hstill rfl, Or.inl ⟨e, ha, ha'⟩⟩
  · rw [hsecond] at ha' hstill
    rw [hfirst] at ha hrecord₂
    refine ⟨hstill rfl, Or.inr ⟨signalId, ha, ?_, ha'⟩⟩
    rw [hrecord₂]
    exact List.mem_append_right _ List.mem_cons_self

/-- The alert is sent twice, with a guess in between. -/
theorem retry_is_safe_alert :
    ∃ w₂ bs w₃ a' u, converse AutoTrader.Sample.inline Sample.sharedSecret 0 .resume
        [Sample.deliver Sample.guess] w₂ = some (bs, w₃) ∧
      (Sample.deliver Sample.alert).serve AutoTrader.Sample.inline Sample.sharedSecret 0 .resume
        w₃ = some (a', u) ∧ Untouched w₃ u := by
  have hds : ∀ d ∈ [] ++ Sample.deliver Sample.alert :: [Sample.deliver Sample.guess],
      d = Sample.deliver Sample.guess ∨ d = Sample.deliver Sample.alert := by
    simp
  have hsame : (Sample.deliver Sample.alert).request = (Sample.deliver Sample.alert).request := rfl
  obtain ⟨as, w₁, a, w₂, bs, w₃, a', u, -, -, hbetween, hserve, hstill, -⟩ := retry_is_safe 0
    .resume (Sample.ready_initial _) (Set.injOn_singleton _ _) (Sample.among_alerts hds) hsame
  exact ⟨w₂, bs, w₃, a', u, hbetween, hserve, hstill⟩

end Serving

end AutoTrader.Webhook
