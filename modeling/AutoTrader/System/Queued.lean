import AutoTrader.System.Errand
import AutoTrader.System.Settlement

/-!
# The undisturbed service

Every call to the exchange ends as a given function of its request, no commit fails, queues
have room, and nobody is stopped or reconciled. Whatever else the threads and the workers do,
each row goes back to a signal that was received, and is on its way to one and the same
content, that of `Scene.traded`: it waits for a claim, one thread has claimed it and leads it
there, or it has arrived (`Settling`).
-/

namespace AutoTrader

open Python Coroutine Transition

/-- The database calls that a submission rests on: the commits, and the SELECT of the row that
a claim changed. -/
def Op.rests : Op → Bool
  | .insert _ | .claim _ _ | .get _ | .commit _ _ => true
  | _ => false

/-- What the caller hears of a call. -/
def Choice.transport? (c : Choice) (call : Call) : Option Transport :=
  match c, call.fate with
  | .reply t, _ => some t
  | .delivered, .answered r => some (.response r)
  | _, _ => none

/-- A step that nothing disturbs. -/
def Undisturbed (ends : HttpRequest → Transport) {env : Deployment} (P : Pool (service env)) :
    Label (service env) → Prop
  | .act i c =>
    (∀ o, P.pending? i = some o → o.rests = true → Choice.succeeds c = true) ∧
    (∀ k call t, P.pending? i = some (.receive k) → P.shared.calls[k]? = some call →
      Choice.transport? c call = some t → t = ends call.request) ∧
    ∀ (tag : Tag) (id : TradeId), P.tag? i = some tag → P.pending? i = some (.enqueue id) →
      (P.shared.processes tag.process).queue.length < env.settings.executorQueueSize
  | .event e =>
    match e with
    | .reconcile _ _ _ | .batch _ _ _ | .crash _ | .cancel _ => False
    | _ => True

def Entry.received? : Entry → Option TradingViewWebhookPayload
  | .received payload => some payload
  | _ => none

/-- The signals received so far, oldest first. -/
def Ledger.received (l : Ledger) : List TradingViewWebhookPayload :=
  l.history.filterMap Entry.received?

/-- The account that owns the trades. -/
def registeredOwner (env : Deployment) (users : List User) : Option UserId :=
  (users.find? fun u => u.email = env.settings.webhookTradeOwnerEmail).map User.id

/-- Some process has the id in its queue. -/
def World.Queues (w : World) (id : TradeId) : Prop := ∃ p, id ∈ (w.processes p).queue

namespace Errand

/-- The thread is to queue or to claim the row. -/
def Awaits : Errand → TradeId → Prop
  | .accepted id, id' | .claiming id, id' => id' = id
  | .filling ids, id' => id' ∈ ids
  | _, _ => False

/-- What the thread does with the row it has claimed comes to `goal`. -/
def Leads (S : Scene) (env : Deployment) (requests : List HttpRequest) (row goal : Trade) :
    Errand → Prop
  | .reloading _ => (S.submitted env row).content = goal
  | .holding t => t = row ∧ (S.submitted env t).content = goal
  | .calling t text =>
    t = row ∧ formatDecimal t.quantity = some text ∧ (S.submitted env t).content = goal
  | .posted t k =>
    t = row ∧ (∃ text, formatDecimal t.quantity = some text ∧
      requests[k]? = some (orderFor env t text)) ∧ (S.submitted env t).content = goal
  | .heard t o => t = row ∧ (S.concluded env t o).content = goal
  | .doubtful t => t = row ∧ (S.reconciled env 0 t).content = goal
  | .asked t k =>
    t = row ∧ requests[k]? = some (queryRequest t.symbol t.clientOrderId) ∧
      (S.reconciled env 0 t).content = goal
  | .learnt t answer | .dated t answer _ =>
    t = row ∧ (S.answered t answer).content = goal
  | _ => True

theorem Leads.mono {S : Scene} {env : Deployment} {requests requests' : List HttpRequest}
    {row goal : Trade} {q : Errand}
    (hrequests : ∀ (k : Nat) x, requests[k]? = some x → requests'[k]? = some x)
    (h : q.Leads S env requests row goal) : q.Leads S env requests' row goal := by
  cases q with
  | posted t k =>
    obtain ⟨ht, ⟨text, htext, hk⟩, hgoal⟩ := h
    exact ⟨ht, ⟨text, htext, hrequests _ _ hk⟩, hgoal⟩
  | asked t k =>
    obtain ⟨ht, hk, hgoal⟩ := h
    exact ⟨ht, hrequests _ _ hk, hgoal⟩
  | _ => exact h

/-- A signal was received, and its owner is the registered one. -/
def Known (env : Deployment) (users : List User) (received : List TradingViewWebhookPayload) :
    Errand → Prop
  | .signal payload owner =>
    payload ∈ received ∧ ∀ id ∈ owner, registeredOwner env users = some id
  | .other => False
  | _ => True

theorem Known.mono {env : Deployment} {users : List User}
    {received received' : List TradingViewWebhookPayload} {q : Errand}
    (hreceived : received ⊆ received') (h : q.Known env users received) :
    q.Known env users received' := by
  cases q with
  | signal payload owner => exact ⟨hreceived h.1, h.2⟩
  | _ => exact h

/-- With its row committed a signal is about to queue or to claim it. -/
theorem insertion_ok (env : Deployment) (users : List User)
    (received : List TradingViewWebhookPayload) (row : Trade) :
    (insertion env (.ok row)).claimed? = none ∧ (insertion env (.ok row)).Awaits row.id ∧
      (insertion env (.ok row)).Known env users received := by
  simp only [insertion]
  split <;> exact ⟨rfl, rfl, trivial⟩

end Errand

/-! ## The invariant -/

/-- The row was never sent, and it is queued or a thread is to queue or to claim it. -/
structure Waiting (S : Scene) (env : Deployment) (w : World) (g : Nat → Option Errand)
    (row goal : Trade) : Prop where
  unsent : row.unsent = true
  leads : (S.submitted env row).content = goal
  awaited : w.Queues row.id ∨ ∃ j q, g j = some q ∧ q.Awaits row.id

/-- The row was claimed. A thread works on it, or it is what it was to become. -/
structure Taken (S : Scene) (env : Deployment) (w : World) (g : Nat → Option Errand)
    (row goal : Trade) : Prop where
  submitted : row.submittedAt.isSome
  leads : ∀ j q, g j = some q → q.claimed? = some row.id →
    q.Leads S env w.toLedger.requests row goal
  held : (∃ j q, g j = some q ∧ q.claimed? = some row.id) ∨ row.content = goal

/-- The row goes back to a signal. -/
structure Stems (env : Deployment) (users : List User) (w : World) (row : Trade)
    (payload : TradingViewWebhookPayload) (owner : UserId) : Prop where
  received : payload ∈ w.toLedger.received
  valid : validateSignal env payload = .ok ()
  owner : registeredOwner env users = some owner
  stored : payload.quantity.isStorable = true
  signalId : row.signalId = payload.signalId

structure Settling (S : Scene) (env : Deployment) (users : List User) (w : World)
    (g : Nat → Option Errand) : Prop where
  accounts : w.users = users
  cached : ∀ p id, (w.processes p).owner = some id → registeredOwner env users = some id
  known : ∀ j q, g j = some q → q.Known env users w.toLedger.received
  rows : ∀ r ∈ w.trades.rows, ∃ payload owner, Stems env users w r payload owner ∧
    (Waiting S env w g r (S.traded env payload owner) ∨
      Taken S env w g r (S.traded env payload owner))
  claimed : ∀ j q id, g j = some q → q.claimed? = some id →
    ∃ r ∈ w.trades.rows, r.id = id ∧ r.submittedAt.isSome
  sole : ∀ j k q q' id, g j = some q → g k = some q' → q.claimed? = some id →
    q'.claimed? = some id → j = k

section Steps

/-! ## What a step leaves alone -/

/-- Thread `i` comes from `q` to `q'`, or is started with `q'`. The accounts stay, and nothing
is taken back: neither a signal, nor a request, nor a queued id. -/
structure Passes (env : Deployment) (users : List User) (w w' : World) (g : Nat → Option Errand)
    (i : Nat) (q q' : Errand) : Prop where
  thread : g i = some q ∨ g i = none ∧ q = .done
  accounts : w'.users = w.users
  cached : ∀ p id, (w'.processes p).owner = some id → registeredOwner env users = some id
  received : w.toLedger.received ⊆ w'.toLedger.received
  requests : ∀ (k : Nat) x, w.toLedger.requests[k]? = some x → w'.toLedger.requests[k]? = some x
  queues : ∀ id, w.Queues id → w'.Queues id ∨ q'.Awaits id
  known : q'.Known env users w'.toLedger.received

variable {S : Scene} {env : Deployment} {users : List User} {w w' : World}
  {g : Nat → Option Errand} {i : Nat} {q q' : Errand}

theorem Passes.eq_of_thread (hp : Passes env users w w' g i q q') {p : Errand}
    (h : g i = some p) : p = q := by
  rcases hp.thread with hi | ⟨hi, -⟩
  · rw [hi] at h
    exact (Option.some.inj h).symm
  · rw [hi] at h
    cases h

theorem Passes.thread_of_claimed (hp : Passes env users w w' g i q q') {id : TradeId}
    (h : q.claimed? = some id) : g i = some q := by
  rcases hp.thread with hi | ⟨-, rfl⟩
  · exact hi
  · cases h

/-- The standing of a row that the step does not write. -/
theorem Settling.stays (h : Settling S env users w g) (hp : Passes env users w w' g i q q')
    {r : Trade} (hr : r ∈ w.trades.rows)
    (hawaits : r.unsent = true → q.Awaits r.id → w'.Queues r.id ∨ q'.Awaits r.id)
    (hsub : q'.claimed? = some r.id → q.claimed? = some r.id)
    (hclaimed : ∀ goal, q.claimed? = some r.id → q.Leads S env w.toLedger.requests r goal →
      (q'.claimed? = some r.id ∧ q'.Leads S env w'.toLedger.requests r goal) ∨
        (q'.claimed? = none ∧ r.content = goal)) :
    ∃ payload owner, Stems env users w' r payload owner ∧
      (Waiting S env w' (Function.update g i (some q')) r (S.traded env payload owner) ∨
        Taken S env w' (Function.update g i (some q')) r (S.traded env payload owner)) := by
  obtain ⟨payload, owner, hstems, hstanding⟩ := h.rows r hr
  refine ⟨payload, owner, { hstems with received := hp.received hstems.received }, ?_⟩
  rcases hstanding with hwaiting | htaken
  · refine Or.inl ⟨hwaiting.unsent, hwaiting.leads, ?_⟩
    have hthis : w'.Queues r.id ∨ q'.Awaits r.id → w'.Queues r.id ∨
        ∃ j p, Function.update g i (some q') j = some p ∧ p.Awaits r.id :=
      Or.imp_right fun hq' => ⟨i, q', Function.update_self .., hq'⟩
    rcases hwaiting.awaited with hqueued | ⟨j, p, hj, hawaited⟩
    · exact hthis (hp.queues _ hqueued)
    · by_cases hji : j = i
      · subst hji
        obtain rfl := hp.eq_of_thread hj
        exact hthis (hawaits hwaiting.unsent hawaited)
      · exact Or.inr ⟨j, p, by rwa [Function.update_of_ne hji], hawaited⟩
  · refine Or.inr ⟨htaken.submitted, ?_, ?_⟩
    · intro j p hj hclaim
      rcases update_eq_some hj with ⟨rfl, rfl⟩ | ⟨-, hj⟩
      · have hq := hsub hclaim
        have hleads := htaken.leads _ _ (hp.thread_of_claimed hq) hq
        rcases hclaimed _ hq hleads with ⟨-, hleads'⟩ | ⟨hnone, -⟩
        · exact hleads'
        · rw [hclaim] at hnone
          cases hnone
      · exact (htaken.leads j p hj hclaim).mono hp.requests
    · rcases htaken.held with ⟨j, p, hj, hclaim⟩ | hdone
      · by_cases hji : j = i
        · subst hji
          obtain rfl := hp.eq_of_thread hj
          rcases hclaimed _ hclaim (htaken.leads _ _ hj hclaim) with ⟨hq', -⟩ | ⟨-, hdone⟩
          · exact Or.inl ⟨j, q', Function.update_self .., hq'⟩
          · exact Or.inr hdone
        · exact Or.inl ⟨j, p, by rwa [Function.update_of_ne hji], hclaim⟩
      · exact Or.inr hdone

/-- The errands after the step. -/
theorem Settling.knowns (h : Settling S env users w g) (hp : Passes env users w w' g i q q')
    (j : Nat) (p : Errand) (hj : Function.update g i (some q') j = some p) :
    p.Known env users w'.toLedger.received := by
  rcases update_eq_some hj with ⟨rfl, rfl⟩ | ⟨-, hold⟩
  · exact hp.known
  · exact (h.known j p hold).mono hp.received

/-- No claim is added. -/
theorem Settling.soles (h : Settling S env users w g) (hp : Passes env users w w' g i q q')
    (hclaim : ∀ id, q'.claimed? = some id → q.claimed? = some id ∨
      ∀ j p, j ≠ i → g j = some p → p.claimed? ≠ some id)
    (j k : Nat) (p p' : Errand) (id : TradeId)
    (hj : Function.update g i (some q') j = some p)
    (hk : Function.update g i (some q') k = some p') (hjid : p.claimed? = some id)
    (hkid : p'.claimed? = some id) : j = k := by
  rcases update_eq_some hj with ⟨rfl, rfl⟩ | ⟨hji, hold⟩
  · rcases update_eq_some hk with ⟨rfl, -⟩ | ⟨hki, hk⟩
    · rfl
    · rcases hclaim id hjid with hq | hnone
      · exact h.sole _ _ _ _ id (hp.thread_of_claimed hq) hk hq hkid
      · exact absurd hkid (hnone k p' hki hk)
  · rcases update_eq_some hk with ⟨rfl, rfl⟩ | ⟨-, hk⟩
    · rcases hclaim id hkid with hq | hnone
      · exact h.sole _ _ _ _ id hold (hp.thread_of_claimed hq) hjid hq
      · exact absurd hjid (hnone j p hji hold)
    · exact h.sole j k p p' id hold hk hjid hkid

/-! ## The kinds of steps -/

/-- A step that writes no row. -/
theorem Settling.move (h : Settling S env users w g) (hp : Passes env users w w' g i q q')
    (htrades : w'.trades = w.trades)
    (hawaits : ∀ r ∈ w.trades.rows, r.unsent = true → q.Awaits r.id →
      w'.Queues r.id ∨ q'.Awaits r.id)
    (hsub : ∀ id, q'.claimed? = some id → q.claimed? = some id)
    (hclaimed : ∀ r ∈ w.trades.rows, ∀ goal, q.claimed? = some r.id →
      q.Leads S env w.toLedger.requests r goal →
      (q'.claimed? = some r.id ∧ q'.Leads S env w'.toLedger.requests r goal) ∨
        (q'.claimed? = none ∧ r.content = goal)) :
    Settling S env users w' (Function.update g i (some q')) where
  accounts := hp.accounts.trans h.accounts
  cached := hp.cached
  known := h.knowns hp
  rows := by
    rw [htrades]
    exact fun r hr => h.stays hp hr (hawaits r hr) (hsub r.id) (hclaimed r hr)
  claimed := by
    rw [htrades]
    intro j p id hj hclaim
    rcases update_eq_some hj with ⟨rfl, rfl⟩ | ⟨-, hj⟩
    · have hq := hsub id hclaim
      exact h.claimed _ _ id (hp.thread_of_claimed hq) hq
    · exact h.claimed j p id hj hclaim
  sole := h.soles hp fun id hq' => Or.inl (hsub id hq')

/-- The row of a signal is committed, and the thread is to queue or to claim it. -/
theorem Settling.insert (h : Settling S env users w g) (hp : Passes env users w w' g i q q')
    {row : Trade} (hrows : w'.trades.rows = w.trades.rows ++ [row]) (hfit : w.trades.Fits row)
    {payload : TradingViewWebhookPayload} {owner : UserId}
    (hstems : Stems env users w' row payload owner) (hunsent : row.unsent = true)
    (hleads : (S.submitted env row).content = S.traded env payload owner)
    (hq : q.claimed? = none ∧ ∀ id, ¬ q.Awaits id)
    (hq' : q'.claimed? = none ∧ q'.Awaits row.id) :
    Settling S env users w' (Function.update g i (some q')) where
  accounts := hp.accounts.trans h.accounts
  cached := hp.cached
  known := h.knowns hp
  rows := by
    intro r hr
    rw [hrows, List.mem_append, List.mem_singleton] at hr
    rcases hr with hr | rfl
    · refine h.stays hp hr (fun _ hawaits => absurd hawaits (hq.2 _)) ?_ ?_
      · intro hclaim
        rw [hq'.1] at hclaim
        cases hclaim
      · intro goal hclaim
        rw [hq.1] at hclaim
        cases hclaim
    · exact ⟨payload, owner, hstems,
        Or.inl ⟨hunsent, hleads, Or.inr ⟨i, q', Function.update_self .., hq'.2⟩⟩⟩
  claimed := by
    intro j p id hj hclaim
    rcases update_eq_some hj with ⟨rfl, rfl⟩ | ⟨-, hj⟩
    · rw [hq'.1] at hclaim
      cases hclaim
    · obtain ⟨r, hr, hid, hsubmitted⟩ := h.claimed j p id hj hclaim
      refine ⟨r, ?_, hid, hsubmitted⟩
      rw [hrows]
      exact List.mem_append_left _ hr
  sole := by
    refine h.soles hp fun id hclaim => ?_
    rw [hq'.1] at hclaim
    cases hclaim

/-- An UPDATE of the row a thread is about to claim, or has claimed. -/
theorem Settling.update (h : Settling S env users w g) (hp : Passes env users w w' g i q q')
    {id : TradeId} {u : TradeTable.Update} (htrades : w'.trades = w.trades.update id u)
    (hex : ∃ r ∈ w.trades.rows, r.id = id)
    (hown : ∀ k, q.claimed? = some k ∨ q.Awaits k → k = id)
    (hown' : ∀ k, q'.claimed? = some k → k = id)
    (hothers : ∀ j p, j ≠ i → g j = some p → p.claimed? ≠ some id)
    (hsubmitted : ∀ r ∈ w.trades.rows, r.id = id → (u.write r).submittedAt.isSome)
    (hwrite : ∀ r ∈ w.trades.rows, r.id = id → ∀ goal,
      Waiting S env w g r goal ∨ Taken S env w g r goal →
      (q'.claimed? = some id ∧ q'.Leads S env w'.toLedger.requests (u.write r) goal) ∨
        (q'.claimed? = none ∧ (u.write r).content = goal)) :
    Settling S env users w' (Function.update g i (some q')) where
  accounts := hp.accounts.trans h.accounts
  cached := hp.cached
  known := h.knowns hp
  rows := by
    rw [htrades]
    intro r hr
    obtain ⟨s, hs, rfl⟩ := TradeTable.mem_update.mp hr
    by_cases hid : s.id = id
    · rw [if_pos hid]
      obtain ⟨payload, owner, hstems, hstanding⟩ := h.rows s hs
      have hgoal := hwrite s hs hid _ hstanding
      refine ⟨payload, owner, ⟨hp.received hstems.received, hstems.valid, hstems.owner,
        hstems.stored, (u.signalId s).trans hstems.signalId⟩, Or.inr ⟨hsubmitted s hs hid, ?_, ?_⟩⟩
      · intro j p hj hclaim
        rw [u.id, hid] at hclaim
        rcases update_eq_some hj with ⟨rfl, rfl⟩ | ⟨hji, hj⟩
        · rcases hgoal with ⟨-, hleads⟩ | ⟨hnone, -⟩
          · exact hleads
          · rw [hclaim] at hnone
            cases hnone
        · exact absurd hclaim (hothers j p hji hj)
      · rcases hgoal with ⟨hclaim, -⟩ | ⟨-, hdone⟩
        · refine Or.inl ⟨i, q', Function.update_self .., ?_⟩
          rw [u.id, hid]
          exact hclaim
        · exact Or.inr hdone
    · rw [if_neg hid]
      exact h.stays hp hs (fun _ hawaits => absurd (hown _ (Or.inr hawaits)) hid)
        (fun hclaim => absurd (hown' _ hclaim) hid)
        (fun goal hclaim => absurd (hown _ (Or.inl hclaim)) hid)
  claimed := by
    intro j p k hj hclaim
    rw [htrades]
    rcases update_eq_some hj with ⟨rfl, rfl⟩ | ⟨hji, hj⟩
    · obtain rfl := hown' k hclaim
      obtain ⟨r, hr, hid⟩ := hex
      exact ⟨u.write r, TradeTable.mem_update.mpr ⟨r, hr, if_pos hid⟩, (u.id r).trans hid,
        hsubmitted r hr hid⟩
    · obtain ⟨r, hr, hid, hsome⟩ := h.claimed j p k hj hclaim
      have hne : r.id ≠ id := fun he => hothers j p hji hj (by rw [hclaim, ← hid, he])
      exact ⟨r, TradeTable.mem_update.mpr ⟨r, hr, if_neg hne⟩, hid, hsome⟩
  sole := by
    refine h.soles hp fun k hclaim => Or.inr ?_
    rw [hown' k hclaim]
    exact hothers

/-- A step that changes the ledger at most, and no row. -/
theorem Settling.pass (h : Settling S env users w g) (hi : g i = some q) {l : Ledger}
    (htrades : l.trades = w.trades) (hreceived : l.received = w.toLedger.received)
    (hrequests : w.toLedger.requests <+: l.requests)
    (hknown : q'.Known env users w.toLedger.received)
    (hawaits : ∀ r ∈ w.trades.rows, r.unsent = true → q.Awaits r.id → q'.Awaits r.id)
    (hsub : ∀ id, q'.claimed? = some id → q.claimed? = some id)
    (hclaimed : ∀ r ∈ w.trades.rows, ∀ goal, q.claimed? = some r.id →
      q.Leads S env w.toLedger.requests r goal →
      (q'.claimed? = some r.id ∧ q'.Leads S env l.requests r goal) ∨
        (q'.claimed? = none ∧ r.content = goal)) :
    Settling S env users { w with toLedger := l } (Function.update g i (some q')) := by
  refine h.move ⟨Or.inl hi, rfl, h.cached, ?_, ?_, fun id hid => Or.inl hid,
    hreceived ▸ hknown⟩ htrades (fun r hr hr' hq => Or.inr (hawaits r hr hr' hq)) hsub hclaimed
  · intro payload hpayload
    change payload ∈ l.received
    rwa [hreceived]
  · intro k x hk
    obtain ⟨more, hmore⟩ := hrequests
    change l.requests[k]? = some x
    rw [← hmore]
    exact (List.getElem?_append_left (List.getElem?_eq_some_iff.mp hk).1).trans hk

/-- A step that changes nothing but the errand. -/
theorem Settling.remain (h : Settling S env users w g) (hi : g i = some q)
    (hknown : q'.Known env users w.toLedger.received)
    (hawaits : ∀ r ∈ w.trades.rows, r.unsent = true → q.Awaits r.id → q'.Awaits r.id)
    (hsub : ∀ id, q'.claimed? = some id → q.claimed? = some id)
    (hclaimed : ∀ r ∈ w.trades.rows, ∀ goal, q.claimed? = some r.id →
      q.Leads S env w.toLedger.requests r goal →
      (q'.claimed? = some r.id ∧ q'.Leads S env w.toLedger.requests r goal) ∨
        (q'.claimed? = none ∧ r.content = goal)) :
    Settling S env users w (Function.update g i (some q')) :=
  h.pass hi rfl rfl (List.prefix_refl _) hknown hawaits hsub hclaimed

/-- Such a step of a thread that neither holds nor awaits a row. -/
theorem Settling.turn (h : Settling S env users w g) (hi : g i = some q)
    (hq : q.claimed? = none ∧ ∀ id, ¬ q.Awaits id) (hq' : q'.claimed? = none)
    (hknown : q'.Known env users w.toLedger.received) :
    Settling S env users w (Function.update g i (some q')) := by
  refine h.remain hi hknown (fun _ _ _ hawaits => absurd hawaits (hq.2 _)) ?_ ?_
  · intro id hid
    rw [hq'] at hid
    cases hid
  · intro r hr goal hid
    rw [hq.1] at hid
    cases hid

end Steps

end AutoTrader
