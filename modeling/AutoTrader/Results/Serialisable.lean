import AutoTrader.Results.Refinement

/-!
# A queued service is a serial one

Signals may be delivered twice, be invalid, or collide with one another; they are received by
any number of processes, and workers execute the accepted ones in any order. What is left
behind in the end, row by row, is what a single process leaves behind that handles the same
deliveries inline, one after another, in some order.

The order is that of the INSERTs, and after them whatever was refused. `Answered` is the
invariant behind it: a valid signal that was received, with a quantity that its column holds,
is still with its thread, or a row is there that an INSERT for it would collide with.
-/

namespace AutoTrader

open Python Coroutine Transition

/-- An undisturbed step in which the owner of trades can be looked up. -/
def Smooth (ends : HttpRequest → Transport) {env : Deployment} (P : Pool (service env))
    (l : Label (service env)) : Prop :=
  Undisturbed ends P l ∧ ∀ i c email, l = .act i c → P.pending? i = some (.selectOwner email) →
    Choice.succeeds c = true

/-- A row is there that an INSERT for the signal would collide with. -/
def TradeTable.Blocks (T : TradeTable) (env : Deployment) (payload : TradingViewWebhookPayload) :
    Prop :=
  ∃ r ∈ T.rows, r.signalId = payload.signalId ∨
    r.clientOrderId = buildClientOrderId env payload.signalId

theorem TradeTable.Blocks.mono {l l' : Ledger} {env : Deployment}
    {payload : TradingViewWebhookPayload} (h : l.trades.Blocks env payload) (hg : l.Grows l') :
    l'.trades.Blocks env payload := by
  obtain ⟨r, hr, hsame⟩ := h
  obtain ⟨r', hr', hterms, -⟩ := hg r hr
  have hsignalId : r'.signalId = r.signalId := congrArg Trade.Terms.signalId hterms
  have hclientOrderId : r'.clientOrderId = r.clientOrderId :=
    congrArg Trade.Terms.clientOrderId hterms
  exact ⟨r', hr', by rwa [hsignalId, hclientOrderId]⟩

/-- The INSERT for a signal is refused where a row blocks it. -/
theorem TradeTable.Blocks.not_fits {T : TradeTable} {env : Deployment}
    {payload : TradingViewWebhookPayload} (h : T.Blocks env payload) (owner : UserId) (id : TradeId)
    (now : DateTime) : ¬ T.Fits ((pendingTrade env payload owner).row id now) := by
  obtain ⟨r, hr, hsame⟩ := h
  rintro ⟨-, hsignalId, hclientOrderId⟩
  rcases hsame with hsame | hsame
  · exact hsignalId r hr hsame
  · exact hclientOrderId r hr hsame

/-- An INSERT with a fresh id fits, unless a row blocks it. -/
theorem TradeTable.fits_or_blocks {T : TradeTable} {env : Deployment}
    (payload : TradingViewWebhookPayload) (owner : UserId) {id : TradeId} (now : DateTime)
    (hid : ∀ r ∈ T.rows, r.id < id) :
    T.Fits ((pendingTrade env payload owner).row id now) ∨ T.Blocks env payload := by
  by_cases hblocks : T.Blocks env payload
  · exact Or.inr hblocks
  · refine Or.inl ⟨fun r hr => Nat.ne_of_lt (hid r hr), fun r hr hsame => ?_, fun r hr hsame => ?_⟩
    · exact hblocks ⟨r, hr, Or.inl hsame⟩
    · exact hblocks ⟨r, hr, Or.inr hsame⟩

/-! ## Ids are fresh -/

theorem nextTradeId_exec {env : Deployment} {i : Nat} {tag : Tag} {w w' : World} {o : Op}
    {c : Choice} {r : o.Res} (hx : exec env i tag w o c = some (r, w'))
    (h : ∀ t ∈ w.trades.rows, t.id < w.nextTradeId) : ∀ t ∈ w'.trades.rows, t.id < w'.nextTradeId := by
  cases o with
  | insert n =>
    rcases exec_insert hx with rfl | ⟨hfit, rfl⟩
    · exact h
    · intro t ht
      rcases (TradeTable.mem_insert (h := hfit)).mp ht with ht | rfl
      · exact Nat.lt_succ_of_lt (h t ht)
      · exact Nat.lt_succ_self _
  | claim id now =>
    rcases exec_claim hx with ⟨rfl, -⟩ | ⟨row, -, -, -, -, rfl⟩
    · exact h
    · intro t ht
      obtain ⟨s, hs, rfl⟩ := TradeTable.mem_update.mp ht
      split
      · exact h s hs
      · exact h s hs
  | commit t e =>
    rcases exec_commit hx with ⟨rfl, -⟩ | ⟨rfl, -⟩
    · intro t' ht'
      obtain ⟨s, hs, rfl⟩ := TradeTable.mem_update.mp ht'
      split
      · exact h s hs
      · exact h s hs
    · exact h
  | send request =>
    obtain ⟨-, rfl⟩ := exec_send hx
    exact h
  | receive k =>
    obtain ⟨rfl, -⟩ := exec_receive hx
    exact h
  | log record =>
    obtain rfl := exec_log hx
    exact h
  | enqueue id =>
    have hw := exec_enqueue hx
    unfold execEnqueue at hw
    dsimp only at hw
    split at hw
    · cases hw
      exact h
    · cases hw
      exact h
  | clock | cachedOwner | cacheOwner =>
    cases c <;> cases hx
    exact h
  | selectOwner | selectBySignal | get | getForUser | selectUnsent | selectReconcilable =>
    cases c <;> cases hx <;> exact h

theorem nextTradeId_react {env : Deployment} {w : World} {threads : List (Tag × Bool)} {e : Event}
    {x : Reaction World Tag} (hx : react env w threads e = some x) :
    x.shared.nextTradeId = w.nextTradeId := by
  cases e with
  | take p =>
    simp only [react] at hx
    split at hx
    · cases hx
    · split at hx
      · cases hx
        rfl
      · cases hx
  | arrive | lose | progress =>
    obtain ⟨l, -, rfl⟩ := Option.map_eq_some_iff.mp hx
    rfl
  | _ =>
    cases hx
    rfl

/-! ## No valid signal is forgotten -/

/-- What has become of a signal. -/
def Errand.Answers (w : World) (env : Deployment) (g : Nat → Option Errand)
    (payload : TradingViewWebhookPayload) : Prop :=
  (∃ j owner, g j = some (.signal payload owner)) ∨ w.trades.Blocks env payload

/-- Every valid signal that was received is being handled or has been answered for, provided
that there is an owner and that its quantity can be stored. -/
structure Answered (env : Deployment) (users : List User) (w : World) (g : Nat → Option Errand) :
    Prop where
  fresh : ∀ r ∈ w.trades.rows, r.id < w.nextTradeId
  signals : (registeredOwner env users).isSome → ∀ payload ∈ w.toLedger.received,
    validateSignal env payload = .ok () → payload.quantity.isStorable = true →
      Errand.Answers w env g payload

namespace Answered

variable {ends : HttpRequest → Transport} {env : Deployment} {users : List User} {w w' : World}
  {g : Nat → Option Errand} {i : Nat} {q : Errand} {tag : Tag} {o : Op} {c : Choice} {r : o.Res}

/-- What a thread that handles a signal comes to in one step. -/
theorem signal_next {payload : TradingViewWebhookPayload} {owner : Option UserId}
    (hw : w.users = users) (hfresh : ∀ r ∈ w.trades.rows, r.id < w.nextTradeId)
    (howner : (registeredOwner env users).isSome)
    (hknown : ∀ id ∈ owner, registeredOwner env users = some id)
    (hstore : payload.quantity.isStorable = true)
    (hp : (Errand.signal payload owner).permits env o)
    (hx : exec env i tag w o c = some (r, w'))
    (hserved : ∀ email, o = .selectOwner email → c.succeeds = true)
    (hrest : o.rests = true → c.succeeds = true) :
    (∃ owner', (Errand.signal payload owner).next env o r = .signal payload owner') ∨
      w'.trades.Blocks env payload := by
  cases owner with
  | none =>
    cases o with
    | cachedOwner => exact Or.inl ⟨r, rfl⟩
    | selectOwner email =>
      have hx : c.query ((w.users.find? fun u => u.email = email).map User.id) w =
          some (r, w') := by cases c <;> exact hx
      obtain ⟨rfl, -⟩ := Choice.query_of_succeeds (hserved email rfl) hx
      obtain ⟨-, rfl⟩ := hp
      obtain ⟨id, hid⟩ := Option.isSome_iff_exists.mp howner
      have hfind : (w.users.find? fun u => u.email = env.settings.webhookTradeOwnerEmail).map
          User.id = some id := by
        rw [hw]
        exact hid
      rw [hfind]
      exact Or.inl ⟨some id, rfl⟩
    | _ => exact hp.elim
  | some owner =>
    cases o with
    | cacheOwner id => exact Or.inl ⟨some owner, rfl⟩
    | insert n =>
      obtain ⟨-, rfl⟩ := hp
      have hx : execInsert w (pendingTrade env payload owner) c = some (r, w') := by
        cases c <;> exact hx
      refine Or.inr ?_
      simp only [execInsert] at hx
      split at hx
      · rename_i hoverflow
        rw [Scene.fits_pendingTrade hstore] at hoverflow
        cases hoverflow
      split at hx
      · rename_i hfit
        split at hx
        · obtain ⟨-, rfl⟩ := Choice.commit_of_succeeds (hrest rfl) hx
          exact ⟨_, (TradeTable.mem_insert (h := hfit)).mpr (Or.inr rfl), Or.inl rfl⟩
        · rename_i huser
          -- the registered owner has an account
          obtain ⟨user, hfind, hid⟩ := Option.map_eq_some_iff.mp (hknown owner rfl)
          refine absurd (List.any_eq_true.mpr ⟨user, ?_, decide_eq_true hid⟩) huser
          rw [hw]
          exact List.mem_of_find?_eq_some hfind
      · rename_i hfit
        cases hx
        exact (TradeTable.fits_or_blocks payload owner w.clock hfresh).resolve_left hfit
    | _ => exact hp.elim

variable (env) in
/-- No operation receives a signal. -/
theorem received_exec (hx : exec env i tag w o c = some (r, w')) :
    w'.toLedger.received = w.toLedger.received := by
  cases o with
  | insert n =>
    rcases exec_insert hx with rfl | ⟨hfit, rfl⟩
    · rfl
    · simp [Ledger.received, Ledger.insert, Entry.received?]
  | claim id now =>
    rcases exec_claim hx with ⟨rfl, -⟩ | ⟨row, -, -, -, -, rfl⟩
    · rfl
    · simp [Ledger.received, Ledger.claim, Entry.received?]
  | commit t e =>
    rcases exec_commit hx with ⟨rfl, -⟩ | ⟨rfl, -⟩
    · simp [Ledger.received, Ledger.record, Entry.received?]
    · rfl
  | send request =>
    obtain ⟨-, rfl⟩ := exec_send hx
    rfl
  | log record =>
    obtain rfl := exec_log hx
    rfl
  | _ => exact congrArg Ledger.received (exec_of_not_writes rfl hx)

theorem act (h : Answered env users w g) (hI : Settling (Scene.storing ends) env users w g)
    (hi : g i = some q) (hp : q.permits env o) (hx : exec env i tag w o c = some (r, w'))
    (hserved : ∀ email, o = .selectOwner email → c.succeeds = true)
    (hrest : o.rests = true → c.succeeds = true) :
    Answered env users w' (Function.update g i (some (q.next env o r))) := by
  refine ⟨nextTradeId_exec hx h.fresh, fun howner payload hpayload hvalid hstore => ?_⟩
  rw [received_exec env hx] at hpayload
  rcases h.signals howner payload hpayload hvalid hstore with ⟨j, owner, hj⟩ | hblocks
  · by_cases hji : j = i
    · subst hji
      obtain rfl := Option.some.inj (hi.symm.trans hj)
      rcases signal_next hI.accounts h.fresh howner (hI.known j _ hj).2 hstore hp hx hserved
        hrest with
        ⟨owner', hnext⟩ | hblocks
      · exact Or.inl ⟨j, owner', by rw [Function.update_self, hnext]⟩
      · exact Or.inr hblocks
    · exact Or.inl ⟨j, owner, by rwa [Function.update_of_ne hji]⟩
  · exact Or.inr (hblocks.mono (grows_exec hx))

theorem event {P : Pool (service env)} {e : Event} {x : Reaction World Tag}
    (hg : Ghosted (errand env) P g) (h : Answered env users P.shared g)
    (hD : Undisturbed ends P (.event e)) (hx : react env P.shared P.seen e = some x) :
    Answered env users x.shared
      (ghostsAfter (errand env) (fun tag : Tag => Errand.start tag.task) P x g) := by
  have htrades : x.shared.trades = P.shared.trades := (react_ledger hx).1
  have hkill : x.kill = fun _ _ => false := by
    cases e with
    | take p =>
      simp only [react] at hx
      split at hx
      · cases hx
      · split at hx
        · cases hx
          rfl
        · cases hx
    | arrive | lose | progress =>
      obtain ⟨l, -, rfl⟩ := Option.map_eq_some_iff.mp hx
      rfl
    | crash | cancel | reconcile | batch => exact hD.elim
    | webhook | resume | tick =>
      cases hx
      rfl
  -- nobody is stopped, so whoever handles a signal still does
  have hkept : ∀ payload, Errand.Answers P.shared env g payload → Errand.Answers x.shared env
      (ghostsAfter (errand env) (fun tag : Tag => Errand.start tag.task) P x g) payload := by
    rintro payload (⟨j, owner, hj⟩ | hblocks)
    · refine Or.inl ⟨j, owner, ?_⟩
      unfold ghostsAfter
      rw [if_pos (hg.lt_length hj), hkill]
      simpa using hj
    · refine Or.inr ?_
      rwa [htrades]
  refine ⟨?_, fun howner payload hpayload hvalid hstore => ?_⟩
  · rw [htrades, nextTradeId_react hx]
    exact h.fresh
  · rcases (react_ledger hx).2.2.2 with hhistory | ⟨p, payload', -, hspawn, hhistory⟩
    · refine hkept payload (h.signals howner payload ?_ hvalid hstore)
      rwa [Ledger.received, ← hhistory]
    · rw [Ledger.received, hhistory, List.filterMap_append, List.mem_append] at hpayload
      rcases hpayload with hold | hnew
      · exact hkept payload (h.signals howner payload hold hvalid hstore)
      · obtain rfl : payload = payload' := List.mem_singleton.mp hnew
        refine Or.inl ⟨P.threads.length, none, ?_⟩
        unfold ghostsAfter
        rw [if_neg (Nat.lt_irrefl _), if_pos rfl, hspawn]
        rfl

end Answered

theorem answered_of_run {ends : HttpRequest → Transport} {env : Deployment} {users : List User}
    {clock : DateTime} {ls : List (Label (service env))} {P : Pool (service env)}
    (h : Run (service env).system (Smooth ends) (Pool.idle (.initial users clock)) ls P) :
    ∃ g, Ghosted (errand env) P g ∧ Settling (Scene.storing ends) env users P.shared g ∧
      Answered env users P.shared g := by
  refine Coroutine.ghosts (K := errand env) (I := fun (w : World) (g : Nat → Option Errand) =>
    Settling (Scene.storing ends) env users w g ∧ Answered env users w g)
    (fun tag : Tag => Errand.start tag.task) (fun tag : Tag => keeps_errand env tag.task) ?_ ?_ h ?_
  · rintro P g i c tag o r w q m ⟨⟨hrest, hends, hroom⟩, hserved⟩ hg ⟨hI, hA⟩ hpend htag hq hp hx
    refine ⟨trivial, hI.act hq hp hx (hrest o hpend) ?_ ?_, hA.act hI hq hp hx ?_ (hrest o hpend)⟩
    · rintro k call t rfl
      exact hends k call t hpend
    · rintro id rfl
      exact hroom tag id htag hpend
    · rintro email rfl
      exact hserved i c email rfl hpend
  · rintro P g e x ⟨hD, -⟩ hg ⟨hI, hA⟩ hx
    exact ⟨hI.event hg hD hx, hA.event hg hD hx⟩
  · have hnil : Run (service env).system (Undisturbed ends) (Pool.idle (.initial users clock)) []
        (Pool.idle (.initial users clock)) := .nil
    obtain ⟨g, hg, hI⟩ := settling_of_run hnil
    refine ⟨g, hg, hI, fun _ hr => (by cases hr), fun _ payload hpayload => (by cases hpayload)⟩

/-! ## The serial order -/

/-- What each has, all have in a row. -/
theorem forall₂_of_forall_exists {α β : Type} {R : α → β → Prop} {l : List α}
    (h : ∀ a ∈ l, ∃ b, R a b) : ∃ m, List.Forall₂ R l m := by
  induction l with
  | nil => exact ⟨[], .nil⟩
  | cons a rest ih =>
    obtain ⟨b, hb⟩ := h a List.mem_cons_self
    obtain ⟨m, hm⟩ := ih fun a' ha' => h a' (List.mem_cons_of_mem _ ha')
    exact ⟨b :: m, .cons hb hm⟩

theorem map_eq_of_forall₂ {α β γ : Type} {R : α → β → Prop} {l : List α} {m : List β} {f : α → γ}
    {f' : β → γ} (h : List.Forall₂ R l m) (hR : ∀ a b, R a b → f a = f' b) :
    l.map f = m.map f' := by
  induction h with
  | nil => rfl
  | cons hab _ ih => rw [List.map_cons, List.map_cons, hR _ _ hab, ih]

theorem mem_of_forall₂ {α β : Type} {R : α → β → Prop} {l : List α} {m : List β}
    (h : List.Forall₂ R l m) {b : β} (hb : b ∈ m) : ∃ a ∈ l, R a b := by
  induction h with
  | nil => cases hb
  | cons hab _ ih =>
    rcases List.mem_cons.mp hb with rfl | hb
    · exact ⟨_, List.mem_cons_self, hab⟩
    · obtain ⟨a, ha, haR⟩ := ih hb
      exact ⟨a, List.mem_cons_of_mem _ ha, haR⟩

namespace Scene

variable {S : Scene} {env : Deployment} {p : Nat} {w : World}

theorem processAll_append {signals more : List TradingViewWebhookPayload} :
    S.processAll env p (signals ++ more) w =
      (S.processAll env p signals w).bind (S.processAll env p more) := by
  induction signals generalizing w with
  | nil => rfl
  | cons payload rest ih =>
    simp only [List.cons_append, processAll]
    cases S.run env 0 ⟨p, .request payload⟩ (processSignal env payload).run w with
    | none => rfl
    | some x => exact ih

/-- A signal that is refused leaves the rows and the accounts as they are. -/
theorem run_refused {payload : TradingViewWebhookPayload}
    (h : validateSignal env payload = .ok () → payload.quantity.isStorable = true →
      w.ownerFor env p = none ∨ w.trades.Blocks env payload) :
    ∃ a u, S.run env 0 ⟨p, .request payload⟩ (processSignal env payload).run w = some (a, u) ∧
      u.trades = w.trades ∧ ∀ owner, w.ownerFor env p = owner → u.ownerFor env p = owner := by
  rw [run_processSignal]
  cases hvalid : validateSignal env payload with
  | error e => exact ⟨_, w, rfl, rfl, fun _ howner => howner⟩
  | ok _ =>
    obtain ⟨hledger, husers, -, -, -⟩ := World.owning_frame w env p
    have htrades : (w.owning env p).trades = w.trades := congrArg Ledger.trades hledger
    cases howner : w.ownerFor env p with
    | none =>
      have hsame : w.owning env p = w := by
        unfold World.owning
        rw [howner]
        split <;> rfl
      rw [hsame]
      exact ⟨_, w, rfl, rfl, fun owner h => by rw [← h, howner]⟩
    | some owner =>
      cases hstore : payload.quantity.isStorable with
      | false =>
        simp only []
        rw [run_createPendingTrade_overflow hstore]
        exact ⟨_, w.owning env p, rfl, htrades, fun owner' h => h ▸ ownerFor_owning howner⟩
      | true =>
      have hblocks : w.trades.Blocks env payload := by
        rcases h hvalid hstore with hnone | hblocks
        · rw [hnone] at howner
          cases howner
        · exact hblocks
      have hnot : ¬ ((w.owning env p).trades.Fits ((w.owning env p).rowFor env payload owner) ∧
          (w.owning env p).users.any fun u => u.id = owner) := by
        rintro ⟨hfits, -⟩
        rw [htrades] at hfits
        exact hblocks.not_fits owner _ _ hfits
      simp only []
      rw [run_createPendingTrade_refused hstore hnot]
      exact ⟨_, w.owning env p, rfl, htrades, fun owner' h => h ▸ ownerFor_owning howner⟩

/-- So do any number of them. -/
theorem processAll_of_refused {signals : List TradingViewWebhookPayload} {owner : Option UserId}
    (howner : w.ownerFor env p = owner)
    (h : ∀ payload ∈ signals, validateSignal env payload = .ok () →
      payload.quantity.isStorable = true → owner = none ∨ w.trades.Blocks env payload) :
    ∃ u, S.processAll env p signals w = some u ∧ u.trades = w.trades := by
  induction signals generalizing w with
  | nil => exact ⟨w, rfl, rfl⟩
  | cons payload rest ih =>
    obtain ⟨a, u, hrun, htrades, hu⟩ := run_refused (S := S)
      (fun hvalid hstore => howner ▸ h payload List.mem_cons_self hvalid hstore)
    obtain ⟨v, hv, hsame⟩ := ih (hu owner howner) fun payload' hmem hvalid hstore => by
      rw [htrades]
      exact h payload' (List.mem_cons_of_mem _ hmem) hvalid hstore
    refine ⟨v, ?_, hsame.trans htrades⟩
    rw [processAll, hrun]
    exact hv

end Scene

/-! ## The result -/

/-- **A queued service is a serial one.** When an undisturbed queued service has drained its
queues, whatever was delivered to it (signals once or again, valid or not, colliding with one
another, with or without a registered owner), there is an order of these deliveries in which a
single process that handles them inline, one after another, leaves row by row the same contents
behind. -/
theorem queued_serialisable {ends : HttpRequest → Transport} {env : Deployment}
    {users : List User} {clock : DateTime} {ls : List (Label (service (env.withAsyncExecution true)))}
    {P : Pool (service (env.withAsyncExecution true))}
    (h : Run (service (env.withAsyncExecution true)).system (Smooth ends)
      (Pool.idle (.initial users clock)) ls P)
    (hquiet : P.Quiet) (hqueues : ∀ k, (P.shared.processes k).queue = []) (p : Nat)
    (start : DateTime) :
    ∃ order : List TradingViewWebhookPayload, order.Perm P.shared.toLedger.received ∧
      ∃ u, (Scene.storing ends).processAll (env.withAsyncExecution false) p order
          (.initial users start) = some u ∧
        P.shared.trades.rows.map Trade.content = u.trades.rows.map Trade.content := by
  obtain ⟨g, hg, hI, hA⟩ := answered_of_run h
  -- the signals that were accepted, in the order of their INSERTs
  obtain ⟨accepted, hrows⟩ := forall₂_of_forall_exists
    (R := fun (r : Trade) (payload : TradingViewWebhookPayload) => ∃ owner,
      Stems (env.withAsyncExecution true) users P.shared r payload owner ∧
        r.content = (Scene.storing ends).traded (env.withAsyncExecution true) payload owner)
    (l := P.shared.trades.rows)
    (fun r hr => Refinement.traded_of_quiet hg hI hquiet hqueues hr)
  have hsignalIds : P.shared.trades.rows.map Trade.signalId =
      accepted.map TradingViewWebhookPayload.signalId :=
    map_eq_of_forall₂ hrows fun r payload ⟨_, hstems, _⟩ => hstems.signalId
  have hclientIds : P.shared.trades.rows.map Trade.clientOrderId =
      accepted.map fun payload => buildClientOrderId (env.withAsyncExecution false) payload.signalId :=
    map_eq_of_forall₂ hrows fun r payload ⟨_, _, hcontent⟩ =>
      (congrArg Trade.clientOrderId hcontent).trans Scene.clientOrderId_traded
  have hnodup : (accepted.map TradingViewWebhookPayload.signalId).Nodup := by
    rw [← hsignalIds]
    exact P.shared.trades.uniqueSignalId
  have hreceived : ∀ payload ∈ accepted, payload ∈ P.shared.toLedger.received := by
    intro payload hpayload
    obtain ⟨r, -, owner, hstems, -⟩ := mem_of_forall₂ hrows hpayload
    exact hstems.received
  have hperm : (accepted ++ P.shared.toLedger.received.diff accepted).Perm
      P.shared.toLedger.received :=
    List.subperm_append_diff_self_of_count_le
      (List.subperm_ext_iff.mp ((List.Nodup.of_map _ hnodup).subperm hreceived))
  suffices hserial : ∃ u, (Scene.storing ends).processAll (env.withAsyncExecution false) p accepted
      (.initial users start) = some u ∧
        P.shared.trades.rows.map Trade.content = u.trades.rows.map Trade.content ∧
        ∀ payload ∈ P.shared.toLedger.received.diff accepted,
          validateSignal (env.withAsyncExecution false) payload = .ok () →
          payload.quantity.isStorable = true →
            u.ownerFor (env.withAsyncExecution false) p = none ∨
              u.trades.Blocks (env.withAsyncExecution false) payload by
    obtain ⟨u, hu, hcontents, hrefused⟩ := hserial
    obtain ⟨v, hv, hsame⟩ := Scene.processAll_of_refused (S := Scene.storing ends) rfl hrefused
    refine ⟨_, hperm, v, ?_, hsame ▸ hcontents⟩
    rw [Scene.processAll_append, hu]
    exact hv
  cases howner : registeredOwner (env.withAsyncExecution true) users with
  | none =>
    -- without an owner nothing is accepted, here as there
    have hempty : accepted = [] := by
      refine List.eq_nil_iff_forall_not_mem.mpr fun payload hpayload => ?_
      obtain ⟨r, -, owner, hstems, -⟩ := mem_of_forall₂ hrows hpayload
      have hregistered := hstems.owner
      rw [howner] at hregistered
      cases hregistered
    subst hempty
    rw [List.map_nil, List.map_eq_nil_iff] at hsignalIds
    refine ⟨_, rfl, ?_, fun payload _ _ _ => Or.inl howner⟩
    rw [hsignalIds]
    rfl
  | some owner =>
    have hcontents : P.shared.trades.rows.map Trade.content = accepted.map fun payload =>
        (Scene.storing ends).traded (env.withAsyncExecution false) payload owner := by
      refine map_eq_of_forall₂ hrows fun r payload ⟨owner', hstems, hcontent⟩ => ?_
      obtain rfl : owner' = owner := Option.some.inj (hstems.owner.symm.trans howner)
      exact hcontent
    have htaken : ∀ payload ∈ accepted,
        validateSignal (env.withAsyncExecution false) payload = .ok () ∧
          payload.quantity.isStorable = true := by
      intro payload hpayload
      obtain ⟨r, -, owner', hstems, -⟩ := mem_of_forall₂ hrows hpayload
      exact ⟨hstems.valid, hstems.stored⟩
    obtain ⟨user, hfind, hid⟩ := Option.map_eq_some_iff.mp howner
    have huser : users.any fun x => x.id = owner :=
      List.any_eq_true.mpr ⟨user, List.mem_of_find?_eq_some hfind, decide_eq_true hid⟩
    obtain ⟨u, hu, hrowsOf⟩ := Scene.processAll_of_fits ends (env.withAsyncExecution false) p
      (w := .initial users start) rfl (fun payload h => (htaken payload h).1)
      (fun payload h => (htaken payload h).2) howner huser (fun _ hr => by cases hr) hnodup
      (hclientIds ▸ P.shared.trades.uniqueClientOrderId)
    have hsame : P.shared.trades.rows.map Trade.content = u.trades.rows.map Trade.content := by
      rw [hcontents, hrowsOf]
      rfl
    refine ⟨u, hu, hsame, fun payload hpayload hvalid hstore => Or.inr ?_⟩
    have hpayload : payload ∈ P.shared.toLedger.received := List.diff_subset _ _ hpayload
    rcases hA.signals (by rw [howner]; rfl) payload hpayload hvalid hstore with
      ⟨j, owner', hj⟩ | hblocks
    · exact absurd hvalid (hg.final_of_quiet hquiet hj)
    · obtain ⟨r, hr, hcollides⟩ := hblocks
      obtain ⟨r', hr', hcontent⟩ := List.mem_map.mp
        (hsame ▸ List.mem_map_of_mem hr : r.content ∈ u.trades.rows.map Trade.content)
      have hsignalId := congrArg Trade.signalId hcontent
      have hclientOrderId := congrArg Trade.clientOrderId hcontent
      exact ⟨r', hr', hcollides.imp hsignalId.trans hclientOrderId.trans⟩

theorem Sample.served_of_smooth {env : Deployment} {P : Pool (service env)}
    {l : Label (service env)} (h : smooth P l = true) : Smooth (fun _ => .connectError) P l := by
  refine ⟨(undisturbed_of_smooth h).1, ?_⟩
  rintro i c email rfl -
  obtain ⟨-, hc⟩ := Bool.and_eq_true_iff.mp h
  split at hc
  · rfl
  · rfl
  · cases hc

/-- Two signals, the first of them twice, and two workers in turns. -/
def Sample.repeated (env : Deployment) : List (Label (service env)) :=
  [occurs env (.webhook 0 signal), occurs env (.webhook 0 nextSignal),
    occurs env (.webhook 0 signal)] ++ steps env 1 5 ++ steps env 0 2 ++ steps env 2 2 ++
    [occurs env (.take 0)] ++ steps env 3 4 ++ steps env 2 1 ++ steps env 0 1 ++
    steps env 3 1 ++ [occurs env (.take 0)] ++ steps env 4 5 ++ [reply env 4 .connectError] ++
    [reply env 3 .connectError] ++ steps env 3 1 ++ steps env 4 1

theorem queued_serialisable_repeated :
    ∃ P, Run (service (Sample.inline.withAsyncExecution true)).system
        (Smooth fun _ => .connectError) (Sample.start _) (Sample.repeated _) P ∧
      P.shared.toLedger.received = [Sample.signal, Sample.nextSignal, Sample.signal] ∧
      ∃ order : List TradingViewWebhookPayload, order.Perm P.shared.toLedger.received ∧
        ∃ u, (Scene.storing fun _ => .connectError).processAll
            (Sample.inline.withAsyncExecution false) 0 order (.initial Sample.users 0) = some u ∧
          P.shared.trades.rows.map Trade.content = u.trades.rows.map Trade.content := by
  have hends : ((service (Sample.inline.withAsyncExecution true)).system.follow
      (fun P l => Sample.smooth P l = true) (Sample.start _) (Sample.repeated _)).any fun P =>
        decide (Drained P 0) && decide (P.shared.toLedger.received =
          [Sample.signal, Sample.nextSignal, Sample.signal]) := by decide +kernel
  obtain ⟨P, hP, hleft⟩ := (Option.any_eq_true _ _).mp hends
  simp only [Bool.and_eq_true, decide_eq_true_eq] at hleft
  obtain ⟨⟨hquiet, hqueue⟩, hreceived⟩ := hleft
  have hrun := System.run_of_follow hP
  have hwithin : Within P 0 :=
    hrun.invariant (I := fun P => Within P 0) ⟨(fun _ ht => by cases ht), fun _ _ => rfl⟩
      fun _ _ _ hI hD hs => hI.step hs (Sample.undisturbed_of_smooth hD).2
  have hserved := hrun.mono fun _ _ hD => Sample.served_of_smooth hD
  refine ⟨P, hserved, hreceived, queued_serialisable hserved hquiet ?_ 0 0⟩
  intro k
  by_cases hk : k = 0
  · rw [hk]
    exact hqueue
  · exact hwithin.queues k hk

end AutoTrader
