import AutoTrader.System.Queued

/-!
# The operations of the undisturbed service

`Settling` is kept by every operation and by every event, and so along every undisturbed run
(`settling_of_run`).
-/

namespace AutoTrader

open Python Coroutine Transition

section Steps

variable {S : Scene} {env : Deployment} {users : List User} {w w' : World}
  {g : Nat → Option Errand} {i : Nat} {q q' : Errand}

/-! ## The operations -/

variable {tag : Tag} {c : Choice}

theorem Settling.clock (h : Settling S env users w g) (hi : g i = some q)
    (hp : q.permits env .clock) (now : DateTime) :
    Settling S env users w (Function.update g i (some (q.next env .clock now))) := by
  rcases Errand.of_clock hp with ⟨id, rfl⟩ | ⟨t, answer, rfl⟩ | rfl
  · change Settling S env users w (Function.update g i (some (.claiming id)))
    exact h.remain hi trivial (fun _ _ _ hq => hq) (fun _ hid => hid)
      fun _ _ _ hid => by cases hid
  · change Settling S env users w (Function.update g i (some (.dated t answer now)))
    exact h.remain hi trivial (fun _ _ _ hq => hq) (fun _ hid => hid)
      fun _ _ _ hid hleads => Or.inl ⟨hid, hleads⟩
  · exact (h.known i _ hi).elim

theorem Settling.cachedOwner (h : Settling S env users w g) (hi : g i = some q)
    (hp : q.permits env .cachedOwner) (p : Nat) :
    Settling S env users w
      (Function.update g i (some (q.next env .cachedOwner (w.processes p).owner))) := by
  cases q with
  | signal payload owner =>
    cases owner with
    | some owner => cases hp
    | none =>
      change Settling S env users w
        (Function.update g i (some (.signal payload (w.processes p).owner)))
      exact h.turn hi ⟨rfl, fun _ hq => hq⟩ rfl
        ⟨(h.known i _ hi).1, fun id hid => h.cached p id hid⟩
  | filling ids => cases ids <;> cases hp
  | other => exact (h.known i _ hi).elim
  | _ => cases hp

theorem Settling.selectOwner (h : Settling S env users w g) (hi : g i = some q) {email : String}
    (hp : q.permits env (.selectOwner email)) {r : Except SqlError (Option UserId)}
    (hr : r = .ok ((w.users.find? fun u => u.email = email).map User.id) ∨ r = .error .other) :
    Settling S env users w (Function.update g i (some (q.next env (.selectOwner email) r))) := by
  cases q with
  | signal payload owner =>
    cases owner with
    | some owner => cases hp
    | none =>
      obtain ⟨-, rfl⟩ := hp
      have hdone : Settling S env users w (Function.update g i (some .done)) :=
        h.turn hi ⟨rfl, fun _ hq => hq⟩ rfl trivial
      rcases hr with rfl | rfl
      · cases hfind : (w.users.find? fun u => u.email = env.settings.webhookTradeOwnerEmail).map
            User.id with
        | none => exact hdone
        | some id =>
          change Settling S env users w (Function.update g i (some (.signal payload (some id))))
          refine h.turn hi ⟨rfl, fun _ hq => hq⟩ rfl ⟨(h.known i _ hi).1, fun id' hid' => ?_⟩
          obtain rfl := Option.some.inj hid'
          rw [registeredOwner, ← h.accounts]
          exact hfind
      · exact hdone
  | filling ids => cases ids <;> cases hp
  | other => exact (h.known i _ hi).elim
  | _ => cases hp

theorem Settling.cacheOwner (h : Settling S env users w g) (hi : g i = some q) {id : UserId}
    (hp : q.permits env (.cacheOwner id)) (p : Nat) (r : Unit) :
    Settling S env users (w.setProcess p { w.processes p with owner := some id })
      (Function.update g i (some (q.next env (.cacheOwner id) r))) := by
  cases q with
  | signal payload owner =>
    cases owner with
    | none => cases hp
    | some owner =>
      obtain ⟨-, rfl⟩ := hp
      have hknown := h.known i _ hi
      change Settling S env users _ (Function.update g i (some (.signal payload (some id))))
      refine h.move ⟨Or.inl hi, rfl, ?_, fun _ hy => hy, fun _ _ hk => hk, ?_, hknown⟩ rfl
        (fun _ _ _ hq => hq.elim) (fun _ hid => by cases hid) fun _ _ _ hid => by cases hid
      · intro p' id' hid'
        by_cases hpp : p' = p
        · subst hpp
          simp only [World.setProcess, Function.update_self, Option.some.injEq] at hid'
          rw [← hid']
          exact hknown.2 id rfl
        · simp only [World.setProcess, Function.update_of_ne hpp] at hid'
          exact h.cached p' id' hid'
      · rintro k ⟨p', hk⟩
        refine Or.inl ⟨p', ?_⟩
        by_cases hpp : p' = p
        · subst hpp
          simpa [World.setProcess] using hk
        · simpa [World.setProcess, hpp] using hk
  | filling ids => cases ids <;> cases hp
  | other => exact (h.known i _ hi).elim
  | _ => cases hp

theorem Settling.selectBySignal (h : Settling S env users w g) (hi : g i = some q)
    {signalId : String} (hp : q.permits env (.selectBySignal signalId))
    (r : Except SqlError (Option TradeId)) :
    Settling S env users w
      (Function.update g i (some (q.next env (.selectBySignal signalId) r))) := by
  cases q with
  | refused => exact h.turn hi ⟨rfl, fun _ hq => hq⟩ rfl trivial
  | filling ids => cases ids <;> cases hp
  | signal payload owner => cases owner <;> cases hp
  | other => exact (h.known i _ hi).elim
  | _ => cases hp

theorem Settling.selectUnsent (h : Settling S env users w g) (hi : g i = some q) {limit : Nat}
    (hp : q.permits env (.selectUnsent limit)) (r : Except SqlError (List TradeId)) :
    Settling S env users w (Function.update g i (some (q.next env (.selectUnsent limit) r))) := by
  rcases Errand.of_selectUnsent hp with ⟨rfl, -⟩ | rfl
  · cases r with
    | error e => exact h.turn hi ⟨rfl, fun _ hq => hq⟩ rfl trivial
    | ok ids =>
      change Settling S env users w (Function.update g i (some (.filling ids)))
      exact h.turn hi ⟨rfl, fun _ hq => hq⟩ rfl trivial
  · exact (h.known i _ hi).elim

/-- An id is queued, and there is room for it. -/
theorem Settling.enqueue (h : Settling S env users w g) (hi : g i = some q) {id : TradeId}
    (hp : q.permits env (.enqueue id)) (p : Nat) (r : Bool)
    (hroom : (w.processes p).queue.length < env.settings.executorQueueSize) :
    Settling S env users (execEnqueue env p w id).2
      (Function.update g i (some (q.next env (.enqueue id) r))) := by
  have hw : (execEnqueue env p w id).2 =
      w.setProcess p { w.processes p with queue := (w.processes p).queue ++ [id] } := by
    simp only [execEnqueue]
    rw [if_pos hroom]
  have hself : ((w.setProcess p { w.processes p with
      queue := (w.processes p).queue ++ [id] }).processes p).queue =
        (w.processes p).queue ++ [id] := by
    simp [World.setProcess]
  have hother : ∀ p', p' ≠ p → (w.setProcess p { w.processes p with
      queue := (w.processes p).queue ++ [id] }).processes p' = w.processes p' := by
    intro p' hpp
    simp [World.setProcess, hpp]
  have hqueued : (w.setProcess p { w.processes p with
      queue := (w.processes p).queue ++ [id] }).Queues id :=
    ⟨p, by rw [hself]; exact List.mem_append_right _ (List.mem_singleton.mpr rfl)⟩
  have hqueues : ∀ k, w.Queues k → (w.setProcess p { w.processes p with
      queue := (w.processes p).queue ++ [id] }).Queues k := by
    rintro k ⟨p', hk⟩
    refine ⟨p', ?_⟩
    by_cases hpp : p' = p
    · subst hpp
      rw [hself]
      exact List.mem_append_left _ hk
    · rw [hother p' hpp]
      exact hk
  have hcached : ∀ p' owner, ((w.setProcess p { w.processes p with
      queue := (w.processes p).queue ++ [id] }).processes p').owner = some owner →
        registeredOwner env users = some owner := by
    intro p' owner howner
    refine h.cached p' owner ?_
    by_cases hpp : p' = p
    · subst hpp
      simpa [World.setProcess] using howner
    · rwa [hother p' hpp] at howner
  rw [hw]
  rcases Errand.of_enqueue hp with ⟨rest, rfl⟩ | rfl | rfl
  · change Settling S env users _ (Function.update g i (some (.filling rest)))
    refine h.move ⟨Or.inl hi, rfl, hcached, fun _ hy => hy, fun _ _ hk => hk,
      fun k hk => Or.inl (hqueues k hk), trivial⟩ rfl ?_ (fun _ hid => by cases hid)
      fun _ _ _ hid => by cases hid
    intro r' _ _ hawaits
    rcases List.mem_cons.mp hawaits with hid | hid
    · rw [hid]
      exact Or.inl hqueued
    · exact Or.inr hid
  · change Settling S env users _ (Function.update g i (some .done))
    refine h.move ⟨Or.inl hi, rfl, hcached, fun _ hy => hy, fun _ _ hk => hk,
      fun k hk => Or.inl (hqueues k hk), trivial⟩ rfl ?_ (fun _ hid => by cases hid)
      fun _ _ _ hid => by cases hid
    intro r' _ _ hawaits
    rw [show r'.id = id from hawaits]
    exact Or.inl hqueued
  · exact (h.known i _ hi).elim

/-- The INSERT of a signal, which succeeds if no constraint is broken. -/
theorem Settling.insertion {ends : HttpRequest → Transport}
    (h : Settling (Scene.storing ends) env users w g) (hi : g i = some q) {n : NewTrade}
    (hp : q.permits env (.insert n)) {r : Except SqlError Trade} (hc : c.succeeds = true)
    (hx : execInsert w n c = some (r, w')) :
    Settling (Scene.storing ends) env users w'
      (Function.update g i (some (q.next env (.insert n) r))) := by
  rcases Errand.of_insert hp with ⟨payload, owner, rfl, hvalid, rfl⟩ | rfl
  · have hrefused : Settling (Scene.storing ends) env users w
        (Function.update g i (some .refused)) :=
      h.turn hi ⟨rfl, fun _ hq => hq⟩ rfl trivial
    have hdone : Settling (Scene.storing ends) env users w (Function.update g i (some .done)) :=
      h.turn hi ⟨rfl, fun _ hq => hq⟩ rfl trivial
    obtain ⟨hreceived, howner⟩ := h.known i _ hi
    simp only [execInsert] at hx
    split at hx
    · cases hx
      exact hdone
    rename_i hstore
    have hstore : (pendingTrade env payload owner).fits = true := by simpa using hstore
    split at hx
    · rename_i hfit
      split at hx
      · obtain ⟨rfl, rfl⟩ := Choice.commit_of_succeeds hc hx
        have hhistory : (w.toLedger.insert
            ((pendingTrade env payload owner).row w.nextTradeId w.clock) hfit).received =
              w.toLedger.received := by
          simp [Ledger.received, Ledger.insert, Entry.received?]
        have hkept : ∀ y ∈ w.toLedger.received, y ∈ (w.toLedger.insert
            ((pendingTrade env payload owner).row w.nextTradeId w.clock) hfit).received :=
          fun y hy => hhistory ▸ hy
        obtain ⟨hclaimed, hawaits, hknown⟩ := Errand.insertion_ok env users _
          ((pendingTrade env payload owner).row w.nextTradeId w.clock)
        exact h.insert ⟨Or.inl hi, rfl, h.cached, hkept, fun _ _ hk => hk,
          fun _ hk => Or.inl hk, hknown⟩ rfl hfit
          ⟨hkept _ hreceived, hvalid, howner owner rfl, hstore, rfl⟩ rfl (Scene.submitted_congr rfl)
          ⟨rfl, fun _ hq => hq⟩ ⟨hclaimed, hawaits⟩
      · cases hx
        exact hrefused
    · cases hx
      exact hrefused
  · exact (h.known i _ hi).elim

/-- A claim hits the row exactly if it is unsent, and then nobody else has it. -/
theorem Settling.claim {ends : HttpRequest → Transport}
    (h : Settling (Scene.storing ends) env users w g) (hi : g i = some q) {id : TradeId}
    {now : DateTime} (hp : q.permits env (.claim id now)) {r : Except SqlError Nat}
    (hc : c.succeeds = true) (hx : execClaim i w id now c = some (r, w')) :
    Settling (Scene.storing ends) env users w'
      (Function.update g i (some (q.next env (.claim id now) r))) := by
  rcases Errand.of_claim hp with rfl | rfl
  · simp only [execClaim] at hx
    split at hx
    · rename_i hany
      obtain ⟨row, hrow, hunsent⟩ := (Option.any_eq_true _ _).mp hany
      obtain ⟨hmem, hid⟩ := TradeTable.find?_eq_some.mp hrow
      obtain ⟨rfl, rfl⟩ := Choice.commit_of_succeeds hc hx
      have hsame : ∀ s ∈ w.trades.rows, s.id = id → s = row := fun s hs hsid =>
        TradeTable.eq_of_id hs hmem (hsid.trans hid.symm)
      have hnot : ¬ row.submittedAt.isSome := by
        intro hsome
        rw [Trade.unsent_of_submitted hsome] at hunsent
        cases hunsent
      have hhistory : (w.toLedger.claim i id now).received = w.toLedger.received := by
        simp [Ledger.received, Ledger.claim, Entry.received?]
      change Settling _ _ _ _ (Function.update g i (some (.reloading id)))
      refine h.update (u := claimUpdate now) ⟨Or.inl hi, rfl, h.cached,
        fun y hy => hhistory ▸ hy, fun _ _ hk => hk, fun _ hk => Or.inl hk, trivial⟩ rfl
        ⟨row, hmem, hid⟩ ?_ ?_ ?_ (fun _ _ _ => rfl) ?_
      · rintro k (hk | hk)
        · cases hk
        · exact hk
      · intro k hk
        exact (Option.some.inj hk).symm
      · intro j p hji hj hclaim
        obtain ⟨s, hs, hsid, hsome⟩ := h.claimed j p id hj hclaim
        rw [hsame s hs hsid] at hsome
        exact hnot hsome
      · intro s hs hsid goal hstanding
        rcases hstanding with hwaiting | htaken
        · have hcontent : ((claimUpdate now).write s).content = s.content := rfl
          exact Or.inl ⟨rfl, (Scene.submitted_congr hcontent).trans hwaiting.leads⟩
        · have hsome := htaken.submitted
          rw [hsame s hs hsid] at hsome
          exact absurd hsome hnot
    · rename_i hany
      obtain ⟨rfl, rfl⟩ := Choice.query_of_succeeds hc hx
      change Settling _ _ _ _ (Function.update g i (some .done))
      refine h.remain hi trivial ?_ (fun _ hid => by cases hid) fun _ _ _ hid => by cases hid
      intro s hs hunsent hawaits
      -- a claim that changes no row was too late
      obtain rfl : s.id = id := hawaits
      rw [World.find?_of_mem hs] at hany
      exact absurd hunsent hany
  · exact (h.known i _ hi).elim

/-- The SELECT of the claimed row finds it. -/
theorem Settling.get (h : Settling S env users w g) (hi : g i = some q) {id : TradeId}
    (hp : q.permits env (.get id)) :
    Settling S env users w
      (Function.update g i (some (q.next env (.get id) (.ok (w.trades.find? id))))) := by
  rcases Errand.of_get hp with rfl | rfl
  · obtain ⟨r, hr, rfl, -⟩ := h.claimed i _ id hi rfl
    rw [World.find?_of_mem hr]
    change Settling S env users w (Function.update g i (some (.holding r)))
    refine h.remain hi trivial (fun _ _ _ hq => hq.elim) (fun _ hid => hid) ?_
    intro s hs goal hid hleads
    have heq : r = s := TradeTable.eq_of_id hr hs (Option.some.inj hid)
    subst heq
    exact Or.inl ⟨rfl, rfl, hleads⟩
  · exact (h.known i _ hi).elim

theorem Settling.log (h : Settling S env users w g) (hi : g i = some q) {record : LogRecord}
    (hp : q.permits env (.log record)) (r : Unit) :
    Settling S env users { w with toLedger := w.toLedger.log record }
      (Function.update g i (some (q.next env (.log record) r))) := by
  rcases Errand.of_log hp with ⟨t, text, rfl, htext, rfl⟩ | ⟨rfl, -⟩ | rfl
  · change Settling S env users _ (Function.update g i (some (.calling t text)))
    refine h.pass hi rfl rfl (List.prefix_refl _) trivial (fun _ _ _ hq => hq.elim)
      (fun _ hid => hid) ?_
    rintro s - goal hid ⟨hs, hgoal⟩
    exact Or.inl ⟨hid, hs, htext, hgoal⟩
  · change Settling S env users _ (Function.update g i (some .done))
    exact h.pass hi rfl rfl (List.prefix_refl _) trivial (fun _ _ _ hq => hq.elim)
      (fun _ hid => by cases hid) fun _ _ _ hid => by cases hid
  · exact (h.known i _ hi).elim

theorem Settling.send (h : Settling S env users w g) (hi : g i = some q) {request : HttpRequest}
    (hp : q.permits env (.send request)) :
    Settling S env users { w with toLedger := w.toLedger.send request }
      (Function.update g i (some (q.next env (.send request) w.calls.length))) := by
  have hrequests : (w.toLedger.send request).requests = w.toLedger.requests ++ [request] := by
    simp [Ledger.requests, Ledger.send]
  have hprefix : w.toLedger.requests <+: (w.toLedger.send request).requests :=
    ⟨[request], hrequests.symm⟩
  have hlast : (w.toLedger.send request).requests[w.calls.length]? = some request := by
    rw [hrequests, ← List.length_map Call.request]
    exact List.getElem?_concat_length
  rcases Errand.of_send hp with ⟨t, text, rfl, htext, rfl⟩ | ⟨t, rfl, rfl⟩ | rfl
  · change Settling S env users _ (Function.update g i (some (.posted t w.calls.length)))
    refine h.pass hi rfl rfl hprefix trivial (fun _ _ _ hq => hq.elim) (fun _ hid => hid) ?_
    rintro s - goal hid ⟨hs, -, hgoal⟩
    exact Or.inl ⟨hid, hs, ⟨text, htext, hlast⟩, hgoal⟩
  · change Settling S env users _ (Function.update g i (some (.asked t w.calls.length)))
    refine h.pass hi rfl rfl hprefix trivial (fun _ _ _ hq => hq.elim) (fun _ hid => hid) ?_
    rintro s - goal hid ⟨hs, hgoal⟩
    exact Or.inl ⟨hid, hs, hlast, hgoal⟩
  · exact (h.known i _ hi).elim

theorem exec_transport {k : Nat} {outcome : Transport} {call : Call}
    (hx : exec env i tag w (.receive k) c = some (outcome, w')) (hk : w.calls[k]? = some call) :
    w' = w ∧ c.transport? call = some outcome := by
  cases c with
  | reply t =>
    cases hx
    exact ⟨rfl, rfl⟩
  | delivered =>
    simp only [exec, hk] at hx
    obtain ⟨request, fate⟩ := call
    cases fate with
    | answered r =>
      cases hx
      exact ⟨rfl, rfl⟩
    | _ => cases hx
  | done | failed | unacknowledged | uncommitted => cases hx

/-- A call ends as the exchange ends it. -/
theorem Settling.receive {ends : HttpRequest → Transport}
    (h : Settling (Scene.storing ends) env users w g) (hi : g i = some q) {k : Nat}
    (hp : q.permits env (.receive k)) {outcome : Transport}
    (hends : ∀ x, w.toLedger.requests[k]? = some x → outcome = ends x) :
    Settling (Scene.storing ends) env users w
      (Function.update g i (some (q.next env (.receive k) outcome))) := by
  rcases Errand.of_receive hp with ⟨t, rfl⟩ | ⟨t, rfl⟩ | rfl
  · change Settling _ _ _ _ (Function.update g i (some (Errand.hear env t outcome)))
    unfold Errand.hear
    cases ho : submissionOutcome env t outcome with
    | error e =>
      refine h.remain hi trivial (fun _ _ _ hq => hq.elim) (fun _ hid => by cases hid) ?_
      rintro s - goal hid ⟨rfl, ⟨text, htext, hk⟩, hgoal⟩
      rw [hends _ hk] at ho
      rw [Scene.submitted_of_raised (S := Scene.storing ends) htext ho] at hgoal
      exact Or.inr ⟨rfl, hgoal⟩
    | ok o =>
      refine h.remain hi trivial (fun _ _ _ hq => hq.elim) (fun _ hid => hid) ?_
      rintro s - goal hid ⟨rfl, ⟨text, htext, hk⟩, hgoal⟩
      rw [hends _ hk] at ho
      rw [Scene.submitted_of_outcome (S := Scene.storing ends) htext ho] at hgoal
      exact Or.inl ⟨hid, rfl, hgoal⟩
  · change Settling _ _ _ _ (Function.update g i (some (Errand.learn env t outcome)))
    unfold Errand.learn
    cases ha : queryReply env outcome with
    | error e =>
      refine h.remain hi trivial (fun _ _ _ hq => hq.elim) (fun _ hid => by cases hid) ?_
      rintro s - goal hid ⟨rfl, hk, hgoal⟩
      rw [hends _ hk] at ha
      rw [Scene.reconciled_of_raised (S := Scene.storing ends) ha] at hgoal
      exact Or.inr ⟨rfl, hgoal⟩
    | ok answer =>
      refine h.remain hi trivial (fun _ _ _ hq => hq.elim) (fun _ hid => hid) ?_
      rintro s - goal hid ⟨rfl, hk, hgoal⟩
      rw [hends _ hk] at ha
      rw [Scene.reconciled_of_answer (S := Scene.storing ends) ha] at hgoal
      exact Or.inl ⟨hid, rfl, hgoal⟩
  · exact (h.known i _ hi).elim

/-- What the columns do not take is not recorded, and the thread ends. -/
theorem Settling.unstored {ends : HttpRequest → Transport}
    (h : Settling (Scene.storing ends) env users w g) (hi : g i = some q) {t : Trade} {e : Edits}
    (hp : q.permits env (.commit t e)) {error : CommitError}
    (hflush : e.flushError? t = some error) :
    Settling (Scene.storing ends) env users w
      (Function.update g i (some (q.next env (.commit t e) (.error error)))) := by
  rcases Errand.of_commit hp with ⟨o, rfl, rfl⟩ | ⟨answer, now, rfl, rfl⟩ | rfl
  · have hnext : (Errand.heard t o).next env (.commit t (o.edits env)) (.error error) = .done := by
      cases o <;> rfl
    rw [hnext]
    refine h.remain hi trivial (fun _ _ _ hq => hq.elim) (fun _ hid => by cases hid) ?_
    rintro s - goal hid ⟨rfl, hgoal⟩
    simp only [Scene.concluded, Scene.refusal_storing, hflush] at hgoal
    exact Or.inr ⟨rfl, hgoal⟩
  · change Settling _ _ _ _ (Function.update g i (some .done))
    refine h.remain hi trivial (fun _ _ _ hq => hq.elim) (fun _ hid => by cases hid) ?_
    rintro s - goal hid ⟨rfl, hgoal⟩
    rw [flushError_answerEdits answer now 0] at hflush
    simp only [Scene.answered, Scene.refusal_storing, hflush] at hgoal
    exact Or.inr ⟨rfl, hgoal⟩
  · exact (h.known i _ hi).elim

/-- A commit of the thread that has claimed the row. -/
theorem Settling.commit {ends : HttpRequest → Transport}
    (h : Settling (Scene.storing ends) env users w g) (hi : g i = some q) {t : Trade} {e : Edits}
    (hp : q.permits env (.commit t e)) (hflush : e.flushError? t = none) :
    Settling (Scene.storing ends) env users (w.recording t e)
      (Function.update g i (some (q.next env (.commit t e) (.ok w.clock)))) := by
  have hhistory : (w.toLedger.record t e w.clock).received = w.toLedger.received := by
    simp [Ledger.received, Ledger.record, Entry.received?]
  -- what remains is to say what the row and the errand come to
  have hcommit : ∀ q', q.claimed? = some t.id → (∀ id, ¬ q.Awaits id) →
      q'.Known env users w.toLedger.received →
      (∀ k, q'.claimed? = some k → k = t.id) →
      (∀ goal, q.Leads (Scene.storing ends) env w.toLedger.requests t goal →
        (q'.claimed? = some t.id ∧ q'.Leads (Scene.storing ends) env w.toLedger.requests
          (e.flush t w.clock t) goal) ∨
        (q'.claimed? = none ∧ (e.flush t w.clock t).content = goal)) →
      (∀ s goal, q.Leads (Scene.storing ends) env w.toLedger.requests s goal → s = t) →
      Settling (Scene.storing ends) env users (w.recording t e) (Function.update g i (some q')) := by
    intro q' hclaim hawaits hknown hown hgoal hcopy
    obtain ⟨r, hr, hrid, hsome⟩ := h.claimed i q t.id hi hclaim
    refine h.update (u := e.update t w.clock) ⟨Or.inl hi, rfl, h.cached,
      fun y hy => hhistory ▸ hy, fun _ _ hk => hk, fun _ hk => Or.inl hk,
      hhistory ▸ hknown⟩ rfl ⟨r, hr, hrid⟩ ?_ hown ?_ ?_ ?_
    · rintro k (hk | hk)
      · rw [hclaim] at hk
        exact (Option.some.inj hk).symm
      · exact absurd hk (hawaits k)
    · intro j p hji hj hclaim'
      exact hji (h.sole j i p q t.id hj hi hclaim' hclaim)
    · intro s hs hsid
      rw [TradeTable.eq_of_id hs hr (hsid.trans hrid.symm)]
      exact hsome
    · intro s hs hsid goal hstanding
      obtain rfl := TradeTable.eq_of_id hs hr (hsid.trans hrid.symm)
      rcases hstanding with hwaiting | htaken
      · have hunsent := hwaiting.unsent
        rw [Trade.unsent_of_submitted hsome] at hunsent
        cases hunsent
      · have hleads := htaken.leads i q hi (hclaim.trans (congrArg some hsid.symm))
        obtain rfl := hcopy s goal hleads
        exact hgoal goal hleads
  rcases Errand.of_commit hp with ⟨o, rfl, rfl⟩ | ⟨answer, now, rfl, rfl⟩ | rfl
  · have hdone : (∀ goal, ((Scene.storing ends).concluded env t o).content = goal →
        ((o.edits env).flush t w.clock t).content = goal) →
        Settling (Scene.storing ends) env users (w.recording t (o.edits env))
          (Function.update g i (some .done)) := by
      intro hcontent
      refine hcommit .done rfl (fun _ hq => hq) trivial (fun _ hid => by cases hid) ?_ ?_
      · rintro goal ⟨-, hgoal⟩
        exact Or.inr ⟨rfl, hcontent goal hgoal⟩
      · rintro s goal ⟨hs, -⟩
        exact hs.symm
    have hrefusal : (Scene.storing ends).refusal 0 t (o.edits env) = none :=
      (Scene.refusal_storing ends 0 t _).trans hflush
    simp only [Scene.concluded, hrefusal] at hdone
    cases o with
    | settled result => exact hdone fun _ hgoal => hgoal
    | refused status code message => exact hdone fun _ hgoal => hgoal
    | uncertain exc =>
      refine hcommit (.doubtful ((uncertainEdits env exc).flush t w.clock t)) rfl
        (fun _ hq => hq) trivial (fun _ hid => (Option.some.inj hid).symm) ?_ ?_
      · rintro goal ⟨-, hgoal⟩
        simp only [Scene.concluded, hrefusal] at hgoal
        have hcontent : ((uncertainEdits env exc).flush t w.clock t).content =
            ((uncertainEdits env exc).flush t 0 t).content := rfl
        exact Or.inl ⟨rfl, rfl, (Scene.reconciled_congr hcontent).trans hgoal⟩
      · rintro s goal ⟨hs, -⟩
        exact hs.symm
  · refine hcommit .done rfl (fun _ hq => hq) trivial (fun _ hid => by cases hid) ?_ ?_
    · rintro goal ⟨-, hgoal⟩
      rw [flushError_answerEdits answer now 0] at hflush
      simp only [Scene.answered, Scene.refusal_storing, hflush] at hgoal
      exact Or.inr ⟨rfl, ((content_answerEdits answer now w.clock t).trans
        (content_answerEdits answer 0 0 t).symm).trans hgoal⟩
    · rintro s goal ⟨hs, -⟩
      exact hs.symm
  · exact (h.known i _ hi).elim

/-- **Every operation of an undisturbed service keeps the invariant.** -/
theorem Settling.act {ends : HttpRequest → Transport}
    (h : Settling (Scene.storing ends) env users w g) (hi : g i = some q) {o : Op}
    (hp : q.permits env o) {r : o.Res} (hx : exec env i tag w o c = some (r, w'))
    (hrest : o.rests = true → c.succeeds = true)
    (hends : ∀ k call t, o = .receive k → w.calls[k]? = some call → c.transport? call = some t →
      t = ends call.request)
    (hroom : ∀ id, o = .enqueue id →
      (w.processes tag.process).queue.length < env.settings.executorQueueSize) :
    Settling (Scene.storing ends) env users w' (Function.update g i (some (q.next env o r))) := by
  cases o with
  | clock =>
    cases c <;> cases hx
    exact h.clock hi hp _
  | cachedOwner =>
    cases c <;> cases hx
    exact h.cachedOwner hi hp _
  | cacheOwner id =>
    cases c <;> cases hx
    exact h.cacheOwner hi hp _ _
  | selectOwner email =>
    have hx : c.query ((w.users.find? fun u => u.email = email).map User.id) w = some (r, w') := by
      cases c <;> exact hx
    obtain ⟨rfl, hr⟩ := Choice.query_eq_some hx
    exact h.selectOwner hi hp hr
  | insert n => exact h.insertion hi hp (hrest rfl) (by cases c <;> exact hx)
  | selectBySignal signalId =>
    have hx : c.query ((w.trades.findBySignal? signalId).map Trade.id) w = some (r, w') := by
      cases c <;> exact hx
    obtain ⟨rfl, -⟩ := Choice.query_eq_some hx
    exact h.selectBySignal hi hp r
  | claim id now => exact h.claim hi hp (hrest rfl) (by cases c <;> exact hx)
  | get id =>
    have hx : c.query (w.trades.find? id) w = some (r, w') := by cases c <;> exact hx
    obtain ⟨rfl, rfl⟩ := Choice.query_of_succeeds (hrest rfl) hx
    exact h.get hi hp
  | selectUnsent limit =>
    obtain ⟨rfl, -⟩ := exec_selectUnsent hx
    exact h.selectUnsent hi hp r
  | commit t e =>
    have hx : execCommit w t e c = some (r, w') := by cases c <;> exact hx
    rcases execCommit_of_succeeds (hrest rfl) hx with ⟨hflush, rfl, rfl⟩ |
      ⟨error, hflush, rfl, rfl⟩
    · exact h.commit hi hp hflush
    · exact h.unstored hi hp hflush
  | enqueue id =>
    have hw := congrArg Prod.snd (exec_enqueue hx)
    rw [← show (execEnqueue env tag.process w id).2 = w' from hw]
    exact h.enqueue hi hp tag.process r (hroom id rfl)
  | send request =>
    obtain ⟨rfl, rfl⟩ := exec_send hx
    exact h.send hi hp
  | receive k =>
    obtain rfl := (exec_receive hx).1
    refine h.receive hi hp fun x hk => ?_
    rw [Ledger.requests, List.getElem?_map] at hk
    obtain ⟨call, hcall, rfl⟩ := Option.map_eq_some_iff.mp hk
    exact hends k call r rfl hcall (exec_transport hx hcall).2
  | log record =>
    obtain rfl := exec_log hx
    exact h.log hi hp r
  | getForUser user id | selectReconcilable cutoff limit =>
    cases q with
    | other => exact (h.known i _ hi).elim
    | filling ids => cases ids <;> cases hp
    | signal payload owner => cases owner <;> cases hp
    | _ => cases hp

/-! ## The events -/

/-- A thread is started, and it holds no row. -/
theorem Settling.start (h : Settling S env users w g) (hp : Passes env users w w' g i .done q')
    (htrades : w'.trades = w.trades) (hq' : q'.claimed? = none) :
    Settling S env users w' (Function.update g i (some q')) := by
  refine h.move hp htrades (fun _ _ _ hq => hq.elim) ?_ fun _ _ _ hid => by cases hid
  intro id hid
  rw [hq'] at hid
  cases hid

/-- Something happens at the exchange, or time passes. -/
theorem Settling.aside (h : Settling S env users w g) (htrades : w'.trades = w.trades)
    (husers : w'.users = w.users) (hprocesses : w'.processes = w.processes)
    (hrequests : w'.toLedger.requests = w.toLedger.requests)
    (hreceived : w'.toLedger.received = w.toLedger.received) : Settling S env users w' g where
  accounts := husers.trans h.accounts
  cached := by
    rw [hprocesses]
    exact h.cached
  known := by
    rw [hreceived]
    exact h.known
  rows := by
    rw [htrades]
    intro r hr
    obtain ⟨payload, owner, hstems, hstanding⟩ := h.rows r hr
    refine ⟨payload, owner, { hstems with received := hreceived ▸ hstems.received }, ?_⟩
    refine hstanding.imp (fun hwaiting => ?_) fun htaken => ?_
    · refine { hwaiting with awaited := hwaiting.awaited.imp_left ?_ }
      rintro ⟨p, hqueued⟩
      exact ⟨p, by rwa [hprocesses]⟩
    · exact { htaken with leads := hrequests ▸ htaken.leads }
  claimed := by
    rw [htrades]
    exact h.claimed
  sole := h.sole

theorem Settling.event {ends : HttpRequest → Transport} {P : Pool (service env)} {e : Event}
    {x : Reaction World Tag} (hg : Ghosted (errand env) P g)
    (hD : Undisturbed ends P (.event e)) (h : Settling S env users P.shared g)
    (hx : react env P.shared P.seen e = some x) :
    Settling S env users x.shared
      (ghostsAfter (errand env) (fun tag : Tag => Errand.start tag.task) P x g) := by
  have hfresh := hg.fresh
  cases e with
  | webhook p payload =>
    cases hx
    unfold spawn
    rw [hg.after_spawn]
    have hkept : ∀ y ∈ P.shared.toLedger.received,
        y ∈ (P.shared.toLedger.receive payload).received := by
      intro y hy
      simp only [Ledger.received, Ledger.receive, List.filterMap_append]
      exact List.mem_append_left _ hy
    refine h.start ⟨Or.inr ⟨hfresh, rfl⟩, rfl, h.cached, hkept, fun _ _ hk => hk,
      fun _ hk => Or.inl hk, ?_, fun _ hid => by cases hid⟩ rfl rfl
    simp only [Ledger.received, Ledger.receive, List.filterMap_append]
    exact List.mem_append_right _ (List.mem_singleton.mpr rfl)
  | take p =>
    simp only [react] at hx
    split at hx
    · cases hx
    · rename_i id rest hqueue
      split at hx
      · cases hx
        unfold spawn
        rw [hg.after_spawn]
        refine h.start ⟨Or.inr ⟨hfresh, rfl⟩, rfl, ?_, fun _ hy => hy, fun _ _ hk => hk, ?_,
          trivial⟩ rfl rfl
        · intro p' owner howner
          refine h.cached p' owner ?_
          by_cases hpp : p' = p
          · subst hpp
            simpa [World.setProcess] using howner
          · simpa [World.setProcess, hpp] using howner
        · rintro k ⟨p', hk⟩
          by_cases hpp : p' = p
          · subst hpp
            rw [hqueue] at hk
            rcases List.mem_cons.mp hk with rfl | hk
            · exact Or.inr rfl
            · exact Or.inl ⟨p', by simpa [World.setProcess] using hk⟩
          · exact Or.inl ⟨p', by simpa [World.setProcess, hpp] using hk⟩
      · cases hx
  | resume p =>
    cases hx
    unfold spawn
    rw [hg.after_spawn]
    exact h.start ⟨Or.inr ⟨hfresh, rfl⟩, rfl, h.cached, fun _ hy => hy, fun _ _ hk => hk,
      fun _ hk => Or.inl hk, trivial⟩ rfl rfl
  | tick d =>
    cases hx
    unfold outside
    rw [hg.after_outside]
    exact h.aside rfl rfl rfl rfl rfl
  | arrive | lose | progress =>
    obtain ⟨htrades, hrequests, -, hhistory⟩ := react_ledger hx
    obtain ⟨l, -, rfl⟩ := Option.map_eq_some_iff.mp hx
    unfold outside
    rw [hg.after_outside]
    refine h.aside htrades rfl rfl hrequests ?_
    rcases hhistory with hhistory | ⟨p, payload, he, -⟩
    · exact congrArg (List.filterMap Entry.received?) hhistory
    · cases he
  | reconcile | batch | crash | cancel => exact hD.elim

/-- **Along an undisturbed run every row is on its way to what its signal is to become.** -/
theorem settling_of_run {ends : HttpRequest → Transport} {clock : DateTime}
    {ls : List (Label (service env))} {P : Pool (service env)}
    (h : Run (service env).system (Undisturbed ends) (Pool.idle (.initial users clock)) ls P) :
    ∃ g, Ghosted (errand env) P g ∧ Settling (Scene.storing ends) env users P.shared g := by
  refine Coroutine.ghosts (K := errand env) (fun tag : Tag => Errand.start tag.task)
    (fun tag : Tag => keeps_errand env tag.task) ?_ ?_ h ⟨fun _ => none, fun _ => .none, ?_⟩
  · rintro P g i c tag o r w q m ⟨hrest, hends, hroom⟩ hg hI hpend htag hq hp hx
    refine ⟨trivial, hI.act hq hp hx (hrest o hpend) ?_ ?_⟩
    · rintro k call t rfl
      exact hends k call t hpend
    · rintro id rfl
      exact hroom tag id htag hpend
  · intro P g e x hD hg hI hx
    exact hI.event hg hD hx
  · refine ⟨rfl, fun _ _ howner => ?_, fun _ _ hj => ?_, fun _ hr => ?_, fun _ _ _ hj => ?_,
      fun _ _ _ _ _ hj => ?_⟩
    · cases howner
    · cases hj
    · cases hr
    · cases hj
    · cases hj

end Steps

end AutoTrader
