import AutoTrader.System.Errand

/-!
# Recoveries

`resume_pending` selects as many unsent rows as the queue has places, and queues them. A
recovery is a run from there on: workers take and execute what is queued, and nothing else
comes in. `Recovering` follows each selected id from the selection through the queue to the
claim, and says that no other row is touched.
-/

namespace AutoTrader

open Python Coroutine Transition

/-- An operation that decides whether a trade is recovered. -/
def Op.recovers : Op → Bool
  | .selectUnsent _ | .claim _ _ => true
  | _ => false

/-- The SELECT of `resume_pending` and the claims succeed, and nothing comes in from
outside. -/
def Recovers {env : Deployment} (P : Pool (service env)) : Label (service env) → Prop
  | .act i c => (P.pending? i).any Op.recovers = true → Choice.succeeds c = true
  | .event e =>
    match e with
    | .take _ | .tick _ | .arrive _ _ | .lose _ | .progress _ _ => True
    | _ => False

instance {env : Deployment} (P : Pool (service env)) (l : Label (service env)) :
    Decidable (Recovers P l) :=
  match l with
  | .act _ _ => inferInstanceAs (Decidable (_ → _))
  | .event e =>
    match e with
    | .take _ | .tick _ | .arrive _ _ | .lose _ | .progress _ _ => .isTrue trivial
    | .webhook _ _ | .resume _ | .reconcile _ _ _ | .batch _ _ _ | .crash _ | .cancel _ =>
      .isFalse id

/-- Process `p` has started on these rows, and is about to run `resume_pending`. -/
def Pool.restarted (env : Deployment) (w : World) (p : Nat) : Pool (service env) :=
  ⟨w, [⟨⟨p, .resume⟩, some (Task.resume.program env)⟩]⟩

/-- The queue is empty and no thread runs. -/
def Drained {env : Deployment} (P : Pool (service env)) (p : Nat) : Prop :=
  P.Quiet ∧ (P.shared.processes p).queue = []

instance {env : Deployment} (P : Pool (service env)) (p : Nat) : Decidable (Drained P p) :=
  inferInstanceAs (Decidable ((∀ t ∈ P.threads, t.running = false) ∧ _))

namespace Errand

/-- An errand that occurs in a recovery. -/
def recovers : Errand → Prop
  | .signal _ _ | .refused | .accepted _ | .other => False
  | _ => True

/-- The ids a thread has not queued yet, where `chosen` is what is selected. -/
def toQueue (chosen : List TradeId) : Errand → List TradeId
  | .resuming => chosen
  | .filling ids => ids
  | _ => []

/-- The ids a thread has not claimed yet. -/
def ahead (chosen : List TradeId) : Errand → List TradeId
  | .claiming id => [id]
  | q => q.toQueue chosen

end Errand

/-! ## The invariant -/

/-- What an operation of a recovery can do. -/
structure Advance (chosen : List TradeId) (w w' : World) (q q' : Errand) : Prop where
  recovers : q'.recovers
  resumed : q' ≠ .resuming
  rows : ∀ r' ∈ w'.trades.rows, ∃ r ∈ w.trades.rows, r.id = r'.id ∧
    r.clientOrderId = r'.clientOrderId ∧ (r'.unsent = true → r.unsent = true)
  kept : ∀ r ∈ w.trades.rows, r.unsent = true → r.id ∉ chosen →
    ∃ r' ∈ w'.trades.rows, r'.id = r.id ∧ r'.unsent = true
  queues : ∀ p, (w.processes p).queue ⊆ (w'.processes p).queue
  queued : ∀ p, ∀ id ∈ (w'.processes p).queue,
    id ∈ (w.processes p).queue ∨ id ∈ q.ahead chosen
  todo : ∀ id ∈ q.ahead chosen, (∃ p, id ∈ (w'.processes p).queue) ∨ id ∈ q'.ahead chosen ∨
    ∀ r ∈ w'.trades.rows, r.id = id → r.unsent = false
  ahead : q'.ahead chosen ⊆ q.ahead chosen
  claimed : ∀ id, q'.claimed? = some id →
    id ∈ chosen ∧ ∀ r ∈ w'.trades.rows, r.id = id → r.submittedAt.isSome
  copy : ∀ t, q'.copy? = some t → ∃ r ∈ w.trades.rows, r.id = t.id ∧
    r.clientOrderId = t.clientOrderId
  fills : q.toQueue chosen = [] → q'.toQueue chosen = []
  room : ∀ p, (w'.processes p).queue.length + (q'.toQueue chosen).length ≤
    (w.processes p).queue.length + (q.toQueue chosen).length
  claims : ∀ j id, .claimed j id ∈ w'.history → .claimed j id ∈ w.history ∨ id ∈ chosen
  placed : ∀ x ∈ w'.toLedger.requests, x ∈ w.toLedger.requests ∨ ∀ c, x.placed? = some c →
    ∃ r ∈ w.trades.rows, r.id ∈ chosen ∧ r.clientOrderId = c

/-- The rows found are `T`, of which the ids `chosen` are recovered, `limit` at most. -/
structure Recovering (T : TradeTable) (chosen : List TradeId) (limit : Nat) (w : World)
    (g : Nat → Option Errand) : Prop where
  recovers : ∀ i q, g i = some q → q.recovers
  untouched : ∀ i, g i = some .resuming → w.trades = T ∧ (∀ p, (w.processes p).queue = []) ∧
    ∀ j, j ≠ i → g j = none
  rows : ∀ r ∈ w.trades.rows, ∃ s ∈ T.rows, s.id = r.id ∧ s.clientOrderId = r.clientOrderId ∧
    (r.unsent = true → s.unsent = true)
  kept : ∀ s ∈ T.rows, s.unsent = true → s.id ∉ chosen →
    ∃ r ∈ w.trades.rows, r.id = s.id ∧ r.unsent = true
  queued : ∀ p, ∀ id ∈ (w.processes p).queue, id ∈ chosen
  todo : ∀ id ∈ chosen, (∃ p, id ∈ (w.processes p).queue) ∨
    (∃ i q, g i = some q ∧ id ∈ q.ahead chosen) ∨
    ∀ r ∈ w.trades.rows, r.id = id → r.unsent = false
  ahead : ∀ i q, g i = some q → q.ahead chosen ⊆ chosen
  claimed : ∀ i q id, g i = some q → q.claimed? = some id →
    id ∈ chosen ∧ ∀ r ∈ w.trades.rows, r.id = id → r.submittedAt.isSome
  copy : ∀ i q t, g i = some q → q.copy? = some t → ∃ r ∈ w.trades.rows, r.id = t.id ∧
    r.clientOrderId = t.clientOrderId
  room : ∀ i q, g i = some q → q.toQueue chosen ≠ [] → i = 0 ∧
    ∀ p, (w.processes p).queue.length + (q.toQueue chosen).length ≤ limit
  claims : ∀ j id, .claimed j id ∈ w.history → id ∈ chosen
  placed : ∀ x ∈ w.toLedger.requests, ∀ c, x.placed? = some c →
    ∃ s ∈ T.rows, s.id ∈ chosen ∧ s.clientOrderId = c

/-- The operations that no errand of a recovery issues. -/
theorem Errand.recovers_of_elsewhere {env : Deployment} {q : Errand} {o : Op}
    (hp : q.permits env o) (hq : q.recovers) :
    match o with
    | .cachedOwner | .cacheOwner _ | .selectOwner _ | .insert _ | .selectBySignal _
    | .getForUser _ _ | .selectReconcilable _ _ => False
    | _ => True := by
  cases o with
  | cachedOwner | cacheOwner | selectOwner | insert | selectBySignal | getForUser
  | selectReconcilable =>
    cases q with
    | filling ids => cases ids <;> cases hp
    | signal payload owner => exact hq
    | refused | accepted | other => exact hq
    | _ => cases hp
  | _ => trivial

section Steps

variable {env : Deployment} {T : TradeTable} {chosen : List TradeId} {limit : Nat} {w w' : World}
  {g : Nat → Option Errand} {i : Nat} {q q' : Errand}

/-- Rows are rewritten one by one, so a row before the step has its successor. -/
theorem Recovering.act (h : Recovering T chosen limit w g) (hi : g i = some q)
    (hgrow : w.toLedger.Grows w'.toLedger) (ha : Advance chosen w w' q q') :
    Recovering T chosen limit w' (Function.update g i (some q')) := by
  have hnone : ∀ j, g j = some .resuming → j = i := by
    intro j hj
    by_contra hne
    rw [(h.untouched j hj).2.2 i (Ne.symm hne)] at hi
    cases hi
  have hsucc : ∀ t : Trade, (∃ r ∈ w.trades.rows, r.id = t.id ∧
      r.clientOrderId = t.clientOrderId) → ∃ r ∈ w'.trades.rows, r.id = t.id ∧
        r.clientOrderId = t.clientOrderId := by
    rintro t ⟨r, hr, hid, hcid⟩
    obtain ⟨r', hr', hterms, -⟩ := hgrow r hr
    exact ⟨r', hr', (congrArg Trade.Terms.id hterms).trans hid,
      (congrArg Trade.Terms.clientOrderId hterms).trans hcid⟩
  constructor
  · intro j p hj
    rcases update_eq_some hj with ⟨rfl, rfl⟩ | ⟨-, hj⟩
    · exact ha.recovers
    · exact h.recovers j p hj
  · intro j hj
    rcases update_eq_some hj with ⟨rfl, hq⟩ | ⟨hne, hj⟩
    · exact absurd hq.symm ha.resumed
    · exact absurd (hnone j hj) hne
  · intro r' hr'
    obtain ⟨r, hr, hid, hcid, hunsent⟩ := ha.rows r' hr'
    obtain ⟨s, hs, hsid, hscid, hsunsent⟩ := h.rows r hr
    exact ⟨s, hs, hsid.trans hid, hscid.trans hcid, fun hu => hsunsent (hunsent hu)⟩
  · intro s hs hunsent hnot
    obtain ⟨r, hr, hid, hr'⟩ := h.kept s hs hunsent hnot
    obtain ⟨r', hr', hid', hu⟩ := ha.kept r hr hr' (hid ▸ hnot)
    exact ⟨r', hr', hid'.trans hid, hu⟩
  · intro p id hid
    rcases ha.queued p id hid with hold | hahead
    · exact h.queued p id hold
    · exact h.ahead i q hi hahead
  · intro id hid
    -- the id is where it was, or the thread that acts has moved it on
    rcases h.todo id hid with ⟨p, hp⟩ | ⟨j, q₀, hj, hq₀⟩ | hsent
    · exact Or.inl ⟨p, ha.queues p hp⟩
    · by_cases hji : j = i
      · subst hji
        rw [hi] at hj
        cases hj
        rcases ha.todo id hq₀ with hp | hq' | hsent
        · exact Or.inl hp
        · exact Or.inr (Or.inl ⟨j, q', Function.update_self .., hq'⟩)
        · exact Or.inr (Or.inr hsent)
      · refine Or.inr (Or.inl ⟨j, q₀, ?_, hq₀⟩)
        rw [Function.update_of_ne hji]
        exact hj
    · refine Or.inr (Or.inr ?_)
      intro r' hr' hid'
      obtain ⟨r, hr, hrid, -, hunsent⟩ := ha.rows r' hr'
      have hfalse := hsent r hr (hrid.trans hid')
      rw [← Bool.not_eq_true] at hfalse ⊢
      exact fun hu => hfalse (hunsent hu)
  · intro j p hj
    rcases update_eq_some hj with ⟨rfl, rfl⟩ | ⟨-, hj⟩
    · exact List.Subset.trans ha.ahead (h.ahead j q hi)
    · exact h.ahead j p hj
  · intro j p id hj hp
    rcases update_eq_some hj with ⟨rfl, rfl⟩ | ⟨-, hj⟩
    · exact ha.claimed id hp
    · obtain ⟨hid, hsent⟩ := h.claimed j p id hj hp
      refine ⟨hid, fun r' hr' hrid => ?_⟩
      obtain ⟨r, hr, hid', -⟩ := ha.rows r' hr'
      obtain ⟨r'', hr'', hterms, hkeeps⟩ := hgrow r hr
      have heq : r'' = r' :=
        TradeTable.eq_of_id hr'' hr' ((congrArg Trade.Terms.id hterms).trans hid')
      rw [← heq]
      exact hkeeps (hsent r hr (hid'.trans hrid))
  · intro j p t hj hp
    rcases update_eq_some hj with ⟨rfl, rfl⟩ | ⟨-, hj⟩
    · exact hsucc t (ha.copy t hp)
    · exact hsucc t (h.copy j p t hj hp)
  · intro j p hj hp
    rcases update_eq_some hj with ⟨rfl, rfl⟩ | ⟨hne, hj⟩
    · obtain ⟨hzero, hroom⟩ := h.room j q hi fun hq => hp (ha.fills hq)
      exact ⟨hzero, fun k => (ha.room k).trans (hroom k)⟩
    · obtain ⟨hzero, hroom⟩ := h.room j p hj hp
      refine ⟨hzero, fun k => ?_⟩
      -- only one thread fills the queue, so the one that acts adds nothing to it
      have hempty : q.toQueue chosen = [] := by
        by_contra hq
        exact hne (hzero.trans (h.room i q hi hq).1.symm)
      have hadd := ha.room k
      have hk := hroom k
      rw [hempty, List.length_nil] at hadd
      omega
  · intro j id hc
    rcases ha.claims j id hc with hold | hid
    · exact h.claims j id hold
    · exact hid
  · intro x hx c hc
    rcases ha.placed x hx with hold | hnew
    · exact h.placed x hold c hc
    · obtain ⟨r, hr, hid, hcid⟩ := hnew c hc
      obtain ⟨s, hs, hsid, hscid, -⟩ := h.rows r hr
      exact ⟨s, hs, hsid ▸ hid, hscid.trans hcid⟩

/-- What the invariant does not speak about may change. -/
theorem Recovering.congr (h : Recovering T chosen limit w g) (htrades : w'.trades = w.trades)
    (hrequests : w'.toLedger.requests = w.toLedger.requests) (hhistory : w'.history = w.history)
    (hprocesses : w'.processes = w.processes) : Recovering T chosen limit w' g := by
  obtain ⟨h1, h2, h3, h4, h5, h6, h7, h8, h9, h10, h11, h12⟩ := h
  constructor
  · exact h1
  · rw [htrades, hprocesses]
    exact h2
  · rw [htrades]
    exact h3
  · rw [htrades]
    exact h4
  · rw [hprocesses]
    exact h5
  · rw [htrades, hprocesses]
    exact h6
  · exact h7
  · rw [htrades]
    exact h8
  · rw [htrades]
    exact h9
  · rw [hprocesses]
    exact h10
  · rw [hhistory]
    exact h11
  · rw [hrequests]
    exact h12

/-- A worker takes the head of a queue. -/
theorem Recovering.takes (h : Recovering T chosen limit w g) {p : Nat} {id : TradeId}
    {rest : List TradeId} (hqueue : (w.processes p).queue = id :: rest) {n : Nat}
    (hn : g n = none) :
    Recovering T chosen limit (w.setProcess p { w.processes p with queue := rest })
      (Function.update g n (some (.claiming id))) := by
  generalize hafter : w.setProcess p { w.processes p with queue := rest } = w'
  have hself : (w'.processes p).queue = rest := by
    rw [← hafter]
    simp [World.setProcess]
  have hothers : ∀ p', p' ≠ p → (w'.processes p').queue = (w.processes p').queue := by
    intro p' hp'
    rw [← hafter]
    simp [World.setProcess, hp']
  have hledger : w'.toLedger = w.toLedger := by
    rw [← hafter]
    rfl
  have hsub : ∀ p', (w'.processes p').queue ⊆ (w.processes p').queue := by
    intro p'
    by_cases hp' : p' = p
    · rw [hp', hself, hqueue]
      exact List.subset_cons_self _ _
    · rw [hothers p' hp']
      exact List.Subset.refl _
  have hid : id ∈ chosen := h.queued p id (by rw [hqueue]; exact List.mem_cons_self ..)
  constructor
  · intro j q hj
    rcases update_eq_some hj with ⟨-, rfl⟩ | ⟨-, hj⟩
    · trivial
    · exact h.recovers j q hj
  · intro j hj
    rcases update_eq_some hj with ⟨-, hq⟩ | ⟨-, hj⟩
    · cases hq
    · have hnil := (h.untouched j hj).2.1 p
      rw [hqueue] at hnil
      cases hnil
  · rw [hledger]
    exact h.rows
  · rw [hledger]
    exact h.kept
  · intro p' id' hid'
    exact h.queued p' id' (hsub p' hid')
  · rw [hledger]
    intro id' hid'
    rcases h.todo id' hid' with ⟨p', hp'⟩ | ⟨j, q, hj, hq⟩ | hsent
    · by_cases hpp : p' = p
      · rw [hpp, hqueue] at hp'
        rcases List.mem_cons.mp hp' with rfl | hrest
        · exact Or.inr (Or.inl ⟨n, _, Function.update_self .., List.mem_singleton.mpr rfl⟩)
        · exact Or.inl ⟨p, by rwa [hself]⟩
      · exact Or.inl ⟨p', by rwa [hothers p' hpp]⟩
    · refine Or.inr (Or.inl ⟨j, q, ?_, hq⟩)
      rw [Function.update_of_ne]
      · exact hj
      · rintro rfl
        rw [hn] at hj
        cases hj
    · exact Or.inr (Or.inr hsent)
  · intro j q hj
    rcases update_eq_some hj with ⟨-, rfl⟩ | ⟨-, hj⟩
    · intro id' hid'
      rw [List.mem_singleton.mp hid']
      exact hid
    · exact h.ahead j q hj
  · rw [hledger]
    intro j q id' hj hq
    rcases update_eq_some hj with ⟨-, rfl⟩ | ⟨-, hj⟩
    · cases hq
    · exact h.claimed j q id' hj hq
  · rw [hledger]
    intro j q t hj hq
    rcases update_eq_some hj with ⟨-, rfl⟩ | ⟨-, hj⟩
    · cases hq
    · exact h.copy j q t hj hq
  · intro j q hj hq
    rcases update_eq_some hj with ⟨-, rfl⟩ | ⟨-, hj⟩
    · exact absurd rfl hq
    · obtain ⟨hzero, hroom⟩ := h.room j q hj hq
      refine ⟨hzero, fun p' => le_trans ?_ (hroom p')⟩
      apply Nat.add_le_add_right
      by_cases hpp : p' = p
      · rw [hpp, hself, hqueue]
        exact Nat.le_succ _
      · rw [hothers p' hpp]
  · rw [hledger]
    exact h.claims
  · rw [hledger]
    exact h.placed

/-! ## What the operations do -/

variable {tag : Tag} {c : Choice}

/-- An operation that rewrites no row and queues nothing. -/
theorem Recovering.frame (h : Recovering T chosen limit w g) (hi : g i = some q)
    (htrades : w'.trades = w.trades)
    (hqueue : ∀ p, (w'.processes p).queue = (w.processes p).queue)
    (hhistory : w'.history = w.history) (hrecovers : q'.recovers) (hresumed : q' ≠ .resuming)
    (hahead : q'.ahead chosen = q.ahead chosen) (hfill : q'.toQueue chosen = q.toQueue chosen)
    (hclaimed : ∀ id, q'.claimed? = some id → q.claimed? = some id)
    (hcopy : ∀ t, q'.copy? = some t → q.copy? = some t ∨ t ∈ w.trades.rows)
    (hplaced : ∀ x ∈ w'.toLedger.requests, x ∈ w.toLedger.requests ∨
      ∀ c, x.placed? = some c → ∃ t, q.copy? = some t ∧ t.clientOrderId = c) :
    Advance chosen w w' q q' := by
  constructor
  · exact hrecovers
  · exact hresumed
  · intro r hr
    rw [htrades] at hr
    exact ⟨r, hr, rfl, rfl, id⟩
  · intro r hr hunsent _
    exact ⟨r, by rwa [htrades], rfl, hunsent⟩
  · intro p
    rw [hqueue]
    exact List.Subset.refl _
  · intro p id hid
    rw [hqueue] at hid
    exact Or.inl hid
  · intro id hid
    rw [hahead]
    exact Or.inr (Or.inl hid)
  · rw [hahead]
    exact List.Subset.refl _
  · rw [htrades]
    intro id hid
    exact h.claimed i q id hi (hclaimed id hid)
  · intro t ht
    rcases hcopy t ht with hold | hmem
    · exact h.copy i q t hi hold
    · exact ⟨t, hmem, rfl, rfl⟩
  · rw [hfill]
    exact id
  · intro p
    rw [hqueue, hfill]
  · intro j id hc
    rw [hhistory] at hc
    exact Or.inl hc
  · intro x hx
    rcases hplaced x hx with hold | hnew
    · exact Or.inl hold
    · refine Or.inr fun c hc => ?_
      obtain ⟨t, ht, rfl⟩ := hnew c hc
      obtain ⟨r, hr, hid, hcid⟩ := h.copy i q t hi ht
      have hclaimed : q.claimed? = some t.id := by
        cases q <;> cases ht <;> rfl
      exact ⟨r, hr, hid ▸ (h.claimed i q t.id hi hclaimed).1, hcid⟩

/-- The selection of the rows to recover. -/
theorem Recovering.selects (h : Recovering T chosen env.settings.executorQueueSize w g)
    (hchosen : ∀ u : World, u.trades = T →
      u.selectUnsent env.settings.executorQueueSize = chosen)
    (hi : g i = some .resuming) {r : Except SqlError (List TradeId)}
    (hx : exec env i tag w (.selectUnsent env.settings.executorQueueSize) c = some (r, w'))
    (hc : c.succeeds = true) :
    Advance chosen w w' .resuming
      (Errand.next env .resuming (.selectUnsent env.settings.executorQueueSize) r) := by
  have hx : c.query (w.selectUnsent env.settings.executorQueueSize) w = some (r, w') := by
    cases c <;> exact hx
  rw [hchosen w (h.untouched i hi).1] at hx
  obtain ⟨rfl, rfl⟩ := Choice.query_of_succeeds hc hx
  refine h.frame hi rfl (fun _ => rfl) rfl trivial (fun h => by cases h) rfl rfl ?_ ?_ ?_
  · intro id hid
    cases hid
  · intro t ht
    cases ht
  · intro x hx
    exact Or.inl hx

/-- An id is queued: there is room for it. -/
theorem Recovering.enqueues (h : Recovering T chosen env.settings.executorQueueSize w g)
    {id : TradeId} {rest : List TradeId} (hi : g i = some (.filling (id :: rest))) {r : Bool}
    (hx : exec env i tag w (.enqueue id) c = some (r, w')) :
    Advance chosen w w' (.filling (id :: rest)) (.filling rest) := by
  obtain ⟨-, hroom⟩ := h.room i _ hi (List.cons_ne_nil _ _)
  have hfits : (w.processes tag.process).queue.length < env.settings.executorQueueSize := by
    have hlength := hroom tag.process
    simp only [Errand.toQueue, List.length_cons] at hlength
    omega
  have hw := exec_enqueue hx
  simp only [execEnqueue, if_pos hfits, Prod.mk.injEq] at hw
  obtain ⟨rfl, rfl⟩ := hw
  generalize hafter : w.setProcess tag.process
    { w.processes tag.process with queue := (w.processes tag.process).queue ++ [id] } = w'
  have hself : (w'.processes tag.process).queue = (w.processes tag.process).queue ++ [id] := by
    rw [← hafter]
    simp [World.setProcess]
  have hothers : ∀ p, p ≠ tag.process → (w'.processes p).queue = (w.processes p).queue := by
    intro p hp
    rw [← hafter]
    simp [World.setProcess, hp]
  have hledger : w'.toLedger = w.toLedger := by
    rw [← hafter]
    rfl
  constructor
  · trivial
  · intro h
    cases h
  · intro r hr
    rw [hledger] at hr
    exact ⟨r, hr, rfl, rfl, fun h => h⟩
  · intro r hr hunsent _
    exact ⟨r, by rwa [hledger], rfl, hunsent⟩
  · intro p
    by_cases hp : p = tag.process
    · rw [hp, hself]
      exact List.subset_append_left _ _
    · rw [hothers p hp]
      exact List.Subset.refl _
  · intro p id' hid'
    by_cases hp : p = tag.process
    · rw [hp, hself] at hid'
      rcases List.mem_append.mp hid' with hold | hnew
      · exact Or.inl (hp ▸ hold)
      · rw [List.mem_singleton.mp hnew]
        exact Or.inr (List.mem_cons_self ..)
    · rw [hothers p hp] at hid'
      exact Or.inl hid'
  · intro id' hid'
    rcases List.mem_cons.mp hid' with rfl | hrest
    · refine Or.inl ⟨tag.process, ?_⟩
      rw [hself]
      exact List.mem_append_right _ (List.mem_singleton.mpr rfl)
    · exact Or.inr (Or.inl hrest)
  · exact List.subset_cons_self _ _
  · intro id' hid'
    cases hid'
  · intro t ht
    cases ht
  · intro hnil
    cases hnil
  · intro p
    simp only [Errand.toQueue, List.length_cons]
    by_cases hp : p = tag.process
    · rw [hp, hself, List.length_append, List.length_singleton]
      omega
    · rw [hothers p hp]
      omega
  · intro j id' hc
    rw [hledger] at hc
    exact Or.inl hc
  · intro x hx
    rw [hledger] at hx
    exact Or.inl hx

/-- An UPDATE of the row `id`, which is one of those to recover and is not unsent afterwards. -/
theorem rows_of_update {id : TradeId} {x : TradeTable.Update} (hid : id ∈ chosen)
    (htrades : w'.trades = w.trades.update id x)
    (hsent : ∀ r ∈ w.trades.rows, r.id = id → (x.write r).unsent = true → r.unsent = true) :
    (∀ r' ∈ w'.trades.rows, ∃ r ∈ w.trades.rows, r.id = r'.id ∧
      r.clientOrderId = r'.clientOrderId ∧ (r'.unsent = true → r.unsent = true)) ∧
    ∀ r ∈ w.trades.rows, r.unsent = true → r.id ∉ chosen →
      ∃ r' ∈ w'.trades.rows, r'.id = r.id ∧ r'.unsent = true := by
  constructor
  · intro r' hr'
    rw [htrades] at hr'
    obtain ⟨r, hr, rfl⟩ := TradeTable.mem_update.mp hr'
    refine ⟨r, hr, ?_⟩
    split
    · rename_i hrid
      exact ⟨(x.id r).symm, (x.clientOrderId r).symm, hsent r hr hrid⟩
    · exact ⟨rfl, rfl, fun hu => hu⟩
  · intro r hr hunsent hnot
    refine ⟨r, ?_, rfl, hunsent⟩
    rw [htrades]
    refine TradeTable.mem_update.mpr ⟨r, hr, if_neg ?_⟩
    rintro rfl
    exact hnot hid

/-- A claim that does not fail: afterwards the row is not unsent. -/
theorem Recovering.claims_id (h : Recovering T chosen limit w g) {id : TradeId}
    (hi : g i = some (.claiming id)) {now : DateTime} {r : Except SqlError Nat}
    (hx : exec env i tag w (.claim id now) c = some (r, w')) (hc : c.succeeds = true) :
    Advance chosen w w' (.claiming id) (Errand.next env (.claiming id) (.claim id now) r) := by
  have hid : id ∈ chosen := h.ahead i _ hi (List.mem_singleton.mpr rfl)
  have hx : execClaim i w id now c = some (r, w') := by cases c <;> exact hx
  unfold execClaim at hx
  split at hx
  · -- the row is unsent, and is claimed
    obtain ⟨rfl, rfl⟩ := Choice.commit_of_succeeds hc hx
    have hsent : ∀ r' ∈ (w.trades.update id (claimUpdate now)).rows, r'.id = id →
        r'.submittedAt.isSome := by
      intro r' hr' hrid
      obtain ⟨s, -, rfl⟩ := TradeTable.mem_update.mp hr'
      split
      · rfl
      · rename_i hne
        rw [if_neg hne] at hrid
        exact absurd hrid hne
    obtain ⟨hrows, hkept⟩ := rows_of_update (x := claimUpdate now) hid
      (rfl : ({ w with toLedger := w.toLedger.claim i id now } : World).trades =
        w.trades.update id (claimUpdate now))
      (fun r _ _ hu => by simp [claimUpdate, Trade.unsent] at hu)
    constructor
    · trivial
    · intro h
      cases h
    · exact hrows
    · exact hkept
    · intro p
      exact List.Subset.refl _
    · intro p id' hid'
      exact Or.inl hid'
    · intro id' hid'
      rw [List.mem_singleton.mp hid']
      refine Or.inr (Or.inr ?_)
      intro r' hr' hrid
      exact Trade.unsent_of_submitted (hsent r' hr' hrid)
    · intro id' hid'
      cases hid'
    · intro id' hid'
      cases hid'
      exact ⟨hid, hsent⟩
    · intro t ht
      cases ht
    · intro _
      rfl
    · intro p
      exact Nat.le_refl _
    · intro j id' hc
      rcases List.mem_append.mp hc with hold | hnew
      · exact Or.inl hold
      · cases List.mem_singleton.mp hnew
        exact Or.inr hid
    · intro x hx
      exact Or.inl hx
  · -- it is not
    rename_i hnot
    obtain ⟨rfl, rfl⟩ := Choice.query_of_succeeds hc hx
    have hframe : Advance chosen w' w' (.claiming id) (.claiming id) := by
      refine h.frame hi rfl (fun _ => rfl) rfl trivial (fun h => by cases h) rfl rfl ?_ ?_ ?_
      · intro id hid
        exact hid
      · intro t ht
        exact Or.inl ht
      · intro x hx
        exact Or.inl hx
    refine { hframe with
      recovers := trivial
      resumed := fun h => by cases h
      todo := ?_
      ahead := List.nil_subset _
      claimed := fun id hid => by cases hid
      copy := fun t ht => by cases ht
      fills := fun _ => rfl
      room := hframe.room }
    intro id' hid'
    rw [List.mem_singleton.mp hid']
    refine Or.inr (Or.inr ?_)
    intro r hr hrid
    by_contra hunsent
    apply hnot
    rw [TradeTable.find?_eq_some.mpr ⟨hr, hrid⟩]
    exact Bool.eq_true_of_not_eq_false hunsent

/-- The commit of an outcome, on the row the thread has claimed. -/
theorem Recovering.commits (h : Recovering T chosen limit w g) {t : Trade} (hi : g i = some q)
    (ht : q.copy? = some t) (hahead : q.ahead chosen = []) (hfill : q.toQueue chosen = [])
    {e : Edits} {r : Except CommitError DateTime}
    (hx : exec env i tag w (.commit t e) c = some (r, w')) (hrecovers : q'.recovers)
    (hahead' : q'.ahead chosen = []) (hfill' : q'.toQueue chosen = []) (hresumed : q' ≠ .resuming)
    (hclaimed : ∀ id, q'.claimed? = some id → id = t.id)
    (hcopy : ∀ t', q'.copy? = some t' → t'.terms = t.terms) :
    Advance chosen w w' q q' := by
  have hq : q.claimed? = some t.id := by
    cases q <;> cases ht <;> rfl
  obtain ⟨hid, hsent⟩ := h.claimed i q t.id hi hq
  have hcopy' : ∀ t', q'.copy? = some t' → ∃ r ∈ w.trades.rows, r.id = t'.id ∧
      r.clientOrderId = t'.clientOrderId := by
    intro t' ht'
    obtain ⟨r, hr, hrid, hcid⟩ := h.copy i q t hi ht
    have hterms := hcopy t' ht'
    exact ⟨r, hr, hrid.trans (congrArg Trade.Terms.id hterms).symm,
      hcid.trans (congrArg Trade.Terms.clientOrderId hterms).symm⟩
  rcases exec_commit hx with ⟨rfl, -⟩ | ⟨rfl, -⟩
  · have hsent' : ∀ r' ∈ (w.trades.update t.id (e.update t w.clock)).rows, r'.id = t.id →
        r'.submittedAt.isSome := by
      intro r' hr' hrid
      obtain ⟨s, hs, rfl⟩ := TradeTable.mem_update.mp hr'
      split
      · rename_i hsid
        exact hsent s hs hsid
      · rename_i hne
        rw [if_neg hne] at hrid
        exact absurd hrid hne
    obtain ⟨hrows, hkept⟩ := rows_of_update (x := e.update t w.clock) hid
      (rfl : ({ w with toLedger := w.toLedger.record t e w.clock } : World).trades =
        w.trades.update t.id (e.update t w.clock))
      (fun r hr hrid hu => by
        have hfalse : ((e.update t w.clock).write r).unsent = false :=
          Trade.unsent_of_submitted (hsent r hr hrid)
        rw [hfalse] at hu
        cases hu)
    constructor
    · exact hrecovers
    · exact hresumed
    · exact hrows
    · exact hkept
    · intro p
      exact List.Subset.refl _
    · intro p id' hid'
      exact Or.inl hid'
    · rw [hahead]
      intro id' hid'
      cases hid'
    · rw [hahead']
      exact List.nil_subset _
    · intro id' hid'
      rw [hclaimed id' hid']
      exact ⟨hid, hsent'⟩
    · exact hcopy'
    · intro _
      exact hfill'
    · intro p
      rw [hfill, hfill']
    · intro j id' hc
      rcases List.mem_append.mp hc with hold | hnew
      · exact Or.inl hold
      · cases List.mem_singleton.mp hnew
    · intro x hx
      exact Or.inl hx
  · have hframe : Advance chosen w' w' q q := by
      refine h.frame hi rfl (fun _ => rfl) rfl (h.recovers i q hi) ?_ rfl rfl ?_ ?_ ?_
      · rintro rfl
        cases ht
      · intro id hid
        exact hid
      · intro t' ht'
        exact Or.inl ht'
      · intro x hx
        exact Or.inl hx
    refine { hframe with
      recovers := hrecovers
      resumed := hresumed
      todo := ?_
      ahead := by rw [hahead']; exact List.nil_subset _
      claimed := fun id' hid' => by rw [hclaimed id' hid']; exact ⟨hid, hsent⟩
      copy := hcopy'
      fills := fun _ => hfill'
      room := fun p => by rw [hfill, hfill'] }
    rw [hahead]
    intro id' hid'
    cases hid'

/-- An operation that only reads, after which the errand stands on the same trade. -/
theorem Recovering.carries (h : Recovering T chosen limit w g) (hi : g i = some q)
    (hrecovers : q'.recovers) (hresumed : q' ≠ .resuming)
    (hahead : q'.ahead chosen = q.ahead chosen) (hfill : q'.toQueue chosen = q.toQueue chosen)
    (hclaimed : q'.claimed? = q.claimed?) (hcopy : q'.copy? = q.copy?) :
    Advance chosen w w q q' := by
  refine h.frame hi rfl (fun _ => rfl) rfl hrecovers hresumed hahead hfill ?_ ?_ fun _ => Or.inl
  · intro id hid
    rwa [← hclaimed]
  · intro t ht
    rw [hcopy] at ht
    exact Or.inl ht

/-- An operation that only reads, after which the errand is done. -/
theorem Recovering.ends (h : Recovering T chosen limit w g) (hi : g i = some q)
    (hahead : q.ahead chosen = []) (hfill : q.toQueue chosen = []) :
    Advance chosen w w q .done := by
  refine h.frame hi rfl (fun _ => rfl) rfl trivial (fun h => by cases h) hahead.symm hfill.symm
    ?_ ?_ fun _ => Or.inl
  · intro id hid
    cases hid
  · intro t ht
    cases ht

/-- The row is read again after the claim. -/
theorem Recovering.reloads (h : Recovering T chosen limit w g) {id : TradeId}
    (hi : g i = some (.reloading id)) {r : Except SqlError (Option Trade)}
    (hx : exec env i tag w (.get id) c = some (r, w')) :
    Advance chosen w w' (.reloading id) (Errand.next env (.reloading id) (.get id) r) := by
  obtain ⟨rfl, rfl | rfl⟩ := exec_get hx
  · cases hfind : w'.trades.find? id with
    | none => exact h.ends hi rfl rfl
    | some t =>
      obtain ⟨ht, rfl⟩ := TradeTable.find?_eq_some.mp hfind
      refine h.frame hi rfl (fun _ => rfl) rfl trivial (fun h => by cases h) rfl rfl ?_ ?_
        fun _ => Or.inl
      · intro id hid
        exact hid
      · intro t' ht'
        cases ht'
        exact Or.inr ht
  · exact h.ends hi rfl rfl

/-- The errand on a trade sends a request about that trade. -/
theorem Recovering.sends (h : Recovering T chosen limit w g) (hi : g i = some q)
    {request : HttpRequest} {t : Trade} (ht : q.copy? = some t)
    (hplaced : ∀ c, request.placed? = some c → t.clientOrderId = c) (hrecovers : q'.recovers)
    (hresumed : q' ≠ .resuming) (hahead : q'.ahead chosen = q.ahead chosen)
    (hfill : q'.toQueue chosen = q.toQueue chosen) (hclaimed : q'.claimed? = q.claimed?)
    (hcopy : q'.copy? = q.copy?) :
    Advance chosen w { w with toLedger := w.toLedger.send request } q q' := by
  refine h.frame hi rfl (fun _ => rfl) rfl hrecovers hresumed hahead hfill ?_ ?_ ?_
  · intro id hid
    rwa [← hclaimed]
  · intro t' ht'
    rw [hcopy] at ht'
    exact Or.inl ht'
  · intro x hx
    simp only [Ledger.requests, Ledger.send, List.map_append, List.mem_append, List.map_cons,
      List.map_nil, List.mem_singleton] at hx
    rcases hx with hold | rfl
    · exact Or.inl hold
    · exact Or.inr fun c hc => ⟨t, ht, hplaced c hc⟩

/-- The reply to an order arrives. -/
theorem Recovering.hears (h : Recovering T chosen limit w g) {t : Trade} {k : Nat}
    (hi : g i = some (.posted t k)) (r : Transport) :
    Advance chosen w w (.posted t k) (Errand.next env (.posted t k) (.receive k) r) := by
  simp only [Errand.next, Errand.hear]
  cases submissionOutcome env t r with
  | ok o => exact h.carries hi trivial (fun h => by cases h) rfl rfl rfl rfl
  | error e => exact h.ends hi rfl rfl

/-- The reply to a query arrives. -/
theorem Recovering.learns (h : Recovering T chosen limit w g) {t : Trade} {k : Nat}
    (hi : g i = some (.asked t k)) (r : Transport) :
    Advance chosen w w (.asked t k) (Errand.next env (.asked t k) (.receive k) r) := by
  simp only [Errand.next, Errand.learn]
  cases queryReply env r with
  | ok answer => exact h.carries hi trivial (fun h => by cases h) rfl rfl rfl rfl
  | error e => exact h.ends hi rfl rfl

/-- The outcome of an order is recorded; when it is in doubt, the trade is queried next. -/
theorem Recovering.records (h : Recovering T chosen limit w g) {t : Trade} {o : Outcome}
    (hi : g i = some (.heard t o)) {r : Except CommitError DateTime}
    (hx : exec env i tag w (.commit t (o.edits env)) c = some (r, w')) :
    Advance chosen w w' (.heard t o) (Errand.next env (.heard t o) (.commit t (o.edits env)) r) := by
  have hnext : (∃ exc now, Errand.next env (.heard t o) (.commit t (o.edits env)) r =
      .doubtful ((uncertainEdits env exc).flush t now t)) ∨
      Errand.next env (.heard t o) (.commit t (o.edits env)) r = .done := by
    cases o with
    | uncertain exc =>
      cases r with
      | ok now => exact Or.inl ⟨exc, now, rfl⟩
      | error e => exact Or.inr rfl
    | settled | refused => exact Or.inr rfl
  rcases hnext with ⟨exc, now, hnext⟩ | hnext
  · rw [hnext]
    refine h.commits hi rfl rfl rfl hx trivial rfl rfl (fun h => by cases h) ?_ ?_
    · intro id hid
      cases hid
      rfl
    · intro t' ht'
      cases ht'
      rfl
  · rw [hnext]
    refine h.commits hi rfl rfl rfl hx trivial rfl rfl (fun h => by cases h) ?_ ?_
    · intro id hid
      cases hid
    · intro t' ht'
      cases ht'

/-- What every operation of a recovery does. -/
theorem Recovering.advance (h : Recovering T chosen env.settings.executorQueueSize w g)
    (hchosen : ∀ u : World, u.trades = T →
      u.selectUnsent env.settings.executorQueueSize = chosen)
    (hi : g i = some q) {o : Op} {r : o.Res} (hp : q.permits env o)
    (hx : exec env i tag w o c = some (r, w')) (hc : o.recovers = true → c.succeeds = true) :
    Advance chosen w w' q (q.next env o r) := by
  have hrecovers := h.recovers i q hi
  cases o with
  | clock =>
    obtain rfl : w' = w := by
      cases c <;> cases hx
      rfl
    rcases Errand.of_clock hp with ⟨id, rfl⟩ | ⟨t, answer, rfl⟩ | rfl
    · exact h.carries hi trivial (fun h => by cases h) rfl rfl rfl rfl
    · exact h.carries hi trivial (fun h => by cases h) rfl rfl rfl rfl
    · exact hrecovers.elim
  | claim id now =>
    rcases Errand.of_claim hp with rfl | rfl
    · exact h.claims_id hi hx (hc rfl)
    · exact hrecovers.elim
  | get id =>
    rcases Errand.of_get hp with rfl | rfl
    · exact h.reloads hi hx
    · exact hrecovers.elim
  | selectUnsent limit =>
    rcases Errand.of_selectUnsent hp with ⟨rfl, rfl⟩ | rfl
    · exact h.selects hchosen hi hx (hc rfl)
    · exact hrecovers.elim
  | enqueue id =>
    rcases Errand.of_enqueue hp with ⟨rest, rfl⟩ | rfl | rfl
    · exact h.enqueues hi hx
    · exact hrecovers.elim
    · exact hrecovers.elim
  | commit t e =>
    rcases Errand.of_commit hp with ⟨o, rfl, rfl⟩ | ⟨answer, now, rfl, rfl⟩ | rfl
    · exact h.records hi hx
    · refine h.commits hi rfl rfl rfl hx trivial rfl rfl (fun h => by cases h) ?_ ?_
      · intro id hid
        cases hid
      · intro t' ht'
        cases ht'
    · exact hrecovers.elim
  | send request =>
    obtain ⟨rfl, rfl⟩ := exec_send hx
    rcases Errand.of_send hp with ⟨t, text, rfl, -, rfl⟩ | ⟨t, rfl, rfl⟩ | rfl
    · refine h.sends hi (t := t) rfl ?_ trivial (fun h => by cases h) rfl rfl rfl rfl
      intro c hc
      rw [orderFor, orderRequest_placed?] at hc
      exact Option.some.inj hc
    · refine h.sends hi (t := t) rfl ?_ trivial (fun h => by cases h) rfl rfl rfl rfl
      intro c hc
      rw [queryRequest_placed?] at hc
      cases hc
    · exact hrecovers.elim
  | receive k =>
    obtain ⟨rfl, -⟩ := exec_receive hx
    rcases Errand.of_receive hp with ⟨t, rfl⟩ | ⟨t, rfl⟩ | rfl
    · exact h.hears hi r
    · exact h.learns hi r
    · exact hrecovers.elim
  | log record =>
    obtain rfl := exec_log hx
    rcases Errand.of_log hp with ⟨t, text, rfl, -, rfl⟩ | ⟨rfl, -⟩ | rfl
    · exact h.frame hi rfl (fun _ => rfl) rfl trivial (fun h => by cases h) rfl rfl
        (fun _ hid => hid) (fun _ ht => Or.inl ht) fun _ => Or.inl
    · exact h.frame hi rfl (fun _ => rfl) rfl trivial (fun h => by cases h) rfl rfl
        (fun _ hid => by cases hid) (fun _ ht => by cases ht) fun _ => Or.inl
    · exact hrecovers.elim
  | cachedOwner | cacheOwner | selectOwner | insert | selectBySignal | getForUser
  | selectReconcilable =>
    exact (Errand.recovers_of_elsewhere hp hrecovers).elim

/-! ## Runs -/

/-- What an event of a recovery does. -/
theorem Recovering.event {P : Pool (service env)} (hg : Ghosted (errand env) P g)
    (h : Recovering T chosen limit P.shared g) {e : Event} (he : Recovers P (.event e))
    {x : Reaction World Tag} (hx : react env P.shared P.seen e = some x) :
    Recovering T chosen limit x.shared
      (ghostsAfter (errand env) (fun tag : Tag => Errand.start tag.task) P x g) := by
  have houtside : ∀ w' : World, w'.trades = P.shared.trades →
      w'.toLedger.requests = P.shared.toLedger.requests → w'.history = P.shared.history →
      w'.processes = P.shared.processes → Recovering T chosen limit w'
        (ghostsAfter (errand env) (fun tag : Tag => Errand.start tag.task) P
          (outside w') g) := by
    intro w' htrades hrequests hhistory hprocesses
    rw [outside, hg.after_outside]
    exact h.congr htrades hrequests hhistory hprocesses
  cases e with
  | take p =>
    simp only [react] at hx
    split at hx
    · cases hx
    · rename_i id rest hqueue
      split at hx
      · cases hx
        rw [spawn, hg.after_spawn]
        exact h.takes hqueue hg.fresh
      · cases hx
  | tick d =>
    cases hx
    exact houtside _ rfl rfl rfl rfl
  | arrive k v =>
    obtain ⟨l, hl, rfl⟩ := Option.map_eq_some_iff.mp hx
    obtain ⟨ht, hr, -, hh⟩ := react_ledger hx
    refine houtside _ ht hr ?_ rfl
    rcases hh with hh | ⟨p, payload, he', -⟩
    · exact hh
    · cases he'
  | lose k =>
    obtain ⟨l, hl, rfl⟩ := Option.map_eq_some_iff.mp hx
    obtain ⟨ht, hr, -, hh⟩ := react_ledger hx
    refine houtside _ ht hr ?_ rfl
    rcases hh with hh | ⟨p, payload, he', -⟩
    · exact hh
    · cases he'
  | progress k v =>
    obtain ⟨l, hl, rfl⟩ := Option.map_eq_some_iff.mp hx
    obtain ⟨ht, hr, -, hh⟩ := react_ledger hx
    refine houtside _ ht hr ?_ rfl
    rcases hh with hh | ⟨p, payload, he', -⟩
    · exact hh
    · cases he'
  | webhook | resume | reconcile | batch | crash | cancel => exact he.elim

/-- The ids `resume_pending` selects from these rows. -/
def chosenOf (T : TradeTable) (limit : Nat) : List TradeId :=
  (((T.rows.filter Trade.unsent).map Trade.id).insertionSort (· ≤ ·)).take limit

/-- The rows are found as they are. -/
theorem recovering_restarted (T : TradeTable) (users : List User) (nextTradeId : TradeId)
    (clock : DateTime) (limit : Nat) :
    Recovering T (chosenOf T limit) limit (.found T users nextTradeId clock)
      (Function.update (fun _ => none) 0 (some .resuming)) := by
  have hstart : ∀ {i : Nat} {q : Errand},
      Function.update (fun _ => none) 0 (some .resuming) i = some q → i = 0 ∧ q = .resuming := by
    intro i q hi
    rcases update_eq_some hi with h | ⟨-, hi⟩
    · exact h
    · cases hi
  constructor
  · intro i q hi
    rw [(hstart hi).2]
    trivial
  · intro i hi
    refine ⟨rfl, fun _ => rfl, fun j hj => ?_⟩
    rw [Function.update_of_ne]
    rw [(hstart hi).1] at hj
    exact hj
  · exact fun r hr => ⟨r, hr, rfl, rfl, id⟩
  · exact fun s hs hu _ => ⟨s, hs, rfl, hu⟩
  · intro p id hid
    cases hid
  · exact fun id hid => Or.inr (Or.inl ⟨0, .resuming, Function.update_self .., hid⟩)
  · intro i q hi
    rw [(hstart hi).2]
    exact List.Subset.refl _
  · intro i q id hi hq
    rw [(hstart hi).2] at hq
    cases hq
  · intro i q t hi hq
    rw [(hstart hi).2] at hq
    cases hq
  · intro i q hi _
    obtain ⟨hzero, rfl⟩ := hstart hi
    refine ⟨hzero, fun p => ?_⟩
    change 0 + (chosenOf T limit).length ≤ limit
    rw [Nat.zero_add]
    exact List.length_take_le _ _
  · intro j id hc
    cases hc
  · intro x hx
    cases hx

/-- The invariant holds throughout a recovery. -/
theorem recovering_of_run {users : List User} {nextTradeId : TradeId} {clock : DateTime} {p : Nat}
    {ls : List (Label (service env))} {P : Pool (service env)}
    (h : Run (service env).system Recovers
      (Pool.restarted env (.found T users nextTradeId clock) p) ls P) :
    ∃ g, Ghosted (errand env) P g ∧
      Recovering T (chosenOf T env.settings.executorQueueSize) env.settings.executorQueueSize
        P.shared g := by
  refine Coroutine.ghosts (K := errand env) (fun tag : Tag => Errand.start tag.task)
    (fun tag : Tag => keeps_errand env tag.task) ?_ ?_ h ⟨_, ?_, recovering_restarted T _ _ _ _⟩
  · intro P g i c tag o r w q m hD hg hI hpend htag hq hp hx
    refine ⟨trivial, hI.act hq (grows_exec hx) (hI.advance ?_ hq hp hx ?_)⟩
    · intro u hu
      rw [World.selectUnsent, hu, chosenOf]
    · intro ho
      apply hD
      rw [hpend]
      exact ho
  · intro P g e x hD hg hI hx
    exact hI.event hg hD hx
  · intro i
    cases i with
    | zero => exact .some (keeps_errand env .resume)
    | succ i => exact .none

end Steps

end AutoTrader
