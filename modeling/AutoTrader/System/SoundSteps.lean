import AutoTrader.System.Sound

/-!
# Every step keeps the invariant

One lemma for each thing that happens to a trade: it is inserted, claimed, announced,
posted, asked about, recorded. `Sound.act` assembles them over the operations and
`Sound.event` over the events, and `invariant_of_run` is the rule for everything that is
proved on top of the invariant.
-/

namespace AutoTrader

open Python Coroutine Transition

namespace Sound

variable {env : Deployment} {l l' : Ledger} {g g' : Stances} {i : Nat} {q q' : Stance}

theorem insert (h : Sound env l g) (row : Trade) (hfit : l.trades.Fits row) :
    Sound env (l.insert row hfit) g := by
  refine h.grow (.insert l row hfit) rfl rfl ?_
  intro r hr
  rcases (TradeTable.mem_insert (h := hfit)).mp hr with hr | rfl
  · exact Or.inl ⟨r, hr, rfl⟩
  · exact Or.inr hfit.1

theorem claim (h : Sound env l g) (thread : Nat) (id : TradeId) (now : DateTime) :
    Sound env (l.claim thread id now) g := by
  refine h.grow (.claim l thread id now) rfl rfl ?_
  intro r hr
  obtain ⟨s, hs, rfl⟩ := TradeTable.mem_update.mp hr
  refine Or.inl ⟨s, hs, ?_⟩
  split <;> rfl

theorem record (h : Sound env l g) (loaded : Trade) (edits : Edits) (now : DateTime) :
    Sound env (l.record loaded edits now) g := by
  refine h.grow (.record l loaded edits now) rfl rfl ?_
  intro r hr
  obtain ⟨s, hs, rfl⟩ := TradeTable.mem_update.mp hr
  refine Or.inl ⟨s, hs, ?_⟩
  split <;> rfl

/-- Whoever was posted for has a claimed row. -/
theorem postedClaimed (h : Sound env l g) {clientOrderId : String}
    (hp : l.posted clientOrderId ≠ 0) :
    ∃ r ∈ l.trades.rows, r.clientOrderId = clientOrderId ∧ r.submittedAt.isSome := by
  obtain ⟨x, hx, hc⟩ := List.countP_pos_iff.mp (Nat.pos_of_ne_zero hp)
  have hc : x.placed? = some clientOrderId := of_decide_eq_true hc
  have hpost : x.method = .post := by
    by_contra hne
    rw [HttpRequest.placed?, if_neg hne] at hc
    cases hc
  obtain ⟨r, hr, text, hsub, -, rfl⟩ := h.placed x hx hpost
  rw [orderFor, orderRequest_placed?] at hc
  exact ⟨r, hr, Option.some.inj hc, hsub⟩

/-- Winning a claim: the row was unsent, so nobody else holds it and nothing was announced. -/
theorem win (h : Sound env l g) (hi : g i = some q) {row : Trade}
    (hrow : row ∈ l.trades.rows) (hunsent : row.unsent = true) (now : DateTime) :
    Sound env (l.claim i row.id now)
      (Function.update g i (some { q with phase := .won row.id })) := by
  have hnone : row.submittedAt = none := by
    simp only [Trade.unsent, Bool.and_eq_true, Option.isNone_iff_eq_none] at hunsent
    exact hunsent.2
  have hfree : ∀ j p, g j = some p → p.phase.unposted? ≠ some row.id := by
    intro j p hj hp
    obtain ⟨r, hr, hid, hsub⟩ := h.claimed j p row.id hj hp
    rw [TradeTable.eq_of_id hr hrow hid, hnone] at hsub
    cases hsub
  have hquiet : l.announced row.clientOrderId = 0 := by
    by_contra hne
    obtain ⟨r, hr, hcid, hsub⟩ := h.announcedClaimed _ hne
    rw [TradeTable.eq_of_clientOrderId hr hrow hcid, hnone] at hsub
    cases hsub
  have hunposted : l.posted row.clientOrderId = 0 := by
    by_contra hne
    obtain ⟨r, hr, hcid, hsub⟩ := h.postedClaimed hne
    rw [TradeTable.eq_of_clientOrderId hr hrow hcid, hnone] at hsub
    cases hsub
  have hc := h.claim i row.id now
  have hcase : ∀ j p, Function.update g i (some { q with phase := .won row.id }) j = some p →
      (j = i ∧ p = { q with phase := .won row.id }) ∨ (j ≠ i ∧ g j = some p) := fun _ _ hj =>
    update_eq_some hj
  -- the claimed row in the new table
  have hnew : ∀ r ∈ (l.claim i row.id now).trades.rows, r.id = row.id →
      r.clientOrderId = row.clientOrderId := by
    intro r hr hid
    obtain ⟨s, hs, rfl⟩ := TradeTable.mem_update.mp hr
    have hsid : s.id = row.id := by
      split at hid <;> exact hid
    rw [TradeTable.eq_of_id hs hrow hsid]
    split <;> rfl
  have hwon : ∀ id, (Phase.won row.id).unposted? = some id → id = row.id := fun id he =>
    (Option.some.inj he).symm
  constructor
  · intro j p hj t ht
    rcases hcase j p hj with ⟨rfl, rfl⟩ | ⟨-, hj⟩
    · exact hc.backed j q hi t ht
    · exact hc.backed j p hj t ht
  · intro j p t hj hp
    rcases hcase j p hj with ⟨rfl, rfl⟩ | ⟨-, hj⟩
    · cases hp
    · exact hc.copy j p t hj hp
  · intro j p t hj hp
    rcases hcase j p hj with ⟨rfl, rfl⟩ | ⟨-, hj⟩
    · cases hp
    · exact hc.submitted j p t hj hp
  · intro j p id hj hp
    rcases hcase j p hj with ⟨rfl, rfl⟩ | ⟨-, hj⟩
    · rw [hwon id hp]
      refine ⟨_, TradeTable.mem_update.mpr ⟨row, hrow, rfl⟩, ?_, ?_⟩
      · rw [if_pos rfl]
        rfl
      · rw [if_pos rfl]
        rfl
    · exact hc.claimed j p id hj hp
  · intro j k p p' id hj hk hp hp'
    rcases hcase j p hj with ⟨rfl, rfl⟩ | ⟨-, hj⟩
    · rcases hcase k p' hk with ⟨rfl, rfl⟩ | ⟨-, hk⟩
      · rfl
      · rw [hwon id hp] at hp'
        exact absurd hp' (hfree k p' hk)
    · rcases hcase k p' hk with ⟨rfl, rfl⟩ | ⟨-, hk⟩
      · rename_i hj'
        rw [hwon id hp'] at hp
        exact absurd hp (hfree j p hj')
      · exact hc.sole j k p p' id hj hk hp hp'
  · intro j p id hj hp r hr hid
    rcases hcase j p hj with ⟨rfl, rfl⟩ | ⟨-, hj⟩
    · rw [hwon id hp] at hid
      rw [hnew r hr hid]
      exact hquiet
    · exact hc.unannounced j p id hj hp r hr hid
  · intro j p id hj hp r hr hid
    rcases hcase j p hj with ⟨rfl, rfl⟩ | ⟨-, hj⟩
    · rw [hwon id hp] at hid
      rw [hnew r hr hid]
      exact hunposted
    · exact hc.unposted j p id hj hp r hr hid
  · exact hc.announcedOnce
  · exact hc.announcedClaimed
  · exact hc.postedOnce
  · exact hc.placed
  · exact hc.queried

/-- The row of a claimed copy. -/
theorem row_of_claim (h : Sound env l g) (hi : g i = some q) {t : Trade}
    (hcopy : q.phase.copy? = some t) (hq : q.phase.unposted? = some t.id) :
    ∃ r ∈ l.trades.rows, r.terms = t.terms ∧ r.submittedAt.isSome := by
  obtain ⟨r, hr, hid, hsub⟩ := h.claimed i q t.id hi hq
  exact ⟨r, hr, (h.terms_of_copy hi (h.copy i q t hi hcopy) hr hid).1, hsub⟩

/-- A log line that announces no order. -/
theorem log_other (h : Sound env l g) {r : LogRecord} (hr : r.announced? = none) :
    Sound env (l.log r) g := by
  have ha : ∀ c, (l.log r).announced c = l.announced c := fun c => by
    rw [Ledger.announced_log, hr, if_neg (by simp), Nat.add_zero]
  refine ⟨h.backed, h.copy, h.submitted, h.claimed, h.sole, ?_, h.unposted, ?_, ?_, h.postedOnce, h.placed,
    h.queried⟩
  · intro i q id hi hq r hr hid
    rw [ha]
    exact h.unannounced i q id hi hq r hr hid
  · intro c
    rw [ha]
    exact h.announcedOnce c
  · intro c hc
    rw [ha] at hc
    exact h.announcedClaimed c hc

/-- Announcing an order. -/
theorem announce (h : Sound env l g) (hi : g i = some q) {t : Trade} (hq : q.phase = .holding t)
    (text : String) :
    Sound env (l.log (orderLine env t text))
      (Function.update g i (some { q with phase := .calling t })) := by
  have hunann : q.phase.unannounced? = some t.id := by rw [hq]; rfl
  have hcopy : q.phase.copy? = some t := by rw [hq]; rfl
  obtain ⟨r, hr, hterms, hsub⟩ :=
    h.row_of_claim hi hcopy (Phase.unposted_of_unannounced hunann)
  have hid : r.id = t.id := congrArg Trade.Terms.id hterms
  have hcid : r.clientOrderId = t.clientOrderId := congrArg Trade.Terms.clientOrderId hterms
  have hzero : l.announced t.clientOrderId = 0 := by
    rw [← hcid]
    exact h.unannounced i q t.id hi hunann r hr hid
  have hs := h.restance { q with phase := .calling t } hi (h.backed i q hi)
    (fun t' ht' => by
      cases ht'
      exact h.copy i q t hi hcopy)
    (fun t' ht' => by
      cases ht'
      exact h.submitted i q t hi (by rw [hq]; rfl))
    (fun id hid => by cases hid)
    (fun id hid => by
      rw [hq]
      exact hid)
  have ha : ∀ c, (l.log (orderLine env t text)).announced c =
      l.announced c + if some t.clientOrderId = some c then 1 else 0 := fun c =>
    Ledger.announced_log l (orderLine env t text) c
  refine ⟨hs.backed, hs.copy, hs.submitted, hs.claimed, hs.sole, ?_, hs.unposted, ?_, ?_, hs.postedOnce,
    hs.placed, hs.queried⟩
  · intro j p id hj hp s hsrow hsid
    rw [ha, hs.unannounced j p id hj hp s hsrow hsid, if_neg]
    -- another thread about to announce the same order would hold the same claim
    intro hc
    have hsr : s = r := TradeTable.eq_of_clientOrderId hsrow hr
      (hcid.trans (Option.some.inj hc)).symm
    have hupd : (Function.update g i (some { q with phase := .calling t })) i =
        some { q with phase := .calling t } := Function.update_self ..
    have hji := hs.sole j i p _ id hj hupd (Phase.unposted_of_unannounced hp) (by
      rw [← hsid, hsr, hid]
      rfl)
    subst hji
    rw [hupd] at hj
    cases hj
    cases hp
  · intro c
    rw [ha]
    split
    · rename_i hc
      rw [← Option.some.inj hc, hzero]
    · exact h.announcedOnce c
  · intro c hc
    by_cases hct : some t.clientOrderId = some c
    · exact ⟨r, hr, hcid.trans (Option.some.inj hct), hsub⟩
    · rw [ha, if_neg hct] at hc
      exact h.announcedClaimed c hc

/-- A request that places no order. -/
theorem ask (h : Sound env l g) {t : Trade} (ht : l.Backs t) :
    Sound env (l.send (queryRequest t.symbol t.clientOrderId)) g := by
  have hp : ∀ c, (l.send (queryRequest t.symbol t.clientOrderId)).posted c = l.posted c :=
    fun c => by rw [Ledger.posted_send, queryRequest_placed?, if_neg (by simp), Nat.add_zero]
  have hmem : ∀ x, x ∈ (l.send (queryRequest t.symbol t.clientOrderId)).requests →
      x ∈ l.requests ∨ x = queryRequest t.symbol t.clientOrderId := by
    intro x hx
    simpa [Ledger.requests, Ledger.send] using hx
  refine ⟨h.backed, h.copy, h.submitted, h.claimed, h.sole, h.unannounced, ?_, h.announcedOnce,
    h.announcedClaimed, ?_, ?_, ?_⟩
  · intro i q id hi hq r hr hid
    rw [hp]
    exact h.unposted i q id hi hq r hr hid
  · intro c
    rw [hp]
    exact h.postedOnce c
  · intro x hx hpost
    rcases hmem x hx with hx | rfl
    · exact h.placed x hx hpost
    · cases hpost
  · intro x hx hget
    rcases hmem x hx with hx | rfl
    · exact h.queried x hx hget
    · obtain ⟨r, hr, hterms, -⟩ := ht
      refine ⟨r, hr, ?_⟩
      rw [show r.symbol = t.symbol from congrArg Trade.Terms.symbol hterms,
        show r.clientOrderId = t.clientOrderId from congrArg Trade.Terms.clientOrderId hterms]

/-- Placing an order. -/
theorem post (h : Sound env l g) (hi : g i = some q) {t : Trade} (hq : q.phase = .calling t)
    {text : String} (htext : formatDecimal t.quantity = some text) (k : Nat) :
    Sound env (l.send (orderFor env t text))
      (Function.update g i (some { q with phase := .posted t k })) := by
  have hunpost : q.phase.unposted? = some t.id := by rw [hq]; rfl
  have hcopy : q.phase.copy? = some t := by rw [hq]; rfl
  obtain ⟨r, hr, hterms, hsub⟩ := h.row_of_claim hi hcopy hunpost
  have hid : r.id = t.id := congrArg Trade.Terms.id hterms
  have hcid : r.clientOrderId = t.clientOrderId := congrArg Trade.Terms.clientOrderId hterms
  have hzero : l.posted t.clientOrderId = 0 := by
    rw [← hcid]
    exact h.unposted i q t.id hi hunpost r hr hid
  have hs := h.restance { q with phase := .posted t k } hi (h.backed i q hi)
    (fun t' ht' => by
      cases ht'
      exact h.copy i q t hi hcopy)
    (fun t' ht' => by
      cases ht'
      exact h.submitted i q t hi (by rw [hq]; rfl))
    (fun id hid => by cases hid) (fun id hid => by cases hid)
  have hupd : (Function.update g i (some { q with phase := .posted t k })) i =
      some { q with phase := .posted t k } := Function.update_self ..
  have hp : ∀ c, (l.send (orderFor env t text)).posted c =
      l.posted c + if some t.clientOrderId = some c then 1 else 0 := fun c => by
    rw [Ledger.posted_send, orderFor, orderRequest_placed?]
  have hmem : ∀ x, x ∈ (l.send (orderFor env t text)).requests →
      x ∈ l.requests ∨ x = orderFor env t text := by
    intro x hx
    simpa [Ledger.requests, Ledger.send] using hx
  refine ⟨hs.backed, hs.copy, hs.submitted, hs.claimed, hs.sole, hs.unannounced, ?_, hs.announcedOnce,
    hs.announcedClaimed, ?_, ?_, ?_⟩
  · intro j p id hj hpj s hsrow hsid
    rw [hp, hs.unposted j p id hj hpj s hsrow hsid, if_neg]
    -- another thread about to place the same order would hold the same claim
    intro hc
    have hsr : s = r := TradeTable.eq_of_clientOrderId hsrow hr
      (hcid.trans (Option.some.inj hc)).symm
    by_cases hji : j = i
    · subst hji
      rw [hupd] at hj
      cases hj
      cases hpj
    · rw [Function.update_of_ne hji] at hj
      refine hji (h.sole j i p q id hj hi hpj ?_)
      rw [hunpost, ← hsid, hsr, hid]
  · intro c
    rw [hp]
    split
    · rename_i hc
      rw [← Option.some.inj hc, hzero]
    · exact h.postedOnce c
  · intro x hx hpost
    rcases hmem x hx with hx | rfl
    · exact h.placed x hx hpost
    · refine ⟨r, hr, text, hsub, ?_, ?_⟩
      · rw [show r.quantity = t.quantity from congrArg Trade.Terms.quantity hterms]
        exact htext
      · simp only [orderFor, show r.symbol = t.symbol from congrArg Trade.Terms.symbol hterms,
          show r.side = t.side from congrArg Trade.Terms.side hterms, hcid]
  · intro x hx hget
    rcases hmem x hx with hx | rfl
    · exact h.queried x hx hget
    · cases hget

/-- A stance that an operation leaves as it is. -/
theorem stay (h : Sound env l g) (hi : g i = some q) :
    Sound env l (Function.update g i (some q)) := by
  rw [← hi, Function.update_eq_self]
  exact h

/-- Another copy is loaded. -/
theorem load (h : Sound env l g) (ts : List Trade) (hi : g i = some q)
    (hts : ∀ t ∈ ts, l.Backs t) :
    Sound env l (Function.update g i (some { q with copies := ts ++ q.copies })) := by
  refine h.restance _ hi ?_ ?_ (fun t ht => h.submitted i q t hi ht) (fun _ hq => hq) fun _ hq => hq
  · intro t ht
    rcases List.mem_append.mp ht with ht | ht
    · exact hts t ht
    · exact h.backed i q hi t ht
  · intro t ht
    exact List.mem_append.mpr (Or.inr (h.copy i q t hi ht))

/-- A thread that has no claim waiting turns to another copy, or to none. -/
theorem turn (h : Sound env l g) (phase : Phase) (hi : g i = some q)
    (hcopy : ∀ t, phase.copy? = some t → t ∈ q.copies)
    (hsub : ∀ t, phase.order? = some t → t.submittedAt.isSome) (hup : phase.unposted? = none) :
    Sound env l (Function.update g i (some { q with phase := phase })) := by
  refine h.restance _ hi (h.backed i q hi) hcopy hsub ?_ ?_
  · intro id hid
    have := Phase.unposted_of_unannounced (show phase.unannounced? = some id from hid)
    rw [hup] at this
    cases this
  · intro id hid
    change phase.unposted? = some id at hid
    rw [hup] at hid
    cases hid

/-- The copy after a flush is backed if the copy before was. -/
theorem backs_flushedCopy {t : Trade} (ht : l.Backs t) (e : Edits) (now : DateTime) :
    l.Backs (Stance.flushedCopy t e now) := ht

/-- Committing an outcome. -/
theorem conclude (h : Sound env l g) (hi : g i = some q) {t : Trade} (e : Edits) (ht : t ∈ q.copies)
    (r : Except CommitError DateTime) :
    Sound env l (Function.update g i (some (q.next .plain (.commit t e) r))) := by
  have hload : Sound env l (Function.update g i (some { q with
      copies := (match r with
        | .ok now => [Stance.flushedCopy t e now]
        | .error _ => []) ++ q.copies })) := by
    refine h.load _ hi ?_
    intro t' ht'
    cases r with
    | error _ => cases ht'
    | ok now =>
      rw [List.mem_singleton.mp ht']
      exact backs_flushedCopy (h.backed i q hi t ht) e now
  cases hphase : q.phase with
  | answered t' outcome =>
    have := hload.turn .idle (Function.update_self ..) (fun _ hc => by cases hc)
      (fun _ hc => by cases hc) rfl
    rw [Function.update_idem] at this
    cases r <;> simpa [Stance.next, hphase] using this
  | _ =>
    cases r <;> simpa [Stance.next, hphase] using hload

/-- A query for a trade. -/
theorem asks {w w' : World} {tag : Tag} {c : Choice} {t : Trade} {o : Op} {r : o.Res}
    (h : Sound env w.toLedger g) (hi : g i = some q) (hp : q.permits env (.ask t) o)
    (hx : exec env i tag w o c = some (r, w')) :
    Sound env w'.toLedger (Function.update g i (some (q.next (.ask t) o r))) := by
  cases o with
  | send request =>
    obtain ⟨rfl, rfl⟩ := exec_send hx
    obtain ⟨-, ht, -, rfl⟩ := hp
    have hs := h.ask (h.backed i q hi t ht)
    refine hs.turn (.asked t w.calls.length) hi ?_ (fun _ hc => by cases hc) rfl
    intro t' ht'
    cases ht'
    exact ht
  | _ => exact hp.elim

/-- The row that was won is read again. -/
theorem reload {w w' : World} {tag : Tag} {c : Choice} {id : TradeId}
    {r : Except SqlError (Option Trade)} (h : Sound env w.toLedger g) (hi : g i = some q)
    (hp : q.phase = .won id) (hx : exec env i tag w (.get id) c = some (r, w')) :
    Sound env w'.toLedger (Function.update g i (some (q.next .plain (.get id) r))) := by
  obtain ⟨rfl, rfl | rfl⟩ := exec_get hx
  · cases hrow : w'.trades.find? id with
    | none => exact h.turn _ hi (fun _ hc => by cases hc) (fun _ hc => by cases hc) rfl
    | some t =>
      obtain ⟨hmem, rfl⟩ := TradeTable.find?_eq_some.mp hrow
      refine h.restance _ hi ?_ ?_ ?_ ?_ ?_
      · intro t' ht'
        rcases List.mem_cons.mp ht' with rfl | ht'
        · exact Ledger.backs_of_mem hmem
        · exact h.backed i q hi t' ht'
      · intro t' ht'
        cases ht'
        exact List.mem_cons_self
      · intro t' ht'
        cases ht'
        have hwon : q.phase.unposted? = some t.id := by
          rw [hp]
          rfl
        obtain ⟨r, hr, hid, hsub⟩ := h.claimed i q t.id hi hwon
        rwa [TradeTable.eq_of_id hr hmem hid] at hsub
      · intro id hid
        rw [hp]
        exact hid
      · intro id hid
        rw [hp]
        exact hid
  · exact h.turn _ hi (fun _ hc => by cases hc) (fun _ hc => by cases hc) rfl

/-- Every operation the contract permits keeps the invariant. -/
theorem act {w w' : World} {tag : Tag} {c : Choice} {m : Move} {o : Op} {r : o.Res}
    (h : Sound env w.toLedger g) (hi : g i = some q) (hp : q.permits env m o)
    (hx : exec env i tag w o c = some (r, w')) :
    Sound env w'.toLedger (Function.update g i (some (q.next m o r))) := by
  cases m with
  | ask t => exact h.asks hi hp hx
  | plain =>
    cases o with
    | insert n =>
      refine Sound.stay ?_ hi
      rcases exec_insert hx with rfl | ⟨hfit, rfl⟩
      · exact h
      · exact h.insert _ hfit
    | claim id now =>
      rcases exec_claim hx with ⟨rfl, hr⟩ | ⟨row, hrow, rfl, hunsent, rfl | rfl, rfl⟩
      · rw [Stance.next_claim q .plain id now hr]
        exact h.stay hi
      · exact h.win hi hrow hunsent now
      · exact (h.claim i row.id now).stay hi
    | get id => exact h.reload hi hp hx
    | getForUser user id =>
      obtain ⟨rfl, rfl | rfl⟩ := exec_getForUser hx
      · cases hrow : (w'.trades.find? id).filter fun t => t.userId = user with
        | none => exact h.stay hi
        | some t =>
          have hmem := (TradeTable.find?_eq_some.mp (Option.filter_eq_some_iff.mp hrow).1).1
          refine h.load [t] hi ?_
          intro t' ht'
          rw [List.mem_singleton.mp ht']
          exact Ledger.backs_of_mem hmem
      · exact h.stay hi
    | selectReconcilable cutoff limit =>
      obtain ⟨rfl, rfl | rfl⟩ := exec_selectReconcilable hx
      · refine h.load _ hi ?_
        intro t ht
        have ht := List.mem_of_mem_take ht
        rw [List.mem_insertionSort] at ht
        exact Ledger.backs_of_mem (List.mem_filter.mp ht).1
      · exact h.stay hi
    | commit t e =>
      have hl : Sound env w'.toLedger g := by
        rcases exec_commit hx with ⟨rfl, -⟩ | ⟨rfl, -⟩
        · exact h.record t e w.clock
        · exact h
      exact hl.conclude hi e hp.1 r
    | send request =>
      obtain ⟨rfl, rfl⟩ := exec_send hx
      obtain ⟨t, text, hq, htext, rfl⟩ := hp
      have hnext : q.next .plain (.send (orderFor env t text)) w.calls.length =
          { q with phase := .posted t w.calls.length } := by
        simp [Stance.next, hq]
      rw [hnext]
      exact h.post hi hq htext _
    | receive k =>
      obtain ⟨rfl, -⟩ := exec_receive hx
      obtain ⟨t, hq | hq⟩ := hp
      · have hcopy : ∀ t', (Phase.replied t r).copy? = some t' → t' ∈ q.copies :=
          fun t' ht' => h.copy i q t' hi (by rw [hq]; exact ht')
        simp only [Stance.next, hq]
        exact h.turn _ hi hcopy (fun t' ht' => h.submitted i q t' hi (by rw [hq]; exact ht')) rfl
      · have hcopy : ∀ t', (Phase.answered t r).copy? = some t' → t' ∈ q.copies :=
          fun t' ht' => h.copy i q t' hi (by rw [hq]; exact ht')
        simp only [Stance.next, hq]
        exact h.turn _ hi hcopy (fun _ hc => by cases hc) rfl
    | log record =>
      obtain rfl := exec_log hx
      cases record with
      | orderRequest path side symbol quantity clientOrderId =>
        obtain ⟨t, text, hq, htext, hline⟩ := hp
        have hnext : q.next .plain
            (.log (.orderRequest path side symbol quantity clientOrderId)) r =
              { q with phase := .calling t } := by
          simp [Stance.next, hq]
        rw [hnext, hline]
        exact h.announce hi hq text
      | _ => exact (h.log_other rfl).stay hi
    | _ =>
      rw [exec_of_not_writes rfl hx]
      exact h.stay hi

end Sound

/-! ## Events -/

theorem ghostsAfter_cases {env : Deployment} {P : Pool (service env)}
    {x : Reaction World Tag} {g : Stances} {j : Nat} {q : Stance}
    (h : ghostsAfter (conduct env) (fun tag : Tag => Stance.start tag.task) P x g j = some q) :
    g j = some q ∨ ∃ tag : Tag, x.spawn = some tag ∧ q = .start tag.task := by
  unfold ghostsAfter at h
  split at h
  · split at h
    · cases h
    · exact Or.inl h
  · split at h
    · obtain ⟨tag, htag, rfl⟩ := Option.map_eq_some_iff.mp h
      exact Or.inr ⟨tag, htag, rfl⟩
    · cases h

theorem Sound.event {env : Deployment} {P : Pool (service env)} {g : Stances} {e : Event}
    {x : Reaction World Tag} (h : Sound env P.shared.toLedger g)
    (hx : react env P.shared P.seen e = some x) :
    Sound env x.shared.toLedger
      (ghostsAfter (conduct env) (fun tag : Tag => Stance.start tag.task) P x g) := by
  obtain ⟨ht, hr, hlogs, -⟩ := react_ledger hx
  refine (h.congr ht hr hlogs).ghosts ?_
  intro i q hi
  rcases ghostsAfter_cases hi with hi | ⟨tag, -, rfl⟩
  · exact Or.inl hi
  · exact Or.inr ⟨rfl, rfl⟩

/-! ## Runs -/

section Runs

variable {env : Deployment}

/-- The stance a thread is started with. -/
abbrev startStance (tag : Tag) : Stance := .start tag.task

/-- Thread `i`, at the stance `q`, performs `o` as the move `m`. -/
structure Acts (env : Deployment) (P : Pool (service env)) (g : Stances) (i : Nat) (c : Choice)
    (tag : Tag) (q : Stance) (m : Move) (o : Op) (r : o.Res) (w' : World) : Prop where
  pending : P.pending? i = some o
  tagged : P.tag? i = some tag
  stance : g i = some q
  permits : q.permits env m o
  exec : exec env i tag P.shared o c = some (r, w')

/-- The outcome a step commits, with the copy it is committed from. -/
def commit? (P : Pool (service env)) : Label (service env) → Option (Trade × Edits)
  | .act i c =>
    match P.pending? i with
    | some (.commit t e) => if c.commits t e then some (t, e) else none
    | _ => none
  | .event _ => none

theorem Acts.commit? {P : Pool (service env)} {g : Stances} {i : Nat} {c : Choice} {tag : Tag}
    {q : Stance} {m : Move} {t : Trade} {e : Edits} {r : Except CommitError DateTime} {w' : World}
    (h : Acts env P g i c tag q m (.commit t e) r w') (hc : c.commits t e = true) :
    AutoTrader.commit? P (.act i c) = some (t, e) := by
  simp only [AutoTrader.commit?, h.pending, hc, if_true]

/-- The call whose end a step reports to its caller in another way than by handing over the
exchange's answer, with what is reported. -/
def reported? (P : Pool (service env)) : Label (service env) → Option (Call × Transport)
  | .act i (.reply t) =>
    match P.pending? i with
    | some (.receive k) => (P.shared.calls[k]?).map fun x => (x, t)
    | _ => none
  | _ => none

/-- The condition that clients hear only what is so: a call that is said to have failed in
connecting was lost, and a reply that did not come from the exchange is a gateway's error. -/
def Honest (P : Pool (service env)) (l : Label (service env)) : Prop :=
  ∀ x ∈ reported? P l, x.1.fate.allows x.2 = true

instance (P : Pool (service env)) (l : Label (service env)) : Decidable (Honest P l) :=
  inferInstanceAs (Decidable (∀ x ∈ reported? P l, x.1.fate.allows x.2 = true))

theorem ghosted_idle (w : World) : Ghosted (conduct env) (Pool.idle w : Pool (service env))
    fun _ => none := fun _ => .none

/-- **The rule for invariants of runs.** What is proved on top of `Sound` may use it, and
the stances of the threads, in every step. -/
theorem invariant_of_run {D : Pool (service env) → Label (service env) → Prop}
    {J : World → Stances → Prop} {w : World} {ls : List (Label (service env))}
    {P : Pool (service env)} (h : Run (service env).system D (Pool.idle w) ls P)
    (hw : Sound env w.toLedger fun _ => none) (h0 : J w fun _ => none)
    (hact : ∀ P g i c tag q m o r w', D P (.act i c) → Ghosted (conduct env) P g →
      Sound env P.shared.toLedger g → J P.shared g → Acts env P g i c tag q m o r w' →
      J w' (Function.update g i (some (q.next m o r))))
    (hevent : ∀ P g e x, D P (.event e) → Ghosted (conduct env) P g →
      Sound env P.shared.toLedger g → J P.shared g → react env P.shared P.seen e = some x →
      J x.shared (ghostsAfter (conduct env) startStance P x g)) :
    ∃ g, Ghosted (conduct env) P g ∧ Sound env P.shared.toLedger g ∧ J P.shared g := by
  refine Coroutine.ghosts (K := conduct env)
    (I := fun (w : World) (g : Stances) => Sound env w.toLedger g ∧ J w g) startStance
    (fun tag : Tag => keeps_conduct env tag.task) ?_ ?_ h ⟨_, ghosted_idle w, hw, h0⟩
  · rintro P g i c tag o r w' q m hD hg ⟨hs, hJ⟩ hpend htag hq hp hx
    exact ⟨trivial, hs.act hq hp hx,
      hact P g i c tag q m o r w' hD hg hs hJ ⟨hpend, htag, hq, hp, hx⟩⟩
  · rintro P g e x hD hg ⟨hs, hJ⟩ hx
    exact ⟨hs.event hx, hevent P g e x hD hg hs hJ hx⟩

theorem sound_of_run {D : Pool (service env) → Label (service env) → Prop} {w : World}
    {ls : List (Label (service env))} {P : Pool (service env)}
    (h : Run (service env).system D (Pool.idle w) ls P)
    (hw : Sound env w.toLedger fun _ => none) :
    ∃ g, Ghosted (conduct env) P g ∧ Sound env P.shared.toLedger g := by
  obtain ⟨g, hg, hs, -⟩ := invariant_of_run (J := fun _ _ => True) h hw trivial
    (fun _ _ _ _ _ _ _ _ _ _ _ _ _ _ _ => trivial) (fun _ _ _ _ _ _ _ _ _ => trivial)
  exact ⟨g, hg, hs⟩

end Runs

end AutoTrader
