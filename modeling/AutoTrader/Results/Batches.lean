import AutoTrader.Results.Asking
import AutoTrader.Results.LostReply
import AutoTrader.System.Batch

/-!
# A batch of reconciliations

One trade that cannot be reconciled should not keep the others from it. The loop of the
batch has no handler of its own, though, and `reconcile_trade` lets pass whatever is not an
error of the client: a reply that does not convert, and a commit that fails, be it for what
the reply holds. The batch gets through exactly when it meets none of these
(`runs_through_iff`).

A batch that gets through is pointwise, whatever the order of its trades, and a second one
at the same cutoff finds nothing to add (`pointwise_iff`).
-/

namespace AutoTrader

open Python Coroutine UnitOfWork

variable {S : Scene} {env : Deployment} {i : Nat} {tag : Tag} {w : World} {t : Trade}
  {now : DateTime} {olderThanSeconds : Int} {limit : Nat}

/-! ## What stops a batch -/

/-- What a batch cannot get past: a reply on which the client fails, or an answer that is not
committed. -/
def Scene.Stops (S : Scene) (env : Deployment) (now : DateTime) (t : Trade) : Prop :=
  (S.ends (queryRequest t.symbol t.clientOrderId)).breaksQuery = true ∨
    S.RefusesAnswer env now t

theorem Scene.raises_iff : S.raises env now t = true ↔ S.Stops env now t := by
  rcases queryReply_cases env (S.ends (queryRequest t.symbol t.clientOrderId)) with
    ⟨-, -, hb, result, hreply⟩ | ⟨-, -, hb, hreply⟩ | ⟨-, -, hb, e, hreply, he⟩ |
    ⟨-, -, hb, e, hreply⟩
  · have hanswer : S.answer env t = .ok (some result) := hreply
    simp only [raises, outcome, Stops, RefusesAnswer, hb, hanswer]
    cases hrefused : S.refusal now t (answerEdits (some result) now) <;> simp [hrefused]
  · have hanswer : S.answer env t = .ok none := hreply
    simp only [raises, outcome, Stops, RefusesAnswer, hb, hanswer]
    cases hrefused : S.refusal now t (answerEdits none now) <;> simp [hrefused]
  · have hanswer : S.answer env t = .error e := hreply
    simp only [raises, outcome, Stops, hb, hanswer, true_or]
  · have hanswer : S.answer env t = .error (.binance e) := hreply
    simp [raises, outcome, Stops, RefusesAnswer, hb, hanswer]

/-! ## One bad trade -/

/-- The batch asks about every selected trade, gives each that is well-behaved the row it
would get if it were selected alone, and returns counters that add up. -/
def RunsThrough (S : Scene) (env : Deployment) (i : Nat) (tag : Tag) (w : World)
    (olderThanSeconds : Int) (limit : Nat) : Prop :=
  ∃ summary u, S.run env i tag (reconcilePendingTrades env olderThanSeconds limit).run w =
      some (.ok summary, u) ∧
    summary.checked = (w.selected olderThanSeconds limit).length ∧
    summary.changed + summary.unchanged = summary.checked ∧
    (∀ t ∈ w.selected olderThanSeconds limit, queryFor t ∈ u.calls.drop w.calls.length) ∧
    ∀ t ∈ w.selected olderThanSeconds limit, ¬ S.Stops env w.clock t →
      ∃ x v, S.run env i tag (reconcileEach env [t] ⟨0, 0, 0⟩).run w = some (x, v) ∧
        u.trades.find? t.id = v.trades.find? t.id

/-- A row after the batch. -/
theorem Scene.find?_afterEach {ts : List Trade} (hmem : ∀ t ∈ ts, t ∈ w.trades.rows)
    (hnodup : ts.Nodup) {r : Trade} (hr : r ∈ w.trades.rows) :
    (S.afterEach env w ts).trades.find? r.id = some (S.rewritten env w.clock ts r) := by
  refine TradeTable.find?_eq_some.mpr ⟨?_, ?_⟩
  · rw [rows_afterEach _ _ hmem hnodup]
    exact List.mem_map_of_mem hr
  · rw [rewritten]
    split
    · exact id_reconciled
    · rfl

/-- **When a batch runs through.** Whatever trades are selected, whatever the queries end in
and whatever the database refuses: the batch does what it should for every selected trade if
and only if none of them stops it. -/
theorem runs_through_iff :
    RunsThrough S env i tag w olderThanSeconds limit ↔
      ∀ t ∈ w.selected olderThanSeconds limit, ¬ S.Stops env w.clock t := by
  have hopen : ∀ t ∈ w.selected olderThanSeconds limit, t.isTerminal = false :=
    fun t ht => (mem_selectReconcilable ht).2.1
  constructor
  · rintro ⟨summary, u, hrun, -⟩ t ht hstops
    have hgood := Scene.not_raises_of_ok hopen hrun t ht
    rw [Scene.raises_iff.mpr hstops] at hgood
    cases hgood
  · intro hgood
    have hgood' : ∀ t ∈ w.selected olderThanSeconds limit, S.raises env w.clock t = false := by
      intro t ht
      rw [← Bool.not_eq_true, Scene.raises_iff]
      exact hgood t ht
    have hmem : ∀ t ∈ w.selected olderThanSeconds limit, t ∈ w.trades.rows :=
      fun t ht => (mem_selectReconcilable ht).1
    have hnodup : (w.selected olderThanSeconds limit).Nodup := nodup_selectReconcilable
    refine ⟨_, _, (Scene.run_reconcilePendingTrades ..).trans
      (Scene.run_reconcileEach hopen hgood' ⟨0, 0, 0⟩), ?_, ?_, ?_, ?_⟩
    · rw [Scene.tally_eq, Nat.zero_add]
    · rw [Scene.tally_eq]
      simp only [Nat.zero_add]
      rw [List.length_eq_countP_add_countP (p := fun t => decide ((S.reconciled env w.clock t).status ≠ t.status))]
      congr 1
      refine List.countP_congr fun t _ => ?_
      simp
    · intro t ht
      rw [Scene.calls_afterEach, List.drop_left]
      exact List.mem_map_of_mem ht
    · intro t ht _
      refine ⟨_, _, Scene.run_reconcileEach (List.forall_mem_singleton.mpr (hopen t ht))
        (List.forall_mem_singleton.mpr (hgood' t ht)) ⟨0, 0, 0⟩, ?_⟩
      rw [Scene.find?_afterEach hmem hnodup (hmem t ht),
        Scene.find?_afterEach (by simpa using hmem t ht) (List.nodup_singleton t) (hmem t ht)]
      simp only [Scene.rewritten, ht, List.mem_singleton, if_true]

/-- A claimed trade of the second signal. -/
def Sample.second : Trade :=
  { Sample.trade with
    id := 2
    signalId := "sig-2"
    clientOrderId := "cat-0e982fbf2b80be4e197076754a20"
    createdAt := 1 }

/-- Both claimed trades, an hour later. -/
def Sample.both : World :=
  .found (Sample.claimed.trades.insert Sample.second (by decide +kernel)) Sample.users 3 3600000000

/-- An order whose id is no number. -/
def Sample.badOrderId : Response :=
  ⟨200, none, .json (.obj [("orderId", .str "n/a"), ("status", .str "NEW")])⟩

/-- The first of two trades has an order id that does not convert: the batch ends there, and
returns no counters. -/
theorem batch_blocked :
    ¬ ∀ (S : Scene) (w : World) (olderThanSeconds : Int) (limit : Nat),
      RunsThrough S Sample.inline 0 ⟨0, .batch olderThanSeconds limit⟩ w olderThanSeconds limit := by
  intro h
  obtain ⟨summary, u, hrun, -⟩ := h (.storing fun r =>
    if r.queried? = some Sample.clientOrderId then .response Sample.badOrderId
    else .response Sample.filled.response) Sample.both 60 100
  have hraises : ((Scene.run (.storing fun r =>
      if r.queried? = some Sample.clientOrderId then .response Sample.badOrderId
      else .response Sample.filled.response) Sample.inline 0 ⟨0, .batch 60 100⟩
        (reconcilePendingTrades Sample.inline 60 100).run Sample.both).map fun p =>
          (p.1.isOk, p.2.calls.length)) = some (false, 1) := by decide +kernel
  rw [hrun] at hraises
  cases hraises

/-! ## A batch that runs through -/

/-- The row that the reconciliation of `t` leaves when nothing else runs. -/
def reconciledAlone (S : Scene) (env : Deployment) (i : Nat) (tag : Tag) (w : World) (t : Trade) :
    Option Trade :=
  (S.run env i tag ((reconcileTrade env).exec (.fresh t)) w).bind fun p => p.2.trades.find? t.id

/-- In whatever order the selected trades are reconciled: each gets the row that its own
reconciliation gives it, no other row changes, and `changed` counts the rows with another
status. -/
def Pointwise (S : Scene) (env : Deployment) (i : Nat) (tag : Tag) (w : World)
    (olderThanSeconds : Int) (limit : Nat) : Prop :=
  ∀ ts, ts.Perm (w.selected olderThanSeconds limit) →
    ∃ summary u, S.run env i tag (reconcileEach env ts ⟨0, 0, 0⟩).run w = some (.ok summary, u) ∧
      u.trades.rows.map Trade.id = w.trades.rows.map Trade.id ∧
      (∀ r ∈ w.trades.rows, u.trades.find? r.id =
        if r ∈ w.selected olderThanSeconds limit then reconciledAlone S env i tag w r else some r) ∧
      summary.changed =
        (w.selected olderThanSeconds limit).countP fun t => u.status? t.id ≠ some t.status

/-- After a batch that covers all open rows, a second one at the same cutoff changes no column
but `reconciled_at` and `updated_at`. -/
def Idempotent (S : Scene) (env : Deployment) (i : Nat) (tag : Tag) (w : World)
    (olderThanSeconds : Int) (limit : Nat) : Prop :=
  (w.trades.rows.filter fun t => t.status.isReconcilable).length ≤ limit →
    ∃ summary u, S.run env i tag (reconcilePendingTrades env olderThanSeconds limit).run w =
        some (.ok summary, u) ∧
      ∀ (d olderThanSeconds' : Int),
        w.clock + d - olderThanSeconds' * 1000000 = w.clock - olderThanSeconds * 1000000 →
        ∃ summary' v, S.run env i tag (reconcilePendingTrades env olderThanSeconds' limit).run
            { u with clock := u.clock + d } = some (.ok summary', v) ∧
          v.trades.rows.map Trade.id = u.trades.rows.map Trade.id ∧
          ∀ r ∈ u.trades.rows, ∃ r', v.trades.find? r.id = some r' ∧ r.Agrees r'

/-- The row takes the order that its query is answered with, now and when it shows that order
already. -/
def Trade.takesTwice (env : Deployment) (ends : HttpRequest → Transport) (now : DateTime)
    (t : Trade) : Bool :=
  match (Scene.storing ends).answer env t with
  | .ok (some result) => result.fits t && result.fits ((Scene.storing ends).reconciled env now t)
  | _ => true

theorem Trade.Agrees.refl (t : Trade) : t.Agrees t := rfl

/-- The answer that was recorded before is recorded again. -/
theorem found_again (result : BinanceOrderResult) (later : DateTime) :
    ((foundEdits result now).flush t now t).Agrees
      ((foundEdits result later).flush ((foundEdits result now).flush t now t) later
        ((foundEdits result now).flush t now t)) := by
  simp only [Trade.Agrees, Edits.flush, foundEdits, Attribute.flush_again]

/-- An answer that the row takes is recorded. -/
theorem reconciled_storing {ends : HttpRequest → Transport} {answer : Option BinanceOrderResult}
    (hanswer : (Scene.storing ends).answer env t = .ok answer)
    (hfits : ∀ result, answer = some result → result.fits t = true) :
    (Scene.storing ends).reconciled env now t = (answerEdits answer now).flush t now t := by
  simp only [Scene.reconciled, hanswer, Scene.refusal_storing,
    (flushError_answer t answer now).mpr hfits]

theorem fits_of_takesTwice {ends : HttpRequest → Transport}
    (h : t.takesTwice env ends now = true) (result : BinanceOrderResult)
    (hanswer : (Scene.storing ends).answer env t = .ok (some result)) :
    result.fits t = true ∧ result.fits ((Scene.storing ends).reconciled env now t) = true := by
  simpa only [Trade.takesTwice, hanswer, Bool.and_eq_true] using h

theorem reconciled_again {ends : HttpRequest → Transport} (later : DateTime)
    (htakes : t.takesTwice env ends now = true)
    (hopen : ((Scene.storing ends).reconciled env now t).isTerminal = false) :
    ((Scene.storing ends).reconciled env now t).Agrees
      ((Scene.storing ends).reconciled env later ((Scene.storing ends).reconciled env now t)) := by
  have hsame : (Scene.storing ends).answer env ((Scene.storing ends).reconciled env now t) =
      (Scene.storing ends).answer env t := Scene.answer_of_terms Scene.terms_reconciled
  cases hanswer : (Scene.storing ends).answer env t with
  | error e =>
    have hrow : ∀ s n, (Scene.storing ends).answer env s = .error e →
        (Scene.storing ends).reconciled env n s = s := by
      intro s n hs
      simp only [Scene.reconciled, hs]
    rw [hrow _ later (hsame.trans hanswer)]
    exact Trade.Agrees.refl _
  | ok answer =>
    have hfits : ∀ result, answer = some result →
        result.fits t = true ∧ result.fits ((Scene.storing ends).reconciled env now t) = true := by
      rintro result rfl
      exact fits_of_takesTwice htakes result hanswer
    rw [reconciled_storing (hsame.trans hanswer) fun result h => (hfits result h).2]
    rw [reconciled_storing hanswer fun result h => (hfits result h).1] at hopen ⊢
    cases answer with
    | some result => exact found_again result later
    | none =>
      -- a row that became FAILED is settled
      rw [Trade.isTerminal, status_flush rfl] at hopen
      cases hopen

/-- With a database that stores what it can only a reply stops a batch: one on which the client
fails, or one with an order that the row does not take. -/
theorem stops_storing_iff {ends : HttpRequest → Transport} :
    (Scene.storing ends).Stops env now t ↔
      (ends (queryRequest t.symbol t.clientOrderId)).breaksQuery = true ∨
        ∃ result, (Scene.storing ends).answer env t = .ok (some result) ∧
          result.fits t = false := by
  refine or_congr Iff.rfl ⟨?_, ?_⟩
  · rintro ⟨answer, hanswer, hrefused⟩
    rw [Scene.refusal_storing, Option.isSome_iff_ne_none, ne_eq, flushError_answer] at hrefused
    push Not at hrefused
    obtain ⟨result, rfl, hfits⟩ := hrefused
    exact ⟨result, hanswer, by simpa using hfits⟩
  · rintro ⟨result, hanswer, hfits⟩
    refine ⟨_, hanswer, ?_⟩
    rw [Scene.refusal_storing, Option.isSome_iff_ne_none, ne_eq, flushError_answer]
    intro hall
    rw [hall result rfl] at hfits
    cases hfits

theorem breaksQuery_eq (o : Transport) : o.breaksQuery = (o.isTooDeep || o.hasBadOrderId) := by
  cases o <;> rfl

theorem reconciledAlone_eq (ht : t ∈ w.trades.rows) (hopen : t.isTerminal = false) :
    reconciledAlone S env i tag w t = some (S.reconciled env w.clock t) := by
  rw [reconciledAlone, Scene.run_reconcile hopen, Option.bind_some]
  refine TradeTable.find?_eq_some.mpr ⟨?_, Scene.id_reconciled⟩
  rw [Scene.rows_after ht]
  exact List.mem_map.mpr ⟨t, ht, if_pos rfl⟩

theorem id_rewritten {ts : List Trade} : (S.rewritten env now ts t).id = t.id := by
  rw [Scene.rewritten]
  split
  · exact Scene.id_reconciled
  · rfl

theorem ids_afterEach {ts : List Trade} (hmem : ∀ t ∈ ts, t ∈ w.trades.rows) (hnodup : ts.Nodup) :
    (S.afterEach env w ts).trades.rows.map Trade.id = w.trades.rows.map Trade.id := by
  rw [Scene.rows_afterEach _ _ hmem hnodup, List.map_map]
  exact List.map_congr_left fun r _ => id_rewritten

/-- A batch that nothing stops is pointwise. -/
theorem pointwise_of_not_stops
    (hgood : ∀ t ∈ w.selected olderThanSeconds limit, S.raises env w.clock t = false) :
    Pointwise S env i tag w olderThanSeconds limit := by
  intro ts hperm
  have hsel : ∀ t ∈ ts, t ∈ w.selected olderThanSeconds limit := fun t ht => hperm.subset ht
  have hmem : ∀ t ∈ ts, t ∈ w.trades.rows := fun t ht => (mem_selectReconcilable (hsel t ht)).1
  have hnodup : ts.Nodup := hperm.nodup_iff.mpr nodup_selectReconcilable
  refine ⟨_, _, Scene.run_reconcileEach
    (fun t ht => (mem_selectReconcilable (hsel t ht)).2.1) (fun t ht => hgood t (hsel t ht))
    ⟨0, 0, 0⟩, ids_afterEach hmem hnodup, ?_, ?_⟩
  · intro r hr
    rw [Scene.find?_afterEach hmem hnodup hr, Scene.rewritten]
    by_cases hrt : r ∈ ts
    · rw [if_pos hrt, if_pos (hsel r hrt),
        reconciledAlone_eq hr (mem_selectReconcilable (hsel r hrt)).2.1]
    · rw [if_neg hrt, if_neg fun h => hrt (hperm.symm.subset h)]
  · rw [Scene.tally_eq]
    simp only [Nat.zero_add]
    rw [hperm.countP_eq]
    refine List.countP_congr fun t ht => ?_
    have htt : t ∈ ts := hperm.symm.subset ht
    rw [World.status?, Scene.find?_afterEach hmem hnodup (hmem t htt), Option.map_some,
      Scene.rewritten, if_pos htt]
    simp

/-- A row that a second batch at the same cutoff selects was selected by the first one. -/
theorem selected_before {ends : HttpRequest → Transport} {u : World} {d : Int}
    {olderThanSeconds' : Int}
    (hcover : (w.trades.rows.filter fun t => t.status.isReconcilable).length ≤ limit)
    (hrows : u.trades.rows = w.trades.rows.map
      ((Scene.storing ends).rewritten env w.clock (w.selected olderThanSeconds limit)))
    (hcutoff : u.clock + d - olderThanSeconds' * 1000000 = w.clock - olderThanSeconds * 1000000)
    {r' : Trade}
    (hr' : r' ∈ World.selected { u with clock := u.clock + d } olderThanSeconds' limit) :
    ∃ r ∈ w.selected olderThanSeconds limit,
      r' = (Scene.storing ends).reconciled env w.clock r := by
  obtain ⟨hmem, hopen, hage⟩ := mem_selectReconcilable hr'
  change r' ∈ u.trades.rows at hmem
  change r'.createdAt < u.clock + d - olderThanSeconds' * 1000000 at hage
  rw [hrows] at hmem
  obtain ⟨r, hr, rfl⟩ := List.mem_map.mp hmem
  by_cases hsel : r ∈ w.selected olderThanSeconds limit
  · exact ⟨r, hsel, by rw [Scene.rewritten, if_pos hsel]⟩
  · -- the first batch covered every open row of this age
    rw [Scene.rewritten, if_neg hsel] at hopen hage
    refine absurd ?_ hsel
    rw [hcutoff] at hage
    have hfilter : r ∈ w.trades.rows.filter fun t =>
        t.status.isReconcilable && t.createdAt < w.clock - olderThanSeconds * 1000000 := by
      refine List.mem_filter.mpr ⟨hr, ?_⟩
      rw [TradeStatus.isReconcilable_eq, show r.status.isTerminal = false from hopen,
        decide_eq_true hage]
      rfl
    rw [World.selected, World.selectReconcilable, List.take_of_length_le]
    · exact (List.mem_insertionSort _).mpr hfilter
    · rw [List.length_insertionSort]
      refine le_trans (List.Sublist.length_le ?_) hcover
      exact List.monotone_filter_right _ fun t ht => (Bool.and_eq_true_iff.mp ht).1

/-- A row that takes its order whenever it is asked about stops no batch if its reply can be
read. -/
theorem raises_storing_iff {ends : HttpRequest → Transport} {s : Trade}
    (hterms : s.terms = t.terms)
    (hfits : ∀ result, (Scene.storing ends).answer env t = .ok (some result) →
      result.fits s = true) :
    (Scene.storing ends).raises env now s = true ↔
      (ends (queryRequest t.symbol t.clientOrderId)).breaksQuery = true := by
  rw [Scene.raises_iff, stops_storing_iff, Scene.query_of_terms hterms,
    Scene.answer_of_terms hterms, or_iff_left]
  rintro ⟨result, hanswer, hno⟩
  rw [hfits result hanswer] at hno
  cases hno

/-- A second batch finds nothing to add. -/
theorem idempotent_of_not_stops {ends : HttpRequest → Transport}
    (htakes : ∀ t ∈ w.selected olderThanSeconds limit, t.takesTwice env ends w.clock = true)
    (hgood : ∀ t ∈ w.selected olderThanSeconds limit,
      (Scene.storing ends).raises env w.clock t = false) :
    Idempotent (.storing ends) env i tag w olderThanSeconds limit := by
  intro hcover
  have hmem : ∀ t ∈ w.selected olderThanSeconds limit, t ∈ w.trades.rows :=
    fun t ht => (mem_selectReconcilable ht).1
  have hnodup : (w.selected olderThanSeconds limit).Nodup := nodup_selectReconcilable
  have hrun : (Scene.storing ends).run env i tag
      (reconcilePendingTrades env olderThanSeconds limit).run w = some (.ok _, _) :=
    (Scene.run_reconcilePendingTrades ..).trans (Scene.run_reconcileEach
      (fun t ht => (mem_selectReconcilable ht).2.1) hgood ⟨0, 0, 0⟩)
  have hrows := Scene.rows_afterEach (.storing ends) env hmem hnodup
  have hclock : ((Scene.storing ends).afterEach env w (w.selected olderThanSeconds limit)).clock =
      w.clock := Scene.clock_afterEach
  change _ = some (_, (Scene.storing ends).afterEach env w (w.selected olderThanSeconds limit)) at hrun
  generalize (Scene.storing ends).afterEach env w (w.selected olderThanSeconds limit) = u at *
  refine ⟨_, u, hrun, ?_⟩
  intro d olderThanSeconds' hcutoff
  let u' : World := { u with clock := u.clock + d }
  have hbefore : ∀ r' ∈ u'.selected olderThanSeconds' limit,
      ∃ r ∈ w.selected olderThanSeconds limit, r' = (Scene.storing ends).reconciled env w.clock r :=
    fun r' hr' => selected_before hcover hrows (by rw [hclock]; exact hcutoff) hr'
  have hmem' : ∀ t ∈ u'.selected olderThanSeconds' limit, t ∈ u'.trades.rows :=
    fun t ht => (mem_selectReconcilable ht).1
  have hnodup' : (u'.selected olderThanSeconds' limit).Nodup := nodup_selectReconcilable
  have hgood' : ∀ t ∈ u'.selected olderThanSeconds' limit,
      (Scene.storing ends).raises env u'.clock t = false := by
    intro t ht
    obtain ⟨r, hr, rfl⟩ := hbefore t ht
    have hfits := fits_of_takesTwice (htakes r hr)
    have hfine := hgood r hr
    rw [← Bool.not_eq_true, raises_storing_iff rfl fun result h => (hfits result h).1] at hfine
    rw [← Bool.not_eq_true,
      raises_storing_iff Scene.terms_reconciled fun result h => (hfits result h).2]
    exact hfine
  refine ⟨_, _, (Scene.run_reconcilePendingTrades ..).trans (Scene.run_reconcileEach
    (fun t ht => (mem_selectReconcilable ht).2.1) hgood' ⟨0, 0, 0⟩), ids_afterEach hmem' hnodup', ?_⟩
  intro r hr
  refine ⟨_, Scene.find?_afterEach hmem' hnodup' hr, ?_⟩
  rw [Scene.rewritten]
  split
  · rename_i hsel
    obtain ⟨s, hs, rfl⟩ := hbefore r hsel
    exact reconciled_again _ (htakes s hs) (mem_selectReconcilable hsel).2.1
  · exact Trade.Agrees.refl r

/-- **When a batch is pointwise and idempotent.** With commits that succeed, those of the second
batch included, and order ids that convert, a batch is pointwise, in any order of its trades, and a second one at the same cutoff
changes nothing, if and only if no selected trade is answered by a body that is nested too
deeply. -/
theorem pointwise_iff {ends : HttpRequest → Transport}
    (hconv : ∀ t ∈ w.trades.rows,
      (ends (queryRequest t.symbol t.clientOrderId)).hasBadOrderId = false)
    (htakes : ∀ t ∈ w.selected olderThanSeconds limit, t.takesTwice env ends w.clock = true) :
    (Pointwise (.storing ends) env i tag w olderThanSeconds limit ∧
        Idempotent (.storing ends) env i tag w olderThanSeconds limit) ↔
      ∀ t ∈ w.selected olderThanSeconds limit,
        (ends (queryRequest t.symbol t.clientOrderId)).isTooDeep = false := by
  have hraises : ∀ t ∈ w.selected olderThanSeconds limit,
      ((Scene.storing ends).raises env w.clock t = false ↔
        (ends (queryRequest t.symbol t.clientOrderId)).isTooDeep = false) := by
    intro t ht
    have hfits := fits_of_takesTwice (htakes t ht)
    rw [← Bool.not_eq_true, raises_storing_iff rfl fun result h => (hfits result h).1,
      breaksQuery_eq, hconv t (mem_selectReconcilable ht).1, Bool.or_false, Bool.not_eq_true]
  constructor
  · rintro ⟨hpointwise, -⟩ t ht
    obtain ⟨summary, u, hrun, -⟩ := hpointwise _ (List.Perm.refl _)
    exact (hraises t ht).mp
      (Scene.not_raises_of_ok (fun s hs => (mem_selectReconcilable hs).2.1) hrun t ht)
  · intro hshallow
    have hgood : ∀ t ∈ w.selected olderThanSeconds limit,
        (Scene.storing ends).raises env w.clock t = false :=
      fun t ht => (hraises t ht).mpr (hshallow t ht)
    exact ⟨pointwise_of_not_stops hgood, idempotent_of_not_stops htakes hgood⟩

/-- Two trades whose orders were filled. -/
theorem pointwise_iff_filled :
    Pointwise (.storing fun _ => .response Sample.filled.response) Sample.inline 0 ⟨0, .batch 60 100⟩
        Sample.both 60 100 ∧
      Idempotent (.storing fun _ => .response Sample.filled.response) Sample.inline 0
        ⟨0, .batch 60 100⟩ Sample.both 60 100 :=
  (pointwise_iff (fun _ _ => by decide +kernel) (by decide +kernel)).mpr fun _ _ => by
    decide +kernel

/-- A refusal whose body is nested too deeply. -/
def Sample.tooDeep : Response := ⟨400, none, .tooDeep⟩

/-- The answer for the first of two trades is a refusal nested too deeply to be decoded, and
the batch ends there. -/
theorem batch_too_deep :
    ¬ ∀ (ends : HttpRequest → Transport) (w : World) (olderThanSeconds : Int) (limit : Nat),
      (∀ t ∈ w.trades.rows, (ends (queryRequest t.symbol t.clientOrderId)).hasBadOrderId = false) →
      (∀ t ∈ w.selected olderThanSeconds limit,
        t.takesTwice Sample.inline ends w.clock = true) →
      Pointwise (.storing ends) Sample.inline 0 ⟨0, .batch olderThanSeconds limit⟩ w
          olderThanSeconds limit ∧
        Idempotent (.storing ends) Sample.inline 0 ⟨0, .batch olderThanSeconds limit⟩ w
          olderThanSeconds limit := by
  intro h
  obtain ⟨hpointwise, -⟩ := h (fun r =>
    if r.queried? = some Sample.clientOrderId then .response Sample.tooDeep
    else .response Sample.filled.response) Sample.both 60 100 (by decide +kernel) (by decide +kernel)
  obtain ⟨summary, u, hrun, -⟩ := hpointwise _ (List.Perm.refl _)
  have hraises : ((Scene.run (.storing fun r =>
      if r.queried? = some Sample.clientOrderId then .response Sample.tooDeep
      else .response Sample.filled.response) Sample.inline 0 ⟨0, .batch 60 100⟩
        (reconcileEach Sample.inline (Sample.both.selected 60 100) ⟨0, 0, 0⟩).run
          Sample.both).map fun p => (p.1.isOk, p.2.calls.length)) = some (false, 1) := by
    decide +kernel
  rw [hrun] at hraises
  cases hraises

end AutoTrader
