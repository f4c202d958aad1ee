import AutoTrader.Results.OrderBook
import AutoTrader.Results.Starvation

/-!
# Batches that come to an end

A batch whose queries are answered for good settles the trades it selects, the oldest first, and
the next one finds the rest. So `k` runs settle the oldest `k * limit` overdue trades and no other
of them. Against the exchange itself, when its orders have come to rest, the rows that the runs
settle say what it holds.
-/

namespace AutoTrader

open Python Coroutine Transition UnitOfWork

variable {env : Deployment} {i : Nat} {tag : Tag} {w : World} {t : Trade}
  {olderThanSeconds : Int} {limit : Nat} {cutoff : DateTime}

/-! ## What the exchange answers -/

/-- How the exchange answers a query from the orders it holds. -/
def Ledger.answers (l : Ledger) (r : HttpRequest) : Transport :=
  match serve l.book r .lookup with
  | some (_, response) => .response response
  | none => .connectError

namespace Order

/-- The amount executed, as the client reads it. -/
def executed (o : Order) : Decimal := (Decimal.ofText o.executedQty).getD (.finite false 0 0)

def cumulativeQuote (o : Order) : Decimal :=
  (Decimal.ofText o.cummulativeQuoteQty).getD (.finite false 0 0)

/-- The client takes the order to have come to its end. -/
def atRest (o : Order) : Prop := (binanceStatusMap o.state.text).isReconcilable = false

/-- What the client makes of the order object. -/
def result (o : Order) : BinanceOrderResult where
  orderId := some o.orderId
  clientOrderId := o.clientOrderId
  symbol := o.symbol
  side := o.side
  status := o.state.text
  executedQuantity := o.executed
  cumulativeQuoteQuantity := o.cumulativeQuote
  raw := o.fields

end Order

theorem decimalField_text (repr : ReprText) (text : String) {fields : List (String × Json)}
    {key : String} (h : Json.get fields key = some (.str text)) :
    BinanceOrderResult.decimalField repr fields key =
      (Decimal.ofText text).getD (.finite false 0 0) := by
  simp only [BinanceOrderResult.decimalField, h, Option.getD_some, Json.truthy]
  by_cases hempty : text = ""
  · subst hempty
    change (Decimal.ofText "0").getD (.finite false 0 0) =
      (Decimal.ofText "").getD (.finite false 0 0)
    decide +kernel
  · simp [hempty, Json.toStr]

theorem queryReply_order (env : Deployment) (o : Order) :
    queryReply env (.response o.response) = .ok (some o.result) := by
  have hpayload : handleTransport (.response o.response) = .ok o.fields := rfl
  have hresult : BinanceOrderResult.fromPayload env.repr o.fields = .ok o.result := by
    have hid : BinanceOrderResult.orderIdField o.fields = .ok (some o.orderId) := rfl
    simp only [BinanceOrderResult.fromPayload, hid, bind, Except.bind]
    rw [decimalField_text env.repr o.executedQty rfl,
      decimalField_text env.repr o.cummulativeQuoteQty rfl]
    rfl
  simp only [queryReply, hpayload, hresult]

theorem queryReply_absent (env : Deployment) :
    queryReply env (.response absentResponse) = .ok none := rfl

/-- The answer to the query for a trade. -/
theorem answers_query (env : Deployment) (l : Ledger) (t : Trade) :
    queryReply env (l.answers (queryRequest t.symbol t.clientOrderId)) =
      .ok ((l.book.find? fun o => o.clientOrderId = t.clientOrderId).map Order.result) := by
  simp only [Ledger.answers, serve, queryRequest_queried?]
  cases l.book.find? fun o => o.clientOrderId = t.clientOrderId with
  | none => exact queryReply_absent env
  | some o => exact queryReply_order env o

/-! ## A run that settles -/

/-- The query is answered for good: there is no such order, or it is at rest and can be
stored. -/
def Round.Settles (x : Round) (env : Deployment) (t : Trade) : Prop :=
  match queryReply env (x.ends (queryRequest t.symbol t.clientOrderId)) with
  | .ok none => True
  | .ok (some result) =>
    (binanceStatusMap result.status).isReconcilable = false ∧ result.isStorable = true
  | .error _ => False

/-- Such an answer is one that the row takes. -/
theorem answer_of_settles {x : Round} (h : x.Settles env t) :
    ∃ answer, queryReply env (x.ends (queryRequest t.symbol t.clientOrderId)) = .ok answer ∧
      ∀ result, answer = some result → result.fits t = true := by
  simp only [Round.Settles] at h
  cases hreply : queryReply env (x.ends (queryRequest t.symbol t.clientOrderId)) with
  | error e =>
    rw [hreply] at h
    exact h.elim
  | ok answer =>
    refine ⟨answer, rfl, ?_⟩
    rintro result rfl
    rw [hreply] at h
    exact fits_of_isStorable result t h.2

/-- The row that a run at this moment makes of an open trade. -/
abbrev Round.settled (x : Round) (env : Deployment) (now : DateTime) (t : Trade) : Trade :=
  (Scene.storing x.ends).reconciled env now t

/-- The answer is a fact, and it is recorded. -/
theorem settled_eq {x : Round} (now : DateTime) (h : x.Settles env t) :
    ∃ answer, queryReply env (x.ends (queryRequest t.symbol t.clientOrderId)) = .ok answer ∧
      x.settled env now t = (answerEdits answer now).flush t now t := by
  obtain ⟨answer, hreply, hfits⟩ := answer_of_settles h
  exact ⟨answer, hreply, reconciled_storing hreply hfits⟩

theorem closed_of_settles {x : Round} (now : DateTime) (h : x.Settles env t) :
    (x.settled env now t).status.isReconcilable = false := by
  obtain ⟨answer, hreply, hrow⟩ := settled_eq now h
  rw [hrow]
  cases answer with
  | none => rw [status_flush (e := answerEdits none now) rfl]; rfl
  | some result =>
    simp only [Round.Settles, hreply] at h
    rw [status_flush (e := answerEdits (some result) now) rfl]
    exact h.1

theorem not_raises_of_settles {x : Round} {now : DateTime} (h : x.Settles env t) :
    (Scene.storing x.ends).raises env now t = false := by
  obtain ⟨answer, hreply, hfits⟩ := answer_of_settles h
  have hanswer : (Scene.storing x.ends).answer env t = .ok answer := hreply
  have hflush := (flushError_answer t answer now).mpr hfits
  simp only [Scene.raises, Scene.outcome, hanswer, Scene.refusal_storing, hflush]

/-! ## What a run leaves overdue -/

/-- Without repetitions, what is not among the first elements is behind them. -/
theorem filter_notMem_take {α : Type} [DecidableEq α] {l : List α} (h : l.Nodup) (n : Nat) :
    l.filter (fun a => a ∉ l.take n) = l.drop n := by
  have hsplit : l.take n ++ l.drop n = l := List.take_append_drop n l
  have hdisjoint : (l.take n).Disjoint (l.drop n) := List.disjoint_take_drop h le_rfl
  calc l.filter (fun a => a ∉ l.take n)
      = (l.take n ++ l.drop n).filter (fun a => a ∉ l.take n) := by rw [hsplit]
    _ = (l.drop n).filter (fun a => a ∉ l.take n) := by
        rw [List.filter_append, List.filter_eq_nil_iff.mpr (by simp), List.nil_append]
    _ = l.drop n := by
        refine List.filter_eq_self.mpr fun a ha => ?_
        exact decide_eq_true fun hfront => hdisjoint hfront ha

/-- Of the overdue trades a run reaches the first ones, up to its limit. -/
theorem reached_iff {x : Round} {pre : List Trade}
    (hcutoff : cutoff ≤ w.clock - olderThanSeconds * 1000000)
    (hsettles : ∀ t ∈ w.overdue cutoff, x.Settles env t)
    (hpre : pre <+: (x.starts w).selected olderThanSeconds limit)
    (hgood : ∀ good, good <+: (x.starts w).selected olderThanSeconds limit →
      (∀ t ∈ good, (Scene.storing x.ends).raises env (x.starts w).clock t = false) → good <+: pre)
    (ht : t ∈ w.overdue cutoff) : t ∈ pre ↔ t ∈ (w.overdue cutoff).take limit := by
  obtain ⟨behind, hselected⟩ := selected_starts limit x hcutoff
  rw [List.take_append] at hselected
  constructor
  · intro hmem
    have hsel := hpre.subset hmem
    rw [hselected] at hsel
    rcases List.mem_append.mp hsel with hfront | hback
    · exact hfront
    · -- behind the overdue trades there is room only if all of them are selected
      have hroom : (w.overdue cutoff).length ≤ limit := by
        by_contra hmore
        rw [show limit - (w.overdue cutoff).length = 0 by omega, List.take_zero] at hback
        cases hback
      rwa [List.take_of_length_le hroom]
  · intro hfront
    refine (hgood _ ?_ ?_).subset hfront
    · rw [hselected]
      exact List.prefix_append _ _
    · intro s hs
      exact not_raises_of_settles (hsettles s (List.mem_of_mem_take hs))

/-- A row after such a run is overdue if it was and the run did not reach it. -/
theorem overdue_rewritten {x : Round} {pre : List Trade}
    (hsettles : ∀ t ∈ w.overdue cutoff, x.Settles env t)
    (hopen : ∀ t ∈ pre, t.isTerminal = false) {now : DateTime} (ht : t ∈ w.trades.rows) :
    (((Scene.storing x.ends).rewritten env now pre t).status.isReconcilable &&
        ((Scene.storing x.ends).rewritten env now pre t).createdAt < cutoff) =
      ((t.status.isReconcilable && t.createdAt < cutoff) && decide (t ∉ pre)) := by
  by_cases hreached : t ∈ pre
  · have hold : t.status.isReconcilable = true := by
      rw [TradeStatus.isReconcilable_eq, show t.status.isTerminal = false from hopen t hreached]
      rfl
    rw [Scene.rewritten, if_pos hreached, Scene.createdAt_reconciled]
    by_cases hage : t.createdAt < cutoff
    · have hover : t ∈ w.overdue cutoff :=
        (List.mem_insertionSort _).mpr (List.mem_filter.mpr ⟨ht, by simp [hold, hage]⟩)
      rw [closed_of_settles _ (hsettles t hover)]
      simp [hreached]
    · simp [hage]
  · rw [Scene.rewritten, if_neg hreached]
    simp [hreached]

/-- A run that settles what it reaches leaves the overdue trades behind its limit. -/
theorem overdue_settled {x : Round} {pre : List Trade}
    (hcutoff : cutoff ≤ w.clock - olderThanSeconds * 1000000)
    (hsettles : ∀ t ∈ w.overdue cutoff, x.Settles env t)
    (hpre : pre <+: (x.starts w).selected olderThanSeconds limit)
    (hgood : ∀ good, good <+: (x.starts w).selected olderThanSeconds limit →
      (∀ t ∈ good, (Scene.storing x.ends).raises env (x.starts w).clock t = false) → good <+: pre) :
    ((Scene.storing x.ends).afterEach env (x.starts w) pre).overdue cutoff =
      (w.overdue cutoff).drop limit := by
  have hopen : ∀ t ∈ pre, t.isTerminal = false := fun t ht =>
    (mem_selectReconcilable (hpre.subset ht)).2.1
  have hmem : ∀ t ∈ pre, t ∈ (x.starts w).trades.rows := fun t ht =>
    (mem_selectReconcilable (hpre.subset ht)).1
  have hnodup : pre.Nodup := hpre.sublist.nodup nodup_selectReconcilable
  have hrows := Scene.rows_afterEach (.storing x.ends) env hmem hnodup
  -- the rows that stay overdue are as they were
  have hfilter : (((x.starts w).trades.rows.map
      ((Scene.storing x.ends).rewritten env (x.starts w).clock pre)).filter
        fun t => t.status.isReconcilable && t.createdAt < cutoff) =
      (w.trades.rows.filter fun t => t.status.isReconcilable && t.createdAt < cutoff).filter
        fun t => t ∉ pre := by
    rw [List.filter_map, List.filter_filter]
    have hsel : ∀ r ∈ w.trades.rows,
        ((fun t : Trade => t.status.isReconcilable && decide (t.createdAt < cutoff)) ∘
          (Scene.storing x.ends).rewritten env (x.starts w).clock pre) r =
        (decide (r ∉ pre) && (r.status.isReconcilable && decide (r.createdAt < cutoff))) := by
      intro r hr
      rw [Bool.and_comm (decide _)]
      exact overdue_rewritten hsettles hopen hr
    rw [show (x.starts w).trades.rows = w.trades.rows from rfl, List.filter_congr hsel]
    refine (List.map_congr_left fun r hr => ?_).trans (List.map_id _)
    have hkept := (List.mem_filter.mp hr).2
    rw [Bool.and_eq_true, decide_eq_true_eq] at hkept
    exact if_neg hkept.1
  calc ((Scene.storing x.ends).afterEach env (x.starts w) pre).overdue cutoff
      = (w.overdue cutoff).filter fun t => t ∉ pre := by
        rw [World.overdue, hrows, hfilter, ← Sorting.filter_insertionSort, ← World.overdue]
    _ = (w.overdue cutoff).filter fun t => t ∉ (w.overdue cutoff).take limit := by
        refine List.filter_congr fun t ht => ?_
        exact decide_eq_decide.mpr (not_congr (reached_iff hcutoff hsettles hpre hgood ht))
    _ = (w.overdue cutoff).drop limit := filter_notMem_take (nodup_overdue cutoff) limit

/-- The rows that a run settles, and those that were at rest before. -/
theorem mem_afterEach (env : Deployment) (x : Round) {pre : List Trade}
    (hmem : ∀ t ∈ pre, t ∈ w.trades.rows) (hnodup : pre.Nodup) (ht : t ∈ w.trades.rows) :
    (t ∈ pre → x.settled env w.clock t ∈
        ((Scene.storing x.ends).afterEach env w pre).trades.rows) ∧
      (t ∉ pre → t ∈ ((Scene.storing x.ends).afterEach env w pre).trades.rows) := by
  rw [Scene.rows_afterEach _ _ hmem hnodup]
  constructor
  · intro hreached
    refine List.mem_map.mpr ⟨t, ht, ?_⟩
    rw [Scene.rewritten, if_pos hreached]
  · intro hreached
    refine List.mem_map.mpr ⟨t, ht, ?_⟩
    rw [Scene.rewritten, if_neg hreached]

/-! ## All runs -/

/-- The row of the trade is what one of these runs made of it. -/
def SettledBy (env : Deployment) (rounds : List Round) (t : Trade) (u : World) : Prop :=
  ∃ x ∈ rounds, ∃ now, x.settled env now t ∈ u.trades.rows

variable (env i tag limit) in
/-- A row at rest stays as it is. -/
theorem batches_keep {rounds : List Round} {u : World}
    (h : batches env i tag olderThanSeconds limit rounds w = some u) (ht : t ∈ w.trades.rows)
    (hrest : t.isTerminal = true) : t ∈ u.trades.rows := by
  induction rounds generalizing w with
  | nil =>
    cases h
    exact ht
  | cons x rest ih =>
    obtain ⟨pre, hpre, hbatches, -⟩ := one_batch env i tag olderThanSeconds limit x w
    rw [hbatches] at h
    have hmem : ∀ s ∈ pre, s ∈ (x.starts w).trades.rows := fun s hs =>
      (mem_selectReconcilable (hpre.subset hs)).1
    refine ih h ((mem_afterEach env x hmem (hpre.sublist.nodup nodup_selectReconcilable) ht).2 ?_)
    intro hreached
    have hopen := (mem_selectReconcilable (hpre.subset hreached)).2.1
    rw [hrest] at hopen
    cases hopen

variable (env i tag limit) in
/-- **Batches settle the oldest trades first.** Let runs of the batch follow one another, after
any pauses, and let every query about a trade that is overdue at the start be answered for good.
Then `k` runs settle exactly the oldest `k * limit` of these trades, whatever becomes overdue in
the meantime and whatever the exchange answers about that. -/
theorem batches_settle {rounds : List Round}
    (hcutoff : cutoff ≤ w.clock - olderThanSeconds * 1000000)
    (hsettles : ∀ x ∈ rounds, ∀ t ∈ w.overdue cutoff, x.Settles env t) :
    ∃ u, batches env i tag olderThanSeconds limit rounds w = some u ∧
      u.overdue cutoff = (w.overdue cutoff).drop (rounds.length * limit) ∧
      ∀ t ∈ (w.overdue cutoff).take (rounds.length * limit), SettledBy env rounds t u := by
  induction rounds generalizing w with
  | nil => exact ⟨w, rfl, by simp, by simp⟩
  | cons x rest ih =>
    obtain ⟨pre, hpre, hbatches, hgood⟩ := one_batch env i tag olderThanSeconds limit x w
    have hfirst : ∀ t ∈ w.overdue cutoff, x.Settles env t := hsettles x List.mem_cons_self
    have hover := overdue_settled hcutoff hfirst hpre hgood
    obtain ⟨u, hu, hleft, hsettled⟩ := ih
      (w := (Scene.storing x.ends).afterEach env (x.starts w) pre)
      (by rw [Scene.clock_afterEach]; exact le_starts hcutoff)
      (fun y hy t ht => by
        rw [hover] at ht
        exact hsettles y (List.mem_cons_of_mem _ hy) t (List.mem_of_mem_drop ht))
    have hcount : (x :: rest).length * limit = limit + rest.length * limit := by
      rw [List.length_cons, Nat.succ_mul, Nat.add_comm]
    rw [hover] at hleft hsettled
    refine ⟨u, (hbatches rest).trans hu, ?_, ?_⟩
    · rw [hleft, List.drop_drop, hcount]
    · intro t ht
      rw [hcount, List.take_add] at ht
      rcases List.mem_append.mp ht with ht | ht
      · -- this run settles the trade, and no later one selects it
        have hold := List.mem_of_mem_take ht
        have hmem : ∀ s ∈ pre, s ∈ (x.starts w).trades.rows := fun s hs =>
          (mem_selectReconcilable (hpre.subset hs)).1
        have hrow := (mem_afterEach env x hmem
          (hpre.sublist.nodup nodup_selectReconcilable) (mem_overdue hold)).1
            ((reached_iff hcutoff hfirst hpre hgood hold).mpr ht)
        have hrest : (x.settled env (x.starts w).clock t).isTerminal = true := by
          have hclosed := closed_of_settles (x.starts w).clock (hfirst t hold)
          rw [TradeStatus.isReconcilable_eq] at hclosed
          simpa [Trade.isTerminal] using hclosed
        exact ⟨x, List.mem_cons_self, _, batches_keep env i tag limit hu hrow hrest⟩
      · obtain ⟨y, hy, now, hrow⟩ := hsettled t ht
        exact ⟨y, List.mem_cons_of_mem _ hy, now, hrow⟩

/-- The exchange answers every query with a filled order. -/
def Sample.answered : Round := ⟨60, fun _ => .response Sample.filled.response⟩

/-- Two overdue trades and a limit of one: one run settles one of them, two settle both. -/
theorem batches_settle_both :
    (∃ u, batches Sample.inline 0 ⟨0, .batch 60 1⟩ 60 1 [Sample.answered] Sample.both = some u ∧
      (u.overdue 2).length = 1) ∧
    ∃ u, batches Sample.inline 0 ⟨0, .batch 60 1⟩ 60 1 [Sample.answered, Sample.answered]
        Sample.both = some u ∧ u.overdue 2 = [] := by
  have hcutoff : (2 : Int) ≤ Sample.both.clock - 60 * 1000000 := by decide +kernel
  have hsettles : ∀ rounds : List Round, (∀ x ∈ rounds, x = Sample.answered) →
      ∀ x ∈ rounds, ∀ t ∈ Sample.both.overdue 2, x.Settles Sample.inline t := by
    intro rounds hrounds x hx t _
    rw [hrounds x hx]
    simp only [Round.Settles, Sample.answered, queryReply_order]
    decide +kernel
  constructor
  · obtain ⟨u, hu, hleft, -⟩ := batches_settle Sample.inline 0 ⟨0, .batch 60 1⟩ 1 hcutoff
      (hsettles [Sample.answered] (by simp))
    refine ⟨u, hu, ?_⟩
    rw [hleft]
    decide +kernel
  · obtain ⟨u, hu, hleft, -⟩ := batches_settle Sample.inline 0 ⟨0, .batch 60 1⟩ 1 hcutoff
      (hsettles [Sample.answered, Sample.answered] (by simp))
    refine ⟨u, hu, ?_⟩
    rw [hleft]
    decide +kernel

/-! ## Against the exchange -/

/-- The row says what the exchange holds. -/
structure Trade.Shows (t : Trade) (o : Order) : Prop where
  status : t.status = binanceStatusMap o.state.text
  binanceOrderId : t.binanceOrderId = some o.orderId
  binanceStatus : t.binanceStatus = some o.state.text
  executed : t.executedQuantity.map Decimal.store = some o.executed.store
  quote : t.cumulativeQuoteQuantity.map Decimal.store = some o.cumulativeQuote.store

/-- The row says that the exchange holds no order. -/
structure Trade.ShowsNone (t : Trade) : Prop where
  status : t.status = .failed
  errorCode : t.errorCode = some "order_not_found"

/-- What a flush leaves in a column of amounts. -/
theorem numeric_flush_store (loaded : Option Decimal) (d : Decimal) :
    (numeric.flush loaded (some (some d)) loaded).map Decimal.store = some d.store := by
  simp only [Attribute.flush]
  split
  · rename_i hsame
    cases loaded with
    | none => cases hsame
    | some d' => exact congrArg some (Decimal.store_congr hsame).symm
  · exact congrArg some (Decimal.store_store d)

theorem shows_found (o : Order) (t : Trade) (now : DateTime) :
    ((foundEdits o.result now).flush t now t).Shows o where
  status := status_flush (e := foundEdits o.result now) rfl t now
  binanceOrderId := plain_flush_self _ _
  binanceStatus := plain_flush_self _ _
  executed := numeric_flush_store _ _
  quote := numeric_flush_store _ _

theorem showsNone_absent (t : Trade) (now : DateTime) :
    ((absentEdits now).flush t now t).ShowsNone where
  status := status_flush (e := absentEdits now) rfl t now
  errorCode := plain_flush_self _ _

variable (env i tag limit) in
/-- **Batches bring the rows in line with the exchange.** Take any reachable state in which the
orders that the exchange holds have come to their ends, with values that can be stored. After as many runs of the batch as the
limit needs for the trades that are overdue, with any pauses between them, none of these is open
any more. The row of each of them says what the exchange holds for its client order id: the order,
with its id, status and amounts, or that there is none. -/
theorem batches_agree_with_exchange {users : List User} {clock : DateTime}
    {ls : List (Label (service env))} {P : Pool (service env)}
    (h : Run (service env).system unguarded (Pool.idle (.initial users clock)) ls P)
    (hrest : ∀ o ∈ P.shared.book, o.atRest)
    (hstored : ∀ o ∈ P.shared.book, o.result.isStorable = true) {pauses : List Nat}
    (hcutoff : cutoff ≤ P.shared.clock - olderThanSeconds * 1000000)
    (hcount : (P.shared.overdue cutoff).length ≤ pauses.length * limit) :
    ∃ u, batches env i tag olderThanSeconds limit
        (pauses.map fun d => ⟨d, P.shared.toLedger.answers⟩) P.shared = some u ∧
      u.overdue cutoff = [] ∧
      ∀ t ∈ P.shared.overdue cutoff, ∃ t' ∈ u.trades.rows, t'.terms = t.terms ∧
        (∀ o ∈ P.shared.book, o.clientOrderId = t.clientOrderId → t'.Shows o) ∧
        ((∀ o ∈ P.shared.book, o.clientOrderId ≠ t.clientOrderId) → t'.ShowsNone) := by
  have hB := booked_of_run h
  have hsettles : ∀ x ∈ pauses.map (fun d => (⟨d, P.shared.toLedger.answers⟩ : Round)),
      ∀ t ∈ P.shared.overdue cutoff, x.Settles env t := by
    intro x hx t _
    obtain ⟨d, -, rfl⟩ := List.mem_map.mp hx
    simp only [Round.Settles, answers_query]
    cases hfind : P.shared.book.find? fun o => o.clientOrderId = t.clientOrderId with
    | none => exact trivial
    | some o =>
      have ho := List.mem_of_find?_eq_some hfind
      exact ⟨hrest o ho, hstored o ho⟩
  obtain ⟨u, hu, hleft, hsettled⟩ := batches_settle env i tag limit hcutoff hsettles
  rw [List.length_map] at hleft hsettled
  refine ⟨u, hu, by rw [hleft, List.drop_eq_nil_of_le hcount], ?_⟩
  intro t ht
  rw [List.take_of_length_le hcount] at hsettled
  obtain ⟨x, hx, now, hrow⟩ := hsettled t ht
  obtain ⟨answer, hreply, hflush⟩ := settled_eq now (hsettles x hx t ht)
  obtain ⟨d, -, rfl⟩ := List.mem_map.mp hx
  rw [answers_query] at hreply
  refine ⟨_, hrow, Scene.terms_reconciled, ?_, ?_⟩
  · intro o ho hid
    -- the exchange holds one order under a client order id
    have hfind : (P.shared.book.find? fun o' => o'.clientOrderId = t.clientOrderId) = some o := by
      obtain ⟨o', ho'⟩ : ∃ o', (P.shared.book.find? fun o' =>
          o'.clientOrderId = t.clientOrderId) = some o' := by
        rw [← Option.isSome_iff_exists, List.find?_isSome]
        exact ⟨o, ho, decide_eq_true hid⟩
      have hid' : o'.clientOrderId = t.clientOrderId := by simpa using List.find?_some ho'
      rw [ho', List.inj_on_of_nodup_map hB.distinct (List.mem_of_find?_eq_some ho') ho
        (hid'.trans hid.symm)]
    rw [hfind] at hreply
    rw [hflush, ← Except.ok.inj hreply]
    exact shows_found o t now
  · intro hnone
    have hfind : (P.shared.book.find? fun o => o.clientOrderId = t.clientOrderId) = none :=
      List.find?_eq_none.mpr fun o ho => by simpa using hnone o ho
    rw [hfind] at hreply
    rw [hflush, ← Except.ok.inj hreply]
    exact showsNone_absent t now

/-- The order is placed and filled, and the process dies before it hears of it. -/
def Sample.bereft : List (Label (service Sample.inline)) :=
  [Sample.occurs _ (.webhook 0 Sample.signal)] ++ Sample.steps _ 0 9 ++
    [Sample.occurs _ (.arrive 0 (.accept Sample.filled)), Sample.occurs _ (.crash 0),
      Sample.occurs _ (.tick 3600000000)]

theorem Sample.bereft_follows :
    ((service Sample.inline).system.follow unguarded (Sample.start _) Sample.bereft).isSome := by
  decide +kernel

/-- One run finds the order. -/
theorem batches_agree_with_exchange_bereft :
    ∃ P u, Run (service Sample.inline).system unguarded (Sample.start _) Sample.bereft P ∧
      P.shared.trades.rows.map Trade.status = [.pending] ∧
      batches Sample.inline 0 ⟨0, .batch 60 1⟩ 60 1 [⟨0, P.shared.toLedger.answers⟩] P.shared =
        some u ∧
      ∃ t' ∈ u.trades.rows, t'.Shows Sample.filled := by
  have h := System.run_get Sample.bereft_follows
  have hbook : ((((service Sample.inline).system.follow unguarded (Sample.start _)
      Sample.bereft).get Sample.bereft_follows).shared.book) = [Sample.filled] := by decide +kernel
  have hcutoff : (60 : Int) ≤ (((service Sample.inline).system.follow unguarded (Sample.start _)
      Sample.bereft).get Sample.bereft_follows).shared.clock - 60 * 1000000 := by decide +kernel
  have hover : ∃ t ∈ (((service Sample.inline).system.follow unguarded (Sample.start _)
      Sample.bereft).get Sample.bereft_follows).shared.overdue 60,
        t.clientOrderId = Sample.filled.clientOrderId := by decide +kernel
  have hcount : ((((service Sample.inline).system.follow unguarded (Sample.start _)
      Sample.bereft).get Sample.bereft_follows).shared.overdue 60).length ≤ [0].length * 1 := by
    decide +kernel
  obtain ⟨u, hu, -, hrows⟩ := batches_agree_with_exchange Sample.inline 0 ⟨0, .batch 60 1⟩ 1 h
    (by rw [hbook]; exact List.forall_mem_singleton.mpr rfl)
    (by rw [hbook]; exact List.forall_mem_singleton.mpr (by decide +kernel)) hcutoff hcount
  obtain ⟨t, ht, hid⟩ := hover
  obtain ⟨t', ht', -, hshows, -⟩ := hrows t ht
  refine ⟨_, u, h, by decide +kernel, hu, t', ht', hshows _ ?_ hid.symm⟩
  rw [hbook]
  exact List.mem_singleton.mpr rfl

end AutoTrader
