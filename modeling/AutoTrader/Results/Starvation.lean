import AutoTrader.Results.Batches
import AutoTrader.Sorting.Partition

/-!
# Trades that no batch ever reaches

A batch takes the oldest open trades, up to its limit, and leaves behind what it cannot
settle. The next batch orders by the same column and finds the same trades in front. As long
as they stay open nobody asks about the ones behind them: the batches that should suffice
for all open trades reach all of them exactly when the first one does.
-/

namespace AutoTrader

open Python Coroutine UnitOfWork

variable {S : Scene} {env : Deployment} {i : Nat} {tag : Tag} {w : World} {t : Trade}
  {olderThanSeconds : Int} {limit : Nat}

/-! ## Runs of the batch, one after another -/

/-- The open trades older than the cutoff, oldest first. -/
def World.overdue (w : World) (cutoff : DateTime) : List Trade :=
  (w.trades.rows.filter fun t => t.status.isReconcilable && t.createdAt < cutoff).insertionSort
    fun s t => s.createdAt ≤ t.createdAt

/-- One run of the batch after a pause, in a scene where commits succeed. -/
structure Round where
  pause : Nat
  ends : HttpRequest → Transport

/-- The world at the start of the run. -/
def Round.starts (x : Round) (w : World) : World := { w with clock := w.clock + x.pause }

/-- Runs of the batch, one after another; one that raises is over, and the next one comes. -/
def batches (env : Deployment) (i : Nat) (tag : Tag) (olderThanSeconds : Int) (limit : Nat) :
    List Round → World → Option World
  | [], w => some w
  | x :: rest, w =>
    ((Scene.storing x.ends).run env i tag (reconcilePendingTrades env olderThanSeconds limit).run
      (x.starts w)).bind fun p => batches env i tag olderThanSeconds limit rest p.2

/-- The query leaves the trade open: it fails, or the order is still open and can be stored. -/
def Round.LeavesOpen (x : Round) (env : Deployment) (t : Trade) : Prop :=
  match queryReply env (x.ends (queryRequest t.symbol t.clientOrderId)) with
  | .ok (some result) =>
    (binanceStatusMap result.status).isReconcilable = true ∧ result.isStorable = true
  | .error (.binance _) => True
  | _ => False

/-- The runs ask the exchange about every trade that is overdue at the start. -/
def ReachesAll (env : Deployment) (i : Nat) (tag : Tag) (olderThanSeconds : Int) (limit : Nat)
    (rounds : List Round) (w : World) : Prop :=
  ∃ u, batches env i tag olderThanSeconds limit rounds w = some u ∧
    ∀ t ∈ w.overdue (w.clock - olderThanSeconds * 1000000), queryFor t ∈ u.calls.drop w.calls.length

/-- A later cutoff adds trades behind those that were overdue before. -/
theorem overdue_append {cutoff later : DateTime} (h : cutoff ≤ later) :
    ∃ rest, w.overdue later = w.overdue cutoff ++ rest := by
  have hsplit := Sorting.insertionSort_partition (r := fun s t : Trade => s.createdAt ≤ t.createdAt)
    (l := w.trades.rows.filter fun t => t.status.isReconcilable && t.createdAt < later)
    (fun t => decide (t.createdAt < cutoff)) (by
      intro s _ t _ hs ht
      have hs' : s.createdAt < cutoff := of_decide_eq_true hs
      have ht' : ¬ t.createdAt < cutoff := of_decide_eq_false ht
      have hlt : s.createdAt < t.createdAt := lt_of_lt_of_le hs' (not_lt.mp ht')
      exact ⟨le_of_lt hlt, not_le.mpr hlt⟩)
  have hfront : (w.trades.rows.filter fun t => t.status.isReconcilable && t.createdAt < later).filter
      (fun t => decide (t.createdAt < cutoff)) =
        w.trades.rows.filter fun t => t.status.isReconcilable && t.createdAt < cutoff := by
    rw [List.filter_filter]
    refine List.filter_congr fun t _ => ?_
    by_cases ht : t.createdAt < cutoff
    · simp [ht, lt_of_lt_of_le ht h]
    · simp [ht]
  rw [hfront] at hsplit
  exact ⟨_, hsplit⟩

/-! ## One run -/

theorem leavesOpen_of_terms {x : Round} {s : Trade} (h : s.terms = t.terms)
    (hx : x.LeavesOpen env t) : x.LeavesOpen env s := by
  rw [Round.LeavesOpen, Scene.query_of_terms h]
  exact hx

theorem queryFor_of_terms {s : Trade} (h : s.terms = t.terms) : queryFor s = queryFor t := by
  rw [queryFor, Scene.query_of_terms h, queryFor]

theorem not_raises_of_leavesOpen {x : Round} {now : DateTime} (h : x.LeavesOpen env t) :
    (Scene.storing x.ends).raises env now t = false := by
  have hfits : ∀ result, (Scene.storing x.ends).answer env t = .ok (some result) →
      result.fits t = true := by
    intro result hanswer
    have hreply : queryReply env (x.ends (queryRequest t.symbol t.clientOrderId)) =
      .ok (some result) := hanswer
    simp only [Round.LeavesOpen, hreply] at h
    exact fits_of_isStorable result t h.2
  rw [← Bool.not_eq_true, raises_storing_iff rfl hfits]
  intro hbreaks
  rcases queryReply_cases env (x.ends (queryRequest t.symbol t.clientOrderId)) with
    ⟨-, -, hno, -⟩ | ⟨-, -, hno, -⟩ | ⟨-, -, -, e, hreply, he⟩ | ⟨-, -, hno, -⟩
  · rw [hbreaks] at hno
    cases hno
  · rw [hbreaks] at hno
    cases hno
  · simp only [Round.LeavesOpen, hreply] at h
    cases e with
    | binance b => exact he b rfl
    | _ => exact h
  · rw [hbreaks] at hno
    cases hno

theorem open_of_leavesOpen {x : Round} {now : DateTime} (h : x.LeavesOpen env t)
    (hopen : t.status.isReconcilable = true) :
    ((Scene.storing x.ends).reconciled env now t).status.isReconcilable = true := by
  simp only [Round.LeavesOpen] at h
  cases hanswer : (Scene.storing x.ends).answer env t with
  | error e =>
    simp only [Scene.reconciled, hanswer]
    exact hopen
  | ok answer =>
    have hreply : queryReply env (x.ends (queryRequest t.symbol t.clientOrderId)) = .ok answer :=
      hanswer
    rw [hreply] at h
    cases answer with
    | none => exact h.elim
    | some result =>
      have hfits : ∀ found, some result = some found → found.fits t = true := by
        rintro found ⟨⟩
        exact fits_of_isStorable result t h.2
      rw [reconciled_storing hanswer hfits, answerEdits, status_flush (e := foundEdits result now) rfl]
      exact h.1

/-- A run that leaves the overdue trades open leaves them in their order. -/
theorem overdue_afterEach {x : Round} {cutoff : DateTime} {pre : List Trade}
    (hstuck : ∀ t ∈ w.overdue cutoff, x.LeavesOpen env t)
    (hmem : ∀ t ∈ pre, t ∈ w.trades.rows ∧ t.isTerminal = false) (hnodup : pre.Nodup) :
    ((Scene.storing x.ends).afterEach env w pre).overdue cutoff =
      (w.overdue cutoff).map ((Scene.storing x.ends).rewritten env w.clock pre) := by
  have hcreated : ∀ r, ((Scene.storing x.ends).rewritten env w.clock pre r).createdAt =
      r.createdAt := by
    intro r
    rw [Scene.rewritten]
    split
    · exact Scene.createdAt_reconciled
    · rfl
  have hstatus : ∀ r ∈ w.trades.rows, r.createdAt < cutoff →
      ((Scene.storing x.ends).rewritten env w.clock pre r).status.isReconcilable =
        r.status.isReconcilable := by
    intro r hr hage
    rw [Scene.rewritten]
    split
    · rename_i hpre
      have hopen : r.status.isReconcilable = true := by
        rw [TradeStatus.isReconcilable_eq, show r.status.isTerminal = false from (hmem r hpre).2]
        rfl
      have hover : r ∈ w.overdue cutoff :=
        (List.mem_insertionSort _).mpr (List.mem_filter.mpr ⟨hr, by simp [hopen, hage]⟩)
      rw [hopen, open_of_leavesOpen (hstuck r hover) hopen]
    · rfl
  have hfilter : (w.trades.rows.filter
      ((fun t : Trade => t.status.isReconcilable && t.createdAt < cutoff) ∘
        (Scene.storing x.ends).rewritten env w.clock pre)) =
      w.trades.rows.filter fun t => t.status.isReconcilable && t.createdAt < cutoff := by
    refine List.filter_congr fun r hr => ?_
    by_cases hage : r.createdAt < cutoff
    · simp [hcreated, hage, hstatus r hr hage]
    · simp [hcreated, hage]
  rw [World.overdue, Scene.rows_afterEach _ _ (fun t ht => (hmem t ht).1) hnodup, List.filter_map,
    hfilter, World.overdue]
  symm
  refine List.map_insertionSort (r := fun s t : Trade => s.createdAt ≤ t.createdAt)
    (s := fun s t : Trade => s.createdAt ≤ t.createdAt) _ _ fun a _ b _ => ?_
  rw [hcreated, hcreated]

theorem terms_rewritten {now : DateTime} {ts : List Trade} :
    (S.rewritten env now ts t).terms = t.terms := by
  rw [Scene.rewritten]
  split
  · exact Scene.terms_reconciled
  · rfl

/-! ## All runs -/

variable (env i tag olderThanSeconds limit) in
/-- One run reconciles the selected trades up to some point, and all of them up to the first one
that raises. -/
theorem one_batch (x : Round) (w : World) :
    ∃ pre, pre <+: (x.starts w).selected olderThanSeconds limit ∧
      (∀ rest, batches env i tag olderThanSeconds limit (x :: rest) w =
        batches env i tag olderThanSeconds limit rest
          ((Scene.storing x.ends).afterEach env (x.starts w) pre)) ∧
      ∀ good, good <+: (x.starts w).selected olderThanSeconds limit →
        (∀ t ∈ good, (Scene.storing x.ends).raises env (x.starts w).clock t = false) →
          good <+: pre := by
  have hopen : ∀ t ∈ (x.starts w).selected olderThanSeconds limit, t.isTerminal = false :=
    fun t ht => (mem_selectReconcilable ht).2.1
  obtain ⟨r, pre, hpre, hrun, hgood⟩ :=
    Scene.run_reconcileEach_prefix (.storing x.ends) env i tag (w := x.starts w) hopen ⟨0, 0, 0⟩
  refine ⟨pre, hpre, fun rest => ?_, hgood⟩
  rw [batches, Scene.run_reconcilePendingTrades, hrun]
  rfl

theorem le_starts {x : Round} {cutoff : DateTime}
    (h : cutoff ≤ w.clock - olderThanSeconds * 1000000) :
    cutoff ≤ (x.starts w).clock - olderThanSeconds * 1000000 :=
  le_trans h (sub_le_sub_right (le_add_of_nonneg_right (Int.natCast_nonneg _)) _)

variable (limit) in
/-- What a run selects first are the trades that were overdue before. -/
theorem selected_starts (x : Round) {cutoff : DateTime}
    (h : cutoff ≤ w.clock - olderThanSeconds * 1000000) :
    ∃ behind, (x.starts w).selected olderThanSeconds limit =
      (w.overdue cutoff ++ behind).take limit := by
  obtain ⟨behind, hbehind⟩ := overdue_append (w := x.starts w) (le_starts (x := x) h)
  exact ⟨behind, congrArg (List.take limit) hbehind⟩

variable (i tag limit) in
/-- Runs that leave the overdue trades open ask only about the first ones, if there are more
than the limit. -/
theorem batches_ask_the_first {rounds : List Round} {cutoff : DateTime}
    (hstuck : ∀ x ∈ rounds, ∀ t ∈ w.overdue cutoff, x.LeavesOpen env t)
    (hcutoff : cutoff ≤ w.clock - olderThanSeconds * 1000000) :
    ∃ u asked, batches env i tag olderThanSeconds limit rounds w = some u ∧
      u.calls = w.calls ++ asked ∧
      (limit ≤ (w.overdue cutoff).length →
        ∀ q ∈ asked, ∃ t ∈ (w.overdue cutoff).take limit, q = queryFor t) := by
  induction rounds generalizing w with
  | nil => exact ⟨w, [], rfl, (List.append_nil _).symm, fun _ q hq => by cases hq⟩
  | cons x rest ih =>
    obtain ⟨pre, hpre, hbatches, -⟩ := one_batch env i tag olderThanSeconds limit x w
    obtain ⟨behind, hselected⟩ := selected_starts limit x hcutoff
    have hmem : ∀ t ∈ pre, t ∈ w.trades.rows ∧ t.isTerminal = false := fun t ht =>
      have h := mem_selectReconcilable (hpre.subset ht)
      ⟨h.1, h.2.1⟩
    have hnodup : pre.Nodup := hpre.sublist.nodup nodup_selectReconcilable
    have hover : ((Scene.storing x.ends).afterEach env (x.starts w) pre).overdue cutoff = _ :=
      overdue_afterEach (w := x.starts w) (hstuck x (List.mem_cons_self ..)) hmem hnodup
    obtain ⟨u, asked, hu, hcalls, hfirst⟩ := ih
      (w := (Scene.storing x.ends).afterEach env (x.starts w) pre)
      (fun y hy t ht => by
        rw [hover] at ht
        obtain ⟨s, hs, rfl⟩ := List.mem_map.mp ht
        exact leavesOpen_of_terms terms_rewritten (hstuck y (List.mem_cons_of_mem _ hy) s hs))
      (by rw [Scene.clock_afterEach]; exact le_starts hcutoff)
    refine ⟨u, pre.map queryFor ++ asked, (hbatches rest).trans hu, ?_, ?_⟩
    · rw [hcalls, Scene.calls_afterEach, List.append_assoc]
      rfl
    · intro hlimit q hq
      rcases List.mem_append.mp hq with hq | hq
      · obtain ⟨t, ht, rfl⟩ := List.mem_map.mp hq
        have hsel : t ∈ (x.starts w).selected olderThanSeconds limit := hpre.subset ht
        rw [hselected, List.take_append_of_le_length hlimit] at hsel
        exact ⟨t, hsel, rfl⟩
      · rw [hover, List.length_map] at hfirst
        obtain ⟨t', ht', rfl⟩ := hfirst hlimit q hq
        rw [← List.map_take] at ht'
        obtain ⟨t, ht, rfl⟩ := List.mem_map.mp ht'
        exact ⟨t, ht, queryFor_of_terms terms_rewritten⟩

variable (i tag) in
/-- If the limit covers the overdue trades, the first run asks about all of them. -/
theorem first_batch_asks_all {x : Round} {cutoff : DateTime}
    (hstuck : ∀ t ∈ w.overdue cutoff, x.LeavesOpen env t)
    (hcutoff : cutoff ≤ w.clock - olderThanSeconds * 1000000)
    (hfits : (w.overdue cutoff).length ≤ limit) :
    ∃ pre, w.overdue cutoff <+: pre ∧ pre <+: (x.starts w).selected olderThanSeconds limit ∧
      ∀ rest, batches env i tag olderThanSeconds limit (x :: rest) w =
        batches env i tag olderThanSeconds limit rest
          ((Scene.storing x.ends).afterEach env (x.starts w) pre) := by
  obtain ⟨pre, hpre, hbatches, hgood⟩ := one_batch env i tag olderThanSeconds limit x w
  obtain ⟨behind, hselected⟩ := selected_starts limit x hcutoff
  refine ⟨pre, hgood _ ?_ fun t ht => not_raises_of_leavesOpen (hstuck t ht), hpre, hbatches⟩
  rw [hselected, List.take_append, List.take_of_length_le hfits]
  exact List.prefix_append _ _

theorem nodup_overdue (cutoff : DateTime) : (w.overdue cutoff).Nodup := by
  have hrows : w.trades.rows.Nodup := List.Nodup.of_map _ w.trades.primaryKey
  exact (List.perm_insertionSort _ _).nodup_iff.mpr (hrows.filter _)

theorem mem_overdue {cutoff : DateTime} (h : t ∈ w.overdue cutoff) : t ∈ w.trades.rows :=
  (List.mem_filter.mp ((List.mem_insertionSort _).mp h)).1

/-- Queries for different rows differ. -/
theorem eq_of_queryFor {s : Trade} (hs : s ∈ w.trades.rows) (ht : t ∈ w.trades.rows)
    (h : queryFor s = queryFor t) : s = t := by
  have hquery := congrArg (fun c : Call => c.request.queried?) h
  simp only [queryFor, queryRequest_queried?, Option.some.injEq] at hquery
  exact TradeTable.eq_of_clientOrderId hs ht hquery

/-- **When no trade is starved.** Let as many runs of the batch follow one another as the
limit would need for all trades that are overdue at the start, and let every query leave
these trades open. Then the runs ask about all of them if and only if the limit covers them
at once. -/
theorem reaches_all_iff {rounds : List Round} (hlimit : 1 ≤ limit)
    (hrounds : rounds.length =
      ((w.overdue (w.clock - olderThanSeconds * 1000000)).length + limit - 1) / limit)
    (hstuck : ∀ x ∈ rounds, ∀ t ∈ w.overdue (w.clock - olderThanSeconds * 1000000),
      x.LeavesOpen env t) :
    ReachesAll env i tag olderThanSeconds limit rounds w ↔
      (w.overdue (w.clock - olderThanSeconds * 1000000)).length ≤ limit := by
  generalize hcutoff : w.clock - olderThanSeconds * 1000000 = cutoff at *
  constructor
  · rintro ⟨u, hu, hall⟩
    rw [hcutoff] at hall
    by_contra hmore
    have hmore : limit < (w.overdue cutoff).length := not_le.mp hmore
    obtain ⟨u', asked, hu', hcalls, hfirst⟩ := batches_ask_the_first i tag limit hstuck
      (le_of_eq hcutoff.symm)
    rw [hu] at hu'
    cases hu'
    rw [hcalls, List.drop_left] at hall
    -- the first trade behind the limit is asked about by nobody
    have hlast : (w.overdue cutoff)[limit] ∈ w.overdue cutoff := List.getElem_mem hmore
    obtain ⟨t, ht, hq⟩ := hfirst (le_of_lt hmore) _ (hall _ hlast)
    have heq := eq_of_queryFor (mem_overdue hlast) (mem_overdue (List.mem_of_mem_take ht)) hq
    obtain ⟨k, hk, hget⟩ := List.mem_take_iff_getElem.mp ht
    rw [← hget] at heq
    have := (nodup_overdue cutoff).getElem_inj_iff.mp heq
    omega
  · intro hfits
    cases rounds with
    | nil =>
      -- no run is needed where nothing is overdue
      have hnone : w.overdue cutoff = [] := by
        rw [← List.length_eq_zero_iff]
        by_contra hsome
        have hone : 1 ≤ ((w.overdue cutoff).length + limit - 1) / limit :=
          (Nat.le_div_iff_mul_le (by omega)).mpr (by omega)
        rw [← hrounds] at hone
        exact absurd hone (by simp)
      refine ⟨w, rfl, fun t ht => ?_⟩
      rw [hcutoff, hnone] at ht
      cases ht
    | cons x rest =>
      obtain ⟨pre, hall, hpre, hbatches⟩ := first_batch_asks_all i tag
        (hstuck x (List.mem_cons_self ..)) (le_of_eq hcutoff.symm) hfits
      -- one run is enough
      obtain rfl : rest = [] := by
        have hone : ((w.overdue cutoff).length + limit - 1) / limit < 2 :=
          (Nat.div_lt_iff_lt_mul (by omega)).mpr (by omega)
        rw [← hrounds, List.length_cons] at hone
        exact List.length_eq_zero_iff.mp (by omega)
      refine ⟨_, hbatches [], fun t ht => ?_⟩
      rw [hcutoff] at ht
      rw [Scene.calls_afterEach]
      change _ ∈ List.drop w.calls.length (w.calls ++ _)
      rw [List.drop_left]
      exact List.mem_map_of_mem (hall.subset ht)

/-- Every query times out. -/
def Sample.unanswered : Round := ⟨60, fun _ => .timeout⟩

/-- Two overdue trades within the limit. -/
theorem reaches_all_iff_both :
    ReachesAll Sample.inline 0 ⟨0, .batch 60 2⟩ 60 2 [Sample.unanswered] Sample.both :=
  (reaches_all_iff (by decide) (by decide +kernel) (fun x hx t _ => by
    rw [List.mem_singleton.mp hx]
    exact trivial)).mpr (by decide +kernel)

/-- Two overdue trades, a limit of one and two runs whose queries time out: both runs ask about
the older trade. -/
theorem younger_starves :
    ¬ ∀ (rounds : List Round) (w : World) (olderThanSeconds : Int) (limit : Nat), 1 ≤ limit →
      rounds.length =
        ((w.overdue (w.clock - olderThanSeconds * 1000000)).length + limit - 1) / limit →
      (∀ x ∈ rounds, ∀ t ∈ w.overdue (w.clock - olderThanSeconds * 1000000),
        x.LeavesOpen Sample.inline t) →
      ReachesAll Sample.inline 0 ⟨0, .batch olderThanSeconds limit⟩ olderThanSeconds limit rounds
        w := by
  intro h
  obtain ⟨u, hu, hall⟩ := h [Sample.unanswered, Sample.unanswered] Sample.both 60 1 (by decide)
    (by decide +kernel) (fun x hx t _ => by
      have hx : x = Sample.unanswered := by simpa using hx
      rw [hx]
      exact trivial)
  have hmissed : (batches Sample.inline 0 ⟨0, .batch 60 1⟩ 60 1
      [Sample.unanswered, Sample.unanswered] Sample.both).map
        (fun u => u.calls.map fun c => c.request.queried?) =
      some [some Sample.clientOrderId, some Sample.clientOrderId] := by decide +kernel
  rw [hu, Option.map_some, Option.some.injEq] at hmissed
  have hasked := List.mem_of_mem_drop (hall Sample.second (by decide +kernel))
  have hquery : some Sample.second.clientOrderId ∈ u.calls.map fun c => c.request.queried? :=
    List.mem_map.mpr ⟨_, hasked, by decide +kernel⟩
  rw [hmissed] at hquery
  revert hquery
  decide +kernel

end AutoTrader
