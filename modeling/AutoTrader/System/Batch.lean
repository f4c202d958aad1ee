import AutoTrader.System.Scene

/-!
# A batch in a scene

`reconcile_pending_trades` reconciles the rows it selected, one after another. As long as no
reconciliation raises, the batch rewrites the selected rows and no others, each to what its
reconciliation alone would make of it (`rows_afterEach`), and counts the ones whose status
changed. The first reconciliation that raises ends it (`run_reconcileEach_raises`).
-/

namespace AutoTrader

open Python Coroutine

/-- The query for a trade, as a call of the exchange. -/
def queryFor (t : Trade) : Call := ⟨queryRequest t.symbol t.clientOrderId, .inFlight⟩

/-- The rows a batch selects. -/
def World.selected (w : World) (olderThanSeconds : Int) (limit : Nat) : List Trade :=
  w.selectReconcilable (w.clock - olderThanSeconds * 1000000) limit

section Selection

variable {w : World} {cutoff : DateTime} {limit : Nat}

theorem mem_selectReconcilable {t : Trade} (h : t ∈ w.selectReconcilable cutoff limit) :
    t ∈ w.trades.rows ∧ t.isTerminal = false ∧ t.createdAt < cutoff := by
  have hmem := (List.mem_insertionSort _).mp (List.mem_of_mem_take h)
  obtain ⟨hrow, hsel⟩ := List.mem_filter.mp hmem
  obtain ⟨hstatus, hage⟩ := Bool.and_eq_true_iff.mp hsel
  rw [TradeStatus.isReconcilable_eq] at hstatus
  exact ⟨hrow, by simpa [Trade.isTerminal] using hstatus, of_decide_eq_true hage⟩

theorem nodup_selectReconcilable : (w.selectReconcilable cutoff limit).Nodup := by
  have hrows : w.trades.rows.Nodup := List.Nodup.of_map _ w.trades.primaryKey
  refine List.Nodup.sublist (List.take_sublist _ _) ?_
  exact (List.perm_insertionSort _ _).nodup_iff.mpr (hrows.filter _)

end Selection

namespace Scene

variable {S : Scene} {env : Deployment} {i : Nat} {tag : Tag} {w : World} {t : Trade}
  {now : DateTime}

/-! ## One trade -/

theorem status_answerEdits (answer : Option BinanceOrderResult) (now : DateTime) :
    ∃ s, (answerEdits answer now).status = some s := by
  cases answer <;> exact ⟨_, rfl⟩

/-- The reconciliation of an open trade raises. -/
def raises (S : Scene) (env : Deployment) (now : DateTime) (t : Trade) : Bool :=
  match (S.outcome env now t).1 with
  | .ok _ => false
  | .error _ => true

/-- Otherwise it returns the status of the row. -/
theorem outcome_of_not_raises (h : S.raises env now t = false) :
    (S.outcome env now t).1 = .ok (S.reconciled env now t).status := by
  simp only [raises, outcome, reconciled] at h ⊢
  cases hanswer : S.answer env t with
  | error e =>
    cases e with
    | binance b => rfl
    | _ => simp [hanswer] at h
  | ok answer =>
    cases hrefused : S.refusal now t (answerEdits answer now) with
    | some e => simp [hanswer, hrefused] at h
    | none =>
      obtain ⟨s, hs⟩ := status_answerEdits answer now
      simp only [hrefused, status_flush hs, Edits.view, hs, Option.getD_some]

theorem outcome_of_raises (h : S.raises env now t = true) :
    ∃ e, (S.outcome env now t).1 = .error e := by
  simp only [raises] at h
  split at h
  · cases h
  · rename_i e he
    exact ⟨e, he⟩

@[simp] theorem clock_after : (S.after env w t).clock = w.clock := by
  simp only [after]
  split
  · split <;> rfl
  · rfl

@[simp] theorem calls_after : (S.after env w t).calls = w.calls ++ [queryFor t] := by
  simp only [after]
  split
  · split <;> rfl
  · rfl

theorem terms_reconciled : (S.reconciled env now t).terms = t.terms := by
  simp only [reconciled]
  split
  · split <;> rfl
  · rfl

theorem id_reconciled : (S.reconciled env now t).id = t.id :=
  congrArg Trade.Terms.id terms_reconciled

theorem createdAt_reconciled : (S.reconciled env now t).createdAt = t.createdAt := by
  simp only [reconciled]
  split
  · split <;> rfl
  · rfl

theorem query_of_terms {s : Trade} (h : s.terms = t.terms) :
    queryRequest s.symbol s.clientOrderId = queryRequest t.symbol t.clientOrderId := by
  rw [show s.symbol = t.symbol from congrArg Trade.Terms.symbol h,
    show s.clientOrderId = t.clientOrderId from congrArg Trade.Terms.clientOrderId h]

/-- The same question is asked again. -/
theorem answer_of_terms {s : Trade} (h : s.terms = t.terms) : S.answer env s = S.answer env t := by
  rw [answer, query_of_terms h, answer]

/-- The reconciliation rewrites one row. -/
theorem rows_after (ht : t ∈ w.trades.rows) :
    (S.after env w t).trades.rows =
      w.trades.rows.map fun r => if r = t then S.reconciled env w.clock t else r := by
  have hsame : w.trades.rows = w.trades.rows.map fun r => if r = t then t else r := by
    rw [List.map_congr_left (g := id) fun r _ => by split <;> simp_all, List.map_id]
  simp only [after, reconciled]
  split
  · split
    · refine List.map_congr_left fun r hr => ?_
      by_cases hid : r.id = t.id
      · obtain rfl := TradeTable.eq_of_id hr ht hid
        simp only [if_true]
        rfl
      · have hne : r ≠ t := fun he => hid (he ▸ rfl)
        simp only [hid, hne, if_false]
    · exact hsame
  · exact hsame

/-! ## One after another -/

/-- The world after the reconciliation of the trades. -/
def afterEach (S : Scene) (env : Deployment) (w : World) (ts : List Trade) : World :=
  ts.foldl (S.after env) w

/-- A row after the reconciliation of the trades. -/
def rewritten (S : Scene) (env : Deployment) (now : DateTime) (ts : List Trade) (r : Trade) :
    Trade :=
  if r ∈ ts then S.reconciled env now r else r

/-- The counters after the reconciliation of the trades. -/
def tally (S : Scene) (env : Deployment) (now : DateTime) (ts : List Trade) (s : Summary) :
    Summary :=
  ts.foldl (fun s t => s.count t.status (S.reconciled env now t).status) s

variable {ts : List Trade}

@[simp] theorem clock_afterEach : (S.afterEach env w ts).clock = w.clock := by
  induction ts generalizing w with
  | nil => rfl
  | cons t ts ih => exact (ih (w := S.after env w t)).trans clock_after

theorem calls_afterEach : (S.afterEach env w ts).calls = w.calls ++ ts.map queryFor := by
  induction ts generalizing w with
  | nil => exact (List.append_nil _).symm
  | cons t ts ih =>
    rw [afterEach, List.foldl_cons]
    refine (ih (w := S.after env w t)).trans ?_
    rw [calls_after, List.append_assoc]
    rfl

variable (S env) in
/-- **A batch is pointwise**: it rewrites the selected rows and no others, each as its own
reconciliation would. -/
theorem rows_afterEach (hmem : ∀ t ∈ ts, t ∈ w.trades.rows) (hnodup : ts.Nodup) :
    (S.afterEach env w ts).trades.rows = w.trades.rows.map (S.rewritten env w.clock ts) := by
  induction ts generalizing w with
  | nil =>
    rw [List.map_congr_left (g := id) fun r _ => by simp [rewritten], List.map_id]
    rfl
  | cons t ts ih =>
    obtain ⟨hfresh, hnodup⟩ := List.nodup_cons.mp hnodup
    have ht : t ∈ w.trades.rows := hmem t (List.mem_cons_self ..)
    have hother : ∀ s ∈ ts, s.id ≠ t.id := by
      intro s hs hid
      have := TradeTable.eq_of_id (hmem s (List.mem_cons_of_mem _ hs)) ht hid
      exact hfresh (this ▸ hs)
    have hmem' : ∀ s ∈ ts, s ∈ (S.after env w t).trades.rows := by
      intro s hs
      rw [rows_after ht]
      refine List.mem_map.mpr ⟨s, hmem s (List.mem_cons_of_mem _ hs), if_neg ?_⟩
      rintro rfl
      exact hfresh hs
    rw [afterEach, List.foldl_cons]
    refine (ih hmem' hnodup).trans ?_
    rw [rows_after ht, List.map_map]
    refine List.map_congr_left fun r hr => ?_
    simp only [Function.comp_apply, clock_after, rewritten, List.mem_cons]
    by_cases hrt : r = t
    · -- the row that is rewritten first is none of the others
      subst hrt
      have hnot : S.reconciled env w.clock r ∉ ts := fun hs => hother _ hs id_reconciled
      simp only [if_true, true_or, hnot, if_false]
    · simp only [hrt, if_false, false_or]

theorem tally_eq (s : Summary) :
    S.tally env now ts s =
      { checked := s.checked + ts.length
        changed := s.changed + ts.countP fun t => (S.reconciled env now t).status ≠ t.status
        unchanged := s.unchanged + ts.countP fun t => (S.reconciled env now t).status = t.status } := by
  induction ts generalizing s with
  | nil => rfl
  | cons t ts ih =>
    rw [tally, List.foldl_cons]
    refine (ih _).trans ?_
    by_cases h : (S.reconciled env now t).status = t.status
    · simp only [Summary.count, h, ne_eq, not_true_eq_false, if_false, List.length_cons,
        List.countP_cons, decide_true, decide_false, Bool.false_eq_true, if_true, Summary.mk.injEq]
      omega
    · simp only [Summary.count, h, ne_eq, not_false_eq_true, if_true, List.length_cons,
        List.countP_cons, decide_true, decide_false, Bool.false_eq_true, if_false,
        Summary.mk.injEq]
      omega

/-! ## The run -/

theorem run_on (hopen : t.isTerminal = false) :
    S.run env i tag (OnTrade.on (.fresh t) (reconcileTrade env)).run w =
      some (match S.outcome env w.clock t with
        | (.ok a, j) => .ok (a, j)
        | (.error e, _) => .error e, S.after env w t) := by
  rw [OnTrade.on, App.run_mk, run_bind, run_reconcile hopen, Option.bind_some]
  rcases S.outcome env w.clock t with ⟨_ | _, j⟩ <;> rfl

/-- The run of a batch in which no reconciliation raises. -/
theorem run_reconcileEach (hopen : ∀ t ∈ ts, t.isTerminal = false)
    (hgood : ∀ t ∈ ts, S.raises env w.clock t = false) (s : Summary) :
    S.run env i tag (reconcileEach env ts s).run w =
      some (.ok (S.tally env w.clock ts s), S.afterEach env w ts) := by
  induction ts generalizing w s with
  | nil => rfl
  | cons t ts ih =>
    have hfirst := outcome_of_not_raises (hgood t (List.mem_cons_self ..))
    have hrest := ih (w := S.after env w t) (fun s hs => hopen s (List.mem_cons_of_mem _ hs))
      (fun s hs => by rw [clock_after]; exact hgood s (List.mem_cons_of_mem _ hs))
      (s.count t.status (S.reconciled env w.clock t).status)
    rw [clock_after] at hrest
    rw [reconcileEach, App.run_bind, run_bind, run_on (hopen t (List.mem_cons_self ..)),
      Option.bind_some]
    rcases hout : S.outcome env w.clock t with ⟨x, j⟩
    rw [hout] at hfirst
    obtain rfl : x = .ok _ := hfirst
    exact hrest

variable (S env i tag) in
/-- The first reconciliation that raises ends the batch. -/
theorem run_reconcileEach_raises {pre rest : List Trade}
    (hopen : ∀ s ∈ pre ++ t :: rest, s.isTerminal = false)
    (hgood : ∀ s ∈ pre, S.raises env w.clock s = false)
    (hraises : S.raises env w.clock t = true) (s : Summary) :
    ∃ e, S.run env i tag (reconcileEach env (pre ++ t :: rest) s).run w =
      some (.error e, S.afterEach env w (pre ++ [t])) := by
  induction pre generalizing w s with
  | nil =>
    obtain ⟨e, he⟩ := outcome_of_raises hraises
    refine ⟨e, ?_⟩
    rw [List.nil_append, reconcileEach, App.run_bind, run_bind, run_on (hopen t (by simp)),
      Option.bind_some]
    rcases hout : S.outcome env w.clock t with ⟨x, j⟩
    rw [hout] at he
    obtain rfl : x = .error e := he
    rfl
  | cons u pre ih =>
    have hfirst := outcome_of_not_raises (hgood u (List.mem_cons_self ..))
    obtain ⟨e, hrest⟩ := ih (w := S.after env w u)
      (fun s hs => hopen s (List.mem_cons_of_mem _ hs))
      (fun s hs => by rw [clock_after]; exact hgood s (List.mem_cons_of_mem _ hs))
      (by rw [clock_after]; exact hraises)
      (s.count u.status (S.reconciled env w.clock u).status)
    refine ⟨e, ?_⟩
    rw [List.cons_append, reconcileEach, App.run_bind, run_bind,
      run_on (hopen u (List.mem_cons_self ..)), Option.bind_some]
    rcases hout : S.outcome env w.clock u with ⟨x, j⟩
    rw [hout] at hfirst
    obtain rfl : x = .ok _ := hfirst
    exact hrest

/-- A batch that returns met no reconciliation that raises. -/
theorem not_raises_of_ok (hopen : ∀ t ∈ ts, t.isTerminal = false) {s summary : Summary} {u : World}
    (h : S.run env i tag (reconcileEach env ts s).run w = some (.ok summary, u)) :
    ∀ t ∈ ts, S.raises env w.clock t = false := by
  intro t ht
  by_contra hraises
  have hsome : (ts.find? (S.raises env w.clock)).isSome :=
    List.find?_isSome.mpr ⟨t, ht, by simpa using hraises⟩
  obtain ⟨b, hb⟩ := Option.isSome_iff_exists.mp hsome
  obtain ⟨hfirst, pre, rest, rfl, hpre⟩ := List.find?_eq_some_iff_append.mp hb
  obtain ⟨e, he⟩ := run_reconcileEach_raises S env i tag hopen
    (fun r hr => by simpa using hpre r hr) hfirst s
  rw [h] at he
  cases he

variable (S env i tag) in
/-- However a batch ends, it has reconciled the trades up to some point, and all of them up to
the first one that raises. -/
theorem run_reconcileEach_prefix (hopen : ∀ t ∈ ts, t.isTerminal = false) (s : Summary) :
    ∃ x pre, pre <+: ts ∧
      S.run env i tag (reconcileEach env ts s).run w = some (x, S.afterEach env w pre) ∧
      ∀ good, good <+: ts → (∀ t ∈ good, S.raises env w.clock t = false) → good <+: pre := by
  cases hb : ts.find? (S.raises env w.clock) with
  | none =>
    have hgood : ∀ t ∈ ts, S.raises env w.clock t = false := by
      intro t ht
      simpa using List.find?_eq_none.mp hb t ht
    exact ⟨_, ts, List.prefix_refl ts, run_reconcileEach hopen hgood s, fun _ h _ => h⟩
  | some b =>
    obtain ⟨hraises, pre, rest, rfl, hpre⟩ := List.find?_eq_some_iff_append.mp hb
    obtain ⟨e, he⟩ := run_reconcileEach_raises S env i tag hopen
      (fun r hr => by simpa using hpre r hr) hraises s
    have hprefix : pre ++ [b] <+: pre ++ b :: rest := ⟨rest, by simp⟩
    refine ⟨_, pre ++ [b], hprefix, he, fun good hgood hnone => ?_⟩
    rcases List.prefix_or_prefix_of_prefix hgood hprefix with h | h
    · exact h
    · -- then the trade that raises would be among the good ones
      have := hnone b (h.subset (by simp))
      rw [hraises] at this
      cases this

theorem run_reconcilePendingTrades (olderThanSeconds : Int) (limit : Nat) :
    S.run env i tag (reconcilePendingTrades env olderThanSeconds limit).run w =
      S.run env i tag (reconcileEach env (w.selected olderThanSeconds limit) ⟨0, 0, 0⟩).run w := rfl

end Scene

end AutoTrader
