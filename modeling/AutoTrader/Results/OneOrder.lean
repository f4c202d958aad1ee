import AutoTrader.System.Sample

/-!
# At most one order for a signal

However requests, executions, resumptions, reconciliations and crashes interleave, a
signal has at most one row, and the order call is made at most once for it.
-/

namespace AutoTrader

open Python Coroutine Transition

/-- The signal an INSERT was for. -/
def Entry.insertedSignal? : Entry → Option String
  | .inserted row => some row.signalId
  | _ => none

namespace Ledger

/-- Every INSERT that was ever committed still has its row, and the other way round. -/
def Journalled (l : Ledger) : Prop :=
  l.trades.rows.map Trade.signalId = l.history.filterMap Entry.insertedSignal?

/-- How often `place_market_order` was called for the trade of a signal. -/
def orderCalls (l : Ledger) (signalId : String) : Nat :=
  l.logs.countP fun r =>
    l.trades.rows.any fun t => t.signalId = signalId && r.announced? = some t.clientOrderId

theorem Journalled.update {l : Ledger} (h : l.Journalled) (id : TradeId) (u : TradeTable.Update)
    {e : Entry} (he : e.insertedSignal? = none) :
    ({ l with trades := l.trades.update id u, history := l.history ++ [e] } : Ledger).Journalled := by
  have hmap : (l.trades.update id u).rows.map Trade.signalId = l.trades.rows.map Trade.signalId := by
    simp only [TradeTable.update, List.map_map]
    refine List.map_congr_left fun t _ => ?_
    simp only [Function.comp_apply]
    split
    · exact u.signalId t
    · rfl
  simp only [Journalled, hmap, List.filterMap_append, List.filterMap_cons, he, List.filterMap_nil,
    List.append_nil]
  exact h

theorem Journalled.insert {l : Ledger} (h : l.Journalled) (row : Trade)
    (hfit : l.trades.Fits row) : (l.insert row hfit).Journalled := by
  have h : l.trades.rows.map Trade.signalId = l.history.filterMap Entry.insertedSignal? := h
  simp [Journalled, Ledger.insert, TradeTable.insert, Entry.insertedSignal?, h]

/-- All calls for a signal carry one client order id. -/
theorem orderCalls_le (l : Ledger) (signalId : String) :
    l.orderCalls signalId = 0 ∨
      ∃ r ∈ l.trades.rows, l.orderCalls signalId = l.announced r.clientOrderId := by
  by_cases hrow : ∃ r ∈ l.trades.rows, r.signalId = signalId
  · obtain ⟨r, hr, hsig⟩ := hrow
    refine Or.inr ⟨r, hr, ?_⟩
    refine List.countP_congr fun x _ => ?_
    simp only [List.any_eq_true, Bool.and_eq_true, decide_eq_true_eq]
    constructor
    · rintro ⟨t, ht, hts, hx⟩
      rw [TradeTable.eq_of_signalId hr ht (hsig.trans hts.symm)]
      exact hx
    · intro hx
      exact ⟨r, hr, hsig, hx⟩
  · refine Or.inl (List.countP_eq_zero.mpr fun x _ hx => hrow ?_)
    simp only [List.any_eq_true, Bool.and_eq_true, decide_eq_true_eq] at hx
    obtain ⟨t, ht, hts, -⟩ := hx
    exact ⟨t, ht, hts⟩

end Ledger

/-- No operation makes a row without an entry, or an entry without a row. -/
theorem journalled_act {env : Deployment} {i : Nat} {tag : Tag} {w w' : World} {o : Op}
    {c : Choice} {r : o.Res} (h : w.toLedger.Journalled)
    (hx : exec env i tag w o c = some (r, w')) : w'.toLedger.Journalled := by
  cases o with
  | insert n =>
    rcases exec_insert hx with rfl | ⟨hfit, rfl⟩
    · exact h
    · exact h.insert _ hfit
  | claim id now =>
    rcases exec_claim hx with ⟨rfl, -⟩ | ⟨row, -, -, -, -, rfl⟩
    · exact h
    · exact h.update id _ rfl
  | commit t e =>
    rcases exec_commit hx with ⟨rfl, -⟩ | ⟨rfl, -⟩
    · exact h.update t.id _ rfl
    · exact h
  | send request =>
    obtain ⟨-, rfl⟩ := exec_send hx
    exact h
  | log record =>
    obtain rfl := exec_log hx
    exact h
  | _ =>
    rw [exec_of_not_writes rfl hx]
    exact h

theorem journalled_of_run {env : Deployment} {D : Pool (service env) → Label (service env) → Prop}
    {users : List User} {clock : DateTime} {ls : List (Label (service env))}
    {P : Pool (service env)}
    (h : Run (service env).system D (Pool.idle (.initial users clock)) ls P) :
    P.shared.toLedger.Journalled := by
  obtain ⟨-, -, -, hJ⟩ := invariant_of_run (J := fun w _ => w.toLedger.Journalled) h
    (Sound.found _) rfl (fun P g i c tag q m o r w' _ _ _ hJ ha => journalled_act hJ ha.exec)
    (fun P g e x _ _ _ hJ hx => by
      obtain ⟨ht, -, -, hh⟩ := react_ledger hx
      unfold Ledger.Journalled at hJ ⊢
      rcases hh with hh | ⟨p, payload, -, -, hh⟩
      · rw [ht, hh]
        exact hJ
      · have hnone : [Entry.received payload].filterMap Entry.insertedSignal? = [] := rfl
        rw [ht, hh, List.filterMap_append, hnone, List.append_nil]
        exact hJ)
  exact hJ

/-- **At most one order for a signal.** In every run, from a system without trades, of any
number of processes, requests, workers, resumptions and reconciliations, with crashes at any
step: one INSERT at most is ever committed for a signal, it has one row at most, its order
call is made at most once, and at most one POST carries its client order id. -/
theorem at_most_one_order (env : Deployment) {users : List User} {clock : DateTime}
    {ls : List (Label (service env))} {P : Pool (service env)}
    (h : Run (service env).system unguarded (Pool.idle (.initial users clock)) ls P)
    (signalId : String) :
    (P.shared.history.filterMap Entry.insertedSignal?).count signalId ≤ 1 ∧
      (P.shared.trades.rows.map Trade.signalId).count signalId ≤ 1 ∧
      P.shared.toLedger.orderCalls signalId ≤ 1 ∧
      P.shared.toLedger.posted (buildClientOrderId env signalId) ≤ 1 := by
  obtain ⟨g, -, hs⟩ := sound_of_run h (Sound.found _)
  have hrows : (P.shared.trades.rows.map Trade.signalId).count signalId ≤ 1 :=
    List.nodup_iff_count_le_one.mp P.shared.trades.uniqueSignalId signalId
  refine ⟨?_, hrows, ?_, hs.postedOnce _⟩
  · rw [← show _ = _ from journalled_of_run h]
    exact hrows
  · rcases P.shared.toLedger.orderCalls_le signalId with h0 | ⟨r, -, hr⟩
    · omega
    · rw [hr]
      exact hs.announcedOnce _

/-- The bound is attained: a signal whose order was placed. -/
theorem at_most_one_order_placed :
    ∃ P, Run (service Sample.inline).system unguarded (Sample.start _) Sample.placed P ∧
      P.shared.toLedger.orderCalls "sig-1" = 1 ∧ P.shared.toLedger.orderCalls "sig-1" ≤ 1 := by
  have h := System.run_get Sample.placed_follows
  refine ⟨_, h, ?_, (at_most_one_order Sample.inline h "sig-1").2.2.1⟩
  decide +kernel

end AutoTrader
