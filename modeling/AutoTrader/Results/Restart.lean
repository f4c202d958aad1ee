import AutoTrader.System.Recovery
import AutoTrader.System.Sample

/-!
# What a restart recovers

A restart recovers every unsent row exactly when they are no more than the places in the
queue: the selection of `resume_pending` is limited to the size of the queue, and what it
leaves behind is not selected again.
-/

namespace AutoTrader

open Python Coroutine Transition

section Restart

variable {env : Deployment} {T : TradeTable} {limit p : Nat}

/-- A recovery takes place in the process that was restarted. -/
theorem within_of_recovery {w : World} {ls : List (Label (service env))} {P : Pool (service env)}
    (hw : ∀ p', (w.processes p').queue = [])
    (h : Run (service env).system Recovers (Pool.restarted env w p) ls P) : Within P p := by
  apply h.invariant
  · constructor
    · intro t ht
      rw [List.mem_singleton.mp ht]
    · intro p' _
      exact hw p'
  · intro P l Q hP hl hs
    apply hP.step hs
    rintro e p' rfl he
    cases e with
    | take k =>
      cases he
      by_contra hne
      obtain ⟨x, hx, -⟩ := Host.step_event hs
      have hqueue := hP.queues p' hne
      simp only [react, hqueue] at hx
      cases hx
    | tick | arrive | lose | progress => cases he
    | webhook | resume | reconcile | batch | crash | cancel => exact hl.elim

theorem mem_chosenOf (h : T.rows.countP Trade.unsent ≤ limit) {s : Trade} (hs : s ∈ T.rows)
    (hunsent : s.unsent = true) : s.id ∈ chosenOf T limit := by
  rw [chosenOf, List.take_of_length_le]
  · apply (List.mem_insertionSort _).mpr
    exact List.mem_map_of_mem (List.mem_filter.mpr ⟨hs, hunsent⟩)
  · rwa [List.length_insertionSort, List.length_map, ← List.countP_eq_length_filter]

/-- What is selected was never sent. -/
theorem unsent_of_mem_chosenOf {id : TradeId} (h : id ∈ chosenOf T limit) :
    ∃ s ∈ T.rows, s.id = id ∧ s.unsent = true := by
  have hmem := (List.mem_insertionSort _).mp (List.mem_of_mem_take h)
  obtain ⟨s, hs, hid⟩ := List.mem_map.mp hmem
  obtain ⟨hrow, hunsent⟩ := List.mem_filter.mp hs
  exact ⟨s, hrow, hid, hunsent⟩

/-- Where there are more unsent rows than places, one of them is not selected. -/
theorem exists_unselected (h : limit < T.rows.countP Trade.unsent) :
    ∃ s ∈ T.rows, s.unsent = true ∧ s.id ∉ chosenOf T limit := by
  by_contra hall
  have hsub : (T.rows.filter Trade.unsent).map Trade.id ⊆ chosenOf T limit := by
    intro id hid
    obtain ⟨s, hs, rfl⟩ := List.mem_map.mp hid
    obtain ⟨hrow, hunsent⟩ := List.mem_filter.mp hs
    by_contra hnot
    exact hall ⟨s, hrow, hunsent, hnot⟩
  have hnodup : ((T.rows.filter Trade.unsent).map Trade.id).Nodup :=
    (List.filter_sublist.map _).nodup T.primaryKey
  have hle := (hnodup.subperm hsub).length_le
  rw [List.length_map, ← List.countP_eq_length_filter] at hle
  have htake : (chosenOf T limit).length ≤ limit := List.length_take_le _ _
  omega

end Restart

/-- **When a restart recovers every unsent trade.** After a recovery that has come to rest no
row is left unsent if and only if the rows found unsent were no more than the places in the
queue; and no trade that had been submitted is claimed again or has an order placed. -/
theorem restart_recovers_iff {env : Deployment} {T : TradeTable} {users : List User}
    {nextTradeId : TradeId} {clock : DateTime} {p : Nat} {ls : List (Label (service env))}
    {P : Pool (service env)}
    (h : Run (service env).system Recovers
      (Pool.restarted env (.found T users nextTradeId clock) p) ls P) (hdrained : Drained P p) :
    ((∀ r ∈ P.shared.trades.rows, r.unsent = false) ↔
      T.rows.countP Trade.unsent ≤ env.settings.executorQueueSize) ∧
    ∀ r ∈ T.rows, r.submittedAt.isSome → (∀ i, .claimed i r.id ∉ P.shared.history) ∧
      ∀ x ∈ P.shared.toLedger.requests, x.placed? ≠ some r.clientOrderId := by
  obtain ⟨g, hg, hI⟩ := recovering_of_run h
  have hqueues : ∀ k, (P.shared.processes k).queue = [] := by
    intro k
    by_cases hk : k = p
    · rw [hk]
      exact hdrained.2
    · exact (within_of_recovery (fun _ => rfl) h).queues k hk
  refine ⟨⟨?_, ?_⟩, ?_⟩
  · intro hall
    by_contra hmore
    obtain ⟨s, hs, hunsent, hnot⟩ := exists_unselected (not_le.mp hmore)
    obtain ⟨r, hr, -, hr'⟩ := hI.kept s hs hunsent hnot
    rw [hall r hr] at hr'
    cases hr'
  · intro hfits r hr
    by_contra hr'
    obtain ⟨s, hs, hid, -, hunsent⟩ := hI.rows r hr
    have hchosen := mem_chosenOf hfits hs (hunsent (Bool.eq_true_of_not_eq_false hr'))
    -- nothing is queued and no errand is left to claim it, so it was claimed
    rcases hI.todo s.id hchosen with ⟨k, hk⟩ | ⟨i, q, hi, hq⟩ | hsent
    · rw [hqueues k] at hk
      cases hk
    · have hfinal := hg.final_of_quiet hdrained.1 hi
      cases q with
      | filling ids =>
        obtain rfl : ids = [] := hfinal
        cases hq
      | resuming | claiming => exact hfinal
      | _ => cases hq
    · exact hr' (hsent r hr hid.symm)
  · intro r hr hsubmitted
    have hnot : r.id ∉ chosenOf T env.settings.executorQueueSize := by
      intro hid
      obtain ⟨s, hs, hsid, hunsent⟩ := unsent_of_mem_chosenOf hid
      rw [TradeTable.eq_of_id hs hr hsid, Trade.unsent_of_submitted hsubmitted] at hunsent
      cases hunsent
    refine ⟨fun i hc => hnot (hI.claims i r.id hc), fun x hx hc => ?_⟩
    obtain ⟨s, hs, hid, hcid⟩ := hI.placed x hx _ hc
    rw [TradeTable.eq_of_clientOrderId hs hr hcid] at hid
    exact hnot hid

/-- Two trades that were accepted and never sent. -/
def Sample.unsent : TradeTable :=
  let first := { Sample.trade with submittedAt := none }
  (TradeTable.empty.insert first (by decide +kernel)).insert
    { first with
      id := 2
      signalId := "sig-2"
      clientOrderId := "cat-0e982fbf2b80be4e197076754a20" } (by decide +kernel)

/-- They are found by a process that starts. -/
def Sample.restarted (env : Deployment) : Pool (service env) :=
  Pool.restarted env (.found Sample.unsent Sample.users 3 0) 0

/-- `resume_pending` queues `n` ids, which are executed one after another; no connection to
the exchange comes about. -/
def Sample.recovery (env : Deployment) (n : Nat) : List (Label (service env)) :=
  steps env 0 (1 + n) ++ (List.range n).flatMap fun k =>
    [occurs env (.take 0)] ++ steps env (k + 1) 5 ++ [reply env (k + 1) .connectError] ++
      steps env (k + 1) 1

/-- In a queue with room for both, both are recovered. -/
theorem restart_recovers_both :
    ∃ P, Run (service Sample.queued).system Recovers (Sample.restarted _)
      (Sample.recovery _ 2) P ∧ ∀ r ∈ P.shared.trades.rows, r.unsent = false := by
  have hends : ((service Sample.queued).system.follow Recovers (Sample.restarted _)
      (Sample.recovery _ 2)).any fun P => decide (Drained P 0) := by decide +kernel
  obtain ⟨P, hP, hdrained⟩ := (Option.any_eq_true _ _).mp hends
  have hrun := System.run_of_follow hP
  refine ⟨P, hrun, (restart_recovers_iff hrun (of_decide_eq_true hdrained)).1.mpr ?_⟩
  decide +kernel

/-- A deployment whose queue has one place. -/
abbrev Sample.cramped : Deployment := deployment true 1 (by decide)

/-- Then the second trade is still unsent when the recovery has come to rest. -/
theorem restart_leaves_one_unsent :
    ¬ ∀ (env : Deployment) (T : TradeTable) (users : List User) (nextTradeId : TradeId)
      (clock : DateTime) (p : Nat) (ls : List (Label (service env))) (P : Pool (service env)),
      Run (service env).system Recovers
        (Pool.restarted env (.found T users nextTradeId clock) p) ls P → Drained P p →
      ∀ r ∈ P.shared.trades.rows, r.unsent = false := by
  intro hall
  have hends : ((service Sample.cramped).system.follow Recovers (Sample.restarted _)
      (Sample.recovery _ 1)).any fun P =>
        decide (Drained P 0) && P.shared.trades.rows.any Trade.unsent := by decide +kernel
  obtain ⟨P, hP, hleft⟩ := (Option.any_eq_true _ _).mp hends
  obtain ⟨hdrained, hunsent⟩ := Bool.and_eq_true_iff.mp hleft
  obtain ⟨r, hr, hr'⟩ := List.any_eq_true.mp hunsent
  have hsent := hall Sample.cramped Sample.unsent Sample.users 3 0 0 _ P
    (System.run_of_follow hP) (of_decide_eq_true hdrained) r hr
  rw [hsent] at hr'
  cases hr'

end AutoTrader
