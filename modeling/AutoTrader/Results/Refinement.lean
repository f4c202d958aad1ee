import AutoTrader.System.QueuedSteps
import AutoTrader.System.Recovery
import AutoTrader.System.Sample

/-!
# Queued execution refines inline execution

The workers take and claim the trades in any order, and their operations interleave in any
way. When nothing fails in the database, nobody is stopped, and the exchange answers by the
request, the rows they leave behind are those that inline execution leaves, except for the
ids and the timestamps.
-/

namespace AutoTrader

open Python Coroutine Transition

namespace Refinement

variable {ends : HttpRequest → Transport} {env : Deployment} {users : List User}
  {P : Pool (service env)} {g : Nat → Option Errand}

/-- Where nothing is left to do, every row has become what its signal was to become. -/
theorem traded_of_quiet (hg : Ghosted (errand env) P g)
    (h : Settling (Scene.storing ends) env users P.shared g) (hquiet : P.Quiet)
    (hqueues : ∀ k, (P.shared.processes k).queue = []) {r : Trade}
    (hr : r ∈ P.shared.trades.rows) :
    ∃ payload owner, Stems env users P.shared r payload owner ∧
      r.content = (Scene.storing ends).traded env payload owner := by
  obtain ⟨payload, owner, hstems, hstanding⟩ := h.rows r hr
  refine ⟨payload, owner, hstems, ?_⟩
  rcases hstanding with hwaiting | htaken
  · rcases hwaiting.awaited with ⟨k, hk⟩ | ⟨j, q, hj, hq⟩
    · rw [hqueues k] at hk
      cases hk
    · have hfinal := hg.final_of_quiet hquiet hj
      cases q with
      | filling ids =>
        obtain rfl : ids = [] := hfinal
        cases hq
      | accepted id | claiming id => exact hfinal.elim
      | _ => exact hq.elim
  · rcases htaken.held with ⟨j, q, hj, hq⟩ | hdone
    · have hfinal := hg.final_of_quiet hquiet hj
      have hleads := htaken.leads j q hj hq
      cases q with
      | holding t =>
        obtain ⟨rfl, hgoal⟩ := hleads
        have hnone : formatDecimal t.quantity = none := hfinal
        have hsame : (Scene.storing ends).submitted env t = t := by
          simp only [Scene.submitted, hnone]
        rw [← hgoal, hsame]
      | signal | done | other | resuming | filling | refused | accepted | claiming => cases hq
      | _ => exact hfinal.elim
    · exact hdone

/-- Rows and signals correspond by the signal id. -/
theorem contents_perm {T : TradeTable} {signals : List TradingViewWebhookPayload}
    {f : TradingViewWebhookPayload → Trade} (hf : ∀ payload, (f payload).signalId = payload.signalId)
    (hdistinct : (signals.map TradingViewWebhookPayload.signalId).Nodup)
    (hrows : ∀ r ∈ T.rows, ∃ payload ∈ signals, r.content = f payload)
    (haccepted : ∀ payload ∈ signals, ∃ r ∈ T.rows, r.signalId = payload.signalId) :
    (T.rows.map Trade.content).Perm (signals.map f) := by
  have hcontents : (T.rows.map Trade.content).Nodup := by
    refine List.Nodup.of_map Trade.signalId ?_
    rw [List.map_map]
    exact T.uniqueSignalId
  have hgoals : (signals.map f).Nodup := by
    refine List.Nodup.of_map Trade.signalId ?_
    rw [List.map_map, show Trade.signalId ∘ f = TradingViewWebhookPayload.signalId from funext hf]
    exact hdistinct
  rw [List.perm_ext_iff_of_nodup hcontents hgoals]
  intro t
  constructor
  · intro ht
    obtain ⟨r, hr, rfl⟩ := List.mem_map.mp ht
    obtain ⟨payload, hpayload, hcontent⟩ := hrows r hr
    exact hcontent ▸ List.mem_map_of_mem hpayload
  · intro ht
    obtain ⟨payload, hpayload, rfl⟩ := List.mem_map.mp ht
    obtain ⟨r, hr, hsignalId⟩ := haccepted payload hpayload
    obtain ⟨payload', hpayload', hcontent⟩ := hrows r hr
    have hsame : payload' = payload := by
      refine List.inj_on_of_nodup_map hdistinct hpayload' hpayload ?_
      rw [← hf payload', ← hcontent]
      exact hsignalId
    rw [← hsame, ← hcontent]
    exact List.mem_map_of_mem hr

end Refinement

/-- **Queued execution refines inline execution.** When an undisturbed queued service has
drained its queues, its rows have the contents that inline execution gives to the same signals,
one after another. -/
theorem queued_refines_inline {ends : HttpRequest → Transport} {env : Deployment}
    {users : List User} {clock : DateTime} {ls : List (Label (service (env.withAsyncExecution true)))}
    {P : Pool (service (env.withAsyncExecution true))}
    (h : Run (service (env.withAsyncExecution true)).system (Undisturbed ends)
      (Pool.idle (.initial users clock)) ls P)
    (hquiet : P.Quiet) (hqueues : ∀ k, (P.shared.processes k).queue = [])
    {signals : List TradingViewWebhookPayload}
    (hsignals : P.shared.toLedger.received.Perm signals)
    (hdistinct : (signals.map TradingViewWebhookPayload.signalId).Nodup)
    (haccepted : ∀ payload ∈ signals, ∃ r ∈ P.shared.trades.rows, r.signalId = payload.signalId)
    (p : Nat) (start : DateTime) :
    ∃ u, (Scene.storing ends).processAll (env.withAsyncExecution false) p signals
        (.initial users start) = some u ∧
      (P.shared.trades.rows.map Trade.content).Perm (u.trades.rows.map Trade.content) := by
  obtain ⟨g, hg, hI⟩ := settling_of_run h
  have hrows : ∀ r ∈ P.shared.trades.rows, ∃ payload ∈ signals, ∃ owner,
      Stems (env.withAsyncExecution true) users P.shared r payload owner ∧
        r.content = (Scene.storing ends).traded (env.withAsyncExecution true) payload owner := by
    intro r hr
    obtain ⟨payload, owner, hstems, hcontent⟩ :=
      Refinement.traded_of_quiet hg hI hquiet hqueues hr
    exact ⟨payload, hsignals.mem_iff.mp hstems.received, owner, hstems, hcontent⟩
  cases signals with
  | nil =>
    have hempty : P.shared.trades.rows = [] := by
      refine List.eq_nil_iff_forall_not_mem.mpr fun r hr => ?_
      obtain ⟨payload, hpayload, -⟩ := hrows r hr
      cases hpayload
    refine ⟨_, rfl, ?_⟩
    rw [hempty]
    exact List.Perm.nil
  | cons first rest =>
    obtain ⟨r, hr, -⟩ := haccepted first List.mem_cons_self
    obtain ⟨payload, -, owner, hstems, -⟩ := hrows r hr
    have howner := hstems.owner
    have hperm : (P.shared.trades.rows.map Trade.content).Perm ((first :: rest).map fun payload =>
        (Scene.storing ends).traded (env.withAsyncExecution false) payload owner) := by
      refine Refinement.contents_perm (fun _ => Scene.signalId_traded) hdistinct ?_ haccepted
      intro s hs
      obtain ⟨payload, hpayload, owner', hstems', hcontent⟩ := hrows s hs
      obtain rfl : owner' = owner := Option.some.inj (hstems'.owner.symm.trans howner)
      exact ⟨payload, hpayload, hcontent⟩
    have htaken : ∀ payload ∈ first :: rest,
        validateSignal (env.withAsyncExecution false) payload = .ok () ∧
          payload.quantity.isStorable = true := by
      intro payload hpayload
      obtain ⟨s, hs, hsignalId⟩ := haccepted payload hpayload
      obtain ⟨payload', hpayload', owner', hstems', -⟩ := hrows s hs
      obtain rfl : payload' = payload := List.inj_on_of_nodup_map hdistinct hpayload' hpayload
        (hstems'.signalId.symm.trans hsignalId)
      exact ⟨hstems'.valid, hstems'.stored⟩
    have hclients : ((first :: rest).map fun payload =>
        buildClientOrderId (env.withAsyncExecution false) payload.signalId).Nodup := by
      have hmapped := hperm.map Trade.clientOrderId
      rw [List.map_map, List.map_map] at hmapped
      have hnodup := hmapped.nodup_iff.mp P.shared.trades.uniqueClientOrderId
      exact (List.map_congr_left fun _ _ => Scene.clientOrderId_traded) ▸ hnodup
    obtain ⟨user, hfind, hid⟩ := Option.map_eq_some_iff.mp howner
    have huser : users.any fun x => x.id = owner :=
      List.any_eq_true.mpr ⟨user, List.mem_of_find?_eq_some hfind, decide_eq_true hid⟩
    obtain ⟨u, hu, hcontents⟩ := Scene.processAll_of_fits ends (env.withAsyncExecution false) p
      (w := .initial users start) rfl (fun payload h => (htaken payload h).1)
      (fun payload h => (htaken payload h).2) howner huser (fun _ hr => by cases hr) hdistinct
      hclients
    refine ⟨u, hu, ?_⟩
    rw [hcontents]
    exact hperm

/-- Undisturbed steps of process 0, where no connection to the exchange comes about. -/
def Sample.smooth {env : Deployment} (P : Pool (service env)) : Label (service env) → Bool
  | .act i c =>
    ((P.tag? i).all fun tag : Tag =>
      (P.shared.processes tag.process).queue.length < env.settings.executorQueueSize) &&
    match c with
    | .done | .reply .connectError => true
    | _ => false
  | .event (.webhook 0 _) | .event (.take 0) => true
  | .event _ => false

theorem Sample.undisturbed_of_smooth {env : Deployment} {P : Pool (service env)}
    {l : Label (service env)} (h : smooth P l = true) :
    Undisturbed (fun _ => .connectError) P l ∧
      ∀ e p, l = .event e → e.process? = some p → p = 0 := by
  cases l with
  | act i c =>
    obtain ⟨hroom, hc⟩ := Bool.and_eq_true_iff.mp h
    refine ⟨⟨?_, ?_, ?_⟩, fun _ _ he => by cases he⟩
    · intro o _ _
      split at hc
      · rfl
      · rfl
      · cases hc
    · intro k call t _ _ ht
      split at hc
      · cases ht
      · cases ht
        rfl
      · cases hc
    · intro tag id htag _
      rw [htag] at hroom
      exact of_decide_eq_true hroom
  | event e =>
    cases e with
    | webhook p payload | take p =>
      cases p with
      | zero =>
        refine ⟨trivial, ?_⟩
        rintro e p ⟨⟩ hp
        exact (Option.some.inj hp).symm
      | succ p => cases h
    | _ => cases h

/-- Two signals are queued, and two workers execute them in turns. -/
def Sample.interleaved (env : Deployment) : List (Label (service env)) :=
  [occurs env (.webhook 0 signal), occurs env (.webhook 0 nextSignal)] ++ steps env 0 5 ++
    [occurs env (.take 0)] ++ steps env 2 1 ++ steps env 1 3 ++ [occurs env (.take 0)] ++
    steps env 3 4 ++ steps env 2 4 ++ [reply env 2 .connectError] ++ steps env 3 1 ++
    [reply env 3 .connectError] ++ steps env 3 1 ++ steps env 2 1

theorem queued_refines_inline_two :
    ∃ P, Run (service (Sample.inline.withAsyncExecution true)).system
        (Undisturbed fun _ => .connectError) (Sample.start _) (Sample.interleaved _) P ∧
      ∃ u, (Scene.storing fun _ => .connectError).processAll
          (Sample.inline.withAsyncExecution false) 0 [Sample.signal, Sample.nextSignal]
          (.initial Sample.users 0) = some u ∧
        (P.shared.trades.rows.map Trade.content).Perm (u.trades.rows.map Trade.content) := by
  have hends : ((service (Sample.inline.withAsyncExecution true)).system.follow
      (fun P l => Sample.smooth P l = true) (Sample.start _) (Sample.interleaved _)).any fun P =>
        decide (Drained P 0) && decide (P.shared.toLedger.received =
          [Sample.signal, Sample.nextSignal]) &&
        [Sample.signal, Sample.nextSignal].all fun payload =>
          P.shared.trades.rows.any fun r => r.signalId = payload.signalId := by decide +kernel
  obtain ⟨P, hP, hleft⟩ := (Option.any_eq_true _ _).mp hends
  simp only [Bool.and_eq_true, decide_eq_true_eq, List.all_eq_true, List.any_eq_true] at hleft
  obtain ⟨⟨⟨hquiet, hqueue⟩, hreceived⟩, haccepted⟩ := hleft
  have hrun := System.run_of_follow hP
  have hwithin : Within P 0 :=
    hrun.invariant (I := fun P => Within P 0) ⟨(fun _ ht => by cases ht), fun _ _ => rfl⟩
      fun _ _ _ hI hD hs => hI.step hs (Sample.undisturbed_of_smooth hD).2
  have hundisturbed := hrun.mono fun _ _ hD => (Sample.undisturbed_of_smooth hD).1
  refine ⟨P, hundisturbed, queued_refines_inline hundisturbed hquiet ?_
    (List.Perm.of_eq hreceived) (by decide) haccepted 0 0⟩
  intro k
  by_cases hk : k = 0
  · rw [hk]
    exact hqueue
  · exact hwithin.queues k hk

end AutoTrader
