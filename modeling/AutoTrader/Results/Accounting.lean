import AutoTrader.Services.Executor

/-!
# The books of the executor

Every id put on the queue is in exactly one place: waiting, held by a worker, or in the
list of ended calls. `Balanced` says so together with what the queue counts, and every
step keeps it; `Orderly` says how the workers and the call of `stop` in progress belong
together.
-/

namespace AutoTrader

open Asyncio Transition

namespace TradeExecutor

variable {n : Nat} {e e' : TradeExecutor} {i : Nat} {id : TradeId} {w w' : Worker}
  {outcome : CallOutcome}

/-! ## Replacing one worker -/

theorem exists_split {ws : List Worker} (h : ws[i]? = some w) :
    ∃ before after, ws = before ++ w :: after ∧ ∀ w', ws.set i w' = before ++ w' :: after := by
  obtain ⟨hi, rfl⟩ := List.getElem?_eq_some_iff.mp h
  refine ⟨ws.take i, ws.drop (i + 1), ?_, ?_⟩
  · rw [List.getElem_cons_drop, List.take_append_drop]
  · intro w'
    rw [List.set_eq_take_append_cons_drop, if_pos hi]

variable (e') in
theorem held_of_set (h : e.workers[i]? = some w) (hworkers : e'.workers = e.workers.set i w') :
    ∃ before after, e.held = before ++ w.item.toList ++ after ∧
      e'.held = before ++ w'.item.toList ++ after := by
  obtain ⟨before, after, hws, hset⟩ := exists_split h
  refine ⟨before.filterMap Worker.item, after.filterMap Worker.item, ?_, ?_⟩
  · rw [held, hws, List.filterMap_append, List.filterMap_cons]
    cases w.item <;> simp
  · rw [held, hworkers, hset, List.filterMap_append, List.filterMap_cons]
    cases w'.item <;> simp

/-- A worker that stays alive leaves the number of live workers unchanged. -/
theorem live_of_set (h : e.workers[i]? = some w) (hworkers : e'.workers = e.workers.set i w')
    (halive : w'.alive = w.alive) : e'.live = e.live := by
  obtain ⟨before, after, hws, hset⟩ := exists_split h
  rw [live, hworkers, hset, live, hws]
  simp [List.countP_append, List.countP_cons, halive]

theorem held_of_workers_nil (h : e.workers = []) : e.held = [] := by
  rw [held, h, List.filterMap_nil]

/-- Workers that have ended hold nothing. -/
theorem held_of_live_eq_zero (h : e.live = 0) : e.held = [] := by
  apply List.filterMap_eq_nil_iff.mpr
  intro w hw
  have hdead : ¬ w.alive = true := List.countP_eq_zero.mp h w hw
  have hended : w.point = .ended := by simpa [Worker.alive] using hdead
  rw [Worker.item, hended]

/-! ## What a worker's step does -/

theorem step_get (h : (executor n).step e (.get i) = some e') :
    e.workers[i]? = some ⟨.waiting, false⟩ ∧ ∃ id q, e.queue.getNowait = some (id, q) ∧
      e' = { e with queue := q }.setWorker i ⟨.executing id false, false⟩ := by
  simp only [executor] at h
  split at h
  · rename_i hw
    obtain ⟨⟨id, q⟩, hq, rfl⟩ := Option.map_eq_some_iff.mp h
    exact ⟨hw, id, q, hq, rfl⟩
  · cases h

theorem step_finish (h : (executor n).step e (.finish i outcome) = some e') :
    ∃ id thrown, e.workers[i]? = some ⟨.executing id thrown, false⟩ ∧
      (outcome = .cancelled → thrown = true) ∧ e' = e.finish i id outcome := by
  simp only [executor] at h
  split at h
  · rename_i id thrown hw
    split at h
    · cases h
    · rename_i hthrown
      refine ⟨id, thrown, hw, ?_, (Option.some.inj h).symm⟩
      intro ho
      by_contra hfalse
      exact hthrown ⟨ho, Bool.eq_false_iff.mpr hfalse⟩
  · cases h

theorem step_throwCancelled (h : (executor n).step e (.throwCancelled i) = some e') :
    ∃ w, e.workers[i]? = some w ∧ w.cancelRequested = true ∧ e' = e.throwCancelled i w := by
  simp only [executor] at h
  split at h
  · rename_i w hw
    split at h
    · rename_i hrequested
      exact ⟨w, hw, hrequested, (Option.some.inj h).symm⟩
    · cases h
  · cases h

section Submit

variable {ids : List TradeId}

@[simp] theorem running_submit : (e.submit id).2.running = e.running := by
  unfold TradeExecutor.submit
  split <;> rfl

@[simp] theorem workers_submit : (e.submit id).2.workers = e.workers := by
  unfold TradeExecutor.submit
  split <;> rfl

@[simp] theorem stopping_submit : (e.submit id).2.stopping = e.stopping := by
  unfold TradeExecutor.submit
  split <;> rfl

/-- What `submit` leaves alone, the loop of `resume_pending` leaves alone. -/
theorem submitAll_frame {α : Type} (f : TradeExecutor → α)
    (hf : ∀ a id, f (a.submit id).2 = f a) : f (e.submitAll ids) = f e := by
  unfold TradeExecutor.submitAll
  induction ids generalizing e with
  | nil => rfl
  | cons id ids ih => exact ih.trans (hf e id)

theorem running_submitAll : (e.submitAll ids).running = e.running :=
  submitAll_frame _ fun _ _ => running_submit

theorem workers_submitAll : (e.submitAll ids).workers = e.workers :=
  submitAll_frame _ fun _ _ => workers_submit

theorem stopping_submitAll : (e.submitAll ids).stopping = e.stopping :=
  submitAll_frame _ fun _ _ => stopping_submit

end Submit

/-! ## The order of a shutdown -/

/-- How the workers and the call of `stop` in progress belong together. -/
structure Orderly (e : TradeExecutor) : Prop where
  quiet : e.running = false → e.stopping = none → e.workers = []
  closing : e.stopping = some .closing → e.workers = []
  stopping : e.stopping ≠ none → e.running = false

/-- A step that replaces a worker and at most releases `join`. -/
theorem Orderly.worker (h : Orderly e) (hrunning : e'.running = e.running)
    (hworkers : e'.workers = e.workers.set i w)
    (hstopping : e'.stopping = e.stopping ∨
      ∃ k, e'.stopping = e.stopping.map (Stopping.release k)) : Orderly e' := by
  have hnone : e'.stopping = none ↔ e.stopping = none := by
    rcases hstopping with hs | ⟨k, hs⟩
    · rw [hs]
    · rw [hs, Option.map_eq_none_iff]
  have hclosing : e'.stopping = some .closing → e.stopping = some .closing := by
    intro hc
    rcases hstopping with hs | ⟨k, hs⟩
    · exact hs.symm.trans hc
    · rw [hs] at hc
      obtain ⟨s, hsome, hrelease⟩ := Option.map_eq_some_iff.mp hc
      cases s with
      | joining => cases hrelease
      | gathering => cases hrelease
      | closing => exact hsome
  constructor
  · intro hr hn
    rw [hworkers, h.quiet (hrunning ▸ hr) (hnone.mp hn), List.set_nil]
  · intro hc
    rw [hworkers, h.closing (hclosing hc), List.set_nil]
  · intro hs
    rw [hrunning]
    exact h.stopping fun hn => hs (hnone.mpr hn)

theorem Orderly.submit (h : Orderly e) : Orderly (e.submit id).2 := by
  unfold TradeExecutor.submit
  split
  · exact ⟨h.quiet, h.closing, h.stopping⟩
  · exact h

theorem Orderly.submitAll (h : Orderly e) (ids : List TradeId) : Orderly (e.submitAll ids) := by
  induction ids generalizing e with
  | nil => exact h
  | cons id ids ih => exact ih h.submit

theorem Orderly.cancelWorkers {released : Bool} (h : Orderly e)
    (hs : e.stopping = some (.joining released)) : Orderly e.cancelWorkers := by
  constructor
  · intro _ hn
    cases hn
  · intro hc
    cases hc
  · intro _
    apply h.stopping
    rw [hs]
    exact Option.some_ne_none _

theorem Orderly.finish (h : Orderly e) : Orderly (e.finish i id outcome) := by
  unfold TradeExecutor.finish
  split
  · rename_i q _
    exact h.worker rfl rfl (Or.inr ⟨q.unfinished, rfl⟩)
  · exact h.worker rfl rfl (Or.inl rfl)

theorem Orderly.throwCancelled (h : Orderly e) : Orderly (e.throwCancelled i w) := by
  unfold TradeExecutor.throwCancelled
  split
  · exact h.worker rfl rfl (Or.inl rfl)
  · exact h.worker rfl rfl (Or.inl rfl)

theorem Orderly.step {l : ExecutorAction} (h : Orderly e)
    (hs : (executor n).step e l = some e') : Orderly e' := by
  cases l with
  | start =>
    simp only [executor] at hs
    split at hs
    · rename_i hnone
      cases hs
      unfold TradeExecutor.start
      split
      · exact h
      · constructor
        · intro hr
          cases hr
        · intro hc
          cases hnone.symm.trans hc
        · intro hne
          exact absurd hnone hne
    · cases hs
  | submit id =>
    cases hs
    exact h.submit
  | resume ids =>
    cases hs
    exact h.submitAll ids
  | get i =>
    obtain ⟨-, id, q, -, rfl⟩ := step_get hs
    exact h.worker rfl rfl (Or.inl rfl)
  | finish i outcome =>
    obtain ⟨id, thrown, -, -, rfl⟩ := step_finish hs
    exact h.finish
  | throwCancelled i =>
    obtain ⟨w, -, -, rfl⟩ := step_throwCancelled hs
    exact h.throwCancelled
  | stop =>
    cases hs
    unfold TradeExecutor.stop
    split
    · constructor
      · intro _ hn
        cases hn
      · intro hc
        cases hc
      · intro _
        rfl
    · exact h
  | joined =>
    simp only [executor] at hs
    split at hs
    · rename_i hjoining
      cases hs
      exact h.cancelWorkers hjoining
    · cases hs
  | timedOut =>
    simp only [executor] at hs
    split at hs
    · rename_i hjoining
      cases hs
      rcases hjoining with hj | hj
      · exact h.cancelWorkers hj
      · exact h.cancelWorkers hj
    · cases hs
  | gathered =>
    simp only [executor] at hs
    split at hs
    · rename_i hgathering
      cases hs
      have hoff : e.running = false := by
        apply h.stopping
        rw [hgathering.1]
        exact Option.some_ne_none _
      exact ⟨fun _ _ => rfl, fun _ => rfl, fun _ => hoff⟩
    · cases hs
  | closed =>
    simp only [executor] at hs
    split at hs
    · rename_i hclosing
      cases hs
      have hnil := h.closing hclosing
      exact ⟨fun _ _ => hnil, fun _ => hnil, fun hne => absurd rfl hne⟩
    · cases hs

/-! ## The balance -/

/-- Each id put is waiting, held, or in an ended call; the queue counts the first two. -/
structure Balanced (e : TradeExecutor) : Prop where
  unfinished : e.queue.unfinished = e.queue.items.length + e.held.length
  puts : e.puts.Perm (e.queue.items ++ e.held ++ e.calls.map Prod.fst)
  valueErrors : e.valueErrors = 0

/-- Nothing but the workers and the shutdown changes, and the workers hold the same. -/
theorem Balanced.frame (h : Balanced e) (hqueue : e'.queue = e.queue) (hheld : e'.held = e.held)
    (hputs : e'.puts = e.puts) (hcalls : e'.calls = e.calls)
    (herrors : e'.valueErrors = e.valueErrors) : Balanced e' := by
  constructor
  · rw [hqueue, hheld]
    exact h.unfinished
  · rw [hputs, hqueue, hheld, hcalls]
    exact h.puts
  · rw [herrors]
    exact h.valueErrors

theorem Balanced.submit (h : Balanced e) : Balanced (e.submit id).2 := by
  unfold TradeExecutor.submit
  split
  · rename_i q hput
    obtain rfl := TaskQueue.putNowait_eq_some hput
    constructor
    · have hcount := h.unfinished
      have hlength : (e.queue.items ++ [id]).length = e.queue.items.length + 1 :=
        List.length_append
      change e.queue.unfinished + 1 = (e.queue.items ++ [id]).length + e.held.length
      omega
    · change (e.puts ++ [id]).Perm
        (e.queue.items ++ [id] ++ e.held ++ e.calls.map Prod.fst)
      rw [List.append_assoc, List.append_assoc, List.singleton_append]
      refine List.perm_append_singleton id e.puts |>.trans ?_
      refine (h.puts.cons id).trans ?_
      rw [List.append_assoc]
      exact List.perm_middle.symm
    · exact h.valueErrors
  · exact h

theorem Balanced.submitAll (h : Balanced e) (ids : List TradeId) :
    Balanced (e.submitAll ids) := by
  induction ids generalizing e with
  | nil => exact h
  | cons id ids ih => exact ih h.submit

/-- Taking an id moves it from the queue to a worker. -/
theorem Balanced.get {q : TaskQueue TradeId} (h : Balanced e)
    (hw : e.workers[i]? = some ⟨.waiting, false⟩) (hq : e.queue.getNowait = some (id, q)) :
    Balanced ({ e with queue := q }.setWorker i ⟨.executing id false, false⟩) := by
  obtain ⟨hitems, hunfinished⟩ := TaskQueue.getNowait_eq_some hq
  let taken : TradeExecutor := { e with queue := q }.setWorker i ⟨.executing id false, false⟩
  change Balanced taken
  obtain ⟨before, after, hold, hnew⟩ := held_of_set taken hw rfl
  have hold : e.held = before ++ after := by simpa [Worker.item] using hold
  have hnew : taken.held = before ++ id :: after := by simpa [Worker.item] using hnew
  constructor
  · have hcount := h.unfinished
    rw [hold, hitems] at hcount
    rw [hnew]
    change q.unfinished = q.items.length + (before ++ id :: after).length
    rw [hunfinished, hcount]
    simp only [List.length_append, List.length_cons]
    omega
  · have hputs := h.puts
    rw [hold, hitems] at hputs
    rw [hnew]
    refine hputs.trans ?_
    apply List.Perm.append_right
    change (id :: q.items ++ (before ++ after)).Perm (q.items ++ (before ++ id :: after))
    rw [List.cons_append, ← List.append_assoc, ← List.append_assoc]
    exact List.perm_middle.symm
  · exact h.valueErrors

/-- The end of a call moves its id from the worker to the ended calls, and `task_done`
counts it: while a worker holds an id the count is positive. -/
theorem Balanced.finish {thrown : Bool} (h : Balanced e)
    (hw : e.workers[i]? = some ⟨.executing id thrown, false⟩) :
    Balanced (e.finish i id outcome) := by
  have hpositive : e.queue.unfinished ≠ 0 := by
    obtain ⟨before, after, hold, -⟩ := held_of_set (e.setWorker i .created) hw rfl
    have hcount := h.unfinished
    rw [hold] at hcount
    simp only [Worker.item, Option.toList_some, List.length_append, List.length_singleton]
      at hcount
    omega
  unfold TradeExecutor.finish
  split
  · rename_i q hdone
    obtain ⟨hitems, hunfinished⟩ := TaskQueue.taskDone_eq_some hdone
    generalize hnext : (⟨if outcome = CallOutcome.cancelled then .ended else .waiting, false⟩ : Worker)
      = next
    have hempty : next.item = none := by
      rw [← hnext]
      unfold Worker.item
      by_cases ho : outcome = .cancelled
      · rw [if_pos ho]
      · rw [if_neg ho]
    let counted : TradeExecutor :=
      { e with
        queue := q
        stopping := e.stopping.map (Stopping.release q.unfinished)
        calls := e.calls ++ [(id, outcome)] }.setWorker i next
    change Balanced counted
    obtain ⟨before, after, hold, hnew⟩ := held_of_set counted hw rfl
    have hold : e.held = before ++ id :: after := by simpa [Worker.item] using hold
    have hnew : counted.held = before ++ after := by simpa [hempty] using hnew
    constructor
    · have hcount := h.unfinished
      rw [hold] at hcount
      rw [hnew]
      change q.unfinished = q.items.length + (before ++ after).length
      rw [hitems]
      simp only [List.length_append, List.length_cons] at hcount ⊢
      omega
    · have hputs := h.puts
      rw [hold] at hputs
      rw [hnew]
      refine hputs.trans ?_
      change (e.queue.items ++ (before ++ id :: after) ++ e.calls.map Prod.fst).Perm
        (q.items ++ (before ++ after) ++ (e.calls ++ [(id, outcome)]).map Prod.fst)
      rw [hitems, List.map_append, List.map_singleton]
      have hmove : (e.queue.items ++ (before ++ id :: after)).Perm
          (e.queue.items ++ (before ++ after) ++ [id]) := by
        rw [List.append_assoc]
        apply List.Perm.append_left
        exact List.perm_middle.trans (List.perm_append_singleton id _).symm
      refine (hmove.append_right _).trans ?_
      rw [List.append_assoc]
      apply List.Perm.append_left
      exact List.perm_append_comm
    · exact h.valueErrors
  · rename_i hnone
    exact absurd (TaskQueue.taskDone_eq_none hnone) hpositive

theorem Balanced.throwCancelled (h : Balanced e) (hw : e.workers[i]? = some w) :
    Balanced (e.throwCancelled i w) := by
  have hframe : ∀ w', w'.item = w.item → Balanced (e.setWorker i w') := by
    intro w' hitem
    obtain ⟨before, after, hold, hnew⟩ := held_of_set (e.setWorker i w') hw rfl
    have hheld : (e.setWorker i w').held = e.held := by rw [hnew, hold, hitem]
    exact h.frame rfl hheld rfl rfl rfl
  unfold TradeExecutor.throwCancelled
  split
  · rename_i id thrown hpoint
    apply hframe
    rw [Worker.item, Worker.item, hpoint]
  · rename_i hpoint
    have hitem : w.item = none := by
      unfold Worker.item
      split
      · rename_i id thrown hexecuting
        exact absurd hexecuting (hpoint id thrown)
      · rfl
    exact hframe _ hitem.symm

theorem Balanced.cancelWorkers (h : Balanced e) : Balanced e.cancelWorkers := by
  have hheld : e.cancelWorkers.held = e.held := by
    change (e.workers.map Worker.cancel).filterMap Worker.item = e.workers.filterMap Worker.item
    rw [List.filterMap_map]
    apply List.filterMap_congr
    intro w _
    exact Worker.item_cancel w
  exact h.frame rfl hheld rfl rfl rfl

theorem Balanced.step {l : ExecutorAction} (h : Balanced e) (ho : Orderly e)
    (hs : (executor n).step e l = some e') : Balanced e' := by
  cases l with
  | start =>
    simp only [executor] at hs
    split at hs
    · rename_i hnone
      cases hs
      unfold TradeExecutor.start
      split
      · exact h
      · rename_i hoff
        have hbefore := held_of_workers_nil (ho.quiet (Bool.eq_false_iff.mpr hoff) hnone)
        have hafter : (List.replicate n Worker.created).filterMap Worker.item = [] :=
          List.filterMap_replicate_of_none Worker.item_created
        exact h.frame rfl (hafter.trans hbefore.symm) rfl rfl rfl
    · cases hs
  | submit id =>
    cases hs
    exact h.submit
  | resume ids =>
    cases hs
    exact h.submitAll ids
  | get i =>
    obtain ⟨hw, id, q, hq, rfl⟩ := step_get hs
    exact h.get hw hq
  | finish i outcome =>
    obtain ⟨id, thrown, hw, -, rfl⟩ := step_finish hs
    exact h.finish hw
  | throwCancelled i =>
    obtain ⟨w, hw, -, rfl⟩ := step_throwCancelled hs
    exact h.throwCancelled hw
  | stop =>
    cases hs
    unfold TradeExecutor.stop
    split
    · exact h.frame rfl rfl rfl rfl rfl
    · exact h
  | joined | timedOut =>
    simp only [executor] at hs
    split at hs
    · cases hs
      exact h.cancelWorkers
    · cases hs
  | gathered =>
    simp only [executor] at hs
    split at hs
    · rename_i hgathering
      cases hs
      exact h.frame rfl (held_of_live_eq_zero hgathering.2).symm rfl rfl rfl
    · cases hs
  | closed =>
    simp only [executor] at hs
    split at hs
    · cases hs
      exact h.frame rfl rfl rfl rfl rfl
    · cases hs

/-! ## Runs -/

theorem orderly_init (queueSize : Nat) : Orderly (init queueSize) :=
  ⟨fun _ _ => rfl, fun _ => rfl, fun hne => absurd rfl hne⟩

theorem balanced_init (queueSize : Nat) : Balanced (init queueSize) :=
  ⟨rfl, List.Perm.refl _, rfl⟩

section Run

variable {queueSize : Nat} {C : TradeExecutor → ExecutorAction → Prop} {ls : List ExecutorAction}

theorem orderly_of_run (h : Run (executor n) C (init queueSize) ls e) : Orderly e :=
  h.invariant (orderly_init queueSize) fun _ _ _ ho _ hs => ho.step hs

theorem balanced_of_run (h : Run (executor n) C (init queueSize) ls e) : Balanced e := by
  have hboth : Balanced e ∧ Orderly e := by
    apply h.invariant ⟨balanced_init queueSize, orderly_init queueSize⟩
    intro a l b hi _ hs
    exact ⟨hi.1.step hi.2 hs, hi.2.step hs⟩
  exact hboth.1

/-! ### The drain -/

/-- `join` is released by a count of zero and by nothing else. -/
theorem released_of_step {l : ExecutorAction} (hs : (executor n).step e l = some e')
    (hreleased : e'.stopping = some (.joining true)) :
    e.stopping = some (.joining true) ∨ e'.queue.unfinished = 0 := by
  cases l with
  | start =>
    simp only [executor] at hs
    split at hs
    · rename_i hnone
      cases hs
      unfold TradeExecutor.start at hreleased
      split at hreleased
      · exact Or.inl hreleased
      · exact Or.inl hreleased
    · cases hs
  | submit id =>
    cases hs
    rw [stopping_submit] at hreleased
    exact Or.inl hreleased
  | resume ids =>
    cases hs
    rw [stopping_submitAll] at hreleased
    exact Or.inl hreleased
  | get i =>
    obtain ⟨-, id, q, -, rfl⟩ := step_get hs
    exact Or.inl hreleased
  | finish i outcome =>
    obtain ⟨id, thrown, -, -, rfl⟩ := step_finish hs
    unfold TradeExecutor.finish at hreleased ⊢
    split at hreleased
    · rename_i q hq
      obtain ⟨s, hsome, hrelease⟩ := Option.map_eq_some_iff.mp hreleased
      cases s with
      | joining released =>
        have hor : (released || decide (q.unfinished = 0)) = true :=
          Stopping.joining.inj hrelease
        rcases Bool.or_eq_true_iff.mp hor with hr | hzero
        · left
          rw [hsome, hr]
        · right
          exact of_decide_eq_true hzero
      | gathering => cases hrelease
      | closing => cases hrelease
    · exact Or.inl hreleased
  | throwCancelled i =>
    obtain ⟨w, -, -, rfl⟩ := step_throwCancelled hs
    unfold TradeExecutor.throwCancelled at hreleased
    split at hreleased
    · exact Or.inl hreleased
    · exact Or.inl hreleased
  | stop =>
    cases hs
    unfold TradeExecutor.stop at hreleased ⊢
    split at hreleased
    · rename_i hrunning
      right
      rw [if_pos hrunning]
      have hzero := Stopping.joining.inj (Option.some.inj hreleased)
      exact of_decide_eq_true hzero
    · exact Or.inl hreleased
  | joined | timedOut | gathered | closed =>
    simp only [executor] at hs
    split at hs
    · cases hs
      cases hreleased
    · cases hs

/-- The call of `stop` in progress waits in `join`, which was released. -/
def drained (e : TradeExecutor) : Prop := e.stopping = some (.joining true)

/-- While `join` is released, a moment at which the count was zero lies behind it,
within the same call of `stop`. -/
theorem exists_drained (h : Run (executor n) unguarded (init queueSize) ls e)
    (hd : e.drained) :
    ∃ as bs m, ls = as ++ bs ∧ Run (executor n) unguarded (init queueSize) as m ∧
      m.drained ∧ m.queue.unfinished = 0 ∧ Run (executor n) (fun a _ => a.drained) m bs e := by
  induction h with
  | nil => cases hd
  | @snoc ls a b l hrun hg hs ih =>
    rcases released_of_step hs hd with hbefore | hzero
    · obtain ⟨as, bs, m, rfl, hto, hm, hmzero, hsince⟩ := ih hbefore
      refine ⟨as, bs ++ [l], m, by rw [List.append_assoc], hto, hm, hmzero, ?_⟩
      exact .snoc hsince hbefore hs
    · exact ⟨ls ++ [l], [], b, by rw [List.append_nil], .snoc hrun hg hs, hd, hzero, .nil⟩

/-! ### The shutdown -/

/-- Nothing runs and no call of `stop` is in progress. -/
structure Stopped (e : TradeExecutor) : Prop where
  running : e.running = false
  workers : e.workers = []
  stopping : e.stopping = none

theorem Stopped.held (h : Stopped e) : e.held = [] := held_of_workers_nil h.workers

/-- Only `start` starts a worker. -/
theorem Stopped.step {l : ExecutorAction} (h : Stopped e) (hl : l ≠ .start)
    (hs : (executor n).step e l = some e') : Stopped e' := by
  have hnone : ∀ i : Nat, e.workers[i]? = none := by
    intro i
    rw [h.workers, List.getElem?_nil]
  cases l with
  | start => exact absurd rfl hl
  | submit id =>
    cases hs
    exact ⟨running_submit.trans h.running, workers_submit.trans h.workers,
      stopping_submit.trans h.stopping⟩
  | resume ids =>
    cases hs
    exact ⟨running_submitAll.trans h.running, workers_submitAll.trans h.workers,
      stopping_submitAll.trans h.stopping⟩
  | get i =>
    obtain ⟨hw, -⟩ := step_get hs
    cases (hnone i).symm.trans hw
  | finish i outcome =>
    obtain ⟨id, thrown, hw, -⟩ := step_finish hs
    cases (hnone i).symm.trans hw
  | throwCancelled i =>
    obtain ⟨w, hw, -⟩ := step_throwCancelled hs
    cases (hnone i).symm.trans hw
  | stop =>
    cases hs
    unfold TradeExecutor.stop
    rw [if_neg (by rw [h.running]; exact Bool.false_ne_true)]
    exact h
  | joined | timedOut | gathered | closed =>
    simp only [executor, h.stopping] at hs
    simp at hs

theorem Stopped.run {C : TradeExecutor → ExecutorAction → Prop} {u : TradeExecutor}
    {ms : List ExecutorAction} (h : Stopped e) (hC : ∀ a l, C a l → l ≠ .start)
    (hrun : Run (executor n) C e ms u) : Stopped u :=
  hrun.invariant h fun a l _ hi hg hs => hi.step (hC a l hg) hs

/-- When a call of `stop` returns while no other is in progress, everything has stopped. -/
theorem stopped_of_returns {l : ExecutorAction} (ho : Orderly e)
    (hs : (executor n).step e l = some e') (hl : e.returnsFromStop l = true)
    (hother : l = .stop → e.stopping = none) : Stopped e' := by
  cases l with
  | stop =>
    have hoff : e.running = false := by simpa [returnsFromStop] using hl
    cases hs
    unfold TradeExecutor.stop
    rw [if_neg (by rw [hoff]; exact Bool.false_ne_true)]
    exact ⟨hoff, ho.quiet hoff (hother rfl), hother rfl⟩
  | closed =>
    simp only [executor] at hs
    split at hs
    · rename_i hclosing
      cases hs
      have hoff : e.running = false := by
        apply ho.stopping
        rw [hclosing]
        exact Option.some_ne_none _
      exact ⟨hoff, ho.closing hclosing, rfl⟩
    · cases hs
  | start | submit | resume | get | finish | throwCancelled | joined | timedOut | gathered =>
    cases hl

/-! ### Failing calls -/

/-- A call of `_execute` that ends without a cancellation leaves its worker alive. -/
theorem live_finish (hb : Balanced e) (ho : outcome ≠ .cancelled)
    (hs : (executor n).step e (.finish i outcome) = some e') : e'.live = e.live := by
  obtain ⟨id, thrown, hw, -, rfl⟩ := step_finish hs
  have hfinish : Balanced (e.finish i id outcome) := hb.finish hw
  have herrors := hfinish.valueErrors
  unfold TradeExecutor.finish at herrors ⊢
  split
  · rename_i q hq
    rw [if_neg ho]
    exact live_of_set hw rfl rfl
  · rename_i hnone
    rw [hnone] at herrors
    cases herrors

end Run

end TradeExecutor

open TradeExecutor

/-- **The books of the executor balance.** In every state reached the queue counts the ids
waiting and the ids held by workers, and `task_done` was never called once too often;
`join` completes only after a moment, within its call of `stop`, at which each id put
until then has gone through one call of `_execute` per put; a call that returns or raises
leaves as many workers alive; and once a call of `stop` has returned, no call of
`_execute` is under way until the next `start`, unless that call of `stop` found another
one in progress. -/
theorem executor_accounting {workerCount queueSize : Nat} {ls : List ExecutorAction}
    {e : TradeExecutor} (h : Run (executor workerCount) unguarded (init queueSize) ls e) :
    e.queue.unfinished = e.queue.items.length + e.held.length ∧
    e.valueErrors = 0 ∧
    (∀ e', (executor workerCount).step e .joined = some e' →
      ∃ as bs m, ls = as ++ bs ∧
        Run (executor workerCount) unguarded (init queueSize) as m ∧
        m.queue.unfinished = 0 ∧ m.puts.Perm (m.calls.map Prod.fst) ∧
        Run (executor workerCount) (fun a _ => a.drained) m bs e) ∧
    (∀ i outcome e', outcome ≠ .cancelled →
      (executor workerCount).step e (.finish i outcome) = some e' → e'.live = e.live) ∧
    (∀ l e', (executor workerCount).step e l = some e' → e.returnsFromStop l = true →
      (l = .stop → e.stopping = none) →
      ∀ ms u, Run (executor workerCount) (fun _ l => l ≠ .start) e' ms u → u.held = []) := by
  have hb := balanced_of_run h
  refine ⟨hb.unfinished, hb.valueErrors, ?_, ?_, ?_⟩
  · intro e' hjoined
    have hdrained : e.drained := by
      simp only [executor] at hjoined
      split at hjoined
      · assumption
      · cases hjoined
    obtain ⟨as, bs, m, hls, hto, -, hzero, hsince⟩ := exists_drained h hdrained
    refine ⟨as, bs, m, hls, hto, hzero, ?_, hsince⟩
    have hm := balanced_of_run hto
    have hcount := hm.unfinished
    rw [hzero] at hcount
    have hitems : m.queue.items = [] := List.length_eq_zero_iff.mp (by omega)
    have hheld : m.held = [] := List.length_eq_zero_iff.mp (by omega)
    have hputs := hm.puts
    rw [hitems, hheld] at hputs
    exact hputs
  · intro i outcome e' ho hs
    exact live_finish hb ho hs
  · intro l e' hs hl hother ms u hrun
    have hstopped := stopped_of_returns (orderly_of_run h) hs hl hother
    exact (hstopped.run (fun _ _ hne => hne) hrun).held

/-- One worker, one trade, and a call of `_execute` that raises during the shutdown. -/
def failingDrain : List ExecutorAction :=
  [.start, .submit 7, .get 0, .stop, .finish 0 .raised]

def afterFailingDrain : TradeExecutor :=
  ((executor 1).follow unguarded (init 1) failingDrain).get (by decide)

theorem executor_accounting_failingDrain :
    afterFailingDrain.queue.unfinished =
      afterFailingDrain.queue.items.length + afterFailingDrain.held.length ∧
    afterFailingDrain.valueErrors = 0 ∧
    ∃ as bs m, failingDrain = as ++ bs ∧ Run (executor 1) unguarded (init 1) as m ∧
      m.queue.unfinished = 0 ∧ m.puts.Perm (m.calls.map Prod.fst) ∧
      Run (executor 1) (fun a _ => a.drained) m bs afterFailingDrain := by
  have hrun : Run (executor 1) unguarded (init 1) failingDrain afterFailingDrain :=
    System.run_get (by decide)
  have h := executor_accounting hrun
  exact ⟨h.1, h.2.1, h.2.2.1 _ rfl⟩

/-- A second call of `stop` while the first waits for a trade under way. -/
def secondStop : List ExecutorAction := [.start, .submit 7, .get 0, .stop]

def beforeSecondStop : TradeExecutor :=
  ((executor 1).follow unguarded (init 1) secondStop).get (by decide)

/-- The second call returns at once, with the trade still under way. -/
theorem second_stop_returns_while_executing :
    ¬ ∀ (workerCount queueSize : Nat) (ls : List ExecutorAction) (e e' : TradeExecutor)
      (l : ExecutorAction), Run (executor workerCount) unguarded (init queueSize) ls e →
      (executor workerCount).step e l = some e' → e.returnsFromStop l = true → e'.held = [] := by
  intro hall
  have hrun : Run (executor 1) unguarded (init 1) secondStop beforeSecondStop :=
    System.run_get (by decide)
  have hheld : beforeSecondStop.held = [] :=
    hall 1 1 secondStop beforeSecondStop beforeSecondStop .stop hrun rfl rfl
  revert hheld
  decide

end AutoTrader
