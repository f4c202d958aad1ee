import AutoTrader.Results.Accounting

/-!
# First come, first served

The workers take the ids in the order in which they were put, over every start and shutdown of
the executor: what has been taken is always the beginning of what has been put, and with every
`get` it grows by the next one. No more ids are under way than there are workers, no more wait
than the queue holds, and while the executor runs no id waits next to an idle worker.
-/

namespace AutoTrader

open Asyncio Transition

namespace TradeExecutor

variable {n : Nat} {e e' : TradeExecutor} {i : Nat} {id : TradeId} {l : ExecutorAction}

/-- The ids that are no longer in the queue, in the order in which they were put. -/
def taken (e : TradeExecutor) : List TradeId := e.puts.take (e.puts.length - e.queue.items.length)

theorem taken_eq {before : List TradeId} (h : e.puts = before ++ e.queue.items) :
    e.taken = before := by
  rw [taken, h, List.length_append, Nat.add_sub_cancel, List.take_left]

theorem puts_eq (h : e.queue.items <:+ e.puts) : e.puts = e.taken ++ e.queue.items := by
  obtain ⟨before, hbefore⟩ := h
  rw [taken_eq hbefore.symm, hbefore]

/-- The queue is the end of what was put, and fits. -/
structure InTurn (queueSize : Nat) (e : TradeExecutor) : Prop where
  order : e.queue.items <:+ e.puts
  maxsize : e.queue.maxsize = queueSize
  room : 0 < queueSize → e.queue.items.length ≤ queueSize

/-! ## One step -/

/-- How many ids the actions take from the queue. -/
def takes (ls : List ExecutorAction) : Nat :=
  ls.countP fun l => match l with
    | .get _ => true
    | _ => false

/-- What is put only grows, and a `get` takes the next id. -/
structure Advances (e e' : TradeExecutor) (k : Nat) : Prop where
  puts : e.puts <+: e'.puts
  taken : e'.taken.length = e.taken.length + k

section Steps

variable {queueSize : Nat}

theorem Advances.of_same (hputs : e'.puts = e.puts) (hqueue : e'.queue.items = e.queue.items) :
    Advances e e' 0 := by
  constructor
  · rw [hputs]
  · rw [TradeExecutor.taken, TradeExecutor.taken, hputs, hqueue, Nat.add_zero]

theorem Advances.trans {m : TradeExecutor} {j k : Nat} (h : Advances e m j) (h' : Advances m e' k) :
    Advances e e' (j + k) := by
  constructor
  · exact h.puts.trans h'.puts
  · rw [h'.taken, h.taken, Nat.add_assoc]

theorem InTurn.of_same (h : InTurn queueSize e) (hputs : e'.puts = e.puts)
    (hitems : e'.queue.items = e.queue.items) (hmaxsize : e'.queue.maxsize = e.queue.maxsize) :
    InTurn queueSize e' := by
  constructor
  · rw [hitems, hputs]
    exact h.order
  · rw [hmaxsize]
    exact h.maxsize
  · rw [hitems]
    exact h.room

theorem InTurn.submit (h : InTurn queueSize e) (id : TradeId) :
    InTurn queueSize (e.submit id).2 ∧ Advances e (e.submit id).2 0 := by
  unfold TradeExecutor.submit
  split
  · rename_i q hput
    have hfull : e.queue.full = false := by
      unfold TaskQueue.putNowait at hput
      split at hput
      · cases hput
      · rename_i hnot
        exact Bool.eq_false_of_not_eq_true hnot
    obtain rfl := TaskQueue.putNowait_eq_some hput
    have hputs : e.puts ++ [id] = e.taken ++ (e.queue.items ++ [id]) := by
      rw [← List.append_assoc, ← puts_eq h.order]
    refine ⟨⟨⟨e.taken, hputs.symm⟩, h.maxsize, fun hpos => ?_⟩, List.prefix_append _ _, ?_⟩
    · -- the queue was not full
      have hroom : ¬ queueSize ≤ e.queue.items.length := by
        rw [TaskQueue.full, h.maxsize, decide_eq_true hpos, Bool.true_and] at hfull
        exact of_decide_eq_false hfull
      simp only [List.length_append, List.length_singleton]
      omega
    · rw [taken_eq hputs, Nat.add_zero]
  · exact ⟨h, .of_same rfl rfl⟩

theorem InTurn.submitAll (h : InTurn queueSize e) (ids : List TradeId) :
    InTurn queueSize (e.submitAll ids) ∧ Advances e (e.submitAll ids) 0 := by
  induction ids generalizing e with
  | nil => exact ⟨h, .of_same rfl rfl⟩
  | cons id ids ih =>
    obtain ⟨hturn, hadvances⟩ := h.submit id
    obtain ⟨hturn', hadvances'⟩ := ih hturn
    exact ⟨hturn', hadvances.trans hadvances'⟩

/-- **One step of the queue**: what is taken grows by the head of the queue, and by nothing else. -/
theorem InTurn.step (h : InTurn queueSize e) (hs : (executor n).step e l = some e') :
    InTurn queueSize e' ∧ Advances e e' (takes [l]) := by
  cases l with
  | get i =>
    obtain ⟨-, id, q, hq, rfl⟩ := step_get hs
    obtain ⟨hitems, -⟩ := TaskQueue.getNowait_eq_some hq
    have hmaxsize : q.maxsize = e.queue.maxsize := by
      unfold TaskQueue.getNowait at hq
      split at hq
      · cases hq
      · cases hq
        rfl
    have hputs : e.puts = (e.taken ++ [id]) ++ q.items := by
      rw [List.append_assoc, List.singleton_append, ← hitems, ← puts_eq h.order]
    refine ⟨⟨⟨_, hputs.symm⟩, hmaxsize.trans h.maxsize, fun hpos => ?_⟩, List.prefix_rfl, ?_⟩
    · have hroom := h.room hpos
      rw [hitems, List.length_cons] at hroom
      exact Nat.le_of_succ_le hroom
    · exact (congrArg List.length (taken_eq hputs)).trans List.length_append
  | start =>
    simp only [executor] at hs
    split at hs
    · cases hs
      unfold TradeExecutor.start
      split
      · exact ⟨h, .of_same rfl rfl⟩
      · exact ⟨h.of_same rfl rfl rfl, .of_same rfl rfl⟩
    · cases hs
  | submit id =>
    cases hs
    exact h.submit id
  | resume ids =>
    cases hs
    exact h.submitAll ids
  | finish i outcome =>
    obtain ⟨id, thrown, -, -, rfl⟩ := step_finish hs
    unfold TradeExecutor.finish
    split
    · rename_i q hdone
      have hmaxsize : q.maxsize = e.queue.maxsize := by
        unfold TaskQueue.taskDone at hdone
        split at hdone
        · cases hdone
        · cases hdone
          rfl
      exact ⟨h.of_same rfl (TaskQueue.taskDone_eq_some hdone).1 hmaxsize,
        .of_same rfl (TaskQueue.taskDone_eq_some hdone).1⟩
    · exact ⟨h.of_same rfl rfl rfl, .of_same rfl rfl⟩
  | throwCancelled i =>
    obtain ⟨w, -, -, rfl⟩ := step_throwCancelled hs
    unfold TradeExecutor.throwCancelled
    split
    · exact ⟨h.of_same rfl rfl rfl, .of_same rfl rfl⟩
    · exact ⟨h.of_same rfl rfl rfl, .of_same rfl rfl⟩
  | stop =>
    cases hs
    unfold TradeExecutor.stop
    split
    · exact ⟨h.of_same rfl rfl rfl, .of_same rfl rfl⟩
    · exact ⟨h, .of_same rfl rfl⟩
  | joined | timedOut | gathered | closed =>
    simp only [executor] at hs
    split at hs
    · cases hs
      exact ⟨h.of_same rfl rfl rfl, .of_same rfl rfl⟩
    · cases hs

end Steps

/-! ## The workers -/

/-- A worker waits or is in a call, and no cancellation is pending. -/
def Ready (w : Worker) : Prop := w = ⟨.waiting, false⟩ ∨ ∃ id, w = ⟨.executing id false, false⟩

/-- The workers are at most as many as configured, and while the executor runs they are all there
and ready. -/
structure Staffed (n : Nat) (e : TradeExecutor) : Prop where
  few : e.workers.length ≤ n
  ready : e.running = true → e.workers.length = n ∧ ∀ w ∈ e.workers, Ready w

theorem Staffed.of_same (h : Staffed n e) (hworkers : e'.workers = e.workers)
    (hrunning : e'.running = true → e.running = true) : Staffed n e' := by
  constructor
  · rw [hworkers]
    exact h.few
  · intro hr
    rw [hworkers]
    exact h.ready (hrunning hr)

theorem Staffed.set {w : Worker} (h : Staffed n e) (hworkers : e'.workers = e.workers.set i w)
    (hrunning : e'.running = e.running) (hw : e.running = true → Ready w) : Staffed n e' := by
  constructor
  · rw [hworkers, List.length_set]
    exact h.few
  · intro hr
    rw [hrunning] at hr
    obtain ⟨hall, hready⟩ := h.ready hr
    rw [hworkers, List.length_set]
    refine ⟨hall, fun w' hw' => ?_⟩
    rcases List.mem_or_eq_of_mem_set hw' with hw' | rfl
    · exact hready w' hw'
    · exact hw hr

theorem Staffed.cancelWorkers (h : Staffed n e) (hoff : e.running = false) :
    Staffed n e.cancelWorkers := by
  constructor
  · change (e.workers.map Worker.cancel).length ≤ n
    rw [List.length_map]
    exact h.few
  · intro hr
    cases hoff.symm.trans hr

theorem Staffed.step (h : Staffed n e) (ho : Orderly e) (hb : Balanced e)
    (hs : (executor n).step e l = some e') : Staffed n e' := by
  have hready : ∀ {i : Nat} {w : Worker}, e.workers[i]? = some w → e.running = true → Ready w :=
    fun hw hr => (h.ready hr).2 _ (List.mem_of_getElem? hw)
  have hoff : ∀ s, e.stopping = some s → e.running = false := by
    intro s hsome
    apply ho.stopping
    rw [hsome]
    exact Option.some_ne_none _
  cases l with
  | get i =>
    obtain ⟨-, id, q, -, rfl⟩ := step_get hs
    exact h.set rfl rfl fun _ => Or.inr ⟨id, rfl⟩
  | start =>
    simp only [executor] at hs
    split at hs
    · cases hs
      unfold TradeExecutor.start
      split
      · exact h
      · refine ⟨le_of_eq List.length_replicate, fun _ => ⟨List.length_replicate, fun w hw => ?_⟩⟩
        exact Or.inl (List.eq_of_mem_replicate hw)
    · cases hs
  | submit id =>
    cases hs
    exact h.of_same workers_submit fun hr => running_submit ▸ hr
  | resume ids =>
    cases hs
    exact h.of_same workers_submitAll fun hr => running_submitAll ▸ hr
  | finish i outcome =>
    obtain ⟨id, thrown, hw, hcancelled, rfl⟩ := step_finish hs
    have hfinish : Balanced (e.finish i id outcome) := hb.finish hw
    have herrors := hfinish.valueErrors
    unfold TradeExecutor.finish at herrors ⊢
    split
    · refine h.set rfl rfl fun hr => Or.inl ?_
      rcases hready hw hr with hw | ⟨id', hw⟩
      · cases hw
      · -- a call that was not told to stop does not end with a cancellation
        cases hw
        rw [if_neg fun hout => Bool.false_ne_true (hcancelled hout)]
    · rename_i hnone
      rw [hnone] at herrors
      cases herrors
  | throwCancelled i =>
    obtain ⟨w, hw, hrequested, rfl⟩ := step_throwCancelled hs
    have hnot : e.running ≠ true := by
      intro hr
      rcases hready hw hr with rfl | ⟨id, rfl⟩
      · cases hrequested
      · cases hrequested
    unfold TradeExecutor.throwCancelled
    split
    · exact h.set rfl rfl fun hr => absurd hr hnot
    · exact h.set rfl rfl fun hr => absurd hr hnot
  | stop =>
    cases hs
    unfold TradeExecutor.stop
    split
    · exact h.of_same rfl fun hr => (by cases hr)
    · exact h
  | joined =>
    simp only [executor] at hs
    split at hs
    · rename_i hjoining
      cases hs
      exact h.cancelWorkers (hoff _ hjoining)
    · cases hs
  | timedOut =>
    simp only [executor] at hs
    split at hs
    · rename_i hjoining
      cases hs
      exact h.cancelWorkers (hjoining.elim (hoff _) (hoff _))
    · cases hs
  | gathered =>
    simp only [executor] at hs
    split at hs
    · rename_i hgathering
      cases hs
      have hrunning := hoff _ hgathering.1
      exact ⟨Nat.zero_le _, fun hr => absurd (hrunning.symm.trans hr) Bool.false_ne_true⟩
    · cases hs
  | closed =>
    simp only [executor] at hs
    split at hs
    · cases hs
      exact h.of_same rfl fun hr => hr
    · cases hs

/-- An id waits, and a worker holds none: the worker can take the id. -/
theorem Staffed.exists_get (h : Staffed n e) (hr : e.running = true)
    (hitems : e.queue.items ≠ []) (hidle : e.held.length < n) :
    ∃ i e', (executor n).step e (.get i) = some e' := by
  obtain ⟨hall, hready⟩ := h.ready hr
  obtain ⟨w, hw, hitem⟩ : ∃ w ∈ e.workers, w.item = none := by
    by_contra hnone
    rw [not_exists] at hnone
    have hlength : e.held.length = e.workers.length := by
      rw [held, List.length_filterMap_eq_countP, List.countP_eq_length]
      exact fun w hw => Option.ne_none_iff_isSome.mp fun hitem => hnone w ⟨hw, hitem⟩
    omega
  have hwaiting : w = ⟨.waiting, false⟩ := by
    rcases hready w hw with hw | ⟨id, rfl⟩
    · exact hw
    · cases hitem
  obtain ⟨i, hi⟩ := List.mem_iff_getElem?.mp hw
  cases hqueue : e.queue.items with
  | nil => exact absurd hqueue hitems
  | cons id rest =>
    have hget : (executor n).step e (.get i) = e.get i := by
      simp only [executor, hi, hwaiting]
    have hsome : (e.get i).isSome = true := by
      simp only [TradeExecutor.get, TaskQueue.getNowait, hqueue, Option.map_some, Option.isSome_some]
    exact ⟨i, _, hget.trans (Option.some_get hsome).symm⟩

/-! ## Runs -/

section Run

variable {queueSize : Nat} {C : TradeExecutor → ExecutorAction → Prop} {ls : List ExecutorAction}

theorem inTurn_of_run (h : Run (executor n) C (init queueSize) ls e) : InTurn queueSize e :=
  h.invariant ⟨List.nil_suffix, rfl, fun _ => Nat.zero_le _⟩ fun _ _ _ hturn _ hs =>
    (hturn.step hs).1

theorem staffed_of_run (h : Run (executor n) C (init queueSize) ls e) : Staffed n e := by
  have hall : Staffed n e ∧ Orderly e ∧ Balanced e := by
    apply h.invariant ⟨⟨Nat.zero_le _, fun hr => (by cases hr)⟩, orderly_init queueSize,
      balanced_init queueSize⟩
    intro a l b hi _ hs
    exact ⟨hi.1.step hi.2.1 hi.2.2 hs, hi.2.1.step hs, hi.2.2.step hi.2.1 hs⟩
  exact hall.1

theorem takes_concat (ls : List ExecutorAction) (l : ExecutorAction) :
    takes (ls ++ [l]) = takes ls + takes [l] := List.countP_append

/-- **A run of the queue**: what is taken grows by as many ids as there were `get`s. -/
theorem InTurn.advances (h : InTurn queueSize e) (hrun : Run (executor n) C e ls e') :
    InTurn queueSize e' ∧ Advances e e' (takes ls) := by
  induction hrun with
  | nil => exact ⟨h, .of_same rfl rfl⟩
  | snoc _ _ hs ih =>
    obtain ⟨hturn, hadvances⟩ := ih
    obtain ⟨hturn', hstep⟩ := hturn.step hs
    rw [takes_concat]
    exact ⟨hturn', hadvances.trans hstep⟩

end Run

end TradeExecutor

open TradeExecutor

/-- **First come, first served.** In every state that the executor reaches, through any starts and
shutdowns:

* what has been put is what has been taken and, behind it, what waits; the ids taken are those under
  way and those whose call has ended; at most as many are under way as there are workers, and at most
  as many wait as the queue holds;
* in every further run the ids are taken in the order in which they were put: what is taken in the
  end is the beginning of what is put in the end, longer by the number of `get`s; so an id that waits
  behind `k` others is taken with the `get` after `k` of them, whatever is put meanwhile;
* while the executor runs and fewer ids are under way than it has workers, an id that waits can be
  taken. -/
theorem executor_first_come_first_served {workerCount queueSize : Nat} {ls : List ExecutorAction}
    {e : TradeExecutor} (h : Run (executor workerCount) unguarded (init queueSize) ls e) :
    e.puts = e.taken ++ e.queue.items ∧
    e.taken.Perm (e.held ++ e.calls.map Prod.fst) ∧
    e.held.length ≤ workerCount ∧
    (0 < queueSize → e.queue.items.length ≤ queueSize) ∧
    (∀ ms u, Run (executor workerCount) unguarded e ms u →
      u.taken = u.puts.take (e.taken.length + takes ms) ∧
      ∀ before id after, e.queue.items = before ++ id :: after → before.length < takes ms →
        e.taken ++ before ++ [id] <+: u.taken) ∧
    (e.running = true → e.queue.items ≠ [] → e.held.length < workerCount →
      ∃ i e', (executor workerCount).step e (.get i) = some e') := by
  have hturn := inTurn_of_run h
  have hb := balanced_of_run h
  have hstaffed := staffed_of_run h
  refine ⟨puts_eq hturn.order, ?_, ?_, hturn.room, ?_, hstaffed.exists_get⟩
  · have hputs := hb.puts
    rw [puts_eq hturn.order, List.append_assoc] at hputs
    exact (List.perm_append_right_iff _).mp (hputs.trans List.perm_append_comm)
  · exact le_trans (List.length_filterMap_le _ _) hstaffed.few
  · intro ms u hrun
    obtain ⟨hturn', hputs, htaken⟩ := hturn.advances hrun
    have hbegin : u.taken <+: u.puts := ⟨u.queue.items, (puts_eq hturn'.order).symm⟩
    refine ⟨by rw [← htaken]; exact List.prefix_iff_eq_take.mp hbegin, ?_⟩
    intro before id after hitems hlt
    have hold : e.taken ++ before ++ [id] <+: e.puts := by
      refine ⟨after, ?_⟩
      rw [puts_eq hturn.order, hitems, List.append_assoc, List.append_assoc, List.singleton_append]
    refine List.prefix_of_prefix_length_le (hold.trans hputs) hbegin ?_
    rw [htaken, List.length_append, List.length_append, List.length_singleton]
    omega

/-- Two workers and three trades; the call for the second ends first. -/
def failingSecond : List ExecutorAction :=
  [.start, .submit 7, .submit 8, .submit 9, .get 1, .get 0, .finish 0 .raised]

theorem executor_first_come_first_served_failingSecond : ∃ e u,
    Run (executor 2) unguarded (init 3) failingSecond e ∧
      Run (executor 2) unguarded e [.submit 5, .get 0] u ∧ u.taken = [7, 8, 9] := by
  have hrun := System.run_get
    (show ((executor 2).follow unguarded (init 3) failingSecond).isSome by decide)
  have hthen := System.run_get (show ((executor 2).follow unguarded
    (((executor 2).follow unguarded (init 3) failingSecond).get (by decide))
      [.submit 5, .get 0]).isSome by decide)
  obtain ⟨htaken, -⟩ := (executor_first_come_first_served hrun).2.2.2.2.1 _ _ hthen
  exact ⟨_, _, hrun, hthen, htaken.trans (by decide)⟩

end AutoTrader
