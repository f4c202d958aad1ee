import AutoTrader.Asyncio.Queue
import AutoTrader.Db.Models
import AutoTrader.Transition.Run

/-!
# The class `TradeExecutor`

Its queue, its worker tasks and its shutdown, with what a call of `_execute` does to a
trade left open: a call is under way until it returns, raises, or ends with the
cancellation that was thrown into it. One step is what a task does between two
suspensions of the event loop. The request ids, the log and the exchange client are
left out.
-/

namespace AutoTrader

open Asyncio Transition

/-! ## Workers -/

/-- Where a worker is suspended. -/
inductive WorkerPoint
  /-- In `self._queue.get()`, or not started yet. -/
  | waiting
  /-- In `_execute`, into which a `CancelledError` may have been thrown. -/
  | executing (id : TradeId) (thrown : Bool)
  | ended
  deriving DecidableEq

structure Worker where
  point : WorkerPoint
  /-- `cancel` was called and the `CancelledError` is not thrown yet. -/
  cancelRequested : Bool
  deriving DecidableEq

namespace Worker

def created : Worker := ⟨.waiting, false⟩

/-- `worker.cancel()`, which does nothing to a task that has ended. -/
def cancel (w : Worker) : Worker :=
  if w.point = .ended then w else { w with cancelRequested := true }

/-- The id a worker holds: taken from the queue and not reported done. -/
def item (w : Worker) : Option TradeId :=
  match w.point with
  | .executing id _ => some id
  | _ => none

def alive (w : Worker) : Bool := w.point ≠ .ended

@[simp] theorem item_cancel (w : Worker) : w.cancel.item = w.item := by
  unfold cancel
  split <;> rfl

@[simp] theorem item_created : created.item = none := rfl

end Worker

/-- How a call of `_execute` ends. -/
inductive CallOutcome
  | returned
  | raised
  | cancelled
  deriving DecidableEq

/-! ## The executor -/

/-- Where the call of `stop` is that found the executor running. -/
inductive Stopping
  /-- In `self._queue.join()`; `released` once the count has fallen to zero. -/
  | joining (released : Bool)
  /-- In `asyncio.gather(...)`. -/
  | gathering
  /-- In `self._binance.close()`. -/
  | closing
  deriving DecidableEq

/-- The fields of the class and the call of `stop` in progress; `puts`, `calls` and
`valueErrors` are a history which nothing reads. -/
structure TradeExecutor where
  running : Bool
  queue : TaskQueue TradeId
  workers : List Worker
  stopping : Option Stopping
  /-- The ids `submit` has put on the queue. -/
  puts : List TradeId
  /-- The calls of `_execute` that have ended. -/
  calls : List (TradeId × CallOutcome)
  /-- How often `task_done` was called once too often. -/
  valueErrors : Nat

namespace TradeExecutor

/-- `__init__`. -/
def init (queueSize : Nat) : TradeExecutor where
  running := false
  queue := .new queueSize
  workers := []
  stopping := none
  puts := []
  calls := []
  valueErrors := 0

/-- The ids held by workers. -/
def held (e : TradeExecutor) : List TradeId := e.workers.filterMap Worker.item

/-- The number of live workers. -/
def live (e : TradeExecutor) : Nat := e.workers.countP Worker.alive

def setWorker (e : TradeExecutor) (i : Nat) (w : Worker) : TradeExecutor :=
  { e with workers := e.workers.set i w }

/-- `submit`. -/
def submit (e : TradeExecutor) (id : TradeId) : Bool × TradeExecutor :=
  match e.queue.putNowait id with
  | some q => (true, { e with queue := q, puts := e.puts ++ [id] })
  | none => (false, e)

/-- The loop of `resume_pending` over the ids it has selected. -/
def submitAll (e : TradeExecutor) (ids : List TradeId) : TradeExecutor :=
  ids.foldl (fun e id => (e.submit id).2) e

/-- `start`. -/
def start (workerCount : Nat) (e : TradeExecutor) : TradeExecutor :=
  if e.running then e
  else { e with running := true, workers := List.replicate workerCount .created }

/-- A worker's `get` returns an id, and `_execute` is entered. -/
def get (e : TradeExecutor) (i : Nat) : Option TradeExecutor :=
  e.queue.getNowait.map fun x => { e with queue := x.2 }.setWorker i ⟨.executing x.1 false, false⟩

/-- The count falling to zero sets the event `join` waits for. -/
def Stopping.release (unfinished : Nat) : Stopping → Stopping
  | .joining released => .joining (released || unfinished = 0)
  | s => s

/-- The `finally` clause after a call of `_execute` for `id` has ended: a `ValueError`
of `task_done` would end the worker. -/
def finish (e : TradeExecutor) (i : Nat) (id : TradeId) (outcome : CallOutcome) : TradeExecutor :=
  match e.queue.taskDone with
  | some q =>
    { e with
      queue := q
      stopping := e.stopping.map (Stopping.release q.unfinished)
      calls := e.calls ++ [(id, outcome)] }.setWorker i
      ⟨if outcome = CallOutcome.cancelled then .ended else .waiting, false⟩
  | none =>
    { e with
      calls := e.calls ++ [(id, outcome)]
      valueErrors := e.valueErrors + 1 }.setWorker i ⟨.ended, false⟩

/-- The `CancelledError` that was asked for is thrown into the worker. -/
def throwCancelled (e : TradeExecutor) (i : Nat) (w : Worker) : TradeExecutor :=
  match w.point with
  | .executing id _ => e.setWorker i ⟨.executing id true, false⟩
  | _ => e.setWorker i ⟨.ended, false⟩

/-- `stop`, up to its first suspension. -/
def stop (e : TradeExecutor) : TradeExecutor :=
  if e.running then
    { e with running := false, stopping := some (.joining (e.queue.unfinished = 0)) }
  else e

/-- `stop` after the drain: every worker is cancelled. -/
def cancelWorkers (e : TradeExecutor) : TradeExecutor :=
  { e with workers := e.workers.map Worker.cancel, stopping := some .gathering }

end TradeExecutor

/-! ## Its steps -/

inductive ExecutorAction
  | start
  | submit (id : TradeId)
  /-- `resume_pending` has selected these ids. -/
  | resume (ids : List TradeId)
  | get (worker : Nat)
  | finish (worker : Nat) (outcome : CallOutcome)
  | throwCancelled (worker : Nat)
  | stop
  /-- `self._queue.join()` completes. -/
  | joined
  /-- The drain timeout expires. -/
  | timedOut
  | gathered
  | closed
  deriving DecidableEq

open TradeExecutor in
/-- The executor with `workerCount` workers. A task whose cancellation is pending does
nothing before the `CancelledError` is thrown; `start` is not called while a `stop` is
in progress. -/
def executor (workerCount : Nat) : System TradeExecutor ExecutorAction where
  step e
    | .start => if e.stopping = none then some (e.start workerCount) else none
    | .submit id => some (e.submit id).2
    | .resume ids => some (e.submitAll ids)
    | .get i =>
      match e.workers[i]? with
      | some ⟨.waiting, false⟩ => e.get i
      | _ => none
    | .finish i outcome =>
      match e.workers[i]? with
      | some ⟨.executing id thrown, false⟩ =>
        if outcome = .cancelled ∧ thrown = false then none else some (e.finish i id outcome)
      | _ => none
    | .throwCancelled i =>
      match e.workers[i]? with
      | some w => if w.cancelRequested then some (e.throwCancelled i w) else none
      | none => none
    | .stop => some e.stop
    | .joined => if e.stopping = some (.joining true) then some e.cancelWorkers else none
    | .timedOut =>
      if e.stopping = some (.joining false) ∨ e.stopping = some (.joining true) then
        some e.cancelWorkers
      else none
    | .gathered =>
      if e.stopping = some .gathering ∧ e.live = 0 then
        some { e with workers := [], stopping := some .closing }
      else none
    | .closed => if e.stopping = some .closing then some { e with stopping := none } else none

/-- The step on which a call of `stop` returns: at once when the executor is not running. -/
def TradeExecutor.returnsFromStop (e : TradeExecutor) : ExecutorAction → Bool
  | .stop => !e.running
  | .closed => true
  | _ => false

end AutoTrader
