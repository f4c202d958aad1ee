import AutoTrader.Coroutine.Pool
import AutoTrader.Services.ExecutionQueue
import AutoTrader.Api.Trades
import AutoTrader.System.Exchange

/-!
# The running system

Any number of processes, each with its queue of trade ids and its owner cache, one
database, and the exchange. Every request, every execution of a queued id, every
resumption and every reconciliation is a thread; a step performs one operation of one
thread, or is an event from outside.

The environment resolves each operation (`Choice`): a database call succeeds, fails
without effect, or fails after its effect; a call to the exchange ends in any way. The
ledger holds what outlives a process: the committed rows, the calls and the orders of
the exchange, the log lines, and a history of signals and commits, which nothing reads.
-/

namespace AutoTrader

open Python Coroutine Transition

/-! ## The ledger -/

/-- What happened so far, oldest first: signals received, and commits. -/
inductive Entry
  | received (payload : TradingViewWebhookPayload)
  | inserted (row : Trade)
  | claimed (thread : Nat) (id : TradeId)
  | recorded (loaded : Trade) (edits : Edits)

structure Ledger where
  trades : TradeTable
  calls : List Call
  book : List Order
  logs : List LogRecord
  history : List Entry

/-- The conditional UPDATE of `claim_for_submission`, on the row it hits. -/
def claimUpdate (now : DateTime) : TradeTable.Update where
  write t := { t with submittedAt := some now, updatedAt := now }
  id _ := rfl
  signalId _ := rfl
  clientOrderId _ := rfl

namespace Ledger

def receive (l : Ledger) (payload : TradingViewWebhookPayload) : Ledger :=
  { l with history := l.history ++ [.received payload] }

def insert (l : Ledger) (row : Trade) (h : l.trades.Fits row) : Ledger :=
  { l with trades := l.trades.insert row h, history := l.history ++ [.inserted row] }

def claim (l : Ledger) (thread : Nat) (id : TradeId) (now : DateTime) : Ledger :=
  { l with
    trades := l.trades.update id (claimUpdate now)
    history := l.history ++ [.claimed thread id] }

def record (l : Ledger) (loaded : Trade) (edits : Edits) (now : DateTime) : Ledger :=
  { l with
    trades := l.trades.update loaded.id (edits.update loaded now)
    history := l.history ++ [.recorded loaded edits] }

def send (l : Ledger) (r : HttpRequest) : Ledger := { l with calls := l.calls ++ [⟨r, .inFlight⟩] }

def log (l : Ledger) (r : LogRecord) : Ledger := { l with logs := l.logs ++ [r] }

/-- A request reaches the exchange. -/
def arrive (l : Ledger) (k : Nat) (v : Verdict) : Option Ledger :=
  match l.calls[k]? with
  | some ⟨r, .inFlight⟩ =>
    (serve l.book r v).map fun x =>
      { l with calls := l.calls.set k ⟨r, .answered x.2⟩, book := x.1 }
  | _ => none

/-- A request is lost on its way. -/
def lose (l : Ledger) (k : Nat) : Option Ledger :=
  match l.calls[k]? with
  | some ⟨r, .inFlight⟩ => some { l with calls := l.calls.set k ⟨r, .lost⟩ }
  | _ => none

/-- The order at position `k` progresses. -/
def progress (l : Ledger) (k : Nat) (o' : Order) : Option Ledger :=
  match l.book[k]? with
  | some o => if o.mayBecome o' then some { l with book := l.book.set k o' } else none
  | none => none

end Ledger

/-! ## The world -/

structure Process where
  queue : List TradeId
  owner : Option UserId

structure World extends Ledger where
  users : List User
  nextTradeId : TradeId
  clock : DateTime
  processes : Nat → Process

def World.setProcess (w : World) (p : Nat) (s : Process) : World :=
  { w with processes := Function.update w.processes p s }

inductive Task
  | request (payload : TradingViewWebhookPayload)
  | execute (id : TradeId)
  | resume
  | reconcile (user : UserId) (id : TradeId)
  | batch (olderThanSeconds : Int) (limit : Nat)

/-- Run for the effects only: nobody waits for the result. -/
def effectsOnly {α : Type} (x : App α) : Free effects Unit := x.run.bind fun _ => .pure ()

def Task.program (env : Deployment) : Task → Free effects Unit
  | .request payload => effectsOnly (processSignal env payload)
  | .execute id => effectsOnly (AutoTrader.execute env id)
  | .resume => effectsOnly (resumePending env)
  | .reconcile user id => effectsOnly (reconcileRoute env user id)
  | .batch olderThanSeconds limit =>
    effectsOnly (reconcilePendingTrades env olderThanSeconds limit)

def Task.payload? : Task → Option TradingViewWebhookPayload
  | .request payload => some payload
  | _ => none

structure Tag where
  process : Nat
  task : Task

/-- How the environment resolves an operation. -/
inductive Choice
  | done
  /-- A database call fails and has no effect. -/
  | failed
  /-- A database call takes effect, but the caller sees an error. -/
  | unacknowledged
  /-- The UPDATE goes through and its COMMIT fails without effect. -/
  | uncommitted
  /-- The exchange's answer reaches the caller. -/
  | delivered
  /-- The call ends in some other way. -/
  | reply (t : Transport)

inductive Event
  | webhook (process : Nat) (payload : TradingViewWebhookPayload)
  /-- A worker takes the head of its queue. -/
  | take (process : Nat)
  | resume (process : Nat)
  | reconcile (process : Nat) (user : UserId) (id : TradeId)
  | batch (process : Nat) (olderThanSeconds : Int) (limit : Nat)
  /-- A process dies with its threads, its queue and its cache. -/
  | crash (process : Nat)
  | cancel (thread : Nat)
  | tick (d : Int)
  | arrive (call : Nat) (v : Verdict)
  | lose (call : Nat)
  | progress (order : Nat) (o : Order)

/-! ## What an operation does -/

/-- A database call that reads. -/
def Choice.query {α : Type} (c : Choice) (a : α) (w : World) : Option (Except SqlError α × World) :=
  match c with
  | .done => some (.ok a, w)
  | .failed => some (.error .other, w)
  | _ => none

/-- A database call that commits a change. -/
def Choice.commit {α : Type} (c : Choice) (a : α) (w w' : World) :
    Option (Except SqlError α × World) :=
  match c with
  | .done => some (.ok a, w')
  | .failed => some (.error .other, w)
  | .unacknowledged => some (.error .other, w')
  | _ => none

/-- The change a call commits takes effect. -/
def Choice.effective : Choice → Bool
  | .done | .unacknowledged => true
  | _ => false

/-- No error comes from the database. -/
def Choice.succeeds : Choice → Bool
  | .failed | .unacknowledged | .uncommitted => false
  | _ => true

/-- The commit of the edits takes effect. -/
def Choice.commits (c : Choice) (loaded : Trade) (edits : Edits) : Bool :=
  c.effective && (edits.flushError? loaded).isNone

/-- A quantity that overflows its column is found before a key that is taken. -/
def execInsert (w : World) (n : NewTrade) (c : Choice) :
    Option (Except SqlError Trade × World) :=
  let row := n.row w.nextTradeId w.clock
  if !n.fits then some (.error .other, w)
  else if h : w.trades.Fits row then
    if w.users.any fun u => u.id = n.userId then
      c.commit row w
        { w with
          toLedger := w.toLedger.insert row h
          nextTradeId := w.nextTradeId + 1 }
    else some (.error .integrity, w)
  else some (.error .integrity, w)

/-- A flush that raises or is refused for its values does so unless the database fails
before; then there is no COMMIT. -/
def execCommit (w : World) (loaded : Trade) (edits : Edits) (c : Choice) :
    Option (Except CommitError DateTime × World) :=
  let w' := { w with toLedger := w.toLedger.record loaded edits w.clock }
  match c, edits.flushError? loaded with
  | .failed, _ => some (.error (.statement .other), w)
  | .done, some e => some (.error e, w)
  | .done, none => some (.ok w.clock, w')
  | .unacknowledged, none => some (.error (.commit .other w.clock), w')
  | .uncommitted, none => some (.error (.commit .other w.clock), w)
  | _, _ => none

def execClaim (thread : Nat) (w : World) (id : TradeId) (now : DateTime) (c : Choice) :
    Option (Except SqlError Nat × World) :=
  if (w.trades.find? id).any Trade.unsent then
    c.commit 1 w { w with toLedger := w.toLedger.claim thread id now }
  else c.query 0 w

/-- The ids `resume_pending` selects. -/
def World.selectUnsent (w : World) (limit : Nat) : List TradeId :=
  (((w.trades.rows.filter Trade.unsent).map Trade.id).insertionSort (· ≤ ·)).take limit

/-- The trades `find_reconcilable_trades` selects. The query leaves open how trades with the same
`created_at` are ordered; they are taken to come in the order of the table. -/
def World.selectReconcilable (w : World) (cutoff : DateTime) (limit : Nat) : List Trade :=
  ((w.trades.rows.filter fun t => t.status.isReconcilable && t.createdAt < cutoff).insertionSort
    fun s t => s.createdAt ≤ t.createdAt).take limit

def execEnqueue (env : Deployment) (p : Nat) (w : World) (id : TradeId) : Bool × World :=
  let s := w.processes p
  if s.queue.length < env.settings.executorQueueSize then
    (true, w.setProcess p { s with queue := s.queue ++ [id] })
  else (false, w)

def exec (env : Deployment) (thread : Nat) (tag : Tag) (w : World) :
    (o : Op) → Choice → Option (o.Res × World)
  | .clock, .done => some (w.clock, w)
  | .cachedOwner, .done => some ((w.processes tag.process).owner, w)
  | .cacheOwner id, .done =>
    some ((), w.setProcess tag.process { w.processes tag.process with owner := some id })
  | .selectOwner email, c => c.query ((w.users.find? fun u => u.email = email).map User.id) w
  | .insert n, c => execInsert w n c
  | .selectBySignal signalId, c => c.query ((w.trades.findBySignal? signalId).map Trade.id) w
  | .claim id now, c => execClaim thread w id now c
  | .get id, c => c.query (w.trades.find? id) w
  | .getForUser user id, c => c.query ((w.trades.find? id).filter fun t => t.userId = user) w
  | .selectUnsent limit, c => c.query (w.selectUnsent limit) w
  | .selectReconcilable cutoff limit, c => c.query (w.selectReconcilable cutoff limit) w
  | .commit loaded edits, c => execCommit w loaded edits c
  | .enqueue id, .done => some (execEnqueue env tag.process w id)
  | .send r, .done => some (w.calls.length, { w with toLedger := w.toLedger.send r })
  | .receive k, .delivered =>
    match w.calls[k]? with
    | some ⟨_, .answered r⟩ => some (.response r, w)
    | _ => none
  | .receive _, .reply t => some (t, w)
  | .log r, .done => some ((), { w with toLedger := w.toLedger.log r })
  | _, _ => none

/-! What each operation can do, as lemmas; `thread` and `tag` are those of the caller. -/

section Exec

variable {env : Deployment} {thread : Nat} {tag : Tag} {w w' : World} {c : Choice}

theorem Choice.query_eq_some {α : Type} {c : Choice} {a : α} {r : Except SqlError α}
    (h : c.query a w = some (r, w')) : w' = w ∧ (r = .ok a ∨ r = .error .other) := by
  cases c <;> cases h
  · exact ⟨rfl, Or.inl rfl⟩
  · exact ⟨rfl, Or.inr rfl⟩

theorem Choice.commit_eq_some {α : Type} {c : Choice} {a : α} {u : World}
    {r : Except SqlError α} (h : c.commit a w u = some (r, w')) :
    (w' = u ∧ c.effective = true ∧ (r = .ok a ∨ r = .error .other)) ∨
      (w' = w ∧ c.effective = false ∧ r = .error .other) := by
  cases c <;> cases h
  · exact Or.inl ⟨rfl, rfl, Or.inl rfl⟩
  · exact Or.inr ⟨rfl, rfl, rfl⟩
  · exact Or.inl ⟨rfl, rfl, Or.inr rfl⟩

theorem Choice.query_of_succeeds {α : Type} {a : α} {r : Except SqlError α}
    (hc : c.succeeds = true) (h : c.query a w = some (r, w')) : r = .ok a ∧ w' = w := by
  cases c <;> cases h
  · exact ⟨rfl, rfl⟩
  · cases hc

theorem Choice.commit_of_succeeds {α : Type} {a : α} {u : World} {r : Except SqlError α}
    (hc : c.succeeds = true) (h : c.commit a w u = some (r, w')) : r = .ok a ∧ w' = u := by
  cases c <;> cases h
  · exact ⟨rfl, rfl⟩
  · cases hc
  · cases hc

theorem exec_insert {n : NewTrade} {r : Except SqlError Trade}
    (h : exec env thread tag w (.insert n) c = some (r, w')) :
    w' = w ∨ ∃ hfit : w.trades.Fits (n.row w.nextTradeId w.clock),
      w' = { w with
        toLedger := w.toLedger.insert (n.row w.nextTradeId w.clock) hfit
        nextTradeId := w.nextTradeId + 1 } := by
  have h : execInsert w n c = some (r, w') := by cases c <;> exact h
  simp only [execInsert] at h
  split at h
  · cases h
    exact Or.inl rfl
  · split at h
    · rename_i hfit
      split at h
      · rcases Choice.commit_eq_some h with ⟨rfl, -⟩ | ⟨rfl, -⟩
        · exact Or.inr ⟨hfit, rfl⟩
        · exact Or.inl rfl
      · cases h
        exact Or.inl rfl
    · cases h
      exact Or.inl rfl

/-- A claim either hits the row, which then was unsent, or changes nothing. -/
theorem exec_claim {id : TradeId} {now : DateTime} {r : Except SqlError Nat}
    (h : exec env thread tag w (.claim id now) c = some (r, w')) :
    (w' = w ∧ r ≠ .ok 1) ∨
      ∃ row ∈ w.trades.rows, row.id = id ∧ row.unsent = true ∧
        (r = .ok 1 ∨ r = .error .other) ∧
        w' = { w with toLedger := w.toLedger.claim thread id now } := by
  have h : execClaim thread w id now c = some (r, w') := by cases c <;> exact h
  simp only [execClaim] at h
  split at h
  · rename_i hany
    obtain ⟨row, hrow, hunsent⟩ := (Option.any_eq_true _ _).mp hany
    obtain ⟨hmem, hid⟩ := TradeTable.find?_eq_some.mp hrow
    rcases Choice.commit_eq_some h with ⟨rfl, -, hr⟩ | ⟨rfl, -, rfl⟩
    · exact Or.inr ⟨row, hmem, hid, hunsent, hr, rfl⟩
    · exact Or.inl ⟨rfl, by simp⟩
  · obtain ⟨rfl, rfl | rfl⟩ := Choice.query_eq_some h
    · exact Or.inl ⟨rfl, by simp⟩
    · exact Or.inl ⟨rfl, by simp⟩

theorem exec_claim_won {id : TradeId} {now : DateTime}
    (h : exec env thread tag w (.claim id now) c = some (.ok 1, w')) : c = .done := by
  have h : execClaim thread w id now c = some (.ok 1, w') := by cases c <;> exact h
  simp only [execClaim] at h
  split at h <;> cases c <;> first | rfl | cases h

theorem exec_get {id : TradeId} {r : Except SqlError (Option Trade)}
    (h : exec env thread tag w (.get id) c = some (r, w')) :
    w' = w ∧ (r = .ok (w.trades.find? id) ∨ r = .error .other) := by
  have h : c.query (w.trades.find? id) w = some (r, w') := by cases c <;> exact h
  exact Choice.query_eq_some h

theorem exec_get_done {id : TradeId} {r : Option Trade}
    (h : exec env thread tag w (.get id) c = some (.ok r, w')) : c = .done := by
  cases c <;> first | rfl | cases h

theorem exec_getForUser {user : UserId} {id : TradeId} {r : Except SqlError (Option Trade)}
    (h : exec env thread tag w (.getForUser user id) c = some (r, w')) :
    w' = w ∧ (r = .ok ((w.trades.find? id).filter fun t => t.userId = user) ∨
      r = .error .other) := by
  have h : c.query ((w.trades.find? id).filter fun t => t.userId = user) w = some (r, w') := by
    cases c <;> exact h
  exact Choice.query_eq_some h

theorem exec_selectReconcilable {cutoff : DateTime} {limit : Nat}
    {r : Except SqlError (List Trade)}
    (h : exec env thread tag w (.selectReconcilable cutoff limit) c = some (r, w')) :
    w' = w ∧ (r = .ok (w.selectReconcilable cutoff limit) ∨ r = .error .other) := by
  have h : c.query (w.selectReconcilable cutoff limit) w = some (r, w') := by cases c <;> exact h
  exact Choice.query_eq_some h

theorem exec_selectUnsent {limit : Nat} {r : Except SqlError (List TradeId)}
    (h : exec env thread tag w (.selectUnsent limit) c = some (r, w')) :
    w' = w ∧ (r = .ok (w.selectUnsent limit) ∨ r = .error .other) := by
  have h : c.query (w.selectUnsent limit) w = some (r, w') := by cases c <;> exact h
  exact Choice.query_eq_some h

theorem exec_commit {loaded : Trade} {edits : Edits} {r : Except CommitError DateTime}
    (h : exec env thread tag w (.commit loaded edits) c = some (r, w')) :
    (w' = { w with toLedger := w.toLedger.record loaded edits w.clock } ∧
      c.commits loaded edits = true ∧ ∀ now, r = .ok now → now = w.clock) ∨
      (w' = w ∧ c.commits loaded edits = false ∧ ∃ e, r = .error e) := by
  have h : execCommit w loaded edits c = some (r, w') := by cases c <;> exact h
  unfold execCommit at h
  cases herror : edits.flushError? loaded with
  | some e =>
    rw [herror] at h
    cases c <;> cases h <;> exact Or.inr ⟨rfl, by simp [Choice.commits, herror], _, rfl⟩
  | none =>
    rw [herror] at h
    cases c with
    | done =>
      cases h
      refine Or.inl ⟨rfl, by simp [Choice.commits, herror, Choice.effective], fun now hnow => ?_⟩
      cases hnow
      rfl
    | unacknowledged =>
      cases h
      exact Or.inl ⟨rfl, by simp [Choice.commits, herror, Choice.effective], fun now hnow => by cases hnow⟩
    | failed | uncommitted =>
      cases h
      exact Or.inr ⟨rfl, by simp [Choice.commits, Choice.effective], _, rfl⟩
    | delivered | reply => cases h

theorem exec_send {request : HttpRequest} {k : Nat}
    (h : exec env thread tag w (.send request) c = some (k, w')) :
    k = w.calls.length ∧ w' = { w with toLedger := w.toLedger.send request } := by
  cases c <;> cases h
  exact ⟨rfl, rfl⟩

/-- A call ends with what the exchange answered, or otherwise. -/
theorem exec_receive {k : Nat} {outcome : Transport}
    (h : exec env thread tag w (.receive k) c = some (outcome, w')) :
    w' = w ∧ (c = .reply outcome ∨
      ∃ request r, w.calls[k]? = some ⟨request, .answered r⟩ ∧ outcome = .response r) := by
  cases c with
  | reply t =>
    cases h
    exact ⟨rfl, Or.inl rfl⟩
  | delivered =>
    simp only [exec] at h
    split at h
    · rename_i request r hk
      cases h
      exact ⟨rfl, Or.inr ⟨request, r, hk, rfl⟩⟩
    · cases h
  | done | failed | unacknowledged | uncommitted => cases h

theorem exec_log {record : LogRecord} {r : Unit}
    (h : exec env thread tag w (.log record) c = some (r, w')) :
    w' = { w with toLedger := w.toLedger.log record } := by
  cases c <;> cases h
  rfl

theorem exec_enqueue {id : TradeId} {r : Bool}
    (h : exec env thread tag w (.enqueue id) c = some (r, w')) :
    execEnqueue env tag.process w id = (r, w') := by
  cases c with
  | done => exact Option.some.inj h
  | failed | unacknowledged | uncommitted | delivered | reply => cases h

/-- The operations that change the ledger. -/
def Op.writes : Op → Bool
  | .insert _ | .claim _ _ | .commit _ _ | .send _ | .log _ => true
  | _ => false

theorem toLedger_execEnqueue (p : Nat) (id : TradeId) :
    (execEnqueue env p w id).2.toLedger = w.toLedger := by
  simp only [execEnqueue]
  split <;> rfl

theorem exec_of_not_writes {o : Op} {r : o.Res} (ho : o.writes = false)
    (h : exec env thread tag w o c = some (r, w')) : w'.toLedger = w.toLedger := by
  cases o with
  | insert | claim | commit | send | log => cases ho
  | clock | cachedOwner | cacheOwner =>
    cases c <;> cases h
    rfl
  | selectOwner | selectBySignal | get | getForUser | selectUnsent | selectReconcilable =>
    cases c <;> cases h <;> rfl
  | receive => rw [(exec_receive h).1]
  | enqueue id =>
    have hw := congrArg (fun x => x.2.toLedger) (exec_enqueue h)
    exact hw.symm.trans (toLedger_execEnqueue _ _)

end Exec

/-! ## What an event does -/

/-- The executions that run in a process. -/
def busyWorkers (threads : List (Tag × Bool)) (p : Nat) : Nat :=
  threads.countP fun t =>
    match t.1.task with
    | .execute _ => t.1.process = p && t.2
    | _ => false

def spawn (w : World) (p : Nat) (task : Task) : Reaction World Tag :=
  ⟨w, some ⟨p, task⟩, fun _ _ => false⟩

def outside (w : World) : Reaction World Tag := ⟨w, none, fun _ _ => false⟩

def react (env : Deployment) (w : World) (threads : List (Tag × Bool)) :
    Event → Option (Reaction World Tag)
  | .webhook p payload =>
    some (spawn { w with toLedger := w.toLedger.receive payload } p (.request payload))
  | .take p =>
    match (w.processes p).queue with
    | [] => none
    | id :: rest =>
      if busyWorkers threads p < env.settings.executorWorkers then
        some (spawn (w.setProcess p { w.processes p with queue := rest }) p (.execute id))
      else none
  | .resume p => some (spawn w p .resume)
  | .reconcile p user id => some (spawn w p (.reconcile user id))
  | .batch p olderThanSeconds limit => some (spawn w p (.batch olderThanSeconds limit))
  | .crash p => some ⟨w.setProcess p ⟨[], none⟩, none, fun _ tag => tag.process = p⟩
  | .cancel i => some ⟨w, none, fun j _ => j = i⟩
  | .tick d => some (outside { w with clock := w.clock + d })
  | .arrive k v => (w.toLedger.arrive k v).map fun l => outside { w with toLedger := l }
  | .lose k => (w.toLedger.lose k).map fun l => outside { w with toLedger := l }
  | .progress k o => (w.toLedger.progress k o).map fun l => outside { w with toLedger := l }

/-- The service as a host of its coroutines. -/
abbrev service (env : Deployment) : Host effects where
  Shared := World
  Tag := Tag
  Choice := Choice
  Event := Event
  program tag := tag.task.program env
  exec := exec env
  react := react env

/-- Committed rows and nothing else: the system as it is found after every process died. -/
def World.found (trades : TradeTable) (users : List User) (nextTradeId : TradeId)
    (clock : DateTime) : World where
  trades := trades
  calls := []
  book := []
  logs := []
  history := []
  users := users
  nextTradeId := nextTradeId
  clock := clock
  processes _ := ⟨[], none⟩

/-- A system that has accepted no signal yet. -/
def World.initial (users : List User) (clock : DateTime) : World :=
  .found .empty users 1 clock

def Pool.idle {env : Deployment} (w : World) : Pool (service env) := ⟨w, []⟩

end AutoTrader
