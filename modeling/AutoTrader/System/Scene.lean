import AutoTrader.System.Alone

/-!
# One thread in a given scene

A scene says how every request to the exchange ends and which commits the database refuses,
and with which error. In a scene a coroutine that runs alone computes a function of the
world, and the lemmas below give that function for a reconciliation.

What happens in a scene is a run of the service (`Scene.run_of_run`).
-/

namespace AutoTrader

open Python Coroutine Transition

/-- How the database refuses a commit: at the UPDATE, or at the COMMIT after it. -/
inductive Refusal
  | statement (e : SqlError)
  | commit (e : SqlError)

def Refusal.error (now : DateTime) : Refusal → CommitError
  | statement e => .statement e
  | commit e => .commit e now

/-- What a thread that runs alone meets. -/
structure Scene where
  /-- How a request ends, whenever it is sent. -/
  ends : HttpRequest → Transport
  /-- How a commit from a copy of this row is refused, if its values could be stored. -/
  refuses : Trade → Edits → Option Refusal

namespace Scene

/-- Commits of what the columns take succeed. -/
def storing (ends : HttpRequest → Transport) : Scene := ⟨ends, fun _ _ => none⟩

/-- The error of a commit at time `now`. -/
def refusal (S : Scene) (now : DateTime) (t : Trade) (e : Edits) : Option CommitError :=
  match e.flushError? t with
  | some error => some error
  | none => (S.refuses t e).map (Refusal.error now)

def exec (S : Scene) (env : Deployment) (thread : Nat) (tag : Tag) (w : World) :
    (o : Op) → Choice → Option (o.Res × World)
  | .receive k, _ => (w.calls[k]?).map fun call => (S.ends call.request, w)
  | .commit loaded edits, _ =>
    match S.refusal w.clock loaded edits with
    | some e => some (.error e, w)
    | none => AutoTrader.exec env thread tag w (.commit loaded edits) .done
  | o, _ => AutoTrader.exec env thread tag w o .done

/-- The service in the scene. -/
abbrev host (S : Scene) (env : Deployment) : Host effects :=
  { service env with exec := S.exec env }

/-- Thread `i` runs `x` alone in the scene. -/
def run (S : Scene) (env : Deployment) (i : Nat) (tag : Tag) {α : Type} (x : Free effects α)
    (w : World) : Option (α × World) :=
  (S.host env).drive (fun _ _ => .done) i tag x w

/-- The service's choices that make up the scene. -/
def choice (S : Scene) (w : World) : Op → Choice
  | .receive k =>
    match w.calls[k]? with
    | some call => .reply (S.ends call.request)
    | none => .done
  | .commit loaded edits =>
    match edits.flushError? loaded, S.refuses loaded edits with
    | none, some (.statement _) => .failed
    | none, some (.commit _) => .uncommitted
    | _, _ => .done
  | _ => .done

/-- How the query for a trade ends, for the client. -/
def answer (S : Scene) (env : Deployment) (t : Trade) : Except Exc (Option BinanceOrderResult) :=
  queryReply env (S.ends (queryRequest t.symbol t.clientOrderId))

/-! ## A reconciliation -/

/-- The query for a trade is answered, and the answer cannot be committed. -/
def RefusesAnswer (S : Scene) (env : Deployment) (now : DateTime) (t : Trade) : Prop :=
  ∃ answer, S.answer env t = .ok answer ∧ (S.refusal now t (answerEdits answer now)).isSome

/-- The row of an open trade after its reconciliation. -/
def reconciled (S : Scene) (env : Deployment) (now : DateTime) (t : Trade) : Trade :=
  match S.answer env t with
  | .ok answer =>
    match S.refusal now t (answerEdits answer now) with
    | none => (answerEdits answer now).flush t now t
    | some _ => t
  | .error _ => t

/-- How the reconciliation of an open trade ends, and the object it leaves. -/
def outcome (S : Scene) (env : Deployment) (now : DateTime) (t : Trade) :
    Except Exc TradeStatus × Instance :=
  match S.answer env t with
  | .ok answer =>
    match S.refusal now t (answerEdits answer now) with
    | none =>
      (.ok ((answerEdits answer now).view t).status,
        (⟨t, answerEdits answer now, .loaded⟩ : Instance).flushed now)
    | some e => (.error e.exc, (⟨t, answerEdits answer now, .loaded⟩ : Instance).failed e)
  | .error (.binance _) => (.ok t.status, .fresh t)
  | .error e => (.error e, .fresh t)

/-- The world after the reconciliation of an open trade. -/
def after (S : Scene) (env : Deployment) (w : World) (t : Trade) : World :=
  match S.answer env t with
  | .ok answer =>
    match S.refusal w.clock t (answerEdits answer w.clock) with
    | none => (w.asking t).recording t (answerEdits answer w.clock)
    | some _ => w.asking t
  | .error _ => w.asking t

section Run

variable {S : Scene} {env : Deployment} {i : Nat} {tag : Tag} {w : World} {t : Trade}

variable {α : Type}

/-- What a thread does in a scene it does in the service, if commits are refused with the
error a database call fails with there. -/
theorem run_eq_drive
    (hother : ∀ t e x, S.refuses t e = some x → x = .statement .other ∨ x = .commit .other)
    (x : Free effects α) (w : World) :
    S.run env i tag x w = (service env).drive S.choice i tag x w := by
  have hexec : ∀ w o, (S.host env).exec i tag w o .done =
      (service env).exec i tag w o (S.choice w o) := by
    intro w o
    cases o with
    | receive k =>
      simp only [exec, choice]
      cases w.calls[k]? <;> rfl
    | commit t e =>
      simp only [exec, choice, refusal]
      cases hflush : e.flushError? t with
      | some error => simp only [AutoTrader.exec, execCommit, hflush]
      | none =>
        cases hr : S.refuses t e with
        | none => rfl
        | some x =>
          rcases hother t e x hr with rfl | rfl <;>
            simp only [AutoTrader.exec, execCommit, hflush, Option.map_some, Refusal.error]
    | _ => rfl
  induction x generalizing w with
  | pure a => rfl
  | op o next ih =>
    rw [run, Host.drive_op, Host.drive_op, hexec]
    congr 1
    funext p
    exact ih p.1 p.2

/-- So it is a run of the service. -/
theorem run_of_run
    (hother : ∀ t e x, S.refuses t e = some x → x = .statement .other ∨ x = .commit .other)
    {P : Pool (service env)} {x : Free effects Unit} (hi : P.threads[i]? = some ⟨tag, some x⟩)
    {u : World} (h : S.run env i tag x P.shared = some ((), u)) :
    ∃ cs : List Choice, Run (service env).system unguarded P (cs.map (.act i))
      ⟨u, P.threads.set i ⟨tag, some (.pure ())⟩⟩ :=
  Host.run_of_drive hi ((run_eq_drive hother x P.shared).symm.trans h)

/-! One operation at a time. -/

@[simp] theorem run_pure (a : α) : S.run env i tag (.pure a) w = some (a, w) := rfl

variable (env i tag w) in
theorem run_bind {β : Type} (x : Free effects α) (f : α → Free effects β) :
    S.run env i tag (x.bind f) w =
      (S.run env i tag x w).bind fun p => S.run env i tag (f p.1) p.2 :=
  Host.drive_bind x f

@[simp] theorem run_clock (next : DateTime → Free effects α) :
    S.run env i tag (.op .clock next) w = S.run env i tag (next w.clock) w := rfl

@[simp] theorem run_log (r : LogRecord) (next : Unit → Free effects α) :
    S.run env i tag (.op (.log r) next) w =
      S.run env i tag (next ()) { w with toLedger := w.toLedger.log r } := rfl

/-- A request and its end. -/
@[simp] theorem run_call (r : HttpRequest) (next : Transport → Free effects α) :
    S.run env i tag (.op (.send r) fun k => .op (.receive k) next) w =
      S.run env i tag (next (S.ends r)) { w with toLedger := w.toLedger.send r } := by
  have hlast : ({ w with toLedger := w.toLedger.send r } : World).calls[w.calls.length]? =
      some ⟨r, .inFlight⟩ := List.getElem?_concat_length
  change ((((_ : World).calls[w.calls.length]?).map _).bind _) = _
  rw [hlast]
  rfl

theorem refusal_none {now : DateTime} {e : Edits} (h : S.refusal now t e = none) :
    e.flushError? t = none := by
  unfold refusal at h
  split at h
  · cases h
  · assumption

/-- Where commits are stored, only their values can stand in the way. -/
@[simp] theorem refusal_storing (ends : HttpRequest → Transport) (now : DateTime) (t : Trade)
    (e : Edits) : (storing ends).refusal now t e = e.flushError? t := by
  unfold refusal
  cases e.flushError? t <;> rfl

@[simp] theorem run_commit (e : Edits) (next : Except CommitError DateTime → Free effects α) :
    S.run env i tag (.op (.commit t e) next) w =
      match S.refusal w.clock t e with
      | none => S.run env i tag (next (.ok w.clock)) (w.recording t e)
      | some err => S.run env i tag (next (.error err)) w := by
  rw [run, Host.drive_op]
  simp only [exec, AutoTrader.exec]
  cases h : S.refusal w.clock t e with
  | none =>
    rw [execCommit_done (refusal_none h)]
    rfl
  | some err => rfl

theorem run_reconcile (hopen : t.isTerminal = false) :
    S.run env i tag ((reconcileTrade env).exec (.fresh t)) w =
      some (S.outcome env w.clock t, S.after env w t) := by
  rw [reconcileTrade_exec, hopen]
  refine (run_call (queryRequest t.symbol t.clientOrderId) (afterQuery env t)).trans ?_
  simp only [afterQuery, outcome, after, answer]
  cases queryReply env (S.ends (queryRequest t.symbol t.clientOrderId)) with
  | error e => cases e <;> rfl
  | ok found =>
    simp only [run_clock, run_commit, World.asking]
    cases S.refusal w.clock t (answerEdits found w.clock) <;> rfl

/-- The order call of a claimed trade. -/
theorem run_submit {text : String} (htext : formatDecimal t.quantity = some text) :
    S.run env i tag ((submitToBinance env).exec (.fresh t)) w =
      S.run env i tag (afterCall env t (S.ends (orderFor env t text))) (w.placing env t text) := by
  rw [submitToBinance_exec, htext]
  refine (run_log (orderLine env t text) _).trans ?_
  exact run_call (orderFor env t text) (afterCall env t)

/-- The end of the uncertain handler, when the reconciliation in it has ended. -/
theorem run_queryNow (hopen : t.isTerminal = false) :
    S.run env i tag (queryNow env (.fresh t)) w =
      S.run env i tag (queried (S.outcome env w.clock t)) (S.after env w t) := by
  have hbind := run_bind (S := S) env i tag w ((reconcileTrade env).exec (.fresh t)) queried
  rw [run_reconcile hopen] at hbind
  exact hbind

end Run

end Scene

end AutoTrader
