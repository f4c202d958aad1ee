import AutoTrader.System.Sample
import AutoTrader.System.Turns

/-!
# Terminal statuses

A terminal status should be final. The only guard is the test a reconciliation makes on
its copy before it asks the exchange; a worker has none. So a copy from before the row
became terminal is not stopped, and its UPDATE replaces the status.

In the runs in which nobody's trade becomes terminal under his hands the guard is enough: no
copy that is committed from was loaded from a terminal row, and so no terminal row is
committed to.
-/

namespace AutoTrader

open Python Coroutine Transition UnitOfWork

variable {env : Deployment}

/-! ## The condition -/

/-- The trade a worker reloads after it has won the claim. -/
def reload? (P : Pool (service env)) : Label (service env) → Option TradeId
  | .act i .done =>
    match P.pending? i with
    | some (.get id) => some id
    | _ => none
  | _ => none

/-- No row becomes terminal between the claim of a worker and its reload, and none between
the load of a copy and the commit of an outcome from it. -/
structure Unovertaken (P : Pool (service env)) (l : Label (service env)) : Prop where
  reload : ∀ id ∈ reload? P l, ∀ r ∈ P.shared.trades.rows, r.id = id → r.isTerminal = false
  commit : ∀ x ∈ commit? P l, ∀ r ∈ P.shared.trades.rows, r.id = x.1.id → r.isTerminal = true →
    x.1.isTerminal = true

instance (P : Pool (service env)) (l : Label (service env)) : Decidable (Unovertaken P l) :=
  decidable_of_iff ((∀ id ∈ reload? P l, ∀ r ∈ P.shared.trades.rows, r.id = id →
      r.isTerminal = false) ∧
    ∀ x ∈ commit? P l, ∀ r ∈ P.shared.trades.rows, r.id = x.1.id → r.isTerminal = true →
      x.1.isTerminal = true)
    ⟨fun h => ⟨h.1, h.2⟩, fun h => ⟨h.reload, h.commit⟩⟩

/-- Every terminal row keeps its status. -/
def TerminalKept (T T' : TradeTable) : Prop :=
  ∀ r ∈ T.rows, r.isTerminal = true → ∃ r' ∈ T'.rows, r'.id = r.id ∧ r'.status = r.status

theorem TerminalKept.refl (T : TradeTable) : TerminalKept T T := fun r hr _ => ⟨r, hr, rfl, rfl⟩

theorem TerminalKept.trans {T T' T'' : TradeTable} (h : TerminalKept T T')
    (h' : TerminalKept T' T'') : TerminalKept T T'' := by
  intro r hr hterm
  obtain ⟨r', hr', hid, hstatus⟩ := h r hr hterm
  have hterm' : r'.isTerminal = true := by rwa [Trade.isTerminal, hstatus]
  obtain ⟨r'', hr'', hid', hstatus'⟩ := h' r' hr' hterm'
  exact ⟨r'', hr'', hid'.trans hid, hstatus'.trans hstatus⟩

/-! ## The steps -/

theorem TerminalKept.insert {T : TradeTable} {row : Trade} (h : T.Fits row) :
    TerminalKept T (T.insert row h) := fun r hr _ =>
  ⟨r, TradeTable.mem_insert.mpr (Or.inl hr), rfl, rfl⟩

/-- An outcome for another row, or for one that is not terminal. -/
theorem TerminalKept.record (l : Ledger) {t : Trade} (e : Edits) (now : DateTime)
    (h : ∀ r ∈ l.trades.rows, r.id = t.id → r.isTerminal = false) :
    TerminalKept l.trades (l.record t e now).trades := by
  intro r hr hterm
  have hid : r.id ≠ t.id := by
    intro hid
    rw [h r hr hid] at hterm
    cases hterm
  exact ⟨r, TradeTable.mem_update.mpr ⟨r, hr, if_neg hid⟩, rfl, rfl⟩

theorem TerminalKept.claim (l : Ledger) (thread : Nat) (id : TradeId) (now : DateTime) :
    TerminalKept l.trades (l.claim thread id now).trades := by
  intro r hr _
  refine ⟨_, TradeTable.mem_update.mpr ⟨r, hr, rfl⟩, ?_, ?_⟩
  · split <;> rfl
  · split <;> rfl

/-- An operation keeps every terminal status if it commits no outcome to a terminal row. -/
theorem terminalKept_exec {i : Nat} {tag : Tag} {w w' : World} {o : Op} {c : Choice} {r : o.Res}
    (hx : exec env i tag w o c = some (r, w'))
    (ho : ∀ t e, o = .commit t e → c.commits t e = true →
      ∀ r ∈ w.trades.rows, r.id = t.id → r.isTerminal = false) :
    TerminalKept w.trades w'.trades := by
  cases o with
  | insert n =>
    rcases exec_insert hx with rfl | ⟨hfit, rfl⟩
    · exact .refl _
    · exact .insert hfit
  | claim id now =>
    rcases exec_claim hx with ⟨rfl, -⟩ | ⟨row, -, -, -, -, rfl⟩
    · exact .refl _
    · exact .claim _ _ _ _
  | commit t e =>
    rcases exec_commit hx with ⟨rfl, hc, -⟩ | ⟨rfl, -⟩
    · exact .record _ e _ (ho t e rfl hc)
    · exact .refl _
  | send request =>
    obtain ⟨-, rfl⟩ := exec_send hx
    exact .refl _
  | log record =>
    obtain rfl := exec_log hx
    exact .refl _
  | _ =>
    rw [exec_of_not_writes rfl hx]
    exact .refl _

/-! ## Copies in hand are not settled -/

/-- No worker has a copy of a terminal row, and no reconciliation asks about one. -/
structure Opened (g : Stances) : Prop where
  orders : ∀ i q t, g i = some q → q.phase.order? = some t → t.isTerminal = false
  asks : AsksOpen g

/-- A worker's copy is not settled if it was not when it was loaded. -/
theorem Turn.order_open {i : Nat} {o : Op} {c : Choice} {w w' : World} {phase phase' : Phase}
    (h : Turn env i o c w w' phase phase')
    (hload : ∀ t ∈ w.trades.rows, o = .get t.id → c = .done → t.isTerminal = false)
    (hopen : ∀ t, phase.order? = some t → t.isTerminal = false) :
    ∀ t, phase'.order? = some t → t.isTerminal = false := by
  intro t ht
  cases h with
  | stays | announces | posts | hears => exact hopen t ht
  | leaves hfree =>
    rcases hfree with rfl | rfl <;> cases ht
  | reloads hop hc hmem =>
    cases ht
    exact hload _ hmem hop hc
  | wins | asks | learns => cases ht

/-- Outcomes are committed from the copy in hand. -/
theorem copy_of_concludes {q : Stance} {t : Trade} {e : Edits} (h : q.concludes env t e) :
    q.phase.order? = some t ∨ q.phase.asks? = some t := by
  rcases h with ⟨outcome, o, hq, -, -⟩ | ⟨outcome, answer, now, hq, -, -⟩
  · rw [hq]
    exact Or.inl rfl
  · rw [hq]
    exact Or.inr rfl

section Steps

variable {P : Pool (service env)} {g : Stances} {i : Nat} {c : Choice} {tag : Tag} {q : Stance}
  {m : Move} {o : Op} {x : o.Res} {w' : World}

theorem opened_act (hJ : Opened g) (hD : Unovertaken P (.act i c))
    (ha : Acts env P g i c tag q m o x w') :
    Opened (Function.update g i (some (q.next m o x))) := by
  have hturn := turn_of_exec ha.permits ha.exec
  refine ⟨?_, hJ.asks.act ha.stance hturn⟩
  intro j p t hj hp
  rcases update_eq_some hj with ⟨rfl, rfl⟩ | ⟨-, hj⟩
  · refine hturn.order_open ?_ (fun t ht => hJ.orders j q t ha.stance ht) t hp
    rintro s hs rfl rfl
    refine hD.reload s.id ?_ s hs rfl
    simp only [reload?, ha.pending]
    rfl
  · exact hJ.orders j p t hj hp

theorem opened_event {y : Reaction World Tag} (hJ : Opened g) :
    Opened (ghostsAfter (conduct env) startStance P y g) := by
  refine ⟨?_, hJ.asks.event⟩
  intro j p t hj hp
  rcases ghostsAfter_cases hj with hj | ⟨tag, -, rfl⟩
  · exact hJ.orders j p t hj hp
  · cases hp

/-- No step commits an outcome to a terminal row. -/
theorem terminalKept_act (hJ : Opened g) (hD : Unovertaken P (.act i c))
    (ha : Acts env P g i c tag q m o x w') : TerminalKept P.shared.trades w'.trades := by
  refine terminalKept_exec ha.exec ?_
  rintro t e rfl hc r hr hid
  have hperm := ha.permits
  cases m with
  | ask _ => exact hperm.elim
  | plain =>
    have hopen : t.isTerminal = false := by
      rcases copy_of_concludes hperm.2 with hq | hq
      · exact hJ.orders i q t ha.stance hq
      · exact hJ.asks i q t ha.stance hq
    by_contra hterm
    have hcopy := hD.commit _ (ha.commit? hc) r hr hid (by simpa using hterm)
    rw [hopen] at hcopy
    cases hcopy

end Steps

/-! ## Runs -/

/-- **Terminal statuses are final while no copy is overtaken.** In every run in which no row
becomes terminal between the load of a copy and the commit of an outcome from it, or between
the claim of a worker and its reload, a row that is terminal at some point keeps its status
to the end. -/
theorem terminal_statuses_final {users : List User} {clock : DateTime}
    {ls ms : List (Label (service env))} {P Q : Pool (service env)}
    (h : Run (service env).system Unovertaken (Pool.idle (.initial users clock)) ls P)
    (h' : Run (service env).system Unovertaken P ms Q) :
    ∀ r ∈ P.shared.trades.rows, r.isTerminal = true →
      ∃ r' ∈ Q.shared.trades.rows, r'.id = r.id ∧ r'.status = r.status := by
  obtain ⟨g, hg, -, hopened⟩ := invariant_of_run (J := fun _ g => Opened g) h (Sound.found _)
    ⟨fun _ _ _ hi => (by cases hi), fun _ _ _ hi => by cases hi⟩
    (fun _ _ _ _ _ _ _ _ _ _ hD _ _ hJ ha => opened_act hJ hD ha)
    (fun _ _ _ _ _ _ _ hJ _ => opened_event hJ)
  obtain ⟨-, -, hkept, -⟩ := Coroutine.ghosts (K := conduct env)
    (I := fun (w : World) (g : Stances) => TerminalKept P.shared.trades w.trades ∧ Opened g)
    startStance (fun tag : Tag => keeps_conduct env tag.task)
    (fun R g i c tag o x w' q m hD _ hJ hpend htag hq hp hx =>
      have ha : Acts env R g i c tag q m o x w' := ⟨hpend, htag, hq, hp, hx⟩
      ⟨trivial, hJ.1.trans (terminalKept_act hJ.2 hD ha), opened_act hJ.2 hD ha⟩)
    (fun R g e x _ _ hJ hx => by
      refine ⟨?_, opened_event hJ.2⟩
      rw [(react_ledger hx).1]
      exact hJ.1)
    h' ⟨g, hg, .refl _, hopened⟩
  exact hkept

/-- The reply to an order call is lost, and a batch learns that the order was filled. -/
def settledLater : List (Label (service Sample.inline)) :=
  [Sample.occurs _ (.webhook 0 Sample.signal)] ++ Sample.steps _ 0 9 ++
    [Sample.occurs _ (.arrive 0 (.accept Sample.filled)), Sample.reply _ 0 .timeout] ++
    Sample.steps _ 0 2 ++ [Sample.reply _ 0 .timeout, Sample.occurs _ (.tick 1),
      Sample.occurs _ (.batch 0 0 100)] ++
    Sample.steps _ 1 3 ++ [Sample.occurs _ (.arrive 2 .lookup), Sample.delivered _ 1] ++
    Sample.steps _ 1 2

/-- The owner asks for the trade to be reconciled. -/
def askedAgain : List (Label (service Sample.inline)) :=
  [Sample.occurs _ (.reconcile 0 1 1)] ++ Sample.steps _ 2 1

theorem settledLater_follows : ((service Sample.inline).system.follow Unovertaken
    (Sample.start _) settledLater).isSome := by decide +kernel

theorem askedAgain_follows : ((service Sample.inline).system.follow Unovertaken
    (((service Sample.inline).system.follow Unovertaken (Sample.start _)
      settledLater).get settledLater_follows) askedAgain).isSome := by decide +kernel

/-- A worker recorded UNKNOWN, a batch FILLED, and a third session leaves it at that. -/
theorem terminal_statuses_final_askedAgain :
    ∃ P Q, Run (service Sample.inline).system Unovertaken P askedAgain Q ∧
      (∃ r ∈ P.shared.trades.rows, r.isTerminal = true) ∧
      ∀ r ∈ P.shared.trades.rows, r.isTerminal = true →
        ∃ r' ∈ Q.shared.trades.rows, r'.id = r.id ∧ r'.status = r.status := by
  have h := System.run_get settledLater_follows
  have h' := System.run_get askedAgain_follows
  refine ⟨_, _, h', ?_, terminal_statuses_final h h'⟩
  decide +kernel

/-- A batch records what became of an order while the reply to the order call, in which the
order has the given state, is still on its way to the worker. -/
def overtaken (placed : Order) : List (Label (service Sample.inline)) :=
  [Sample.occurs _ (.webhook 0 Sample.signal)] ++ Sample.steps _ 0 9 ++
    [Sample.occurs _ (.arrive 0 (.accept placed)), Sample.occurs _ (.progress 0 Sample.filled),
      Sample.occurs _ (.tick 1), Sample.occurs _ (.batch 0 0 100)] ++
    Sample.steps _ 1 3 ++ [Sample.occurs _ (.arrive 1 .lookup), Sample.delivered _ 1] ++
    Sample.steps _ 1 2

/-- The worker hears of its order, and commits. -/
def caughtUp : List (Label (service Sample.inline)) :=
  [Sample.delivered _ 0] ++ Sample.steps _ 0 1

/-- The order was filled in two parts, and the reply to the order call tells of the first. -/
def partly : Order := Sample.order .partiallyFilled "0.0005" "30.2"

theorem overtaken_follows : ((service Sample.inline).system.follow Honest
    (Sample.start _) (overtaken partly)).isSome := by decide +kernel

theorem caughtUp_follows : ((service Sample.inline).system.follow Honest
    (((service Sample.inline).system.follow Honest (Sample.start _) (overtaken partly)).get
      overtaken_follows) caughtUp).isSome := by decide +kernel

/-- Without the condition a FILLED row becomes PARTIALLY_FILLED again, although every reply is
one that the exchange gave to a request about one order that only ever progressed. -/
theorem terminal_status_overwritten :
    ¬ ∀ (users : List User) (clock : DateTime) (ls ms : List (Label (service Sample.inline)))
        (P Q : Pool (service Sample.inline)),
      Run (service Sample.inline).system Honest (Pool.idle (.initial users clock)) ls P →
      Run (service Sample.inline).system Honest P ms Q →
      ∀ r ∈ P.shared.trades.rows, r.isTerminal = true →
        ∃ r' ∈ Q.shared.trades.rows, r'.id = r.id ∧ r'.status = r.status := by
  intro h
  have hkept := h Sample.users 0 _ _ _ _ (System.run_get overtaken_follows)
    (System.run_get caughtUp_follows)
  revert hkept
  decide +kernel

end AutoTrader
