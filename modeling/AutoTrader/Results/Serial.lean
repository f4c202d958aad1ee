import AutoTrader.System.Sample
import AutoTrader.System.Turns

/-!
# Outcomes, one after another

A worker and any number of reconciliations record outcomes for one trade, each from its
own copy. The row should end as if they had recorded them one after another, each on the
committed row, where a reconciliation that finds a terminal row records nothing.

`serially` is that specification, on the columns an outcome consists of. Only the columns
that differ from the copy are written, so the commit from a copy that another outcome has
overtaken can leave some of that outcome standing. Where no outcome comes between the load
of a copy and the commit from it, the guard of the reconciliations and the unit of work do
what they should, and every row is the serial result in the order of the commits.
-/

namespace AutoTrader

open Python Coroutine Transition UnitOfWork

variable {env : Deployment}

/-! ## The specification -/

/-- The columns an outcome consists of. -/
structure OutcomeColumns where
  status : TradeStatus
  binanceOrderId : Option Int
  binanceStatus : Option String
  executedQuantity : Option Decimal
  cumulativeQuoteQuantity : Option Decimal
  errorCode : Option String
  errorMessage : Option String
  deriving DecidableEq

def Trade.outcome (t : Trade) : OutcomeColumns :=
  ⟨t.status, t.binanceOrderId, t.binanceStatus, t.executedQuantity, t.cumulativeQuoteQuantity,
    t.errorCode, t.errorMessage⟩

/-- The columns of an accepted trade. -/
def OutcomeColumns.accepted : OutcomeColumns := ⟨.pending, none, none, none, none, none, none⟩

namespace Edits

/-- The commit of a handler whose copy is the row. -/
def settle (e : Edits) (c : OutcomeColumns) : OutcomeColumns where
  status := plain.flush c.status e.status c.status
  binanceOrderId := bigint.flush c.binanceOrderId e.binanceOrderId c.binanceOrderId
  binanceStatus := (varchar 32).flush c.binanceStatus e.binanceStatus c.binanceStatus
  executedQuantity := numeric.flush c.executedQuantity e.executedQuantity c.executedQuantity
  cumulativeQuoteQuantity :=
    numeric.flush c.cumulativeQuoteQuantity e.cumulativeQuoteQuantity c.cumulativeQuoteQuantity
  errorCode := (varchar 64).flush c.errorCode e.errorCode c.errorCode
  errorMessage := text.flush c.errorMessage e.errorMessage c.errorMessage

/-- Only reconciliations stamp `reconciled_at`. -/
def reconciles (e : Edits) : Bool := e.reconciledAt.isSome

/-- A handler that starts from the committed row; a reconciliation leaves a terminal row
alone. -/
def handle (e : Edits) (c : OutcomeColumns) : OutcomeColumns :=
  if e.reconciles && c.status.isTerminal then c else e.settle c

end Edits

/-- The handlers, one after another. -/
def serially (es : List Edits) : OutcomeColumns :=
  es.foldl (fun c e => e.handle c) .accepted

namespace Ledger

/-- The outcomes that were committed for a trade, oldest first. -/
def journal (l : Ledger) (id : TradeId) : List Edits :=
  l.history.filterMap fun
    | .recorded loaded edits => if loaded.id = id then some edits else none
    | _ => none

/-- The row is the result of its outcomes, recorded one after another in some order. -/
def Serialisable (l : Ledger) (r : Trade) : Prop :=
  ∃ order, order.Perm (l.journal r.id) ∧ r.outcome = serially order

end Ledger

/-! ## One commit -/

/-- From a copy that has the outcome columns of the row, a commit carries its handler out. -/
theorem flush_eq_settle {e : Edits} {loaded row : Trade} {now : DateTime}
    (hcurrent : row.outcome = loaded.outcome) :
    (e.flush loaded now row).outcome = e.settle row.outcome := by
  simp only [Trade.outcome, OutcomeColumns.mk.injEq] at hcurrent
  obtain ⟨hstatus, horder, hbinance, hexecuted, hquote, hcode, hmessage⟩ := hcurrent
  simp only [Trade.outcome, Edits.flush, Edits.settle, hstatus, horder, hbinance, hexecuted, hquote,
    hcode, hmessage]

/-- So does the handler that tests its copy before it asks. -/
theorem flush_eq_handle {e : Edits} {loaded row : Trade} (now : DateTime)
    (hcurrent : row.outcome = loaded.outcome)
    (hopen : e.reconciles = true → loaded.isTerminal = false) :
    (e.flush loaded now row).outcome = e.handle row.outcome := by
  rw [Edits.handle, if_neg, flush_eq_settle hcurrent]
  rw [Bool.and_eq_true]
  rintro ⟨hreconciles, hterm⟩
  rw [show row.outcome.status = loaded.status from congrArg OutcomeColumns.status hcurrent] at hterm
  rw [Trade.isTerminal, hterm] at hopen
  cases hopen hreconciles

/-! ## Runs -/

/-- The condition: no outcome is committed between the load of a copy and the commit from
it, so that the copy still has the outcome columns of the row. -/
def CopyCurrent (P : Pool (service env)) (l : Label (service env)) : Prop :=
  ∀ x ∈ commit? P l, ∀ r ∈ P.shared.trades.rows, r.id = x.1.id → r.outcome = x.1.outcome

instance (P : Pool (service env)) (l : Label (service env)) : Decidable (CopyCurrent P l) :=
  inferInstanceAs (Decidable (∀ x ∈ commit? P l, ∀ r ∈ P.shared.trades.rows, r.id = x.1.id →
    r.outcome = x.1.outcome))

/-- Every row is what its outcomes make of an accepted trade, in the order of the commits. -/
structure Replayed (l : Ledger) : Prop where
  known : ∀ t e, Entry.recorded t e ∈ l.history → ∃ r ∈ l.trades.rows, r.id = t.id
  replayed : ∀ r ∈ l.trades.rows, r.outcome = serially (l.journal r.id)

/-- An entry of the history that is no outcome. -/
def Entry.isRecord : Entry → Bool
  | .recorded _ _ => true
  | _ => false

namespace Ledger

theorem journal_append {l l' : Ledger} {x : Entry} (h : l'.history = l.history ++ [x])
    (hx : x.isRecord = false) (id : TradeId) : l'.journal id = l.journal id := by
  rw [journal, h, List.filterMap_append]
  cases x with
  | recorded => cases hx
  | received | inserted | claimed => simp [journal]

theorem journal_record (l : Ledger) (t : Trade) (e : Edits) (now : DateTime) (id : TradeId) :
    (l.record t e now).journal id = l.journal id ++ if t.id = id then [e] else [] := by
  simp only [journal, record, List.filterMap_append]
  congr 1
  by_cases h : t.id = id
  · simp [h]
  · simp [h]

theorem journal_of_unknown {l : Ledger} {id : TradeId}
    (h : ∀ t e, Entry.recorded t e ∈ l.history → t.id ≠ id) : l.journal id = [] := by
  refine List.filterMap_eq_nil_iff.mpr fun x hx => ?_
  cases x with
  | recorded t e => exact if_neg (h t e hx)
  | received | inserted | claimed => rfl

end Ledger

namespace Replayed

variable {l l' : Ledger}

theorem congr (h : Replayed l) (ht : l'.trades = l.trades)
    (hh : l'.history = l.history ∨ ∃ x : Entry, x.isRecord = false ∧ l'.history = l.history ++ [x]) :
    Replayed l' := by
  have hjournal : ∀ id, l'.journal id = l.journal id := by
    intro id
    rcases hh with hh | ⟨x, hx, hh⟩
    · simp only [Ledger.journal, hh]
    · exact Ledger.journal_append hh hx id
  have hmem : ∀ t e, Entry.recorded t e ∈ l'.history → Entry.recorded t e ∈ l.history := by
    intro t e he
    rcases hh with hh | ⟨x, hx, hh⟩
    · rwa [hh] at he
    · rw [hh] at he
      rcases List.mem_append.mp he with he | he
      · exact he
      · rw [← List.mem_singleton.mp he] at hx
        cases hx
  refine ⟨?_, ?_⟩
  · intro t e he
    rw [ht]
    exact h.known t e (hmem t e he)
  · intro r hr
    rw [ht] at hr
    rw [hjournal]
    exact h.replayed r hr

theorem insert (h : Replayed l) {row : Trade} (hfit : l.trades.Fits row)
    (hrow : row.outcome = .accepted) : Replayed (l.insert row hfit) := by
  have hjournal : ∀ id, (l.insert row hfit).journal id = l.journal id :=
    Ledger.journal_append (x := .inserted row) rfl rfl
  have hknown : ∀ t e, Entry.recorded t e ∈ l.history → ∃ r ∈ l.trades.rows, r.id = t.id := h.known
  refine ⟨?_, ?_⟩
  · intro t e he
    rcases List.mem_append.mp he with he | he
    · obtain ⟨r, hr, hid⟩ := hknown t e he
      exact ⟨r, (TradeTable.mem_insert (h := hfit)).mpr (Or.inl hr), hid⟩
    · cases List.mem_singleton.mp he
  · intro r hr
    rw [hjournal]
    rcases (TradeTable.mem_insert (h := hfit)).mp hr with hr | rfl
    · exact h.replayed r hr
    · -- nothing was recorded for a row that is new
      rw [hrow, Ledger.journal_of_unknown]
      · rfl
      · intro t e he hid
        obtain ⟨s, hs, hsid⟩ := hknown t e he
        exact hfit.1 s hs (hsid.trans hid)

theorem claim (h : Replayed l) (thread : Nat) (id : TradeId) (now : DateTime) :
    Replayed (l.claim thread id now) := by
  have hjournal : ∀ i, (l.claim thread id now).journal i = l.journal i :=
    Ledger.journal_append (x := .claimed thread id) rfl rfl
  refine ⟨?_, ?_⟩
  · intro t e he
    rcases List.mem_append.mp he with he | he
    · obtain ⟨r, hr, hid⟩ := h.known t e he
      refine ⟨_, TradeTable.mem_update.mpr ⟨r, hr, rfl⟩, ?_⟩
      split <;> exact hid
    · cases List.mem_singleton.mp he
  · intro r hr
    rw [hjournal]
    obtain ⟨s, hs, rfl⟩ := TradeTable.mem_update.mp hr
    split
    · exact h.replayed s hs
    · exact h.replayed s hs

theorem record (h : Replayed l) {t : Trade} {e : Edits} (now : DateTime) (ht : l.Backs t)
    (hcurrent : ∀ r ∈ l.trades.rows, r.id = t.id → r.outcome = t.outcome)
    (hopen : e.reconciles = true → t.isTerminal = false) : Replayed (l.record t e now) := by
  refine ⟨?_, ?_⟩
  · intro t' e' he
    have hrow : ∃ r ∈ l.trades.rows, r.id = t'.id := by
      rcases List.mem_append.mp he with he | he
      · exact h.known t' e' he
      · cases List.mem_singleton.mp he
        obtain ⟨r, hr, hterms, -⟩ := ht
        exact ⟨r, hr, congrArg Trade.Terms.id hterms⟩
    obtain ⟨r, hr, hid⟩ := hrow
    refine ⟨_, TradeTable.mem_update.mpr ⟨r, hr, rfl⟩, ?_⟩
    split <;> exact hid
  · intro r hr
    rw [Ledger.journal_record]
    obtain ⟨s, hs, rfl⟩ := TradeTable.mem_update.mp hr
    by_cases hid : s.id = t.id
    · have hflush := flush_eq_handle now (hcurrent s hs hid) hopen
      rw [if_pos hid]
      change (e.flush t now s).outcome = serially (l.journal s.id ++ if t.id = s.id then [e] else [])
      rw [if_pos hid.symm, hflush, serially, List.foldl_append, h.replayed s hs]
      rfl
    · rw [if_neg hid, if_neg (Ne.symm hid), List.append_nil]
      exact h.replayed s hs

end Replayed

/-- A reconciliation commits only from a copy that was not settled. -/
theorem open_of_reconciles {g : Stances} (hasks : AsksOpen g) {i : Nat} {q : Stance}
    (hi : g i = some q) {t : Trade} {e : Edits} (h : q.concludes env t e)
    (he : e.reconciles = true) : t.isTerminal = false := by
  rcases h with ⟨outcome, o, -, -, rfl⟩ | ⟨outcome, answer, now, hq, -, rfl⟩
  · cases o <;> cases he
  · exact hasks i q t hi (by rw [hq]; rfl)

theorem replayed_act {P : Pool (service env)} {g : Stances} {i : Nat} {c : Choice} {tag : Tag}
    {q : Stance} {m : Move} {o : Op} {x : o.Res} {w' : World} (hs : Sound env P.shared.toLedger g)
    (hJ : Replayed P.shared.toLedger) (hasks : AsksOpen g) (hD : CopyCurrent P (.act i c))
    (ha : Acts env P g i c tag q m o x w') : Replayed w'.toLedger := by
  have hx := ha.exec
  have hp := ha.permits
  cases o with
  | insert n =>
    rcases exec_insert hx with rfl | ⟨hfit, rfl⟩
    · exact hJ
    · cases m with
      | ask _ => exact hp.elim
      | plain =>
        obtain ⟨-, payload, owner, -, -, rfl⟩ := hp
        exact hJ.insert hfit rfl
  | claim id now =>
    rcases exec_claim hx with ⟨rfl, -⟩ | ⟨row, -, -, -, -, rfl⟩
    · exact hJ
    · exact hJ.claim _ _ _
  | commit t e =>
    cases m with
    | ask _ => exact hp.elim
    | plain =>
      rcases exec_commit hx with ⟨rfl, hc, -⟩ | ⟨rfl, -⟩
      · exact hJ.record _ (hs.backed i q ha.stance t hp.1) (hD _ (ha.commit? hc))
          (open_of_reconciles hasks ha.stance hp.2)
      · exact hJ
  | send request =>
    obtain ⟨-, rfl⟩ := exec_send hx
    exact hJ.congr rfl (Or.inl rfl)
  | log record =>
    obtain rfl := exec_log hx
    exact hJ.congr rfl (Or.inl rfl)
  | _ =>
    rw [exec_of_not_writes rfl hx]
    exact hJ

/-- **Outcomes are serialisable while copies are current.** In every run in which no outcome
is committed between the load of a copy and the commit from it, every row is the result of
its outcomes recorded one after another. -/
theorem outcomes_serialisable {users : List User} {clock : DateTime}
    {ls : List (Label (service env))} {P : Pool (service env)}
    (h : Run (service env).system CopyCurrent (Pool.idle (.initial users clock)) ls P) :
    ∀ r ∈ P.shared.trades.rows, P.shared.toLedger.Serialisable r := by
  obtain ⟨-, -, -, hJ, -⟩ := invariant_of_run
    (J := fun w g => Replayed w.toLedger ∧ AsksOpen g) h (Sound.found _)
    ⟨⟨fun _ _ he => (by cases he), fun r hr => (by cases hr)⟩, fun _ _ _ hi => by cases hi⟩
    (fun P g i c tag q m o x w' hD _ hs hJ ha =>
      ⟨replayed_act hs hJ.1 hJ.2 hD ha, hJ.2.act ha.stance (turn_of_exec ha.permits ha.exec)⟩)
    (fun P g e x _ _ _ hJ hx => by
      obtain ⟨ht, -, -, hh⟩ := react_ledger hx
      refine ⟨hJ.1.congr ht ?_, hJ.2.event⟩
      rcases hh with hh | ⟨p, payload, -, -, hh⟩
      · exact Or.inl hh
      · exact Or.inr ⟨.received payload, rfl, hh⟩)
  exact fun r hr => ⟨_, List.Perm.refl _, hJ.replayed r hr⟩

/-- An order that is filled while its reply is lost, and a batch that asks again. -/
def recordedInTurn : List (Label (service Sample.inline)) :=
  [Sample.occurs _ (.webhook 0 Sample.signal)] ++ Sample.steps _ 0 9 ++
    [Sample.occurs _ (.arrive 0 (.accept Sample.filled)), Sample.reply _ 0 .timeout] ++
    Sample.steps _ 0 2 ++ [Sample.reply _ 0 .timeout] ++
    [Sample.occurs _ (.tick 1), Sample.occurs _ (.batch 0 0 100)] ++ Sample.steps _ 1 3 ++
    [Sample.occurs _ (.arrive 2 .lookup), Sample.delivered _ 1] ++
    Sample.steps _ 1 2

theorem recordedInTurn_follows : ((service Sample.inline).system.follow CopyCurrent
    (Sample.start _) recordedInTurn).isSome := by decide +kernel

/-- Two outcomes for one row, each recorded on what the other left. -/
theorem outcomes_serialisable_recordedInTurn :
    ∃ P, Run (service Sample.inline).system CopyCurrent (Sample.start _) recordedInTurn P ∧
      (∃ r ∈ P.shared.trades.rows, r.status = .filled ∧
        (P.shared.toLedger.journal r.id).length = 2) ∧
      ∀ r ∈ P.shared.trades.rows, P.shared.toLedger.Serialisable r := by
  have h := System.run_get recordedInTurn_follows
  refine ⟨_, h, ?_, outcomes_serialisable h⟩
  decide +kernel

/-- A batch finds no order while the order is on its way, and records that; the worker then
records from its older copy that the order was filled. -/
def recordedAcross : List (Label (service Sample.inline)) :=
  [Sample.occurs _ (.webhook 0 Sample.signal)] ++ Sample.steps _ 0 9 ++
    [Sample.occurs _ (.tick 1), Sample.occurs _ (.batch 0 0 100)] ++ Sample.steps _ 1 3 ++
    [Sample.occurs _ (.arrive 1 .lookup), Sample.delivered _ 1] ++ Sample.steps _ 1 2 ++
    [Sample.occurs _ (.arrive 0 (.accept Sample.filled)), Sample.delivered _ 0] ++
    Sample.steps _ 0 1

theorem recordedAcross_follows : ((service Sample.inline).system.follow Honest
    (Sample.start _) recordedAcross).isSome := by decide +kernel

/-- Without the condition two outcomes can merge: the row is FILLED and carries
`order_not_found`, which neither order of its two outcomes leaves there. -/
theorem outcomes_merged :
    ¬ ∀ (users : List User) (clock : DateTime) (ls : List (Label (service Sample.inline)))
        (P : Pool (service Sample.inline)),
      Run (service Sample.inline).system Honest (Pool.idle (.initial users clock)) ls P →
      ∀ r ∈ P.shared.trades.rows, P.shared.toLedger.Serialisable r := by
  intro h
  have hrun := System.run_get recordedAcross_follows
  have hserial := h Sample.users 0 _ _ hrun
  have hneither : ∃ r ∈ (((service Sample.inline).system.follow Honest (Sample.start _)
      recordedAcross).get recordedAcross_follows).shared.trades.rows,
      r.status = .filled ∧ r.errorCode = some "order_not_found" ∧
      ((((service Sample.inline).system.follow Honest (Sample.start _)
        recordedAcross).get recordedAcross_follows).shared.toLedger.journal r.id).length = 2 ∧
      ∀ a ∈ (((service Sample.inline).system.follow Honest (Sample.start _)
        recordedAcross).get recordedAcross_follows).shared.toLedger.journal r.id,
      ∀ b ∈ (((service Sample.inline).system.follow Honest (Sample.start _)
        recordedAcross).get recordedAcross_follows).shared.toLedger.journal r.id,
        r.outcome ≠ serially [a, b] := by decide +kernel
  obtain ⟨r, hr, -, -, hlen, hne⟩ := hneither
  obtain ⟨order, hperm, horder⟩ := hserial r hr
  obtain ⟨a, b, rfl⟩ := List.length_eq_two.mp (hperm.length_eq.trans hlen)
  refine hne a (hperm.subset ?_) b (hperm.subset ?_) horder
  · simp
  · simp

end AutoTrader
