import AutoTrader.System.Sample

/-!
# No accepted signal is closed unsent, unless by a reconciliation

A trade that was never claimed should stay PENDING, so that it can still be sent. The
service itself keeps it so; a reconciliation does not. It closes any trade the exchange
does not know, and it does not look at `submitted_at`: for a trade that was not sent yet
the answer "no such order" is certain, and the trade becomes FAILED.

The promise holds in the runs in which no reconciliation commits on an unclaimed trade.
-/

namespace AutoTrader

open Python Coroutine Transition

variable {env : Deployment}

/-- Every unclaimed row is PENDING. -/
def OpenUntilClaimed (l : Ledger) : Prop :=
  ∀ r ∈ l.trades.rows, r.submittedAt = none → r.status = .pending

/-- The edits of a reconciliation are those that stamp `reconciled_at`. -/
theorem reconciledAt_answerEdits (answer : Option BinanceOrderResult) (now : DateTime) :
    (answerEdits answer now).reconciledAt = some (some now) := by
  cases answer <;> rfl

/-- Whoever commits on an unclaimed row reconciles. -/
theorem reconciles_of_unclaimed {P : Pool (service env)} {g : Stances} {i : Nat} {c : Choice}
    {tag : Tag} {q : Stance} {m : Move} {t : Trade} {e : Edits} {x : Except CommitError DateTime}
    {w' : World} (hs : Sound env P.shared.toLedger g) (ha : Acts env P g i c tag q m (.commit t e) x w')
    {r : Trade} (hr : r ∈ P.shared.trades.rows) (hid : r.id = t.id)
    (hnone : r.submittedAt = none) : e.reconciledAt.isSome := by
  have hperm := ha.permits
  cases m with
  | ask _ => exact hperm.elim
  | plain =>
    obtain ⟨ht, ⟨outcome, o, hq, -, -⟩ | ⟨outcome, answer, now, -, -, rfl⟩⟩ := hperm
    · -- a worker's copy is one of a claimed row
      have hsub := hs.submitted i q t ha.stance (by rw [hq]; rfl)
      have hrow := (hs.terms_of_copy ha.stance ht hr hid).2 hsub
      rw [hnone] at hrow
      cases hrow
    · rw [reconciledAt_answerEdits]
      rfl

/-- The condition: a reconciliation commits its answer only on a claimed trade. -/
def ReconcilesClaimed (P : Pool (service env)) (l : Label (service env)) : Prop :=
  ∀ x ∈ commit? P l, x.2.reconciledAt.isSome →
    ∀ r ∈ P.shared.trades.rows, r.id = x.1.id → r.submittedAt.isSome

instance (P : Pool (service env)) (l : Label (service env)) : Decidable (ReconcilesClaimed P l) :=
  inferInstanceAs (Decidable (∀ x ∈ commit? P l, x.2.reconciledAt.isSome →
    ∀ r ∈ P.shared.trades.rows, r.id = x.1.id → r.submittedAt.isSome))

theorem openUntilClaimed_act {P : Pool (service env)} {g : Stances} {i : Nat} {c : Choice}
    {tag : Tag} {q : Stance} {m : Move} {o : Op} {x : o.Res} {w' : World}
    (hs : Sound env P.shared.toLedger g) (hJ : OpenUntilClaimed P.shared.toLedger)
    (hD : ReconcilesClaimed P (.act i c)) (ha : Acts env P g i c tag q m o x w') :
    OpenUntilClaimed w'.toLedger := by
  have hx := ha.exec
  cases o with
  | insert n =>
    rcases exec_insert hx with rfl | ⟨hfit, rfl⟩
    · exact hJ
    · intro r hr hnone
      rcases (TradeTable.mem_insert (h := hfit)).mp hr with hr | rfl
      · exact hJ r hr hnone
      · have hperm := ha.permits
        cases m with
        | ask _ => exact hperm.elim
        | plain =>
          obtain ⟨-, payload, owner, -, -, rfl⟩ := hperm
          rfl
  | claim id now =>
    rcases exec_claim hx with ⟨rfl, -⟩ | ⟨row, -, -, -, -, rfl⟩
    · exact hJ
    · intro r hr hnone
      obtain ⟨s, hs', rfl⟩ := TradeTable.mem_update.mp hr
      split at hnone
      · cases hnone
      · rename_i hne
        rw [if_neg hne]
        exact hJ s hs' hnone
  | commit t e =>
    rcases exec_commit hx with ⟨rfl, hc, -⟩ | ⟨rfl, -⟩
    · intro r hr hnone
      obtain ⟨s, hs', rfl⟩ := TradeTable.mem_update.mp hr
      by_cases hid : s.id = t.id
      · rw [if_pos hid] at hnone
        have hrec := reconciles_of_unclaimed hs ha hs' hid hnone
        have hclaimed := hD _ (ha.commit? hc) hrec s hs' hid
        rw [show s.submittedAt = none from hnone] at hclaimed
        cases hclaimed
      · rw [if_neg hid] at hnone ⊢
        exact hJ s hs' hnone
    · exact hJ
  | send request =>
    obtain ⟨-, rfl⟩ := exec_send hx
    exact hJ
  | log record =>
    obtain rfl := exec_log hx
    exact hJ
  | _ =>
    rw [exec_of_not_writes rfl hx]
    exact hJ

/-- **Unsent trades stay open while reconciliations leave them alone.** In every run in which
no reconciliation commits on an unclaimed trade, every row without `submitted_at` is
PENDING. -/
theorem open_until_claimed {users : List User} {clock : DateTime}
    {ls : List (Label (service env))} {P : Pool (service env)}
    (h : Run (service env).system ReconcilesClaimed (Pool.idle (.initial users clock)) ls P) :
    ∀ r ∈ P.shared.trades.rows, r.submittedAt = none → r.status = .pending := by
  obtain ⟨-, -, -, hJ⟩ := invariant_of_run (J := fun w _ => OpenUntilClaimed w.toLedger) h
    (Sound.found _) (fun _ hr => by cases hr)
    (fun P g i c tag q m o x w' hD _ hs hJ ha => openUntilClaimed_act hs hJ hD ha)
    (fun P g e x _ _ _ hJ hx => by
      obtain ⟨ht, -⟩ := react_ledger hx
      unfold OpenUntilClaimed at hJ ⊢
      rw [ht]
      exact hJ)
  exact hJ

/-- A run in which a reconciliation finds a claimed trade: its order was placed, the reply
was lost, and a batch asks again. -/
def reconciledLater : List (Label (service Sample.inline)) :=
  [Sample.occurs _ (.webhook 0 Sample.signal)] ++ Sample.steps _ 0 9 ++
    [Sample.occurs _ (.arrive 0 (.accept Sample.filled)), Sample.reply _ 0 .timeout] ++
    Sample.steps _ 0 2 ++ [Sample.reply _ 0 .timeout] ++
    [Sample.occurs _ (.tick 1), Sample.occurs _ (.batch 0 0 100)] ++ Sample.steps _ 1 3 ++
    [Sample.occurs _ (.arrive 2 .lookup), Sample.delivered _ 1] ++
    Sample.steps _ 1 2

theorem reconciledLater_follows : ((service Sample.inline).system.follow ReconcilesClaimed
    (Sample.start _) reconciledLater).isSome := by decide +kernel

theorem open_until_claimed_reconciledLater :
    ∃ P, Run (service Sample.inline).system ReconcilesClaimed (Sample.start _) reconciledLater P ∧
      (∃ r ∈ P.shared.trades.rows, r.status = .filled ∧ r.reconciledAt.isSome) ∧
      ∀ r ∈ P.shared.trades.rows, r.submittedAt = none → r.status = .pending := by
  have h := System.run_get reconciledLater_follows
  refine ⟨_, h, ?_, open_until_claimed h⟩
  decide +kernel

/-- A queued signal whose trade a user reconciles before a worker takes it. -/
def reconciledUnsent : List (Label (service Sample.queued)) :=
  [Sample.occurs _ (.webhook 0 Sample.signal)] ++ Sample.steps _ 0 5 ++
    [Sample.occurs _ (.reconcile 0 1 1)] ++ Sample.steps _ 1 2 ++
    [Sample.occurs _ (.arrive 0 .lookup), Sample.delivered _ 1] ++
    Sample.steps _ 1 2

theorem reconciledUnsent_follows : ((service Sample.queued).system.follow unguarded
    (Sample.start _) reconciledUnsent).isSome := by decide +kernel

/-- Without the condition an accepted signal can be closed unsent: the trade in the queue is
FAILED, without `submitted_at`. -/
theorem closed_unsent :
    ¬ ∀ (users : List User) (clock : DateTime) (ls : List (Label (service Sample.queued)))
        (P : Pool (service Sample.queued)),
      Run (service Sample.queued).system unguarded (Pool.idle (.initial users clock)) ls P →
      ∀ r ∈ P.shared.trades.rows, r.submittedAt = none → r.status = .pending := by
  intro h
  have hopen := h Sample.users 0 _ _ (System.run_get reconciledUnsent_follows)
  revert hopen
  decide +kernel

end AutoTrader
