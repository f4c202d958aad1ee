import AutoTrader.Results.Failure
import Mathlib.Logic.Relation

/-!
# The life of a trade

`Stage` is the life cycle a trade has by design: it waits for its claim, is handed to the
exchange, and settles; or it is settled aside, without having been handed over. The four stages
and the three moves between them form no cycle, so that a claim is made at most once and the
status PENDING, once left, is never taken again.

The system refines it: each of its steps leaves every trade in its stage or takes it along one
move, and no order of a trade leaves before the trade was handed over.
-/

namespace AutoTrader

open Python Coroutine Transition UnitOfWork

inductive Stage
  /-- PENDING, and nobody has claimed it. -/
  | waiting
  /-- PENDING and claimed. -/
  | handed
  /-- Claimed, and no longer PENDING. -/
  | settled
  /-- No longer PENDING, and never claimed. -/
  | aside
  deriving DecidableEq

namespace Stage

/-- The moves of the life cycle. -/
inductive Next : Stage → Stage → Prop
  | claim : Next waiting handed
  | outcome : Next handed settled
  | answer : Next waiting aside

/-- A trade in this stage was never handed to the exchange. -/
def unhanded : Stage → Bool
  | waiting | aside => true
  | _ => false

def Reaches : Stage → Stage → Prop := Relation.ReflTransGen Next

/-- No move leads out of this stage. -/
def final : Stage → Bool
  | settled | aside => true
  | _ => false

theorem Reaches.eq_of_final {s s' : Stage} (h : s.Reaches s') (hs : s.final = true) : s' = s := by
  rcases Relation.ReflTransGen.cases_head h with rfl | ⟨_, hnext, -⟩
  · rfl
  · cases hnext <;> cases hs

end Stage

/-- The stage a row shows. -/
def Trade.stage (t : Trade) : Stage :=
  match t.status, t.submittedAt with
  | .pending, none => .waiting
  | .pending, some _ => .handed
  | _, some _ => .settled
  | _, none => .aside

theorem Trade.unhanded_stage (t : Trade) : t.stage.unhanded = t.submittedAt.isNone := by
  unfold Trade.stage
  cases t.status <;> cases t.submittedAt <;> rfl

theorem Trade.stage_of_unsent {t : Trade} (h : t.unsent = true) : t.stage = .waiting := by
  simp only [Trade.unsent, Bool.and_eq_true, decide_eq_true_eq, Option.isNone_iff_eq_none] at h
  rw [Trade.stage, h.1, h.2]

/-- How a row may differ from the same row before: the terms are kept, and the moment of its
claim. -/
structure Trade.Advances (R : Stage → Stage → Prop) (t t' : Trade) : Prop where
  terms : t'.terms = t.terms
  createdAt : t'.createdAt = t.createdAt
  submittedAt : t.submittedAt.isSome → t'.submittedAt = t.submittedAt
  stage : R t.stage t'.stage

/-- Every row is found again, advanced by `R`. -/
def TradeTable.Advance (R : Stage → Stage → Prop) (T T' : TradeTable) : Prop :=
  ∀ t ∈ T.rows, ∃ t' ∈ T'.rows, t.Advances R t'

namespace TradeTable.Advance

theorem refl (T : TradeTable) : Advance Stage.Reaches T T := fun t ht =>
  ⟨t, ht, rfl, rfl, fun _ => rfl, .refl⟩

theorem trans {T T' T'' : TradeTable} (h : Advance Stage.Reaches T T')
    (h' : Advance Stage.Reaches T' T'') : Advance Stage.Reaches T T'' := by
  intro t ht
  obtain ⟨t', ht', ha⟩ := h t ht
  obtain ⟨t'', ht'', ha'⟩ := h' t' ht'
  refine ⟨t'', ht'', ha'.terms.trans ha.terms, ha'.createdAt.trans ha.createdAt, ?_,
    Relation.ReflTransGen.trans ha.stage ha'.stage⟩
  intro hsome
  have hkept := ha.submittedAt hsome
  exact (ha'.submittedAt (hkept ▸ hsome)).trans hkept

end TradeTable.Advance

/-! ## One step -/

/-- One move of the life cycle, or none. -/
abbrev Stage.Step : Stage → Stage → Prop := fun s s' => s' = s ∨ s.Next s'

theorem Stage.Step.reaches {s s' : Stage} (h : s.Step s') : s.Reaches s' := by
  rcases h with rfl | h
  · exact .refl
  · exact .single h

/-- A flush leaves the status of the row, or assigns the one it was given. -/
theorem status_flushed (e : Edits) (loaded row : Trade) (now : DateTime) :
    (e.flush loaded now row).status = row.status ∨
      e.status = some (e.flush loaded now row).status := by
  cases hs : e.status with
  | none => exact Or.inl (by simp [Edits.flush, hs])
  | some s =>
    simp only [Edits.flush, hs, plain_flush]
    split
    · exact Or.inl rfl
    · exact Or.inr rfl

/-- A flush that does not assign PENDING takes the row along one move at most. -/
theorem advances_flush {e : Edits} (he : e.status ≠ some .pending) (loaded row : Trade)
    (now : DateTime) : row.Advances Stage.Step (e.flush loaded now row) := by
  refine ⟨rfl, rfl, fun _ => rfl, ?_⟩
  have hstatus : (e.flush loaded now row).status = row.status ∨
      (e.flush loaded now row).status ≠ .pending :=
    (status_flushed e loaded row now).imp_right fun hassigned h => he (h ▸ hassigned)
  have hsubmitted : (e.flush loaded now row).submittedAt = row.submittedAt := rfl
  rcases hstatus with hsame | hne
  · refine Or.inl ?_
    rw [Trade.stage, hsame, hsubmitted]
    rfl
  · simp only [Stage.Step, Trade.stage, hsubmitted]
    cases hnew : (e.flush loaded now row).status with
    | pending => exact absurd hnew hne
    | _ =>
      cases row.submittedAt with
      | none =>
        cases row.status with
        | pending => exact Or.inr .answer
        | _ => exact Or.inl rfl
      | some at_ =>
        cases row.status with
        | pending => exact Or.inr .outcome
        | _ => exact Or.inl rfl

/-- A claim takes the row it hits along its move. -/
theorem advances_claim {row : Trade} (h : row.unsent = true) (now : DateTime) :
    row.Advances Stage.Step ((claimUpdate now).write row) := by
  have hstage := Trade.stage_of_unsent h
  simp only [Trade.unsent, Bool.and_eq_true, decide_eq_true_eq, Option.isNone_iff_eq_none] at h
  refine ⟨rfl, rfl, fun hsome => ?_, Or.inr ?_⟩
  · rw [h.2] at hsome
    cases hsome
  · rw [hstage, show ((claimUpdate now).write row).stage = .handed by
      simp [Trade.stage, claimUpdate, h.1]]
    exact .claim

section Step

variable {env : Deployment} {w w' : World} {i : Nat} {q : Stance} {m : Move} {tag : Tag} {o : Op}
  {c : Choice} {r : o.Res}

theorem advance_update {T : TradeTable} {id : TradeId} {u : TradeTable.Update}
    (h : ∀ t ∈ T.rows, t.id = id → t.Advances Stage.Step (u.write t)) :
    T.Advance Stage.Step (T.update id u) := by
  intro t ht
  refine ⟨_, TradeTable.mem_update.mpr ⟨t, ht, rfl⟩, ?_⟩
  split
  · rename_i hid
    exact h t ht hid
  · exact ⟨rfl, rfl, fun _ => rfl, Or.inl rfl⟩

theorem advance_exec (hp : q.permits env m o) (hx : exec env i tag w o c = some (r, w')) :
    w.trades.Advance Stage.Step w'.trades := by
  have hsame : w'.trades = w.trades → w.trades.Advance Stage.Step w'.trades := by
    intro ht t hmem
    exact ⟨t, ht ▸ hmem, rfl, rfl, fun _ => rfl, Or.inl rfl⟩
  cases o with
  | insert n =>
    rcases exec_insert hx with rfl | ⟨hfit, rfl⟩
    · exact hsame rfl
    · intro t ht
      exact ⟨t, (TradeTable.mem_insert (h := hfit)).mpr (Or.inl ht), rfl, rfl, fun _ => rfl,
        Or.inl rfl⟩
  | claim id now =>
    rcases exec_claim hx with ⟨rfl, -⟩ | ⟨row, hrow, rfl, hunsent, -, rfl⟩
    · exact hsame rfl
    · refine advance_update fun t ht hid => ?_
      rw [TradeTable.eq_of_id ht hrow hid]
      exact advances_claim hunsent now
  | commit t e =>
    rcases exec_commit hx with ⟨rfl, -⟩ | ⟨rfl, -⟩
    · cases m with
      | ask _ => exact hp.elim
      | plain => exact advance_update fun row _ _ =>
          advances_flush (concludes_ne_pending hp.2) t row w.clock
    · exact hsame rfl
  | send request =>
    obtain ⟨-, rfl⟩ := exec_send hx
    exact hsame rfl
  | log record =>
    obtain rfl := exec_log hx
    exact hsame rfl
  | _ => exact hsame (congrArg Ledger.trades (exec_of_not_writes rfl hx))

end Step

/-! ## UNKNOWN is the outcome of an order call -/

/-- What is in doubt was handed over. -/
def DoubtsHanded (T : TradeTable) : Prop :=
  ∀ t ∈ T.rows, t.status = .unknown → t.submittedAt.isSome

/-- UNKNOWN is assigned only to a copy whose order was called. -/
theorem replied_of_unknown {env : Deployment} {q : Stance} {t : Trade} {e : Edits}
    (h : q.concludes env t e) (hs : e.status = some .unknown) :
    ∃ outcome, q.phase = .replied t outcome := by
  rcases h with ⟨outcome, o, hq, -, -⟩ | ⟨outcome, answer, now, -, -, rfl⟩
  · exact ⟨outcome, hq⟩
  · cases answer with
    | none => cases hs
    | some result => exact absurd (Option.some.inj hs) (binanceStatusMap_mirrored _).2.1

theorem doubtsHanded_act {env : Deployment} {P : Pool (service env)} {g : Stances} {i : Nat}
    {c : Choice} {tag : Tag} {q : Stance} {m : Move} {o : Op} {r : o.Res} {w' : World}
    (hs : Sound env P.shared.toLedger g) (h : DoubtsHanded P.shared.trades)
    (ha : Acts env P g i c tag q m o r w') : DoubtsHanded w'.trades := by
  have hx := ha.exec
  have hp := ha.permits
  cases o with
  | insert n =>
    rcases exec_insert hx with rfl | ⟨hfit, rfl⟩
    · exact h
    · intro t ht hunknown
      rcases (TradeTable.mem_insert (h := hfit)).mp ht with ht | rfl
      · exact h t ht hunknown
      · cases m with
        | ask _ => exact hp.elim
        | plain =>
          obtain ⟨-, payload, owner, -, -, rfl⟩ := hp
          cases hunknown
  | claim id now =>
    rcases exec_claim hx with ⟨rfl, -⟩ | ⟨row, -, -, -, -, rfl⟩
    · exact h
    · intro t ht hunknown
      obtain ⟨s, hs', rfl⟩ := TradeTable.mem_update.mp ht
      split at hunknown
      · rename_i hid
        rw [if_pos hid]
        rfl
      · rename_i hid
        rw [if_neg hid]
        exact h s hs' hunknown
  | commit t e =>
    rcases exec_commit hx with ⟨rfl, -⟩ | ⟨rfl, -⟩
    · cases m with
      | ask _ => exact hp.elim
      | plain =>
        intro t' ht' hunknown
        obtain ⟨s, hmem, rfl⟩ := TradeTable.mem_update.mp ht'
        by_cases hid : s.id = t.id
        · rw [if_pos hid] at hunknown ⊢
          change s.submittedAt.isSome
          by_cases hold : s.status = .unknown
          · exact h s hmem hold
          · have hassigned : e.status = some .unknown := by
              change (e.flush t P.shared.clock s).status = .unknown at hunknown
              rcases status_flushed e t s P.shared.clock with hkept | hnew
              · exact absurd (hkept.symm.trans hunknown) hold
              · rw [hnew, hunknown]
            obtain ⟨outcome, hq⟩ := replied_of_unknown hp.2 hassigned
            have hsubmitted : t.submittedAt.isSome :=
              hs.submitted i q t ha.stance (by rw [hq]; rfl)
            exact (hs.terms_of_copy ha.stance hp.1 hmem hid).2 hsubmitted
        · rw [if_neg hid] at hunknown ⊢
          exact h s hmem hunknown
    · exact h
  | send request =>
    obtain ⟨-, rfl⟩ := exec_send hx
    exact h
  | log record =>
    obtain rfl := exec_log hx
    exact h
  | _ =>
    rw [exec_of_not_writes rfl hx]
    exact h

/-! ## Runs -/

section Runs

variable {env : Deployment} {D : Pool (service env) → Label (service env) → Prop}
  {users : List User} {clock : DateTime} {ls : List (Label (service env))}
  {P Q : Pool (service env)}

theorem doubtsHanded_of_run
    (h : Run (service env).system D (Pool.idle (.initial users clock)) ls P) :
    DoubtsHanded P.shared.trades := by
  obtain ⟨-, -, -, hD⟩ := invariant_of_run (J := fun w _ => DoubtsHanded w.trades) h
    (Sound.found _) (fun _ ht => by cases ht)
    (fun P g i c tag q m o r w' _ _ hs hJ ha => doubtsHanded_act hs hJ ha)
    (fun P g e x _ _ _ hJ hx => by
      rw [(react_ledger hx).1]
      exact hJ)
  exact hD

/-- A step takes every trade along one move at most, and a trade it adds is waiting. -/
theorem advance_step (h : Run (service env).system D (Pool.idle (.initial users clock)) ls P)
    {l : Label (service env)} (hstep : (service env).system.step P l = some Q) :
    P.shared.trades.Advance Stage.Step Q.shared.trades ∧ ∀ t' ∈ Q.shared.trades.rows,
      (∃ t ∈ P.shared.trades.rows, t.id = t'.id) ∨ t'.stage = .waiting := by
  obtain ⟨g, hg, -⟩ := sound_of_run h (Sound.found _)
  cases l with
  | act i c =>
    obtain ⟨tag, o, next, r, w, hi, hx, rfl⟩ := Host.step_act hstep
    obtain ⟨q, m, -, hperm, -⟩ := hg.act hi
    have hp : q.permits env m o := hperm
    refine ⟨advance_exec hp hx, fun t' ht' => ?_⟩
    rcases rows_exec hx t' ht' with ⟨t, ht, hterms⟩ | ⟨n, rfl, rfl, -⟩
    · exact Or.inl ⟨t, ht, (congrArg Trade.Terms.id hterms).symm⟩
    · cases m with
      | ask _ => exact hp.elim
      | plain =>
        obtain ⟨-, payload, owner, -, -, rfl⟩ := hp
        exact Or.inr rfl
  | event e =>
    obtain ⟨x, hx, rfl⟩ := Host.step_event hstep
    have ht : (P.afterEvent x).shared.trades = P.shared.trades := (react_ledger hx).1
    rw [ht]
    exact ⟨fun t hmem => ⟨t, hmem, rfl, rfl, fun _ => rfl, Or.inl rfl⟩,
      fun t hmem => Or.inl ⟨t, hmem, rfl⟩⟩

/-- Between two states of a run every trade follows its life cycle. -/
theorem advance_run (h : Run (service env).system D (Pool.idle (.initial users clock)) ls P)
    {ms : List (Label (service env))} (hrun : Run (service env).system D P ms Q) :
    P.shared.trades.Advance Stage.Reaches Q.shared.trades := by
  induction hrun with
  | nil => exact .refl _
  | snoc prior hguard hstep ih =>
    refine ih.trans fun t ht => ?_
    obtain ⟨t', ht', ha⟩ := (advance_step (h.trans prior) hstep).1 t ht
    exact ⟨t', ht', { ha with stage := Stage.Step.reaches ha.stage }⟩

/-- **Trades move forward.** In every state that a run reaches:

* whatever happens from there on, each trade is found again with the same terms and the same
  time of creation, at a stage that its life cycle reaches from the old one; the moment of its
  claim, once there, stays, and so does a final stage;
* each single step takes a trade along one move of the life cycle at most, and a trade that is
  added is waiting;
* no order call was announced and no POST was made for a trade that was not handed over, so
  that a trade which is settled aside is never sent;
* a trade that is UNKNOWN was handed over. -/
theorem trades_move_forward (env : Deployment) {users : List User} {clock : DateTime}
    {ls : List (Label (service env))} {P : Pool (service env)}
    (h : Run (service env).system unguarded (Pool.idle (.initial users clock)) ls P) :
    (∀ ms Q, Run (service env).system unguarded P ms Q →
      P.shared.trades.Advance Stage.Reaches Q.shared.trades ∧
      ∀ t ∈ P.shared.trades.rows, t.stage.final = true → ∀ t' ∈ Q.shared.trades.rows,
        t'.id = t.id → t'.stage = t.stage) ∧
    (∀ l Q, (service env).system.step P l = some Q →
      P.shared.trades.Advance Stage.Step Q.shared.trades ∧ ∀ t' ∈ Q.shared.trades.rows,
        (∃ t ∈ P.shared.trades.rows, t.id = t'.id) ∨ t'.stage = .waiting) ∧
    (∀ t ∈ P.shared.trades.rows, t.stage.unhanded = true →
      P.shared.toLedger.announced t.clientOrderId = 0 ∧
        P.shared.toLedger.posted t.clientOrderId = 0) ∧
    ∀ t ∈ P.shared.trades.rows, t.status = .unknown → t.stage = .settled := by
  obtain ⟨g, -, hs⟩ := sound_of_run h (Sound.found _)
  refine ⟨fun ms Q hrun => ⟨advance_run h hrun, ?_⟩, fun l Q hstep => advance_step h hstep, ?_, ?_⟩
  · intro t ht hfinal t' ht' hid
    obtain ⟨t'', ht'', ha⟩ := advance_run h hrun t ht
    have hid'' : t''.id = t.id := congrArg Trade.Terms.id ha.terms
    rw [TradeTable.eq_of_id ht' ht'' (hid.trans hid''.symm)]
    exact Stage.Reaches.eq_of_final ha.stage hfinal
  · intro t ht hunhanded
    have hnone : t.submittedAt = none := by
      rwa [Trade.unhanded_stage, Option.isNone_iff_eq_none] at hunhanded
    -- a row that shares the client order id is the same row
    have hfree : ¬ ∃ r ∈ P.shared.trades.rows, r.clientOrderId = t.clientOrderId ∧
        r.submittedAt.isSome := by
      rintro ⟨r, hr, hcid, hsome⟩
      rw [TradeTable.eq_of_clientOrderId hr ht hcid, hnone] at hsome
      cases hsome
    constructor
    · by_contra hne
      exact hfree (hs.announcedClaimed _ hne)
    · by_contra hne
      exact hfree (hs.postedClaimed hne)
  · intro t ht hunknown
    have hsome := doubtsHanded_of_run h t ht hunknown
    obtain ⟨at_, hat⟩ := Option.isSome_iff_exists.mp hsome
    rw [Trade.stage, hunknown, hat]

end Runs

/-- The trade of the sample run has settled. -/
theorem trades_move_forward_placed :
    ∃ P, Run (service Sample.inline).system unguarded (Sample.start _) Sample.placed P ∧
      P.shared.trades.rows.map Trade.stage = [.settled] ∧
      ∀ ms Q, Run (service Sample.inline).system unguarded P ms Q →
        P.shared.trades.Advance Stage.Reaches Q.shared.trades := by
  have h := System.run_get Sample.placed_follows
  refine ⟨_, h, ?_, fun ms Q hrun => ((trades_move_forward Sample.inline h).1 ms Q hrun).1⟩
  decide +kernel

end AutoTrader
