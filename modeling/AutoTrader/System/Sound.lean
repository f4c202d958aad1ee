import AutoTrader.System.Conduct
import AutoTrader.System.Ledger

/-!
# The invariant behind one order per trade

`Sound` relates the ledger to the stances of the threads. A trade's claim is in at most
one hand, its row says so, and from there it can only move forward: announced once,
posted once. Every copy a session works on agrees with its row on the columns an order
is made from, which nothing rewrites.

The invariant holds of any set of rows found at start. This module has what follows from
it and the frame rules; that every step keeps it is in `SoundSteps`.
-/

namespace AutoTrader

open Python Coroutine Transition

namespace Phase

/-- The trade a thread has claimed and not yet announced. -/
def unannounced? : Phase → Option TradeId
  | won id => some id
  | holding t => some t.id
  | _ => none

/-- The trade a thread has claimed and not yet posted. -/
def unposted? : Phase → Option TradeId
  | won id => some id
  | holding t | calling t => some t.id
  | _ => none

/-- The copy a thread works on. -/
def copy? : Phase → Option Trade
  | holding t | calling t | posted t _ | replied t _ | asked t _ | answered t _ => some t
  | _ => none

/-- The copy whose order a thread places, from the reload to the reply. -/
def order? : Phase → Option Trade
  | holding t | calling t | posted t _ | replied t _ => some t
  | _ => none

theorem unposted_of_unannounced {phase : Phase} {id : TradeId}
    (h : phase.unannounced? = some id) : phase.unposted? = some id := by
  cases phase <;> first | exact h | cases h

end Phase

/-- Thread `i` stands at `q`. -/
abbrev Stances := Nat → Option Stance

structure Sound (env : Deployment) (l : Ledger) (g : Stances) : Prop where
  backed : ∀ i q, g i = some q → ∀ t ∈ q.copies, l.Backs t
  copy : ∀ i q t, g i = some q → q.phase.copy? = some t → t ∈ q.copies
  submitted : ∀ i q t, g i = some q → q.phase.order? = some t → t.submittedAt.isSome
  claimed : ∀ i q id, g i = some q → q.phase.unposted? = some id →
    ∃ r ∈ l.trades.rows, r.id = id ∧ r.submittedAt.isSome
  sole : ∀ i j q q' id, g i = some q → g j = some q' → q.phase.unposted? = some id →
    q'.phase.unposted? = some id → i = j
  unannounced : ∀ i q id, g i = some q → q.phase.unannounced? = some id →
    ∀ r ∈ l.trades.rows, r.id = id → l.announced r.clientOrderId = 0
  unposted : ∀ i q id, g i = some q → q.phase.unposted? = some id →
    ∀ r ∈ l.trades.rows, r.id = id → l.posted r.clientOrderId = 0
  announcedOnce : ∀ clientOrderId, l.announced clientOrderId ≤ 1
  announcedClaimed : ∀ clientOrderId, l.announced clientOrderId ≠ 0 →
    ∃ r ∈ l.trades.rows, r.clientOrderId = clientOrderId ∧ r.submittedAt.isSome
  postedOnce : ∀ clientOrderId, l.posted clientOrderId ≤ 1
  placed : ∀ x ∈ l.requests, x.method = .post → ∃ r ∈ l.trades.rows, ∃ text,
    r.submittedAt.isSome ∧ formatDecimal r.quantity = some text ∧ x = orderFor env r text
  queried : ∀ x ∈ l.requests, x.method = .get →
    ∃ r ∈ l.trades.rows, x = queryRequest r.symbol r.clientOrderId

namespace Sound

variable {env : Deployment} {l l' : Ledger} {g g' : Stances} {i : Nat} {q q' : Stance}

/-- The invariant holds of rows alone. -/
theorem found (trades : TradeTable) : Sound env ⟨trades, [], [], [], []⟩ fun _ => none where
  backed _ _ h := by cases h
  copy _ _ _ h := by cases h
  submitted _ _ _ h := by cases h
  claimed _ _ _ h := by cases h
  sole _ _ _ _ _ h := by cases h
  unannounced _ _ _ h := by cases h
  unposted _ _ _ h := by cases h
  announcedOnce _ := Nat.zero_le 1
  announcedClaimed _ h := absurd rfl h
  postedOnce _ := Nat.zero_le 1
  placed _ h := by cases h
  queried _ h := by cases h

/-- The row a copy is backed by, when it is the row of its id. -/
theorem terms_of_copy (h : Sound env l g) (hi : g i = some q) {t r : Trade} (ht : t ∈ q.copies)
    (hr : r ∈ l.trades.rows) (hid : r.id = t.id) :
    r.terms = t.terms ∧ (t.submittedAt.isSome → r.submittedAt.isSome) := by
  obtain ⟨s, hs, hterms, hsub⟩ := h.backed i q hi t ht
  have hsid : s.id = t.id := congrArg Trade.Terms.id hterms
  have : s = r := TradeTable.eq_of_id hs hr (hsid.trans hid.symm)
  subst this
  exact ⟨hterms, hsub⟩

/-- A step that changes only the fates of calls, the orders held or the history. -/
theorem congr (h : Sound env l g) (ht : l'.trades = l.trades) (hr : l'.requests = l.requests)
    (hlogs : l'.logs = l.logs) : Sound env l' g := by
  have hb : ∀ t, l.Backs t → l'.Backs t := fun t hb => by
    unfold Ledger.Backs at hb ⊢
    rwa [ht]
  have ha : ∀ c, l'.announced c = l.announced c := fun c => by simp only [Ledger.announced, hlogs]
  have hp : ∀ c, l'.posted c = l.posted c := fun c => by simp only [Ledger.posted, hr]
  constructor
  · exact fun i q hi t htc => hb t (h.backed i q hi t htc)
  · exact h.copy
  · exact h.submitted
  · rw [ht]
    exact h.claimed
  · exact h.sole
  · rw [ht]
    intro i q id hi hq r hrow hid
    rw [ha]
    exact h.unannounced i q id hi hq r hrow hid
  · rw [ht]
    intro i q id hi hq r hrow hid
    rw [hp]
    exact h.unposted i q id hi hq r hrow hid
  · intro c
    rw [ha]
    exact h.announcedOnce c
  · rw [ht]
    intro c hc
    rw [ha] at hc
    exact h.announcedClaimed c hc
  · intro c
    rw [hp]
    exact h.postedOnce c
  · rw [ht, hr]
    exact h.placed
  · rw [ht, hr]
    exact h.queried

/-- A step that changes rows or adds one, and touches no call and no log line. -/
theorem grow (h : Sound env l g) (hg : l.Grows l') (hr : l'.requests = l.requests)
    (hlogs : l'.logs = l.logs)
    (hold : ∀ r ∈ l'.trades.rows, (∃ s ∈ l.trades.rows, s.terms = r.terms) ∨
      ∀ s ∈ l.trades.rows, s.id ≠ r.id) : Sound env l' g := by
  have ha : ∀ c, l'.announced c = l.announced c := fun c => by simp only [Ledger.announced, hlogs]
  have hp : ∀ c, l'.posted c = l.posted c := fun c => by simp only [Ledger.posted, hr]
  -- a row of the new table with the id of a claimed trade is an old row
  have holdRow : ∀ i q id, g i = some q → q.phase.unposted? = some id →
      ∀ r ∈ l'.trades.rows, r.id = id →
        ∃ s ∈ l.trades.rows, s.id = id ∧ s.clientOrderId = r.clientOrderId := by
    intro i q id hi hq r hrow hid
    obtain ⟨s, hs, hsid, -⟩ := h.claimed i q id hi hq
    rcases hold r hrow with ⟨s', hs', hterms⟩ | hnew
    · exact ⟨s', hs', (congrArg Trade.Terms.id hterms).trans hid,
        congrArg Trade.Terms.clientOrderId hterms⟩
    · exact absurd (hsid.trans hid.symm) (hnew s hs)
  constructor
  · exact fun i q hi t ht => (h.backed i q hi t ht).mono hg
  · exact h.copy
  · exact h.submitted
  · intro i q id hi hq
    obtain ⟨r, hrow, hid, hsub⟩ := h.claimed i q id hi hq
    obtain ⟨r', hrow', hterms, hsub'⟩ := hg r hrow
    exact ⟨r', hrow', (congrArg Trade.Terms.id hterms).trans hid, hsub' hsub⟩
  · exact h.sole
  · intro i q id hi hq r hrow hid
    obtain ⟨s, hs, hsid, hc⟩ := holdRow i q id hi (Phase.unposted_of_unannounced hq) r hrow hid
    rw [ha, ← hc]
    exact h.unannounced i q id hi hq s hs hsid
  · intro i q id hi hq r hrow hid
    obtain ⟨s, hs, hsid, hc⟩ := holdRow i q id hi hq r hrow hid
    rw [hp, ← hc]
    exact h.unposted i q id hi hq s hs hsid
  · intro c
    rw [ha]
    exact h.announcedOnce c
  · intro c hc
    rw [ha] at hc
    obtain ⟨r, hrow, hcid, hsub⟩ := h.announcedClaimed c hc
    obtain ⟨r', hrow', hterms, hsub'⟩ := hg r hrow
    exact ⟨r', hrow', (congrArg Trade.Terms.clientOrderId hterms).trans hcid, hsub' hsub⟩
  · intro c
    rw [hp]
    exact h.postedOnce c
  · intro x hx hpost
    rw [hr] at hx
    obtain ⟨r, hrow, text, hsub, htext, hreq⟩ := h.placed x hx hpost
    obtain ⟨r', hrow', hterms, hsub'⟩ := hg r hrow
    refine ⟨r', hrow', text, hsub' hsub, ?_, ?_⟩
    · rw [show r'.quantity = r.quantity from congrArg Trade.Terms.quantity hterms]
      exact htext
    · rw [hreq]
      simp only [orderFor, show r'.symbol = r.symbol from congrArg Trade.Terms.symbol hterms,
        show r'.side = r.side from congrArg Trade.Terms.side hterms,
        show r'.clientOrderId = r.clientOrderId from congrArg Trade.Terms.clientOrderId hterms]
  · intro x hx hget
    rw [hr] at hx
    obtain ⟨r, hrow, hreq⟩ := h.queried x hx hget
    obtain ⟨r', hrow', hterms, -⟩ := hg r hrow
    refine ⟨r', hrow', ?_⟩
    rw [show r'.symbol = r.symbol from congrArg Trade.Terms.symbol hterms,
      show r'.clientOrderId = r.clientOrderId from congrArg Trade.Terms.clientOrderId hterms]
    exact hreq

/-- Threads disappear, or start afresh. -/
theorem ghosts (h : Sound env l g)
    (hg : ∀ i q, g' i = some q → g i = some q ∨ (q.copies = [] ∧ q.phase = .idle)) :
    Sound env l g' := by
  have hphase : ∀ i q, g' i = some q → q.phase = .idle ∨ g i = some q := fun i q hi =>
    (hg i q hi).symm.imp_left And.right
  constructor
  · intro i q hi t ht
    rcases hg i q hi with hi | ⟨hc, -⟩
    · exact h.backed i q hi t ht
    · rw [hc] at ht
      cases ht
  · intro i q t hi hq
    rcases hphase i q hi with hidle | hi
    · rw [hidle] at hq
      cases hq
    · exact h.copy i q t hi hq
  · intro i q t hi hq
    rcases hphase i q hi with hidle | hi
    · rw [hidle] at hq
      cases hq
    · exact h.submitted i q t hi hq
  · intro i q id hi hq
    rcases hphase i q hi with hidle | hi
    · rw [hidle] at hq
      cases hq
    · exact h.claimed i q id hi hq
  · intro i j q q' id hi hj hq hq'
    rcases hphase i q hi with hidle | hi
    · rw [hidle] at hq
      cases hq
    · rcases hphase j q' hj with hidle | hj
      · rw [hidle] at hq'
        cases hq'
      · exact h.sole i j q q' id hi hj hq hq'
  · intro i q id hi hq
    rcases hphase i q hi with hidle | hi
    · rw [hidle] at hq
      cases hq
    · exact h.unannounced i q id hi hq
  · intro i q id hi hq
    rcases hphase i q hi with hidle | hi
    · rw [hidle] at hq
      cases hq
    · exact h.unposted i q id hi hq
  · exact h.announcedOnce
  · exact h.announcedClaimed
  · exact h.postedOnce
  · exact h.placed
  · exact h.queried

variable (q') in
/-- What one thread may do to its stance while the ledger stays. -/
theorem restance (h : Sound env l g) (hi : g i = some q)
    (hback : ∀ t ∈ q'.copies, l.Backs t)
    (hcopy : ∀ t, q'.phase.copy? = some t → t ∈ q'.copies)
    (hsub : ∀ t, q'.phase.order? = some t → t.submittedAt.isSome)
    (hun : ∀ id, q'.phase.unannounced? = some id → q.phase.unannounced? = some id)
    (hup : ∀ id, q'.phase.unposted? = some id → q.phase.unposted? = some id) :
    Sound env l (Function.update g i (some q')) := by
  have hcase : ∀ j p, Function.update g i (some q') j = some p →
      (j = i ∧ p = q') ∨ g j = some p := fun j p hj =>
    (update_eq_some hj).imp_right And.right
  -- whoever holds a claim now held it before
  have hheld : ∀ j p id, Function.update g i (some q') j = some p →
      p.phase.unposted? = some id → ∃ p', g j = some p' ∧ p'.phase.unposted? = some id := by
    intro j p id hj hp
    rcases hcase j p hj with ⟨rfl, rfl⟩ | hj
    · exact ⟨q, hi, hup id hp⟩
    · exact ⟨p, hj, hp⟩
  constructor
  · intro j p hj t ht
    rcases hcase j p hj with ⟨rfl, rfl⟩ | hj
    · exact hback t ht
    · exact h.backed j p hj t ht
  · intro j p t hj hp
    rcases hcase j p hj with ⟨rfl, rfl⟩ | hj
    · exact hcopy t hp
    · exact h.copy j p t hj hp
  · intro j p t hj hp
    rcases hcase j p hj with ⟨rfl, rfl⟩ | hj
    · exact hsub t hp
    · exact h.submitted j p t hj hp
  · intro j p id hj hp
    obtain ⟨p', hj', hp'⟩ := hheld j p id hj hp
    exact h.claimed j p' id hj' hp'
  · intro j k p p' id hj hk hp hp'
    obtain ⟨s, hs, hsp⟩ := hheld j p id hj hp
    obtain ⟨s', hs', hsp'⟩ := hheld k p' id hk hp'
    exact h.sole j k s s' id hs hs' hsp hsp'
  · intro j p id hj hp
    rcases hcase j p hj with ⟨rfl, rfl⟩ | hj
    · exact h.unannounced j q id hi (hun id hp)
    · exact h.unannounced j p id hj hp
  · intro j p id hj hp
    obtain ⟨p', hj', hp'⟩ := hheld j p id hj hp
    exact h.unposted j p' id hj' hp'
  · exact h.announcedOnce
  · exact h.announcedClaimed
  · exact h.postedOnce
  · exact h.placed
  · exact h.queried

end Sound

end AutoTrader
