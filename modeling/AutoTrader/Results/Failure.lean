import AutoTrader.Results.Asking
import AutoTrader.System.Turns

/-!
# FAILED is a known fact

A FAILED row should mean that the exchange holds no order for it and never will. A worker
makes a row FAILED only when no connection was made, and then this is so. A
reconciliation makes it FAILED when the exchange has answered that it knows of no order.
That is the last word only if the order is not still on its way.

In every run in which no query overtakes its order, neither on the way to the exchange
nor before the order is sent, a FAILED row is final: no order, no POST in flight, and no
POST in any future of the run.
-/

namespace AutoTrader

open Python Coroutine Transition

variable {env : Deployment}

/-! ## Where FAILED comes from -/

/-- No connection was established. -/
def Transport.unreached : Transport → Bool
  | .connectError | .connectTimeout => true
  | _ => false

theorem isLost_of_allows {f : Fate} {t : Transport} (h : f.allows t = true)
    (ht : t.unreached = true) : f.isLost = true := by
  cases t with
  | connectError | connectTimeout => cases f <;> first | rfl | cases h
  | timeout | httpError | response => cases ht

theorem handleResponse_available {r : Response} {e : BinanceError}
    (h : handleResponse r = .error (.binance e)) : e.kind ≠ .unavailable := by
  rcases lt_or_ge r.statusCode 400 with hlow | hge
  · rw [handleResponse_success hlow] at h
    cases hb : r.body with
    | json v =>
      rw [hb] at h
      cases v <;> cases h
    | notJson =>
      rw [hb] at h
      cases h
      simp
    | tooDeep =>
      rw [hb] at h
      cases h
  · rcases lt_or_ge r.statusCode 500 with hlt | hserver
    · rcases handleResponse_client hge hlt with ⟨-, hraise⟩ | ⟨-, e', herror, hk⟩
      · rw [hraise] at h
        cases h
      · rw [herror] at h
        cases h
        intro hunavailable
        rw [hunavailable] at hk
        cases hk
    · obtain ⟨e', herror, hk⟩ := handleResponse_server hserver
      rw [herror] at h
      cases h
      rw [hk]
      simp

/-- A submission ends FAILED only where no connection was made. -/
theorem unreached_of_failed {t : Trade} {outcome : Transport} {o : Outcome}
    (h : submissionOutcome env t outcome = .ok o) (hs : (o.edits env).status = some .failed) :
    outcome.unreached = true := by
  cases hreply : orderReply env t.symbol t.side.text t.clientOrderId outcome with
  | ok result =>
    rw [submissionOutcome, hreply] at h
    cases h
    exact absurd (Option.some.inj hs) (binanceStatusMap_mirrored _).2.2
  | error e =>
    rw [submissionOutcome, hreply] at h
    cases e with
    | binance e =>
      cases hk : e.kind with
      | unavailable =>
        cases outcome with
        | connectError | connectTimeout => rfl
        | timeout | httpError =>
          cases hreply
          cases hk
        | response r =>
          refine absurd hk (handleResponse_available (r := r) ?_)
          simp only [orderReply, handleTransport] at hreply
          cases hresponse : handleResponse r with
          | ok fields =>
            rw [hresponse] at hreply
            simp only at hreply
            split at hreply
            · cases hreply
            · split at hreply <;> cases hreply
          | error e' =>
            rw [hresponse] at hreply
            cases hreply
            rfl
      | rateLimit | rejected | auth | uncertain =>
        simp only [orderOutcome, hk] at h
        cases h
        cases hs
    | _ => cases h

/-- Only the exchange says that there is no order. -/
theorem not_saysNoOrder_of_allows {f : Fate} {t : Transport} (h : f.allows t = true) :
    t.saysNoOrder = false := by
  cases t with
  | connectError | connectTimeout | timeout | httpError => rfl
  | response r =>
    have hserver : 500 ≤ r.statusCode := by cases f <;> simpa [Fate.allows] using h
    simp [Transport.saysNoOrder, Transport.response?, Response.saysNoOrder,
      show ¬ r.statusCode < 500 by omega]

theorem Call.denies_of_saysNoOrder {request : HttpRequest} {r : Response} {c : String}
    (hquery : request.queried? = some c) (h : (Transport.response r).saysNoOrder = true) :
    (⟨request, .answered r⟩ : Call).denies = true := by
  simp only [Transport.saysNoOrder, Transport.response?, Option.any_some, Response.saysNoOrder,
    Bool.and_eq_true] at h
  simp [Call.denies, hquery, h.2]

/-- A query that is answered with the absence of an order ended so. -/
theorem saysNoOrder_of_queryReply {o : Transport} (h : queryReply env o = .ok none) :
    o.saysNoOrder = true := by
  rcases queryReply_cases env o with ⟨-, -, -, result, hreply⟩ | ⟨-, hnone, -, -⟩ |
    ⟨-, -, -, e, hreply, -⟩ | ⟨-, -, -, b, hreply⟩
  · rw [h] at hreply
    cases hreply
  · exact hnone
  · rw [h] at hreply
    cases hreply
  · rw [h] at hreply
    cases hreply

/-- A reconciliation makes a trade FAILED only on the answer that there is no order. -/
theorem absent_of_failed {answer : Option BinanceOrderResult} {now : DateTime}
    (h : (answerEdits answer now).status = some .failed) : answer = none := by
  cases answer with
  | none => rfl
  | some result => exact absurd (Option.some.inj h) (binanceStatusMap_mirrored _).2.2

/-- No handler assigns PENDING. -/
theorem concludes_ne_pending {q : Stance} {t : Trade} {e : Edits} (h : q.concludes env t e) :
    e.status ≠ some .pending := by
  rcases h with ⟨outcome, o, -, ho, rfl⟩ | ⟨outcome, answer, now, -, -, rfl⟩
  · cases o with
    | settled result =>
      exact fun h => (binanceStatusMap_mirrored result.status).1 (Option.some.inj h)
    | uncertain exc => exact fun h => by cases h
    | refused status code message =>
      intro hpending
      have hstatus : status = .pending := Option.some.inj hpending
      rcases status_of_refused ho with h | h
      · rw [h] at hstatus
        cases hstatus
      · rw [h] at hstatus
        cases hstatus
  · cases answer with
    | none => exact fun h => by cases h
    | some result =>
      exact fun h => (binanceStatusMap_mirrored result.status).1 (Option.some.inj h)

/-! ## Where calls and orders come from -/

/-- What the stances of the threads say about calls, orders and claims. -/
structure Traced (l : Ledger) (g : Stances) : Prop where
  held : ∀ o ∈ l.book, ∃ (k : Nat) (x : Call), l.calls[k]? = some x ∧
    x.request.placed? = some o.clientOrderId ∧ x.fate.isInFlight = false ∧ x.fate.isLost = false
  won : ∀ i q id, g i = some q → q.phase.unposted? = some id → .claimed i id ∈ l.history
  ticket : ∀ i q t k, g i = some q → q.phase = .posted t k →
    ∃ x : Call, l.calls[k]? = some x ∧ x.request.placed? = some t.clientOrderId
  lost : ∀ i q t outcome, g i = some q → q.phase = .replied t outcome →
    outcome.unreached = true → ∃ (k : Nat) (x : Call), l.calls[k]? = some x ∧
      x.request.placed? = some t.clientOrderId ∧ x.fate.isLost = true
  asked : ∀ i q t k, g i = some q → q.phase = .asked t k →
    ∃ x : Call, l.calls[k]? = some x ∧ x.request.queried? = some t.clientOrderId
  told : ∀ i q t outcome, g i = some q → q.phase = .answered t outcome →
    outcome.saysNoOrder = true → ∃ (k : Nat) (x : Call), l.calls[k]? = some x ∧
      x.request.queried? = some t.clientOrderId ∧ x.denies = true

namespace Traced

variable {w w' : World} {g : Stances} {i : Nat} {q q' : Stance} {o : Op} {c : Choice}

theorem initial (users : List User) (clock : DateTime) :
    Traced (World.initial users clock).toLedger fun _ => none where
  held _ h := by cases h
  won _ _ _ h := by cases h
  ticket _ _ _ _ h := by cases h
  lost _ _ _ _ h := by cases h
  asked _ _ _ _ h := by cases h
  told _ _ _ _ h := by cases h

theorem act (h : Traced w.toLedger g) (hi : g i = some q)
    (hturn : Turn env i o c w w' q.phase q'.phase) (hbook : w'.book = w.book)
    (hhistory : w.history ⊆ w'.history)
    (hheard : ∀ k t, o = .receive k → c = .reply t →
      ∀ x ∈ w.calls[k]?, x.fate.allows t = true) :
    Traced w'.toLedger (Function.update g i (some q')) := by
  have hgrow := hturn.callsGrow
  have hcase : ∀ j p, Function.update g i (some q') j = some p →
      (j = i ∧ p = q') ∨ (j ≠ i ∧ g j = some p) := fun _ _ => update_eq_some
  generalize hphase : q.phase = phase at hturn
  generalize hphase' : q'.phase = phase' at hturn
  constructor
  · intro order horder
    rw [hbook] at horder
    obtain ⟨k, x, hk, hplaced, hflight, hlost⟩ := h.held order horder
    obtain ⟨y, hy, hreq, hfate⟩ := hgrow k x hk
    refine ⟨k, y, hy, ?_, ?_, ?_⟩
    · rw [hreq, hplaced]
    · rw [hfate hflight, hflight]
    · rw [hfate hflight, hlost]
  · intro j p id hj hp
    rcases hcase j p hj with ⟨rfl, rfl⟩ | ⟨-, hj⟩
    · rw [hphase'] at hp
      have hold : q.phase.unposted? = some id → .claimed j id ∈ w'.history := fun hq =>
        hhistory (h.won j q id hi hq)
      rw [hphase] at hold
      cases hturn with
      | stays => exact hold hp
      | leaves hfree =>
        rcases hfree with rfl | rfl <;> cases hp
      | wins _ _ _ _ hledger =>
        cases hp
        rw [hledger]
        exact List.mem_append_right _ List.mem_cons_self
      | reloads | announces => exact hold hp
      | posts | hears | asks | learns => cases hp
    · exact hhistory (h.won j p id hj hp)
  · intro j p t k hj hp
    rcases hcase j p hj with ⟨rfl, rfl⟩ | ⟨-, hj⟩
    · rw [hphase'] at hp
      cases hturn with
      | stays =>
        obtain ⟨x, hx, hplaced⟩ := h.ticket j q t k hi (hphase.trans hp)
        obtain ⟨y, hy, hreq, -⟩ := hgrow k x hx
        exact ⟨y, hy, by rw [hreq, hplaced]⟩
      | leaves hfree =>
        rcases hfree with rfl | rfl <;> cases hp
      | posts hledger =>
        cases hp
        rw [hledger]
        refine ⟨_, List.getElem?_concat_length, ?_⟩
        exact orderRequest_placed? ..
      | wins | reloads | announces | hears | asks | learns => cases hp
    · obtain ⟨x, hx, hplaced⟩ := h.ticket j p t k hj hp
      obtain ⟨y, hy, hreq, -⟩ := hgrow k x hx
      exact ⟨y, hy, by rw [hreq, hplaced]⟩
  · intro j p t outcome hj hp hun
    have hkept : ∀ {k : Nat} {x : Call}, w.calls[k]? = some x →
        x.request.placed? = some t.clientOrderId → x.fate.isLost = true →
        ∃ (k : Nat) (y : Call), w'.calls[k]? = some y ∧
          y.request.placed? = some t.clientOrderId ∧ y.fate.isLost = true := by
      intro k x hx hplaced hlost
      obtain ⟨y, hy, hreq, hfate⟩ := hgrow k x hx
      refine ⟨k, y, hy, by rw [hreq, hplaced], ?_⟩
      rw [hfate (Fate.isInFlight_of_isLost hlost), hlost]
    rcases hcase j p hj with ⟨rfl, rfl⟩ | ⟨-, hj⟩
    · rw [hphase'] at hp
      cases hturn with
      | stays =>
        obtain ⟨k, x, hx, hplaced, hlost⟩ := h.lost j q t outcome hi (hphase.trans hp) hun
        exact hkept hx hplaced hlost
      | leaves hfree =>
        rcases hfree with rfl | rfl <;> cases hp
      | hears hop hworld hchoice =>
        cases hp
        obtain ⟨x, hx, hplaced⟩ := h.ticket j q t _ hi hphase
        rcases hchoice with hc | ⟨request, r, -, rfl⟩
        · exact hkept hx hplaced (isLost_of_allows (hheard _ _ hop hc x hx) hun)
        · cases hun
      | wins | reloads | announces | posts | asks | learns => cases hp
    · obtain ⟨k, x, hx, hplaced, hlost⟩ := h.lost j p t outcome hj hp hun
      exact hkept hx hplaced hlost
  · intro j p t k hj hp
    have hkept : ∀ {x : Call}, w.calls[k]? = some x → x.request.queried? = some t.clientOrderId →
        ∃ y : Call, w'.calls[k]? = some y ∧ y.request.queried? = some t.clientOrderId := by
      intro x hx hquery
      obtain ⟨y, hy, hreq, -⟩ := hgrow k x hx
      exact ⟨y, hy, by rw [hreq, hquery]⟩
    rcases hcase j p hj with ⟨rfl, rfl⟩ | ⟨-, hj⟩
    · rw [hphase'] at hp
      cases hturn with
      | stays =>
        obtain ⟨x, hx, hquery⟩ := h.asked j q t k hi (hphase.trans hp)
        exact hkept hx hquery
      | leaves hfree =>
        rcases hfree with rfl | rfl <;> cases hp
      | asks _ _ hledger =>
        cases hp
        rw [hledger]
        exact ⟨_, List.getElem?_concat_length, queryRequest_queried? ..⟩
      | wins | reloads | announces | posts | hears | learns => cases hp
    · obtain ⟨x, hx, hquery⟩ := h.asked j p t k hj hp
      exact hkept hx hquery
  · intro j p t outcome hj hp hsays
    have hkept : ∀ {k : Nat} {x : Call}, w.calls[k]? = some x →
        x.request.queried? = some t.clientOrderId → x.denies = true →
        ∃ (k : Nat) (y : Call), w'.calls[k]? = some y ∧
          y.request.queried? = some t.clientOrderId ∧ y.denies = true := by
      intro k x hx hquery hdenies
      exact ⟨k, x, hgrow.denies hx hdenies, hquery, hdenies⟩
    rcases hcase j p hj with ⟨rfl, rfl⟩ | ⟨-, hj⟩
    · rw [hphase'] at hp
      cases hturn with
      | stays =>
        obtain ⟨k, x, hx, hquery, hdenies⟩ := h.told j q t outcome hi (hphase.trans hp) hsays
        exact hkept hx hquery hdenies
      | leaves hfree =>
        rcases hfree with rfl | rfl <;> cases hp
      | learns hop hworld hchoice =>
        cases hp
        obtain ⟨x, hx, hquery⟩ := h.asked j q t _ hi hphase
        rcases hchoice with hc | ⟨request, r, hk, rfl⟩
        · -- only the exchange says that there is no order
          exact absurd hsays (by simp [not_saysNoOrder_of_allows (hheard _ _ hop hc x hx)])
        · rw [hk] at hx
          cases hx
          exact hkept hk hquery (Call.denies_of_saysNoOrder hquery hsays)
      | wins | reloads | announces | posts | hears | asks => cases hp
    · obtain ⟨k, x, hx, hquery, hdenies⟩ := h.told j p t outcome hj hp hsays
      exact hkept hx hquery hdenies

theorem event {g' : Stances} (h : Traced w.toLedger g) {threads : List (Tag × Bool)} {e : Event}
    {x : Reaction World Tag} (hx : react env w threads e = some x)
    (hg : ∀ j p, g' j = some p → g j = some p ∨ p.phase = .idle) :
    Traced x.shared.toLedger g' := by
  have hgrow := callsGrow_react hx
  have hhistory : w.history ⊆ x.shared.history := by
    obtain ⟨-, -, -, heq | ⟨p, payload, -, -, heq⟩⟩ := react_ledger hx
    · rw [heq]
      exact List.Subset.refl _
    · rw [heq]
      exact List.subset_append_left _ _
  have hkept : ∀ {c : String} {k : Nat} {y : Call}, w.calls[k]? = some y →
      y.request.placed? = some c → y.fate.isInFlight = false →
      ∃ z : Call, x.shared.calls[k]? = some z ∧ z.request.placed? = some c ∧ z.fate = y.fate := by
    intro c k y hy hplaced hflight
    obtain ⟨z, hz, hreq, hfate⟩ := hgrow k y hy
    exact ⟨z, hz, by rw [hreq, hplaced], hfate hflight⟩
  constructor
  · intro order horder
    have hold : ∀ o ∈ w.book, o.clientOrderId = order.clientOrderId →
        ∃ (k : Nat) (y : Call), x.shared.calls[k]? = some y ∧
          y.request.placed? = some order.clientOrderId ∧ y.fate.isInFlight = false ∧
            y.fate.isLost = false := by
      intro o ho hcid
      obtain ⟨k, y, hy, hplaced, hflight, hlost⟩ := h.held o ho
      obtain ⟨z, hz, hplaced', hfate⟩ := hkept hy hplaced hflight
      exact ⟨k, z, hz, by rw [hplaced', hcid], by rw [hfate, hflight], by rw [hfate, hlost]⟩
    rcases react_calls hx with ⟨-, hbook⟩ | ⟨k, r, f, hk, hf, hcalls, hbook⟩
    · obtain ⟨o, ho, hcid⟩ := hbook order horder
      exact hold o ho hcid
    · rcases hbook order horder with ho | ⟨hplaced, hlost⟩
      · exact hold order ho rfl
      · refine ⟨k, ⟨r, f⟩, ?_, hplaced, hf, hlost⟩
        rw [hcalls]
        exact List.getElem?_set_self (List.getElem?_eq_some_iff.mp hk).1
  · intro j p id hj hp
    rcases hg j p hj with hj | hidle
    · exact hhistory (h.won j p id hj hp)
    · rw [hidle] at hp
      cases hp
  · intro j p t k hj hp
    rcases hg j p hj with hj | hidle
    · obtain ⟨y, hy, hplaced⟩ := h.ticket j p t k hj hp
      obtain ⟨z, hz, hreq, -⟩ := hgrow k y hy
      exact ⟨z, hz, by rw [hreq, hplaced]⟩
    · rw [hidle] at hp
      cases hp
  · intro j p t outcome hj hp hun
    rcases hg j p hj with hj | hidle
    · obtain ⟨k, y, hy, hplaced, hlost⟩ := h.lost j p t outcome hj hp hun
      obtain ⟨z, hz, hplaced', hfate⟩ := hkept hy hplaced (Fate.isInFlight_of_isLost hlost)
      exact ⟨k, z, hz, hplaced', by rw [hfate, hlost]⟩
    · rw [hidle] at hp
      cases hp
  · intro j p t k hj hp
    rcases hg j p hj with hj | hidle
    · obtain ⟨y, hy, hquery⟩ := h.asked j p t k hj hp
      obtain ⟨z, hz, hreq, -⟩ := hgrow k y hy
      exact ⟨z, hz, by rw [hreq, hquery]⟩
    · rw [hidle] at hp
      cases hp
  · intro j p t outcome hj hp hsays
    rcases hg j p hj with hj | hidle
    · obtain ⟨k, y, hy, hquery, hdenies⟩ := h.told j p t outcome hj hp hsays
      exact ⟨k, y, hgrow.denies hy hdenies, hquery, hdenies⟩
    · rw [hidle] at hp
      cases hp

end Traced

/-! ## Trades that are ruled out -/

/-- The trade a thread is about to place an order for. -/
def Phase.sending? : Phase → Option TradeId
  | .won id => some id
  | .holding t => if (formatDecimal t.quantity).isSome then some t.id else none
  | .calling t => some t.id
  | _ => none

theorem Phase.unposted_of_sending {phase : Phase} {id : TradeId} (h : phase.sending? = some id) :
    phase.unposted? = some id := by
  cases phase with
  | holding t =>
    simp only [Phase.sending?] at h
    split at h
    · exact h
    · cases h
  | won | calling => exact h
  | _ => cases h

theorem Phase.not_finished_of_sending {phase : Phase} {id : TradeId}
    (h : phase.sending? = some id) : ¬ phase.finished := by
  cases phase with
  | holding t =>
    intro hnone
    simp only [Phase.sending?, show formatDecimal t.quantity = none from hnone] at h
    cases h
  | won | calling => exact fun hf => hf
  | _ => cases h

/-- The exchange holds no order under the client order id, and none is on its way. -/
def Ledger.Absent (l : Ledger) (clientOrderId : String) : Prop :=
  (∀ o ∈ l.book, o.clientOrderId ≠ clientOrderId) ∧
    ∀ x ∈ l.calls, x.request.placed? = some clientOrderId → x.fate.isInFlight = false

instance (l : Ledger) (clientOrderId : String) : Decidable (l.Absent clientOrderId) :=
  inferInstanceAs (Decidable (_ ∧ _))

/-- No thread is about to place an order for the trade. -/
def Unsought (g : Stances) (id : TradeId) : Prop := ∀ i q, g i = some q → q.phase.sending? ≠ some id

section RuledOut

variable {w w' : World} {g g' : Stances} {i : Nat} {q q' : Stance} {o : Op} {c : Choice}

/-- Nobody places an order that nobody was about to place. -/
theorem other_of_calling (hs : Sound env w.toLedger g) {s t : Trade} (hrow : s ∈ w.trades.rows)
    (hun : Unsought g s.id) (hi : g i = some q) (hq : q.phase = .calling t) :
    t.clientOrderId ≠ s.clientOrderId := by
  intro hcid
  obtain ⟨r, hr, hterms, -⟩ := hs.row_of_claim (t := t) hi (by rw [hq]; rfl) (by rw [hq]; rfl)
  have hrs : r = s := TradeTable.eq_of_clientOrderId hr hrow
    ((congrArg Trade.Terms.clientOrderId hterms).trans hcid)
  subst hrs
  refine hun i q hi ?_
  rw [hq, show r.id = t.id from congrArg Trade.Terms.id hterms]
  rfl

theorem unsought_turn (hturn : Turn env i o c w w' q.phase q'.phase) {s : Trade}
    (hrow : s ∈ w.trades.rows) (hclaim : ∀ now, o = .claim s.id now → c = .done → s.unsent = false)
    (hun : Unsought g s.id) (hi : g i = some q) : Unsought (Function.update g i (some q')) s.id := by
  intro j p hj hp
  rcases update_eq_some hj with ⟨rfl, rfl⟩ | ⟨-, hj⟩
  · have hold := hun j q hi
    generalize q.phase = phase at hturn hold
    generalize p.phase = phase' at hturn hp
    cases hturn with
    | stays => exact hold hp
    | leaves hfree =>
      rcases hfree with rfl | rfl <;> cases hp
    | wins hop hc hmem hunsent =>
      have hrow' := TradeTable.eq_of_id hmem hrow (Option.some.inj hp)
      subst hrow'
      rw [hclaim _ hop hc] at hunsent
      cases hunsent
    | reloads =>
      simp only [Phase.sending?] at hp
      split at hp
      · exact hold hp
      · cases hp
    | announces hwritten =>
      refine hold ?_
      simp only [Phase.sending?, hwritten, Option.isSome_some, if_true]
      exact hp
    | posts | hears | asks | learns => cases hp
  · exact hun j p hj hp

theorem absent_turn (hs : Sound env w.toLedger g) (hi : g i = some q)
    (hturn : Turn env i o c w w' q.phase q'.phase) (hbook : w'.book = w.book) {s : Trade}
    (hrow : s ∈ w.trades.rows) (hun : Unsought g s.id)
    (h : w.toLedger.Absent s.clientOrderId) : w'.toLedger.Absent s.clientOrderId := by
  refine ⟨by rw [hbook]; exact h.1, ?_⟩
  have hsame : w'.calls = w.calls → ∀ x ∈ w'.calls,
      x.request.placed? = some s.clientOrderId → x.fate.isInFlight = false := by
    intro heq
    rw [heq]
    exact h.2
  have hother := fun t => other_of_calling (t := t) hs hrow hun hi
  generalize q.phase = phase at hturn hother
  generalize q'.phase = phase' at hturn
  cases hturn with
  | stays heq | leaves _ heq | announces _ heq => exact hsame heq
  | wins _ _ _ _ hledger => exact hsame (by rw [hledger]; rfl)
  | reloads _ _ _ heq | hears _ heq | learns _ heq => exact hsame (by rw [heq])
  | posts hledger =>
    rw [hledger]
    intro x hx hplaced
    rcases List.mem_append.mp hx with hx | hx
    · exact h.2 x hx hplaced
    · rw [List.mem_singleton.mp hx] at hplaced
      exact absurd (Option.some.inj ((orderRequest_placed? ..).symm.trans hplaced)) (hother _ rfl)
  | asks _ _ hledger =>
    rw [hledger]
    intro x hx hplaced
    rcases List.mem_append.mp hx with hx | hx
    · exact h.2 x hx hplaced
    · rw [List.mem_singleton.mp hx] at hplaced
      cases hplaced

theorem unsought_event {id : TradeId} (hun : Unsought g id)
    (hg : ∀ j p, g' j = some p → g j = some p ∨ p.phase = .idle) : Unsought g' id := by
  intro j p hj hp
  rcases hg j p hj with hj | hidle
  · exact hun j p hj hp
  · rw [hidle] at hp
    cases hp

theorem absent_event {threads : List (Tag × Bool)} {e : Event} {x : Reaction World Tag}
    (hx : react env w threads e = some x) {clientOrderId : String}
    (h : w.toLedger.Absent clientOrderId) : x.shared.toLedger.Absent clientOrderId := by
  rcases react_calls hx with ⟨hcalls, hbook⟩ | ⟨k, r, f, hk, hf, hcalls, hbook⟩
  · refine ⟨fun o ho => ?_, ?_⟩
    · obtain ⟨o', ho', hcid⟩ := hbook o ho
      rw [← hcid]
      exact h.1 o' ho'
    · rw [hcalls]
      exact h.2
  · refine ⟨fun o ho hcid => ?_, ?_⟩
    · rcases hbook o ho with ho | ⟨hplaced, -⟩
      · exact h.1 o ho hcid
      · -- an order arrives only with a request that was in flight
        have hflight := h.2 ⟨r, .inFlight⟩ (List.mem_of_getElem? hk) (by rw [← hcid]; exact hplaced)
        cases hflight
    · rw [hcalls]
      intro y hy hplaced
      rcases List.mem_or_eq_of_mem_set hy with hy | rfl
      · exact h.2 y hy hplaced
      · exact hf

theorem posted_turn (hs : Sound env w.toLedger g) (hi : g i = some q)
    (hturn : Turn env i o c w w' q.phase q'.phase) {s : Trade} (hrow : s ∈ w.trades.rows)
    (hun : Unsought g s.id) :
    w'.toLedger.posted s.clientOrderId = w.toLedger.posted s.clientOrderId := by
  have hsame : w'.calls = w.calls →
      w'.toLedger.posted s.clientOrderId = w.toLedger.posted s.clientOrderId := fun heq => by
    simp only [Ledger.posted, Ledger.requests, heq]
  have hother := fun t => other_of_calling (t := t) hs hrow hun hi
  generalize q.phase = phase at hturn hother
  generalize q'.phase = phase' at hturn
  cases hturn with
  | stays heq | leaves _ heq | announces _ heq => exact hsame heq
  | wins _ _ _ _ hledger => exact hsame (by rw [hledger]; rfl)
  | reloads _ _ _ heq | hears _ heq | learns _ heq => exact hsame (by rw [heq])
  | posts hledger =>
    rw [hledger, Ledger.posted_send, orderFor, orderRequest_placed?, if_neg, Nat.add_zero]
    exact fun h => hother _ rfl (Option.some.inj h)
  | asks _ _ hledger =>
    rw [hledger, Ledger.posted_send, queryRequest_placed?, if_neg (by simp), Nat.add_zero]

end RuledOut

/-! ## FAILED rows -/

/-- A row after an operation that is FAILED was so before, or the operation commits that. -/
theorem failed_exec {i : Nat} {tag : Tag} {w w' : World} {q : Stance} {m : Move} {o : Op}
    {c : Choice} {x : o.Res} (hp : q.permits env m o) (hx : exec env i tag w o c = some (x, w'))
    {r : Trade} (hr : r ∈ w'.trades.rows) (hfailed : r.status = .failed) :
    ∃ s ∈ w.trades.rows, s.terms = r.terms ∧ (s.status = .failed ∨ ∃ t e, o = .commit t e ∧
      s.id = t.id ∧ e.status = some .failed ∧ c.effective = true) := by
  have hsame : w'.trades = w.trades → ∃ s ∈ w.trades.rows, s.terms = r.terms ∧
      (s.status = .failed ∨ ∃ t e, o = .commit t e ∧ s.id = t.id ∧ e.status = some .failed ∧
        c.effective = true) := fun h => ⟨r, by rwa [← h], rfl, Or.inl hfailed⟩
  cases o with
  | insert n =>
    rcases exec_insert hx with rfl | ⟨hfit, rfl⟩
    · exact hsame rfl
    · rcases (TradeTable.mem_insert (h := hfit)).mp hr with hr | rfl
      · exact ⟨r, hr, rfl, Or.inl hfailed⟩
      · cases m with
        | ask _ => exact hp.elim
        | plain =>
          obtain ⟨-, payload, owner, -, -, rfl⟩ := hp
          cases hfailed
  | claim id now =>
    rcases exec_claim hx with ⟨rfl, -⟩ | ⟨row, -, -, -, -, rfl⟩
    · exact hsame rfl
    · obtain ⟨s, hs, rfl⟩ := TradeTable.mem_update.mp hr
      refine ⟨s, hs, ?_, Or.inl ?_⟩
      · split <;> rfl
      · split at hfailed <;> exact hfailed
  | commit t e =>
    rcases exec_commit hx with ⟨rfl, hc, -⟩ | ⟨rfl, -⟩
    · obtain ⟨s, hs, rfl⟩ := TradeTable.mem_update.mp hr
      by_cases hid : s.id = t.id
      · rw [if_pos hid] at hfailed ⊢
        refine ⟨s, hs, rfl, ?_⟩
        simp only [Edits.update, Edits.flush] at hfailed
        cases he : e.status with
        | none =>
          rw [he] at hfailed
          exact Or.inl hfailed
        | some status =>
          rw [he, UnitOfWork.plain_flush] at hfailed
          split at hfailed
          · exact Or.inl hfailed
          · exact Or.inr ⟨t, e, rfl, hid, by rw [he, hfailed], (Bool.and_eq_true_iff.mp hc).1⟩
      · rw [if_neg hid] at hfailed ⊢
        exact ⟨s, hs, rfl, Or.inl hfailed⟩
    · exact hsame rfl
  | send request =>
    obtain ⟨-, rfl⟩ := exec_send hx
    exact hsame rfl
  | log record =>
    obtain rfl := exec_log hx
    exact hsame rfl
  | _ => exact hsame (by rw [exec_of_not_writes rfl hx])

/-- A row that is not PENDING stays so. -/
theorem opened_exec {i : Nat} {tag : Tag} {w w' : World} {q : Stance} {m : Move} {o : Op}
    {c : Choice} {x : o.Res} (hp : q.permits env m o) (hx : exec env i tag w o c = some (x, w'))
    {s : Trade} (hs : s ∈ w.trades.rows) (hstatus : s.status ≠ .pending) :
    ∃ r ∈ w'.trades.rows, r.terms = s.terms ∧ r.status ≠ .pending := by
  have hsame : w'.trades = w.trades → ∃ r ∈ w'.trades.rows, r.terms = s.terms ∧
      r.status ≠ .pending := fun h => ⟨s, by rwa [h], rfl, hstatus⟩
  cases o with
  | insert n =>
    rcases exec_insert hx with rfl | ⟨hfit, rfl⟩
    · exact hsame rfl
    · exact ⟨s, (TradeTable.mem_insert (h := hfit)).mpr (Or.inl hs), rfl, hstatus⟩
  | claim id now =>
    rcases exec_claim hx with ⟨rfl, -⟩ | ⟨row, -, -, -, -, rfl⟩
    · exact hsame rfl
    · refine ⟨_, TradeTable.mem_update.mpr ⟨s, hs, rfl⟩, ?_, ?_⟩
      · split <;> rfl
      · split <;> exact hstatus
  | commit t e =>
    cases m with
    | ask _ => exact hp.elim
    | plain =>
      rcases exec_commit hx with ⟨rfl, -⟩ | ⟨rfl, -⟩
      · refine ⟨_, TradeTable.mem_update.mpr ⟨s, hs, rfl⟩, ?_, ?_⟩
        · split <;> rfl
        · split
          · have hne := concludes_ne_pending hp.2
            simp only [Edits.update, Edits.flush]
            cases he : e.status with
            | none => exact hstatus
            | some status =>
              rw [he] at hne
              rw [UnitOfWork.plain_flush]
              split
              · exact hstatus
              · exact fun h => hne (by rw [h])
          · exact hstatus
      · exact hsame rfl
  | send request =>
    obtain ⟨-, rfl⟩ := exec_send hx
    exact hsame rfl
  | log record =>
    obtain rfl := exec_log hx
    exact hsame rfl
  | _ => exact hsame (by rw [exec_of_not_writes rfl hx])

/-- Every FAILED row is ruled out. -/
def FailedRuledOut (l : Ledger) (g : Stances) : Prop :=
  ∀ r ∈ l.trades.rows, r.status = .failed → l.Absent r.clientOrderId ∧ Unsought g r.id

/-- A row of the trade whose order call made no connection is ruled out. -/
theorem ruledOut_of_lost {l : Ledger} {g : Stances} (hs : Sound env l g) (ht : Traced l g)
    {s : Trade} (hrow : s ∈ l.trades.rows) {k : Nat} {x : Call} (hk : l.calls[k]? = some x)
    (hplaced : x.request.placed? = some s.clientOrderId) (hlost : x.fate.isLost = true) :
    l.Absent s.clientOrderId ∧ Unsought g s.id := by
  -- it is the only call that places an order for the trade
  have honly : ∀ {j : Nat} {y : Call}, l.calls[j]? = some y →
      y.request.placed? = some s.clientOrderId → y = x := by
    intro j y hj hy
    have hjk := Ledger.call_unique (hs.postedOnce s.clientOrderId) hj hk hy hplaced
    subst hjk
    exact Option.some.inj (hj.symm.trans hk)
  refine ⟨⟨fun o ho hcid => ?_, fun y hy hyplaced => ?_⟩, fun j p hj hp => ?_⟩
  · obtain ⟨j, y, hj, hyplaced, -, hkept⟩ := ht.held o ho
    rw [honly hj (by rw [hyplaced, hcid]), hlost] at hkept
    cases hkept
  · obtain ⟨j, hj⟩ := List.getElem?_of_mem hy
    rw [honly hj hyplaced]
    exact Fate.isInFlight_of_isLost hlost
  · have hzero := hs.unposted j p s.id hj (Phase.unposted_of_sending hp) s hrow rfl
    have hpos : 0 < l.posted s.clientOrderId := List.countP_pos_iff.mpr
      ⟨x.request, List.mem_map.mpr ⟨x, List.mem_of_getElem? hk, rfl⟩, decide_eq_true hplaced⟩
    omega

/-! ## The condition -/

/-- The claim an entry of the history is about. -/
def Entry.claim? : Entry → Option (Nat × TradeId)
  | .claimed thread id => some (thread, id)
  | _ => none

/-- A thread that won the claim of `t` and is still running has sent its order. -/
def SentIfClaimed (P : Pool (service env)) (t : Trade) : Prop :=
  ∀ e ∈ P.shared.history, ∀ x ∈ e.claim?, x.2 = t.id → (P.pending? x.1).isSome →
    0 < P.shared.toLedger.posted t.clientOrderId

instance (P : Pool (service env)) (t : Trade) : Decidable (SentIfClaimed P t) :=
  inferInstanceAs (Decidable (∀ e ∈ P.shared.history, ∀ x ∈ e.claim?, x.2 = t.id →
    (P.pending? x.1).isSome → 0 < P.shared.toLedger.posted t.clientOrderId))

/-- The client order id of the query that a step answers with "there is no such order". -/
def denied? (P : Pool (service env)) : Label (service env) → Option String
  | .event (.arrive k .lookup) =>
    (P.shared.calls[k]?).bind fun x =>
      x.request.queried?.filter fun c =>
        x.fate.isInFlight && P.shared.book.all fun o => o.clientOrderId ≠ c
  | _ => none

/-- The trade whose claim a step wins. -/
def won? (P : Pool (service env)) : Label (service env) → Option Trade
  | .act i .done =>
    match P.pending? i with
    | some (.claim id _) => (P.shared.trades.find? id).filter Trade.unsent
    | _ => none
  | _ => none

/-- No query overtakes its order: when one is answered that there is no such order, no POST
for it is in flight, and whoever has won the claim of the trade, and is still running, has
made its POST; and no thread wins the claim of a trade afterwards. -/
structure InOrder (P : Pool (service env)) (l : Label (service env)) : Prop where
  arrived : ∀ c ∈ denied? P l, ∀ x ∈ P.shared.calls, x.request.placed? = some c →
    x.fate.isInFlight = false
  sent : ∀ c ∈ denied? P l, ∀ r ∈ P.shared.trades.rows, r.clientOrderId = c → SentIfClaimed P r
  unasked : ∀ r ∈ won? P l, ∀ x ∈ P.shared.calls, x.request.queried? = some r.clientOrderId →
    x.denies = false

instance (P : Pool (service env)) (l : Label (service env)) : Decidable (InOrder P l) :=
  decidable_of_iff ((∀ c ∈ denied? P l, ∀ x ∈ P.shared.calls, x.request.placed? = some c →
      x.fate.isInFlight = false) ∧
    (∀ c ∈ denied? P l, ∀ r ∈ P.shared.trades.rows, r.clientOrderId = c → SentIfClaimed P r) ∧
    ∀ r ∈ won? P l, ∀ x ∈ P.shared.calls, x.request.queried? = some r.clientOrderId →
      x.denies = false)
    ⟨fun h => ⟨h.1, h.2.1, h.2.2⟩, fun h => ⟨h.arrived, h.sent, h.unasked⟩⟩

/-- Both conditions on a step: clients hear only what is so, and no query overtakes its
order. -/
def HonestAndInOrder (P : Pool (service env)) (l : Label (service env)) : Prop :=
  Honest P l ∧ InOrder P l

instance (P : Pool (service env)) (l : Label (service env)) : Decidable (HonestAndInOrder P l) :=
  inferInstanceAs (Decidable (Honest P l ∧ InOrder P l))

/-- Nobody is about to place an order for a trade whose claimants have all sent theirs. -/
theorem unsought_of_sent {P : Pool (service env)} {g : Stances} (hg : Ghosted (conduct env) P g)
    (hs : Sound env P.shared.toLedger g) (ht : Traced P.shared.toLedger g) {s : Trade}
    (hrow : s ∈ P.shared.trades.rows) (h : SentIfClaimed P s) : Unsought g s.id := by
  intro j p hj hp
  have hunposted := Phase.unposted_of_sending hp
  have hrunning := hg.pending hj (Phase.not_finished_of_sending hp)
  have hpos := h _ (ht.won j p s.id hj hunposted) (j, s.id) rfl rfl hrunning
  have hzero := hs.unposted j p s.id hj hunposted s hrow rfl
  omega

/-! ## What was denied is ruled out -/

/-- Every trade whose order the exchange has denied is ruled out. -/
def DeniedRuledOut (l : Ledger) (g : Stances) : Prop :=
  ∀ x ∈ l.calls, x.denies = true → ∀ r ∈ l.trades.rows,
    x.request.queried? = some r.clientOrderId → l.Absent r.clientOrderId ∧ Unsought g r.id

/-- The row of a trade that was asked about was there when it was asked. -/
theorem row_of_queried {l l' : Ledger} {g : Stances} (hs : Sound env l g) (hgrow : l.Grows l')
    {x : Call} (hx : x ∈ l.calls) {r : Trade} (hr : r ∈ l'.trades.rows)
    (hquery : x.request.queried? = some r.clientOrderId) :
    ∃ s ∈ l.trades.rows, s.terms = r.terms := by
  have hget : x.request.method = .get := by
    by_contra hne
    rw [HttpRequest.queried?, if_neg hne] at hquery
    cases hquery
  obtain ⟨s, hrow, hreq⟩ := hs.queried x.request (List.mem_map.mpr ⟨x, hx, rfl⟩) hget
  rw [hreq, queryRequest_queried?] at hquery
  obtain ⟨s', hrow', hterms, -⟩ := hgrow s hrow
  have hsame : s' = r := TradeTable.eq_of_clientOrderId hrow' hr
    ((congrArg Trade.Terms.clientOrderId hterms).trans (Option.some.inj hquery))
  subst hsame
  exact ⟨s, hrow, hterms.symm⟩

/-- The client order ids of denied queries only come from answers. -/
theorem denies_turn {w w' : World} {i : Nat} {o : Op} {c : Choice} {phase phase' : Phase}
    (h : Turn env i o c w w' phase phase') {x : Call} (hx : x ∈ w'.calls) (hdenies : x.denies = true) :
    x ∈ w.calls := by
  cases h with
  | stays heq | leaves _ heq | announces _ heq => rwa [← heq]
  | wins _ _ _ _ hledger =>
    rw [hledger] at hx
    exact hx
  | reloads _ _ _ heq | hears _ heq | learns _ heq => rwa [← heq]
  | posts hledger | asks _ _ hledger =>
    rw [hledger] at hx
    rcases List.mem_append.mp hx with hx | hx
    · exact hx
    · rw [List.mem_singleton.mp hx] at hdenies
      cases hdenies

theorem deniedRuledOut_act {P : Pool (service env)} {g : Stances} {i : Nat} {c : Choice}
    {tag : Tag} {q : Stance} {m : Move} {o : Op} {x : o.Res} {w' : World}
    (hs : Sound env P.shared.toLedger g) (hJ : DeniedRuledOut P.shared.toLedger g)
    (hD : InOrder P (.act i c)) (ha : Acts env P g i c tag q m o x w') :
    DeniedRuledOut w'.toLedger (Function.update g i (some (q.next m o x))) := by
  have hturn := turn_of_exec ha.permits ha.exec
  intro y hy hdenies r hr hquery
  have hold := denies_turn hturn hy hdenies
  obtain ⟨s, hrow, hterms⟩ := row_of_queried hs (grows_exec ha.exec) hold hr hquery
  have hid : s.id = r.id := congrArg Trade.Terms.id hterms
  have hcid : s.clientOrderId = r.clientOrderId := congrArg Trade.Terms.clientOrderId hterms
  rw [← hcid] at hquery
  obtain ⟨habsent, hun⟩ := hJ y hold hdenies s hrow hquery
  have hclaim : ∀ now, o = .claim s.id now → c = .done → s.unsent = false := by
    rintro now rfl rfl
    by_contra hne
    have hwon : s ∈ won? P (.act i .done) := by
      simp only [won?, ha.pending]
      rw [TradeTable.find?_eq_some.mpr ⟨hrow, rfl⟩, Option.filter_some,
        if_pos ((Bool.not_eq_false _).mp hne)]
      rfl
    rw [hD.unasked s hwon y hold hquery] at hdenies
    cases hdenies
  rw [← hid, ← hcid]
  exact ⟨absent_turn hs ha.stance hturn (book_exec ha.exec) hrow hun habsent,
    unsought_turn hturn hrow hclaim hun ha.stance⟩

theorem idle_of_ghostsAfter {P : Pool (service env)} {x : Reaction World Tag} {g : Stances} {j : Nat}
    {p : Stance} (h : ghostsAfter (conduct env) startStance P x g j = some p) :
    g j = some p ∨ p.phase = .idle := by
  rcases ghostsAfter_cases h with h | ⟨tag, -, rfl⟩
  · exact Or.inl h
  · exact Or.inr rfl

/-- An answer "there is no such order" that comes in order is the last word. -/
theorem deniedRuledOut_event {P : Pool (service env)} {g : Stances} {e : Event}
    {x : Reaction World Tag} (hg : Ghosted (conduct env) P g) (hs : Sound env P.shared.toLedger g)
    (ht : Traced P.shared.toLedger g) (hJ : DeniedRuledOut P.shared.toLedger g)
    (hD : InOrder P (.event e)) (hx : react env P.shared P.seen e = some x) :
    DeniedRuledOut x.shared.toLedger (ghostsAfter (conduct env) startStance P x g) := by
  obtain ⟨htrades, -⟩ := react_ledger hx
  intro y hy hdenies r hr hquery
  rw [htrades] at hr
  have hruled : P.shared.toLedger.Absent r.clientOrderId ∧ Unsought g r.id := by
    rcases denies_react hx hy hdenies with hold | ⟨k, c, rfl, hk, hc, hnone⟩
    · exact hJ y hold hdenies r hr hquery
    · obtain rfl : c = r.clientOrderId := Option.some.inj (hc.symm.trans hquery)
      have hdenied : r.clientOrderId ∈ denied? P (.event (.arrive k .lookup)) := by
        simp only [denied?, hk, Option.bind_some, hc, Option.filter_some]
        rw [if_pos]
        · rfl
        · simpa [Fate.isInFlight] using hnone
      exact ⟨⟨hnone, hD.arrived _ hdenied⟩, unsought_of_sent hg hs ht hr (hD.sent _ hdenied r hr rfl)⟩
  exact ⟨absent_event hx hruled.1, unsought_event hruled.2 fun j p hj => idle_of_ghostsAfter hj⟩

theorem failedRuledOut_act {P : Pool (service env)} {g : Stances} {i : Nat} {c : Choice}
    {tag : Tag} {q : Stance} {m : Move} {o : Op} {x : o.Res} {w' : World}
    (hs : Sound env P.shared.toLedger g) (ht : Traced P.shared.toLedger g)
    (hJ : FailedRuledOut P.shared.toLedger g) (hdenied : DeniedRuledOut P.shared.toLedger g)
    (ha : Acts env P g i c tag q m o x w') :
    FailedRuledOut w'.toLedger (Function.update g i (some (q.next m o x))) := by
  have hturn := turn_of_exec ha.permits ha.exec
  intro r hr hfailed
  obtain ⟨s, hrow, hterms, hcase⟩ := failed_exec ha.permits ha.exec hr hfailed
  have hruled : P.shared.toLedger.Absent s.clientOrderId ∧ Unsought g s.id := by
    rcases hcase with hold | ⟨t, e, rfl, hid, he, hc⟩
    · exact hJ s hrow hold
    · have hperm := ha.permits
      cases m with
      | ask _ => exact hperm.elim
      | plain =>
        obtain ⟨hcopy, hconcludes⟩ := hperm
        have hst := (hs.terms_of_copy ha.stance hcopy hrow hid).1
        have hcid : s.clientOrderId = t.clientOrderId := congrArg Trade.Terms.clientOrderId hst
        rcases hconcludes with ⟨outcome, o', hq, ho', rfl⟩ | ⟨outcome, answer, now, hq, hreply, rfl⟩
        · obtain ⟨k, y, hk, hplaced, hlost⟩ :=
            ht.lost i q t outcome ha.stance hq (unreached_of_failed ho' he)
          exact ruledOut_of_lost hs ht hrow hk (by rw [hplaced, hcid]) hlost
        · have hnone := absent_of_failed he
          subst hnone
          obtain ⟨k, y, hk, hquery, hdenies⟩ :=
            ht.told i q t outcome ha.stance hq (saysNoOrder_of_queryReply hreply)
          exact hdenied y (List.mem_of_getElem? hk) hdenies s hrow (by rw [hquery, hcid])
  have hid : s.id = r.id := congrArg Trade.Terms.id hterms
  have hcid : s.clientOrderId = r.clientOrderId := congrArg Trade.Terms.clientOrderId hterms
  have hclaim : ∀ now, o = .claim s.id now → c = .done → s.unsent = false := by
    rintro now rfl -
    rcases hcase with hold | ⟨t, e, he, -⟩
    · simp [Trade.unsent, hold]
    · cases he
  rw [← hid, ← hcid]
  exact ⟨absent_turn hs ha.stance hturn (book_exec ha.exec) hrow hruled.2 hruled.1,
    unsought_turn hturn hrow hclaim hruled.2 ha.stance⟩

/-! ## The result -/

/-- Once nobody is about to place an order for a trade, nobody ever will. -/
theorem posted_final {P Q : Pool (service env)} {g : Stances} {ls : List (Label (service env))}
    (hg : Ghosted (conduct env) P g) (hs : Sound env P.shared.toLedger g) {r : Trade}
    (hr : r ∈ P.shared.trades.rows) (hstatus : r.status ≠ .pending) (hun : Unsought g r.id)
    (h : Run (service env).system unguarded P ls Q) :
    Q.shared.toLedger.posted r.clientOrderId = P.shared.toLedger.posted r.clientOrderId := by
  have hrun := Coroutine.ghosts (K := conduct env)
    (I := fun (w : World) (g : Stances) => Sound env w.toLedger g ∧
      w.toLedger.posted r.clientOrderId = P.shared.toLedger.posted r.clientOrderId ∧
        ∃ s ∈ w.trades.rows, s.terms = r.terms ∧ s.status ≠ .pending ∧ Unsought g s.id)
    startStance (fun tag : Tag => keeps_conduct env tag.task) ?_ ?_ h
    ⟨g, hg, hs, rfl, r, hr, rfl, hstatus, hun⟩
  · obtain ⟨-, -, -, hposted, -⟩ := hrun
    exact hposted
  · rintro P g i c tag o x w' q m - hg ⟨hs, hposted, s, hrow, hterms, hstatus, hun⟩ hpend htag hq
      hp hx
    have hturn := turn_of_exec hp hx
    obtain ⟨s', hrow', hterms', hstatus'⟩ := opened_exec hp hx hrow hstatus
    have hcid : s.clientOrderId = r.clientOrderId := congrArg Trade.Terms.clientOrderId hterms
    refine ⟨trivial, hs.act hq hp hx, ?_, s', hrow', hterms'.trans hterms, hstatus', ?_⟩
    · rw [← hposted, ← hcid]
      exact posted_turn hs hq hturn hrow hun
    · rw [show s'.id = s.id from congrArg Trade.Terms.id hterms']
      exact unsought_turn hturn hrow (fun _ _ _ => by simp [Trade.unsent, hstatus]) hun hq
  · rintro P g e x - hg ⟨hs, hposted, s, hrow, hterms, hstatus, hun⟩ hx
    obtain ⟨ht, hr, -⟩ := react_ledger hx
    refine ⟨hs.event hx, ?_, s, by rwa [ht], hterms, hstatus,
      unsought_event hun fun j p hj => idle_of_ghostsAfter hj⟩
    rw [← hposted]
    simp only [Ledger.posted, hr]

/-- **FAILED is a known fact while no query overtakes its order.** In every run in which
clients hear only what is so and no query overtakes its order: for every FAILED row the
exchange holds no order, no POST is in flight, and none will be made in any continuation of
the run. -/
theorem failed_is_known {users : List User} {clock : DateTime} {ls : List (Label (service env))}
    {P : Pool (service env)}
    (h : Run (service env).system HonestAndInOrder (Pool.idle (.initial users clock)) ls P) :
    ∀ r ∈ P.shared.trades.rows, r.status = .failed →
      (∀ o ∈ P.shared.book, o.clientOrderId ≠ r.clientOrderId) ∧
      (∀ x ∈ P.shared.calls, x.request.placed? = some r.clientOrderId →
        x.fate.isInFlight = false) ∧
      ∀ ms Q, Run (service env).system unguarded P ms Q →
        Q.shared.toLedger.posted r.clientOrderId = P.shared.toLedger.posted r.clientOrderId := by
  obtain ⟨g, hg, hs, -, -, hruled⟩ := invariant_of_run
    (J := fun w g => Traced w.toLedger g ∧ DeniedRuledOut w.toLedger g ∧ FailedRuledOut w.toLedger g)
    h (Sound.found _)
    ⟨Traced.initial users clock, fun x hx => (by cases hx), fun r hr => by cases hr⟩
    (fun P g i c tag q m o x w' hD hg hs hJ ha => by
      refine ⟨hJ.1.act ha.stance (turn_of_exec ha.permits ha.exec) (book_exec ha.exec)
        (history_exec ha.exec) ?_, deniedRuledOut_act hs hJ.2.1 hD.2 ha,
        failedRuledOut_act hs hJ.1 hJ.2.2 hJ.2.1 ha⟩
      rintro k t rfl rfl y hy
      refine hD.1 (y, t) ?_
      simp only [reported?, ha.pending, Option.mem_def.mp hy, Option.map_some]
      rfl)
    (fun P g e x hD hg hs hJ hx => by
      refine ⟨hJ.1.event hx fun j p hj => idle_of_ghostsAfter hj,
        deniedRuledOut_event hg hs hJ.1 hJ.2.1 hD.2 hx, ?_⟩
      obtain ⟨ht, -⟩ := react_ledger hx
      intro r hr hfailed
      rw [ht] at hr
      obtain ⟨habsent, hun⟩ := hJ.2.2 r hr hfailed
      exact ⟨absent_event hx habsent, unsought_event hun fun j p hj => idle_of_ghostsAfter hj⟩)
  intro r hr hfailed
  obtain ⟨habsent, hun⟩ := hruled r hr hfailed
  refine ⟨habsent.1, habsent.2, fun ms Q hrun => posted_final hg hs hr ?_ hun hrun⟩
  rw [hfailed]
  simp

/-- The reply to an order call is lost, and then the request as `fate` says; the query finds
no order. -/
def notFound (fate : Event) : List (Label (service Sample.inline)) :=
  [Sample.occurs _ (.webhook 0 Sample.signal)] ++ Sample.steps _ 0 9 ++
    [Sample.occurs _ fate, Sample.reply _ 0 .timeout] ++ Sample.steps _ 0 2 ++
    [Sample.occurs _ (.arrive 1 .lookup), Sample.delivered _ 0] ++ Sample.steps _ 0 2

theorem notFound_follows : ((service Sample.inline).system.follow HonestAndInOrder
    (Sample.start _) (notFound (.lose 0))).isSome := by decide +kernel

/-- The request was lost with its reply. -/
theorem failed_is_known_notFound :
    ∃ P, Run (service Sample.inline).system HonestAndInOrder (Sample.start _)
        (notFound (.lose 0)) P ∧
      (∃ r ∈ P.shared.trades.rows, r.status = .failed) ∧
      ∀ r ∈ P.shared.trades.rows, r.status = .failed →
        (∀ o ∈ P.shared.book, o.clientOrderId ≠ r.clientOrderId) ∧
        (∀ x ∈ P.shared.calls, x.request.placed? = some r.clientOrderId →
          x.fate.isInFlight = false) ∧
        ∀ ms Q, Run (service Sample.inline).system unguarded P ms Q →
          Q.shared.toLedger.posted r.clientOrderId = P.shared.toLedger.posted r.clientOrderId := by
  have h := System.run_get notFound_follows
  refine ⟨_, h, ?_, failed_is_known h⟩
  decide +kernel

/-- The request is only late: it arrives after the query. -/
def foundLater : List (Label (service Sample.inline)) :=
  notFound (.tick 1) ++ [Sample.occurs _ (.arrive 0 (.accept Sample.filled))]

theorem foundLater_follows : ((service Sample.inline).system.follow Honest
    (Sample.start _) foundLater).isSome := by decide +kernel

/-- Without the condition a FAILED row can hide an order: the POST was still in flight when
the query was answered, and is filled later. -/
theorem failed_hides_order :
    ¬ ∀ (users : List User) (clock : DateTime) (ls : List (Label (service Sample.inline)))
        (P : Pool (service Sample.inline)),
      Run (service Sample.inline).system Honest (Pool.idle (.initial users clock)) ls P →
      ∀ r ∈ P.shared.trades.rows, r.status = .failed →
        (∀ o ∈ P.shared.book, o.clientOrderId ≠ r.clientOrderId) ∧
        (∀ x ∈ P.shared.calls, x.request.placed? = some r.clientOrderId →
          x.fate.isInFlight = false) ∧
        ∀ ms Q, Run (service Sample.inline).system unguarded P ms Q →
          Q.shared.toLedger.posted r.clientOrderId =
            P.shared.toLedger.posted r.clientOrderId := by
  intro h
  have hknown := h Sample.users 0 _ _ (System.run_get foundLater_follows)
  have hhidden : ∃ r ∈ (((service Sample.inline).system.follow Honest (Sample.start _)
      foundLater).get foundLater_follows).shared.trades.rows, r.status = .failed ∧
        ∃ o ∈ (((service Sample.inline).system.follow Honest (Sample.start _)
          foundLater).get foundLater_follows).shared.book, o.clientOrderId = r.clientOrderId := by
    decide +kernel
  obtain ⟨r, hr, hfailed, o, ho, hcid⟩ := hhidden
  exact (hknown r hr hfailed).1 o ho hcid

end AutoTrader
