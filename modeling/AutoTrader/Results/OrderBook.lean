import AutoTrader.Results.Exposure
import AutoTrader.System.Turns

/-!
# The orders the exchange holds

The exchange creates an order only for a POST that reaches it, and each POST is decided once.
So the orders it holds are the orders of distinct signals, each of them received, valid and
claimed before the order was sent. In dry-run mode every POST goes to the validating endpoint,
and no order is ever held.
-/

namespace AutoTrader

open Python Coroutine Transition

/-- The path at which orders are created. -/
def orderPath : String := "/api/v3/order"

theorem orderRequest_path (dryRun : Bool) (symbol side quantity clientOrderId : String) :
    (orderRequest dryRun symbol side quantity clientOrderId).path = orderPath ↔ dryRun = false := by
  cases dryRun <;> simp [orderRequest, orderPath]

/-- What an event may do to the orders held. -/
inductive BookTurn (l l' : Ledger) : Prop
  | keeps (ids : l'.book.map Order.clientOrderId = l.book.map Order.clientOrderId)
      (calls : l.CallsGrow l')
  /-- A POST in flight is decided, and its order created. -/
  | accepts (k : Nat) (r : HttpRequest) (o : Order) (flight : l.calls[k]? = some ⟨r, .inFlight⟩)
      (placed : r.placed? = some o.clientOrderId) (path : r.path = orderPath)
      (calls : l'.calls = l.calls.set k ⟨r, .answered o.response⟩) (book : l'.book = l.book ++ [o])

theorem map_set_of_eq {α β : Type} {f : α → β} {l : List α} {k : Nat} {a b : α}
    (hk : l[k]? = some a) (h : f b = f a) : (l.set k b).map f = l.map f := by
  obtain ⟨hlt, hget⟩ := List.getElem?_eq_some_iff.mp hk
  rw [List.map_set, h, ← hget, ← List.getElem_map f (h := by simpa using hlt), List.set_getElem_self]

/-- Everything an event can do to the orders held. -/
theorem bookTurn_of_react {env : Deployment} {w : World} {threads : List (Tag × Bool)} {e : Event}
    {x : Reaction World Tag} (hx : react env w threads e = some x) :
    BookTurn w.toLedger x.shared.toLedger := by
  have hgrow := callsGrow_react hx
  cases e with
  | take p =>
    simp only [react] at hx
    split at hx
    · cases hx
    · split at hx
      · cases hx
        exact .keeps rfl hgrow
      · cases hx
  | arrive k v =>
    obtain ⟨l, hl, rfl⟩ := Option.map_eq_some_iff.mp hx
    simp only [Ledger.arrive] at hl
    split at hl
    · rename_i r hk
      obtain ⟨⟨book, answer⟩, hserve, rfl⟩ := Option.map_eq_some_iff.mp hl
      cases v with
      | accept o =>
        simp only [serve] at hserve
        split at hserve
        · rename_i hplaced
          cases hserve
          exact .accepts k r o hk hplaced.1 hplaced.2 rfl rfl
        · cases hserve
      | validate | refuse =>
        simp only [serve] at hserve
        split at hserve
        · cases hserve
          exact .keeps rfl hgrow
        · cases hserve
      | lookup =>
        simp only [serve] at hserve
        split at hserve
        · cases hserve
        · split at hserve
          · cases hserve
            exact .keeps rfl hgrow
          · cases hserve
            exact .keeps rfl hgrow
    · cases hl
  | lose k =>
    obtain ⟨l, hl, rfl⟩ := Option.map_eq_some_iff.mp hx
    simp only [Ledger.lose] at hl
    split at hl
    · cases hl
      exact .keeps rfl hgrow
    · cases hl
  | progress k o =>
    obtain ⟨l, hl, rfl⟩ := Option.map_eq_some_iff.mp hx
    simp only [Ledger.progress] at hl
    split at hl
    · rename_i o' hk
      split at hl
      · rename_i hmay
        cases hl
        simp only [Order.mayBecome, Bool.and_eq_true, decide_eq_true_eq] at hmay
        exact .keeps (map_set_of_eq hk hmay.1.1.1.1.symm) hgrow
      · cases hl
    · cases hl
  | _ =>
    cases hx
    exact .keeps rfl hgrow

/-- Every order held was created by a POST, and no two of them under one client order id. -/
structure Booked (l : Ledger) : Prop where
  placed : ∀ c ∈ l.book.map Order.clientOrderId, ∃ (k : Nat) (x : Call), l.calls[k]? = some x ∧
    x.request.placed? = some c ∧ x.request.path = orderPath ∧ x.fate.isInFlight = false
  distinct : (l.book.map Order.clientOrderId).Nodup

namespace Booked

variable {l l' : Ledger}

theorem keeps (h : Booked l)
    (hids : l'.book.map Order.clientOrderId = l.book.map Order.clientOrderId)
    (hgrow : l.CallsGrow l') : Booked l' := by
  constructor
  · intro c hc
    rw [hids] at hc
    obtain ⟨k, x, hk, hplaced, hpath, hflight⟩ := h.placed c hc
    obtain ⟨y, hy, hreq, hfate⟩ := hgrow k x hk
    refine ⟨k, y, hy, ?_, ?_, ?_⟩
    · rw [hreq, hplaced]
    · rw [hreq, hpath]
    · rw [hfate hflight, hflight]
  · rw [hids]
    exact h.distinct

theorem turn (h : Booked l) (honce : ∀ c, l.posted c ≤ 1) (ht : BookTurn l l') : Booked l' := by
  cases ht with
  | keeps hids hgrow => exact h.keeps hids hgrow
  | accepts k r o hk hplaced hpath hcalls hbook =>
    have hgrow : l.CallsGrow l' := .decide hk hcalls
    have hids : l'.book.map Order.clientOrderId =
        l.book.map Order.clientOrderId ++ [o.clientOrderId] := by rw [hbook, List.map_append]; rfl
    constructor
    · intro c hc
      rw [hids, List.mem_append, List.mem_singleton] at hc
      rcases hc with hc | rfl
      · obtain ⟨j, x, hj, hp, hpath', hflight⟩ := h.placed c hc
        obtain ⟨y, hy, hreq, hfate⟩ := hgrow j x hj
        exact ⟨j, y, hy, hreq ▸ hp, hreq ▸ hpath', hfate hflight ▸ hflight⟩
      · refine ⟨k, ⟨r, .answered o.response⟩, ?_, hplaced, hpath, rfl⟩
        rw [hcalls]
        exact List.getElem?_set_self (List.getElem?_eq_some_iff.mp hk).1
    · rw [hbook]
      refine TradeTable.nodup_concat h.distinct ?_
      intro o' ho' heq
      -- an order held already was created by another POST, which was decided before
      obtain ⟨j, x, hj, hp, -, hflight⟩ := h.placed _ (List.mem_map_of_mem ho')
      rw [heq] at hp
      obtain rfl := Ledger.call_unique (honce _) hj hk hp hplaced
      rw [hk] at hj
      cases hj
      cases hflight

end Booked

theorem booked_of_run {env : Deployment} {D : Pool (service env) → Label (service env) → Prop}
    {users : List User} {clock : DateTime} {ls : List (Label (service env))}
    {P : Pool (service env)}
    (h : Run (service env).system D (Pool.idle (.initial users clock)) ls P) :
    Booked P.shared.toLedger := by
  obtain ⟨-, -, -, hB⟩ := invariant_of_run (J := fun w _ => Booked w.toLedger) h (Sound.found _)
    ⟨fun _ hc => (by cases hc), List.nodup_nil⟩
    (fun P g i c tag q m o r w' _ _ _ hJ ha =>
      hJ.keeps (congrArg _ (book_exec ha.exec)) (turn_of_exec ha.permits ha.exec).callsGrow)
    (fun P g e x _ _ hs hJ hx => hJ.turn hs.postedOnce (bookTurn_of_react hx))
  exact hB

/-- **The exchange holds what was asked for, once.** In every run:

* every order the exchange holds is the order of a signal that was received and valid, whose row
  is committed and claimed, and of one POST to `/api/v3/order`, which the exchange has decided;
* it holds one order at most under a client order id, and no more orders than there are ids of
  received signals;
* in dry-run mode it holds none. -/
theorem orders_held_are_asked (env : Deployment) {users : List User} {clock : DateTime}
    {ls : List (Label (service env))} {P : Pool (service env)}
    (h : Run (service env).system unguarded (Pool.idle (.initial users clock)) ls P) :
    (∀ o ∈ P.shared.book, ∃ payload, ∃ row ∈ P.shared.trades.rows,
      FromSignal env P.shared.toLedger row payload ∧ row.submittedAt.isSome ∧
      row.clientOrderId = o.clientOrderId ∧
      o.clientOrderId = buildClientOrderId env payload.signalId ∧
      ∃ (k : Nat) (x : Call), P.shared.calls[k]? = some x ∧ x.fate.isInFlight = false ∧
        ∃ text, formatDecimal row.quantity = some text ∧ x.request = orderFor env row text ∧
          x.request.path = orderPath) ∧
    (P.shared.book.map Order.clientOrderId).Nodup ∧
    P.shared.book.length ≤
      (P.shared.toLedger.received.map TradingViewWebhookPayload.signalId).dedup.length ∧
    (env.settings.binanceDryRun = true → P.shared.book = []) := by
  obtain ⟨g, hs, hA⟩ := accepted_of_run h
  have hB := booked_of_run h
  have horigin : ∀ o ∈ P.shared.book, ∃ payload, ∃ row ∈ P.shared.trades.rows,
      FromSignal env P.shared.toLedger row payload ∧ row.submittedAt.isSome ∧
      row.clientOrderId = o.clientOrderId ∧
      o.clientOrderId = buildClientOrderId env payload.signalId ∧
      ∃ (k : Nat) (x : Call), P.shared.calls[k]? = some x ∧ x.fate.isInFlight = false ∧
        ∃ text, formatDecimal row.quantity = some text ∧ x.request = orderFor env row text ∧
          x.request.path = orderPath := by
    intro o ho
    obtain ⟨k, x, hk, hplaced, hpath, hflight⟩ := hB.placed _ (List.mem_map_of_mem ho)
    have hpost : x.request.method = .post := by
      by_contra hne
      rw [HttpRequest.placed?, if_neg hne] at hplaced
      cases hplaced
    obtain ⟨row, hrow, text, hclaimed, htext, hrequest⟩ :=
      hs.placed x.request (List.mem_map_of_mem (List.mem_of_getElem? hk)) hpost
    have hcid : row.clientOrderId = o.clientOrderId := by
      rw [hrequest, orderFor, orderRequest_placed?] at hplaced
      exact Option.some.inj hplaced
    obtain ⟨payload, hfrom⟩ := hA.rows row hrow
    exact ⟨payload, row, hrow, hfrom, hclaimed, hcid, hcid.symm.trans (fromSignal_terms hfrom).1,
      k, x, hk, hflight, text, htext, hrequest, hpath⟩
  refine ⟨horigin, hB.distinct, ?_, ?_⟩
  · rw [← List.length_map (f := buildClientOrderId env)]
    refine length_le_of_keys hB.distinct ?_
    intro o ho
    obtain ⟨payload, row, -, hfrom, -, -, hcid, -⟩ := horigin o ho
    rw [hcid]
    refine List.mem_map_of_mem ?_
    rw [List.mem_dedup]
    exact List.mem_map_of_mem (Ledger.mem_received.mpr hfrom.1)
  · intro hdry
    cases hbook : P.shared.book with
    | nil => rfl
    | cons o rest =>
      obtain ⟨payload, row, -, -, -, -, -, k, x, -, -, text, -, hrequest, hpath⟩ :=
        horigin o (hbook ▸ List.mem_cons_self)
      rw [hrequest, orderFor, orderRequest_path, hdry] at hpath
      cases hpath

/-- The order of the sample run is held. -/
theorem orders_held_are_asked_placed :
    ∃ P, Run (service Sample.inline).system unguarded (Sample.start _) Sample.placed P ∧
      P.shared.book = [Sample.filled] ∧
      P.shared.book.length ≤
        (P.shared.toLedger.received.map TradingViewWebhookPayload.signalId).dedup.length := by
  have h := System.run_get Sample.placed_follows
  refine ⟨_, h, ?_, (orders_held_are_asked Sample.inline h).2.2.1⟩
  decide +kernel

end AutoTrader
