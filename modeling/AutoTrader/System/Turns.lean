import AutoTrader.System.SoundSteps

/-!
# What a step does to a thread's phase and to the calls

`Turn` lists the ways in which one operation can move a thread from phase to phase, each
with what it does to the ledger. A call keeps its request and, once it is decided, its
fate; at most one call places an order under a client order id.
-/

namespace AutoTrader

open Python Coroutine Transition

/-- The phase of thread `i` before and after an operation, and what comes with it. -/
inductive Turn (env : Deployment) (i : Nat) (o : Op) (c : Choice) (w w' : World) :
    Phase → Phase → Prop
  | stays {phase : Phase} (calls : w'.calls = w.calls) : Turn env i o c w w' phase phase
  | leaves {phase phase' : Phase} (free : phase' = .idle ∨ phase' = .over)
      (calls : w'.calls = w.calls) : Turn env i o c w w' phase phase'
  | wins {row : Trade} {now : DateTime} (operation : o = .claim row.id now) (choice : c = .done)
      (mem : row ∈ w.trades.rows) (unsent : row.unsent = true)
      (ledger : w'.toLedger = w.toLedger.claim i row.id now) :
      Turn env i o c w w' .idle (.won row.id)
  | reloads {t : Trade} (operation : o = .get t.id) (choice : c = .done) (mem : t ∈ w.trades.rows)
      (world : w' = w) :
      Turn env i o c w w' (.won t.id) (.holding t)
  | announces {t : Trade} {text : String} (written : formatDecimal t.quantity = some text)
      (calls : w'.calls = w.calls) :
      Turn env i o c w w' (.holding t) (.calling t)
  | posts {t : Trade} {text : String}
      (ledger : w'.toLedger = w.toLedger.send (orderFor env t text)) :
      Turn env i o c w w' (.calling t) (.posted t w.calls.length)
  | hears {t : Trade} {k : Nat} {outcome : Transport} (operation : o = .receive k) (world : w' = w)
      (choice : c = .reply outcome ∨ ∃ request r,
        w.calls[k]? = some ⟨request, .answered r⟩ ∧ outcome = .response r) :
      Turn env i o c w w' (.posted t k) (.replied t outcome)
  | asks {phase : Phase} {t : Trade} (relaxed : phase.relaxed) (opened : t.isTerminal = false)
      (ledger : w'.toLedger = w.toLedger.send (queryRequest t.symbol t.clientOrderId)) :
      Turn env i o c w w' phase (.asked t w.calls.length)
  | learns {t : Trade} {k : Nat} {outcome : Transport} (operation : o = .receive k) (world : w' = w)
      (choice : c = .reply outcome ∨ ∃ request r,
        w.calls[k]? = some ⟨request, .answered r⟩ ∧ outcome = .response r) :
      Turn env i o c w w' (.asked t k) (.answered t outcome)

section Turn

variable {env : Deployment} {i : Nat} {tag : Tag} {c : Choice} {w w' : World} {q : Stance}
  {m : Move} {o : Op} {r : o.Res}

theorem Turn.of_commit (hc : w'.calls = w.calls) (t : Trade) (e : Edits)
    (r : Except CommitError DateTime) :
    Turn env i o c w w' q.phase (q.next m (.commit t e) r).phase := by
  cases hq : q.phase with
  | answered t' outcome =>
    have hnext : (q.next m (.commit t e) r).phase = .idle := by simp [Stance.next, hq]
    rw [hnext]
    exact .leaves (Or.inl rfl) hc
  | _ =>
    have hnext : (q.next m (.commit t e) r).phase = q.phase := by simp [Stance.next, hq]
    rw [hnext, hq]
    exact .stays hc

/-- Everything an operation can do to the phase of its thread. -/
theorem turn_of_exec (hp : q.permits env m o) (hx : exec env i tag w o c = some (r, w')) :
    Turn env i o c w w' q.phase (q.next m o r).phase := by
  cases o with
  | claim id now =>
    rcases exec_claim hx with ⟨rfl, hr⟩ | ⟨row, hrow, rfl, hunsent, rfl | rfl, rfl⟩
    · rw [Stance.next_claim q m id now hr]
      exact .stays rfl
    · cases m with
      | ask _ => exact hp.elim
      | plain =>
        rw [show q.phase = .idle from hp]
        exact .wins rfl (exec_claim_won hx) hrow hunsent rfl
    · exact .stays rfl
  | get id =>
    cases m with
    | ask _ => exact hp.elim
    | plain =>
      obtain ⟨rfl, rfl | rfl⟩ := exec_get hx
      · cases hrow : w'.trades.find? id with
        | none => exact .leaves (Or.inr rfl) rfl
        | some t =>
          obtain ⟨hmem, rfl⟩ := TradeTable.find?_eq_some.mp hrow
          rw [show q.phase = .won t.id from hp]
          exact .reloads rfl (exec_get_done hx) hmem rfl
      · exact .leaves (Or.inr rfl) rfl
  | getForUser user id =>
    obtain ⟨rfl, rfl | rfl⟩ := exec_getForUser hx
    · cases hrow : (w'.trades.find? id).filter fun t => t.userId = user with
      | none => exact .stays rfl
      | some t => exact .stays rfl
    · exact .stays rfl
  | selectReconcilable cutoff limit =>
    obtain ⟨rfl, rfl | rfl⟩ := exec_selectReconcilable hx
    · exact .stays rfl
    · exact .stays rfl
  | insert n =>
    refine .stays ?_
    rcases exec_insert hx with rfl | ⟨hfit, rfl⟩
    · rfl
    · rfl
  | commit t e =>
    refine .of_commit ?_ t e r
    rcases exec_commit hx with ⟨rfl, -⟩ | ⟨rfl, -⟩
    · rfl
    · rfl
  | send request =>
    obtain ⟨rfl, rfl⟩ := exec_send hx
    cases m with
    | ask t =>
      obtain ⟨hrelaxed, -, hopen, rfl⟩ := hp
      exact .asks hrelaxed hopen rfl
    | plain =>
      obtain ⟨t, text, hq, -, rfl⟩ := hp
      have hnext : (q.next .plain (.send (orderFor env t text)) w.calls.length).phase =
          .posted t w.calls.length := by simp [Stance.next, hq]
      rw [hnext, hq]
      exact .posts rfl
  | receive k =>
    cases m with
    | ask _ => exact hp.elim
    | plain =>
      obtain ⟨rfl, hr⟩ := exec_receive hx
      obtain ⟨t, hq | hq⟩ := hp
      · simp only [Stance.next, hq]
        exact .hears rfl rfl hr
      · simp only [Stance.next, hq]
        exact .learns rfl rfl hr
  | log record =>
    obtain rfl := exec_log hx
    cases record with
    | orderRequest path side symbol quantity clientOrderId =>
      cases m with
      | ask _ => exact hp.elim
      | plain =>
        obtain ⟨t, text, hq, htext, -⟩ := hp
        simp only [Stance.next, hq]
        exact .announces htext rfl
    | _ => exact .stays rfl
  | _ => exact .stays (congrArg Ledger.calls (exec_of_not_writes rfl hx))

/-- The copy a thread asks about, from the query to its answer. -/
def Phase.asks? : Phase → Option Trade
  | .asked t _ | .answered t _ => some t
  | _ => none

/-- Nobody asks about a copy that is settled. -/
theorem Turn.asks_open {phase phase' : Phase} (h : Turn env i o c w w' phase phase')
    (hopen : ∀ t, phase.asks? = some t → t.isTerminal = false) :
    ∀ t, phase'.asks? = some t → t.isTerminal = false := by
  intro t ht
  cases h with
  | stays => exact hopen t ht
  | leaves hfree =>
    rcases hfree with rfl | rfl <;> cases ht
  | asks _ hopened =>
    cases ht
    exact hopened
  | learns => exact hopen t ht
  | wins | reloads | announces | posts | hears => cases ht

/-- Whoever asks about a trade does so for a copy that is not settled. -/
def AsksOpen (g : Stances) : Prop :=
  ∀ i q t, g i = some q → q.phase.asks? = some t → t.isTerminal = false

theorem AsksOpen.act {g : Stances} {q' : Stance} (h : AsksOpen g) (hi : g i = some q)
    (hturn : Turn env i o c w w' q.phase q'.phase) : AsksOpen (Function.update g i (some q')) := by
  intro j p t hj hp
  rcases update_eq_some hj with ⟨rfl, rfl⟩ | ⟨-, hj⟩
  · exact hturn.asks_open (fun t ht => h j q t hi ht) t hp
  · exact h j p t hj hp

theorem AsksOpen.event {P : Pool (service env)} {x : Reaction World Tag} {g : Stances}
    (h : AsksOpen g) : AsksOpen (ghostsAfter (conduct env) startStance P x g) := by
  intro j p t hj hp
  rcases ghostsAfter_cases hj with hj | ⟨tag, -, rfl⟩
  · exact h j p t hj hp
  · cases hp

/-- Operations leave the orders of the exchange alone. -/
theorem book_exec (hx : exec env i tag w o c = some (r, w')) : w'.book = w.book := by
  cases o with
  | insert n =>
    rcases exec_insert hx with rfl | ⟨hfit, rfl⟩
    · rfl
    · rfl
  | claim id now =>
    rcases exec_claim hx with ⟨rfl, -⟩ | ⟨row, -, -, -, -, rfl⟩
    · rfl
    · rfl
  | commit t e =>
    rcases exec_commit hx with ⟨rfl, -⟩ | ⟨rfl, -⟩
    · rfl
    · rfl
  | send request =>
    obtain ⟨-, rfl⟩ := exec_send hx
    rfl
  | log record =>
    obtain rfl := exec_log hx
    rfl
  | _ => exact congrArg Ledger.book (exec_of_not_writes rfl hx)

end Turn

/-! ## Calls -/

namespace Ledger

/-- Calls are kept with their requests, and with their fates once these are decided. -/
def CallsGrow (l l' : Ledger) : Prop :=
  ∀ (k : Nat) (x : Call), l.calls[k]? = some x →
    ∃ y : Call, l'.calls[k]? = some y ∧ y.request = x.request ∧ (x.fate.isInFlight = false → y.fate = x.fate)

theorem CallsGrow.of_eq {l l' : Ledger} (h : l'.calls = l.calls) : l.CallsGrow l' :=
  fun k x hx => ⟨x, by rwa [h], rfl, fun _ => rfl⟩

theorem CallsGrow.send (l : Ledger) (r : HttpRequest) : l.CallsGrow (l.send r) := by
  intro k x hx
  refine ⟨x, ?_, rfl, fun _ => rfl⟩
  rw [Ledger.send, List.getElem?_append_left (List.getElem?_eq_some_iff.mp hx).1]
  exact hx

theorem CallsGrow.decide {l l' : Ledger} {k : Nat} {r : HttpRequest} {f : Fate}
    (hk : l.calls[k]? = some ⟨r, .inFlight⟩) (h : l'.calls = l.calls.set k ⟨r, f⟩) :
    l.CallsGrow l' := by
  intro j x hx
  rw [h]
  by_cases hj : k = j
  · subst hj
    rw [hk] at hx
    cases hx
    exact ⟨⟨r, f⟩, List.getElem?_set_self (List.getElem?_eq_some_iff.mp hk).1, rfl,
      fun hf => by cases hf⟩
  · exact ⟨x, by rwa [List.getElem?_set_ne hj], rfl, fun _ => rfl⟩

/-- What the exchange has denied stays denied. -/
theorem CallsGrow.denies {l l' : Ledger} (h : l.CallsGrow l') {k : Nat} {x : Call}
    (hk : l.calls[k]? = some x) (hx : x.denies = true) : l'.calls[k]? = some x := by
  obtain ⟨⟨request, fate⟩, hy, hreq, hfate⟩ := h k x hk
  have hdecided : x.fate.isInFlight = false := Call.decided_of_denies hx
  rw [hy, show request = x.request from hreq, show fate = x.fate from hfate hdecided]

/-- At most one call places an order under a client order id. -/
theorem call_unique {l : Ledger} {c : String} (h : l.posted c ≤ 1) {j k : Nat} {x y : Call}
    (hj : l.calls[j]? = some x) (hk : l.calls[k]? = some y) (hx : x.request.placed? = some c)
    (hy : y.request.placed? = some c) : j = k := by
  -- two places at which a list has what is counted, one before the other
  have hlt : ∀ {j k : Nat} {x y : Call}, l.calls[j]? = some x → l.calls[k]? = some y →
      x.request.placed? = some c → y.request.placed? = some c → ¬ j < k := by
    intro j k x y hj hk hx hy hlt
    have hsplit : l.posted c = ((l.calls.take k).map Call.request).countP
        (fun r => r.placed? = some c) + ((l.calls.drop k).map Call.request).countP
          fun r => r.placed? = some c := by
      rw [← List.countP_append, ← List.map_append, List.take_append_drop]
      rfl
    have hbefore : 0 < ((l.calls.take k).map Call.request).countP
        fun r => r.placed? = some c := by
      refine List.countP_pos_iff.mpr ⟨x.request, List.mem_map.mpr ⟨x, ?_, rfl⟩, decide_eq_true hx⟩
      refine List.mem_of_getElem? (i := j) ?_
      rw [List.getElem?_take, if_pos hlt]
      exact hj
    have hafter : 0 < ((l.calls.drop k).map Call.request).countP
        fun r => r.placed? = some c := by
      refine List.countP_pos_iff.mpr ⟨y.request, List.mem_map.mpr ⟨y, ?_, rfl⟩, decide_eq_true hy⟩
      refine List.mem_of_getElem? (i := 0) ?_
      rw [List.getElem?_drop, Nat.add_zero]
      exact hk
    omega
  exact Nat.le_antisymm (Nat.le_of_not_lt (hlt hk hj hy hx)) (Nat.le_of_not_lt (hlt hj hk hx hy))

end Ledger

theorem Turn.callsGrow {env : Deployment} {i : Nat} {o : Op} {c : Choice} {w w' : World}
    {phase phase' : Phase} (h : Turn env i o c w w' phase phase') :
    w.toLedger.CallsGrow w'.toLedger := by
  cases h with
  | stays h | leaves _ h | announces _ h => exact .of_eq h
  | wins _ _ _ _ h => exact .of_eq (by rw [h]; rfl)
  | reloads _ _ _ h | hears _ h | learns _ h => exact .of_eq (by rw [h])
  | posts h | asks _ _ h =>
    rw [h]
    exact .send _ _

/-- An event decides about one call at most, which was in flight, and creates an order only
for a request that places it. -/
theorem react_calls {env : Deployment} {w : World} {threads : List (Tag × Bool)} {e : Event}
    {x : Reaction World Tag} (hx : react env w threads e = some x) :
    (x.shared.calls = w.calls ∧
      ∀ o ∈ x.shared.book, ∃ o' ∈ w.book, o'.clientOrderId = o.clientOrderId) ∨
    ∃ k r f, w.calls[k]? = some ⟨r, .inFlight⟩ ∧ f.isInFlight = false ∧
      x.shared.calls = w.calls.set k ⟨r, f⟩ ∧
      ∀ o ∈ x.shared.book, o ∈ w.book ∨ (r.placed? = some o.clientOrderId ∧ f.isLost = false) := by
  cases e with
  | take p =>
    simp only [react] at hx
    split at hx
    · cases hx
    · split at hx
      · cases hx
        exact Or.inl ⟨rfl, fun o ho => ⟨o, ho, rfl⟩⟩
      · cases hx
  | arrive k v =>
    obtain ⟨l, hl, rfl⟩ := Option.map_eq_some_iff.mp hx
    simp only [Ledger.arrive] at hl
    split at hl
    · rename_i r hk
      obtain ⟨⟨book, answer⟩, hserve, rfl⟩ := Option.map_eq_some_iff.mp hl
      refine Or.inr ⟨k, r, .answered answer, hk, rfl, rfl, ?_⟩
      intro o ho
      change o ∈ book at ho
      cases v with
      | accept o' =>
        simp only [serve] at hserve
        split at hserve
        · rename_i hplaced
          cases hserve
          rcases List.mem_append.mp ho with ho | ho
          · exact Or.inl ho
          · rw [List.mem_singleton.mp ho]
            exact Or.inr ⟨hplaced.1, rfl⟩
        · cases hserve
      | validate =>
        simp only [serve] at hserve
        split at hserve
        · cases hserve
          exact Or.inl ho
        · cases hserve
      | lookup =>
        simp only [serve] at hserve
        split at hserve
        · cases hserve
        · split at hserve
          · cases hserve
            exact Or.inl ho
          · cases hserve
            exact Or.inl ho
      | refuse _ =>
        simp only [serve] at hserve
        split at hserve
        · cases hserve
          exact Or.inl ho
        · cases hserve
    · cases hl
  | lose k =>
    obtain ⟨l, hl, rfl⟩ := Option.map_eq_some_iff.mp hx
    simp only [Ledger.lose] at hl
    split at hl
    · rename_i r hk
      cases hl
      exact Or.inr ⟨k, r, .lost, hk, rfl, rfl, fun o ho => Or.inl ho⟩
    · cases hl
  | progress k o' =>
    obtain ⟨l, hl, rfl⟩ := Option.map_eq_some_iff.mp hx
    simp only [Ledger.progress] at hl
    split at hl
    · rename_i o'' hk
      split at hl
      · rename_i hmay
        cases hl
        refine Or.inl ⟨rfl, fun o ho => ?_⟩
        rcases List.mem_or_eq_of_mem_set ho with ho | rfl
        · exact ⟨o, ho, rfl⟩
        · refine ⟨o'', List.mem_of_getElem? hk, ?_⟩
          simp only [Order.mayBecome, Bool.and_eq_true, decide_eq_true_eq] at hmay
          exact hmay.1.1.1.1
      · cases hl
    · cases hl
  | _ =>
    cases hx
    exact Or.inl ⟨rfl, fun o ho => ⟨o, ho, rfl⟩⟩

theorem callsGrow_react {env : Deployment} {w : World} {threads : List (Tag × Bool)} {e : Event}
    {x : Reaction World Tag} (hx : react env w threads e = some x) :
    w.toLedger.CallsGrow x.shared.toLedger := by
  rcases react_calls hx with ⟨h, -⟩ | ⟨k, r, f, hk, -, h, -⟩
  · exact .of_eq h
  · exact .decide hk h

/-- A call that denies an order was decided before, or is a query that arrives now and finds
none. -/
theorem denies_react {env : Deployment} {w : World} {threads : List (Tag × Bool)} {e : Event}
    {x : Reaction World Tag} (hx : react env w threads e = some x) {y : Call}
    (hy : y ∈ x.shared.calls) (hdenies : y.denies = true) :
    y ∈ w.calls ∨ ∃ k c, e = .arrive k .lookup ∧ w.calls[k]? = some ⟨y.request, .inFlight⟩ ∧
      y.request.queried? = some c ∧ ∀ o ∈ w.book, o.clientOrderId ≠ c := by
  cases e with
  | arrive k v =>
    obtain ⟨l, hl, rfl⟩ := Option.map_eq_some_iff.mp hx
    simp only [Ledger.arrive] at hl
    split at hl
    · rename_i r hk
      obtain ⟨⟨book, answer⟩, hserve, rfl⟩ := Option.map_eq_some_iff.mp hl
      rcases List.mem_or_eq_of_mem_set hy with hy | rfl
      · exact Or.inl hy
      · simp only [Call.denies, Bool.and_eq_true] at hdenies
        obtain ⟨hquery, habsent⟩ := hdenies
        obtain ⟨c, hc⟩ := Option.isSome_iff_exists.mp hquery
        cases v with
        | accept o =>
          simp only [serve] at hserve
          split at hserve
          · cases hserve
            rw [Order.not_saysAbsent] at habsent
            cases habsent
          · cases hserve
        | validate =>
          simp only [serve] at hserve
          split at hserve
          · cases hserve
            cases habsent
          · cases hserve
        | lookup =>
          simp only [serve, hc] at hserve
          split at hserve
          · cases hserve
            rw [Order.not_saysAbsent] at habsent
            cases habsent
          · rename_i hnone
            exact Or.inr ⟨k, c, rfl, hk, hc, fun o ho hcid =>
              absurd (List.find?_eq_none.mp hnone o ho) (by simp [hcid])⟩
        | refuse _ =>
          simp only [serve] at hserve
          split at hserve
          · rename_i hrefuse
            cases hserve
            rw [hrefuse.2.2] at habsent
            cases habsent
          · cases hserve
    · cases hl
  | lose k =>
    obtain ⟨l, hl, rfl⟩ := Option.map_eq_some_iff.mp hx
    simp only [Ledger.lose] at hl
    split at hl
    · cases hl
      rcases List.mem_or_eq_of_mem_set hy with hy | rfl
      · exact Or.inl hy
      · cases hdenies
    · cases hl
  | progress k o =>
    obtain ⟨l, hl, rfl⟩ := Option.map_eq_some_iff.mp hx
    simp only [Ledger.progress] at hl
    split at hl
    · split at hl
      · cases hl
        exact Or.inl hy
      · cases hl
    · cases hl
  | take p =>
    simp only [react] at hx
    split at hx
    · cases hx
    · split at hx
      · cases hx
        exact Or.inl hy
      · cases hx
  | _ =>
    cases hx
    exact Or.inl hy

end AutoTrader
