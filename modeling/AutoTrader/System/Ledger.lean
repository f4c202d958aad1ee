import AutoTrader.System.World

/-!
# Reading the ledger

What the log and the calls say about one client order id, and how rows grow: a row is
never removed, its terms never change, and its claim is never taken back.
-/

namespace AutoTrader

open Python Coroutine

/-- The client order id of the order a log line announces. -/
def LogRecord.announced? : LogRecord → Option String
  | .orderRequest _ _ _ _ clientOrderId => some clientOrderId
  | _ => none

namespace Ledger

def requests (l : Ledger) : List HttpRequest := l.calls.map Call.request

/-- How often `place_market_order` was called for a client order id. -/
def announced (l : Ledger) (clientOrderId : String) : Nat :=
  l.logs.countP fun r => r.announced? = some clientOrderId

/-- How many POSTs were made for a client order id. -/
def posted (l : Ledger) (clientOrderId : String) : Nat :=
  l.requests.countP fun r => r.placed? = some clientOrderId

/-- A copy is backed by a row on the columns that never change, and on the claim. -/
def Backs (l : Ledger) (t : Trade) : Prop :=
  ∃ r ∈ l.trades.rows, r.terms = t.terms ∧ (t.submittedAt.isSome → r.submittedAt.isSome)

/-- Rows are kept, with their terms and their claim. -/
def Grows (l l' : Ledger) : Prop := ∀ r ∈ l.trades.rows, l'.Backs r

theorem Grows.refl (l : Ledger) : l.Grows l := fun r hr => ⟨r, hr, rfl, id⟩

theorem Backs.mono {l l' : Ledger} {t : Trade} (h : l.Backs t) (hg : l.Grows l') : l'.Backs t := by
  obtain ⟨r, hr, hterms, hsub⟩ := h
  obtain ⟨r', hr', hterms', hsub'⟩ := hg r hr
  exact ⟨r', hr', hterms'.trans hterms, fun hs => hsub' (hsub hs)⟩

theorem Grows.insert (l : Ledger) (row : Trade) (h : l.trades.Fits row) :
    l.Grows (l.insert row h) := fun r hr =>
  ⟨r, (TradeTable.mem_insert (h := h)).mpr (Or.inl hr), rfl, id⟩

theorem Grows.claim (l : Ledger) (thread : Nat) (id : TradeId) (now : DateTime) :
    l.Grows (l.claim thread id now) := by
  intro r hr
  refine ⟨_, TradeTable.mem_update.mpr ⟨r, hr, rfl⟩, ?_, ?_⟩
  · split <;> rfl
  · intro hs
    split
    · rfl
    · exact hs

theorem Grows.record (l : Ledger) (loaded : Trade) (edits : Edits) (now : DateTime) :
    l.Grows (l.record loaded edits now) := by
  intro r hr
  refine ⟨_, TradeTable.mem_update.mpr ⟨r, hr, rfl⟩, ?_, ?_⟩
  · split <;> rfl
  · intro hs
    split
    · exact hs
    · exact hs

theorem announced_log (l : Ledger) (r : LogRecord) (c : String) :
    (l.log r).announced c = l.announced c + if r.announced? = some c then 1 else 0 := by
  simp [Ledger.announced, Ledger.log, List.countP_append, List.countP_cons]

theorem posted_send (l : Ledger) (x : HttpRequest) (c : String) :
    (l.send x).posted c = l.posted c + if x.placed? = some c then 1 else 0 := by
  simp [Ledger.posted, Ledger.requests, Ledger.send, List.countP_append, List.countP_cons]

theorem backs_of_mem {l : Ledger} {t : Trade} (ht : t ∈ l.trades.rows) : l.Backs t :=
  ⟨t, ht, rfl, id⟩

theorem requests_set {l : Ledger} {k : Nat} {r : HttpRequest} {f f' : Fate}
    (hk : l.calls[k]? = some ⟨r, f⟩) (book : List Order) :
    ({ l with calls := l.calls.set k ⟨r, f'⟩, book := book } : Ledger).requests = l.requests := by
  obtain ⟨hlen, hget⟩ := List.getElem?_eq_some_iff.mp hk
  simp only [Ledger.requests, List.map_set]
  refine List.ext_getElem? fun j => ?_
  by_cases hj : j = k
  · subst hj
    simp [hlen, hget]
  · rw [List.getElem?_set_ne (Ne.symm hj)]

end Ledger

/-- Events leave rows, requests and log lines as they are, and add to the history a signal
that is received. -/
theorem react_ledger {env : Deployment} {w : World} {threads : List (Tag × Bool)} {e : Event}
    {x : Reaction World Tag} (hx : react env w threads e = some x) :
    x.shared.trades = w.trades ∧ x.shared.toLedger.requests = w.toLedger.requests ∧
      x.shared.logs = w.logs ∧ (x.shared.history = w.history ∨
        ∃ p payload, e = .webhook p payload ∧ x.spawn = some ⟨p, .request payload⟩ ∧
          x.shared.history = w.history ++ [.received payload]) := by
  cases e with
  | webhook p payload =>
    cases hx
    exact ⟨rfl, rfl, rfl, Or.inr ⟨p, payload, rfl, rfl, rfl⟩⟩
  | take p =>
    simp only [react] at hx
    split at hx
    · cases hx
    · split at hx
      · cases hx
        exact ⟨rfl, rfl, rfl, Or.inl rfl⟩
      · cases hx
  | arrive k v =>
    obtain ⟨l, hl, rfl⟩ := Option.map_eq_some_iff.mp hx
    simp only [Ledger.arrive] at hl
    split at hl
    · rename_i r hk
      obtain ⟨y, -, rfl⟩ := Option.map_eq_some_iff.mp hl
      exact ⟨rfl, Ledger.requests_set hk _, rfl, Or.inl rfl⟩
    · cases hl
  | lose k =>
    obtain ⟨l, hl, rfl⟩ := Option.map_eq_some_iff.mp hx
    simp only [Ledger.lose] at hl
    split at hl
    · rename_i r hk
      cases hl
      exact ⟨rfl, Ledger.requests_set hk _, rfl, Or.inl rfl⟩
    · cases hl
  | progress k o =>
    obtain ⟨l, hl, rfl⟩ := Option.map_eq_some_iff.mp hx
    simp only [Ledger.progress] at hl
    split at hl
    · split at hl
      · cases hl
        exact ⟨rfl, rfl, rfl, Or.inl rfl⟩
      · cases hl
    · cases hl
  | _ =>
    cases hx
    exact ⟨rfl, rfl, rfl, Or.inl rfl⟩

/-- A thread that an event starts for a request has its signal received. -/
theorem react_request {env : Deployment} {w : World} {threads : List (Tag × Bool)} {e : Event}
    {x : Reaction World Tag} (hx : react env w threads e = some x) {p : Nat}
    {payload : TradingViewWebhookPayload} (hs : x.spawn = some ⟨p, .request payload⟩) :
    e = .webhook p payload := by
  cases e with
  | webhook p' payload' =>
    cases hx
    cases hs
    rfl
  | take p' =>
    simp only [react] at hx
    split at hx
    · cases hx
    · split at hx
      · cases hx
        cases hs
      · cases hx
  | arrive | lose | progress =>
    obtain ⟨l, -, rfl⟩ := Option.map_eq_some_iff.mp hx
    cases hs
  | _ =>
    cases hx
    cases hs

/-! ## Steps -/

theorem history_exec {env : Deployment} {i : Nat} {tag : Tag} {w w' : World} {o : Op} {c : Choice}
    {r : o.Res} (hx : exec env i tag w o c = some (r, w')) : w.history ⊆ w'.history := by
  cases o with
  | insert n =>
    rcases exec_insert hx with rfl | ⟨hfit, rfl⟩
    · exact List.Subset.refl _
    · exact List.subset_append_left _ _
  | claim id now =>
    rcases exec_claim hx with ⟨rfl, -⟩ | ⟨row, -, -, -, -, rfl⟩
    · exact List.Subset.refl _
    · exact List.subset_append_left _ _
  | commit t e =>
    rcases exec_commit hx with ⟨rfl, -⟩ | ⟨rfl, -⟩
    · exact List.subset_append_left _ _
    · exact List.Subset.refl _
  | send request =>
    obtain ⟨-, rfl⟩ := exec_send hx
    exact List.Subset.refl _
  | log record =>
    obtain rfl := exec_log hx
    exact List.Subset.refl _
  | _ =>
    rw [exec_of_not_writes rfl hx]
    exact List.Subset.refl _

/-- A row after an operation is a row before it with the same terms, or was just inserted. -/
theorem rows_exec {env : Deployment} {i : Nat} {tag : Tag} {w w' : World} {o : Op} {c : Choice}
    {r : o.Res} (hx : exec env i tag w o c = some (r, w')) :
    ∀ t ∈ w'.trades.rows, (∃ s ∈ w.trades.rows, t.terms = s.terms) ∨
      ∃ n, o = .insert n ∧ t = n.row w.nextTradeId w.clock ∧ .inserted t ∈ w'.history := by
  have hsame : w'.trades = w.trades → ∀ t ∈ w'.trades.rows, (∃ s ∈ w.trades.rows,
      t.terms = s.terms) ∨ ∃ n, o = .insert n ∧ t = n.row w.nextTradeId w.clock ∧
        .inserted t ∈ w'.history := by
    intro h t ht
    rw [h] at ht
    exact Or.inl ⟨t, ht, rfl⟩
  cases o with
  | insert n =>
    rcases exec_insert hx with rfl | ⟨hfit, rfl⟩
    · exact hsame rfl
    · intro t ht
      rcases (TradeTable.mem_insert (h := hfit)).mp ht with ht | rfl
      · exact Or.inl ⟨t, ht, rfl⟩
      · exact Or.inr ⟨n, rfl, rfl, List.mem_append_right _ List.mem_cons_self⟩
  | claim id now =>
    rcases exec_claim hx with ⟨rfl, -⟩ | ⟨row, -, -, -, -, rfl⟩
    · exact hsame rfl
    · intro t ht
      obtain ⟨s, hs, rfl⟩ := TradeTable.mem_update.mp ht
      refine Or.inl ⟨s, hs, ?_⟩
      split <;> rfl
  | commit loaded e =>
    rcases exec_commit hx with ⟨rfl, -⟩ | ⟨rfl, -⟩
    · intro t ht
      obtain ⟨s, hs, rfl⟩ := TradeTable.mem_update.mp ht
      refine Or.inl ⟨s, hs, ?_⟩
      split <;> rfl
    · exact hsame rfl
  | send request =>
    obtain ⟨-, rfl⟩ := exec_send hx
    exact hsame rfl
  | log record =>
    obtain rfl := exec_log hx
    exact hsame rfl
  | _ => exact hsame (by rw [exec_of_not_writes rfl hx])

theorem grows_exec {env : Deployment} {i : Nat} {tag : Tag} {w w' : World} {o : Op} {c : Choice}
    {r : o.Res} (hx : exec env i tag w o c = some (r, w')) : w.toLedger.Grows w'.toLedger := by
  cases o with
  | insert n =>
    rcases exec_insert hx with rfl | ⟨hfit, rfl⟩
    · exact .refl _
    · exact .insert _ _ hfit
  | claim id now =>
    rcases exec_claim hx with ⟨rfl, -⟩ | ⟨row, -, -, -, -, rfl⟩
    · exact .refl _
    · exact .claim _ _ _ _
  | commit t e =>
    rcases exec_commit hx with ⟨rfl, -⟩ | ⟨rfl, -⟩
    · exact .record _ _ _ _
    · exact .refl _
  | send request =>
    obtain ⟨-, rfl⟩ := exec_send hx
    exact .refl _
  | log record =>
    obtain rfl := exec_log hx
    exact .refl _
  | _ =>
    rw [exec_of_not_writes rfl hx]
    exact .refl _

theorem grows_step {env : Deployment} {P Q : Pool (service env)} {l : Label (service env)}
    (h : (service env).system.step P l = some Q) : P.shared.toLedger.Grows Q.shared.toLedger := by
  cases l with
  | act i c =>
    obtain ⟨tag, o, next, r, w, -, hx, rfl⟩ := Host.step_act h
    exact grows_exec hx
  | event e =>
    obtain ⟨x, hx, rfl⟩ := Host.step_event h
    obtain ⟨ht, -⟩ := react_ledger hx
    intro r hr
    exact ⟨r, by rwa [show (P.afterEvent x).shared.trades = _ from ht], rfl, id⟩

/-- An operation that makes a request does nothing else to the ledger. -/
theorem exec_of_send {env : Deployment} {i : Nat} {tag : Tag} {w w' : World} {o : Op} {c : Choice}
    {r : o.Res} (hx : exec env i tag w o c = some (r, w'))
    (hne : w'.toLedger.requests ≠ w.toLedger.requests) :
    w'.trades = w.trades ∧ w'.history = w.history := by
  cases o with
  | insert n =>
    rcases exec_insert hx with rfl | ⟨hfit, rfl⟩ <;> exact absurd rfl hne
  | claim id now =>
    rcases exec_claim hx with ⟨rfl, -⟩ | ⟨row, -, -, -, -, rfl⟩ <;> exact absurd rfl hne
  | commit t e =>
    rcases exec_commit hx with ⟨rfl, -⟩ | ⟨rfl, -⟩ <;> exact absurd rfl hne
  | send request =>
    obtain ⟨-, rfl⟩ := exec_send hx
    exact ⟨rfl, rfl⟩
  | log record =>
    obtain rfl := exec_log hx
    exact absurd rfl hne
  | _ => exact absurd (congrArg Ledger.requests (exec_of_not_writes rfl hx)) hne

theorem step_of_send {env : Deployment} {P Q : Pool (service env)} {l : Label (service env)}
    {x : HttpRequest} (h : (service env).system.step P l = some Q)
    (hx : Q.shared.toLedger.requests = P.shared.toLedger.requests ++ [x]) :
    Q.shared.trades = P.shared.trades ∧ Q.shared.history = P.shared.history := by
  have hne : Q.shared.toLedger.requests ≠ P.shared.toLedger.requests := by
    rw [hx]
    simp
  cases l with
  | act i c =>
    obtain ⟨tag, o, next, r, w, -, hexec, rfl⟩ := Host.step_act h
    exact exec_of_send hexec hne
  | event e =>
    obtain ⟨y, hy, rfl⟩ := Host.step_event h
    exact absurd (react_ledger hy).2.1 hne

/-! ## One process -/

/-- The process an event is for. -/
def Event.process? : Event → Option Nat
  | .webhook p _ | .take p | .resume p | .reconcile p _ _ | .batch p _ _ | .crash p => some p
  | .cancel _ | .tick _ | .arrive _ _ | .lose _ | .progress _ _ => none

/-- Every thread is one of process `p`, and nothing is queued anywhere else. -/
structure Within {env : Deployment} (P : Pool (service env)) (p : Nat) : Prop where
  threads : ∀ t ∈ P.threads, t.tag.process = p
  queues : ∀ p', p' ≠ p → (P.shared.processes p').queue = []

/-- An operation changes no queue but the one of its process. -/
theorem queue_exec {env : Deployment} {i : Nat} {tag : Tag} {w w' : World} {o : Op} {c : Choice}
    {r : o.Res} (hx : exec env i tag w o c = some (r, w')) {p : Nat} (hp : p ≠ tag.process) :
    (w'.processes p).queue = (w.processes p).queue := by
  cases o with
  | insert n =>
    rcases exec_insert hx with rfl | ⟨hfit, rfl⟩ <;> rfl
  | claim id now =>
    rcases exec_claim hx with ⟨rfl, -⟩ | ⟨row, -, -, -, -, rfl⟩ <;> rfl
  | commit t e =>
    rcases exec_commit hx with ⟨rfl, -⟩ | ⟨rfl, -⟩ <;> rfl
  | send request =>
    obtain ⟨-, rfl⟩ := exec_send hx
    rfl
  | receive k => rw [(exec_receive hx).1]
  | log record => rw [exec_log hx]
  | enqueue id =>
    have hw := exec_enqueue hx
    unfold execEnqueue at hw
    dsimp only at hw
    split at hw
    · cases hw
      simp [World.setProcess, hp]
    · cases hw
      rfl
  | cacheOwner id =>
    cases c <;> cases hx
    simp [World.setProcess, hp]
  | clock | cachedOwner =>
    cases c <;> cases hx
    rfl
  | selectOwner | selectBySignal | get | getForUser | selectUnsent | selectReconcilable =>
    cases c <;> cases hx <;> rfl

theorem Within.step {env : Deployment} {P Q : Pool (service env)} {p : Nat}
    {l : Label (service env)} (h : Within P p) (hs : (service env).system.step P l = some Q)
    (hl : ∀ e p', l = .event e → e.process? = some p' → p' = p) : Within Q p := by
  cases l with
  | act i c =>
    obtain ⟨tag, o, next, r, w, hi, hx, rfl⟩ := Host.step_act hs
    have htag : tag.process = p := h.threads _ (List.mem_of_getElem? hi)
    constructor
    · intro t ht
      rcases List.mem_or_eq_of_mem_set ht with ht | rfl
      · exact h.threads t ht
      · exact htag
    · intro p' hp'
      exact (queue_exec hx (htag ▸ hp')).trans (h.queues p' hp')
  | event e =>
    obtain ⟨x, hx, rfl⟩ := Host.step_event hs
    have hspawned : (∀ tag, x.spawn = some tag → tag.process = p) ∧
        ∀ p', p' ≠ p → (x.shared.processes p').queue = [] := by
      cases e with
      | take k =>
        obtain rfl := hl _ k rfl rfl
        simp only [react] at hx
        split at hx
        · cases hx
        · split at hx
          · cases hx
            refine ⟨(fun tag htag => by cases htag; rfl), fun p' hp' => ?_⟩
            rw [← h.queues p' hp']
            simp [spawn, World.setProcess, hp']
          · cases hx
      | crash k =>
        obtain rfl := hl _ k rfl rfl
        cases hx
        refine ⟨(fun tag htag => by cases htag), fun p' hp' => ?_⟩
        rw [← h.queues p' hp']
        simp [World.setProcess, hp']
      | webhook k payload | resume k | reconcile k user id | batch k seconds limit =>
        obtain rfl := hl _ k rfl rfl
        cases hx
        exact ⟨(fun tag htag => by cases htag; rfl), h.queues⟩
      | cancel | tick =>
        cases hx
        exact ⟨(fun tag htag => by cases htag), h.queues⟩
      | arrive | lose | progress =>
        obtain ⟨l, -, rfl⟩ := Option.map_eq_some_iff.mp hx
        exact ⟨(fun tag htag => by cases htag), h.queues⟩
    refine ⟨fun t ht => ?_, hspawned.2⟩
    simp only [Pool.afterEvent, List.mem_append, Option.mem_toList, Option.map_eq_some_iff] at ht
    rcases ht with hold | ⟨tag, htag, rfl⟩
    · obtain ⟨i, hi, rfl⟩ := List.mem_mapIdx.mp hold
      have htag : (Thread.after x.kill i P.threads[i]).tag = P.threads[i].tag := by
        unfold Thread.after
        split <;> rfl
      rw [htag]
      exact h.threads _ (List.getElem_mem hi)
    · exact hspawned.1 tag htag

end AutoTrader
