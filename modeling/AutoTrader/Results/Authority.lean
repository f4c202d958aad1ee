import AutoTrader.System.Duty
import AutoTrader.System.Queued
import AutoTrader.System.Sample

/-!
# Every thread keeps to its trade

Whatever runs at the same time, a step of a thread changes no row but one of its task: the row
of the signal, of the queued id, of the trade that was asked about. Only requests and executions
claim rows and place orders, and all trades belong to one account, the configured owner.
-/

namespace AutoTrader

open Python Coroutine Transition

namespace Task

/-- The trades a task is there for, by what was asked for in them. -/
def Owns : Task → Trade.Terms → Prop
  | .request payload, s => s.signalId = payload.signalId
  | .execute id, s => s.id = id
  | .reconcile user id, s => s.id = id ∧ s.userId = user
  | .batch _ _, _ => True
  | .resume, _ => False

/-- A task has this id in its hands. -/
def Holds (l : Ledger) : Task → TradeId → Prop
  | .request payload, id => ∃ r ∈ l.trades.rows, r.id = id ∧ r.signalId = payload.signalId
  | .execute id', id => id = id'
  | _, _ => True

theorem Holds.mono {l l' : Ledger} {task : Task} {id : TradeId} (h : task.Holds l id)
    (hg : l.Grows l') : task.Holds l' id := by
  cases task with
  | request payload =>
    obtain ⟨r, hr, hid, hsignal⟩ := h
    obtain ⟨r', hr', hterms, -⟩ := hg r hr
    exact ⟨r', hr', (congrArg Trade.Terms.id hterms).trans hid,
      (congrArg Trade.Terms.signalId hterms).trans hsignal⟩
  | _ => exact h

/-- A row whose id a submitting task has in its hands is its own. -/
theorem Holds.owns {l : Ledger} {task : Task} {r : Trade} (h : task.Holds l r.id)
    (htask : task.submits = true) (hr : r ∈ l.trades.rows) : task.Owns r.terms := by
  cases task with
  | request payload =>
    obtain ⟨r', hr', hid, hsignal⟩ := h
    rw [TradeTable.eq_of_id hr' hr hid] at hsignal
    exact hsignal
  | execute id => exact h
  | _ => cases htask

end Task

/-! ## Accounts -/

/-- Operations leave the accounts alone, and cache an owner only where they say so. -/
theorem owner_exec {env : Deployment} {i : Nat} {tag : Tag} {w w' : World} {o : Op} {c : Choice}
    {r : o.Res} (hx : exec env i tag w o c = some (r, w')) :
    w'.users = w.users ∧ ∀ p id, (w'.processes p).owner = some id →
      (w.processes p).owner = some id ∨ o = .cacheOwner id := by
  have hsame : w'.users = w.users ∧ w'.processes = w.processes → w'.users = w.users ∧
      ∀ p id, (w'.processes p).owner = some id →
        (w.processes p).owner = some id ∨ o = .cacheOwner id := by
    rintro ⟨husers, hprocesses⟩
    refine ⟨husers, fun p id hid => Or.inl ?_⟩
    rwa [hprocesses] at hid
  cases o with
  | insert n =>
    rcases exec_insert hx with rfl | ⟨hfit, rfl⟩ <;> exact hsame ⟨rfl, rfl⟩
  | claim id now =>
    rcases exec_claim hx with ⟨rfl, -⟩ | ⟨row, -, -, -, -, rfl⟩ <;> exact hsame ⟨rfl, rfl⟩
  | commit t e =>
    rcases exec_commit hx with ⟨rfl, -⟩ | ⟨rfl, -⟩ <;> exact hsame ⟨rfl, rfl⟩
  | send request =>
    obtain ⟨-, rfl⟩ := exec_send hx
    exact hsame ⟨rfl, rfl⟩
  | receive k =>
    obtain ⟨rfl, -⟩ := exec_receive hx
    exact hsame ⟨rfl, rfl⟩
  | log record =>
    obtain rfl := exec_log hx
    exact hsame ⟨rfl, rfl⟩
  | enqueue id =>
    have hw := exec_enqueue hx
    unfold execEnqueue at hw
    dsimp only at hw
    split at hw
    · cases hw
      refine ⟨rfl, fun p owner howner => Or.inl ?_⟩
      by_cases hp : p = tag.process
      · subst hp
        simpa [World.setProcess] using howner
      · simpa [World.setProcess, hp] using howner
    · cases hw
      exact hsame ⟨rfl, rfl⟩
  | cacheOwner id =>
    cases c <;> cases hx
    refine ⟨rfl, fun p owner howner => ?_⟩
    by_cases hp : p = tag.process
    · subst hp
      simp only [World.setProcess, Function.update_self, Option.some.injEq] at howner
      exact Or.inr (by rw [howner])
    · simp only [World.setProcess, Function.update_of_ne hp] at howner
      exact Or.inl howner
  | clock | cachedOwner =>
    cases c <;> cases hx
    exact hsame ⟨rfl, rfl⟩
  | selectOwner | selectBySignal | get | getForUser | selectUnsent | selectReconcilable =>
    cases c <;> cases hx <;> exact hsame ⟨rfl, rfl⟩

theorem owner_react {env : Deployment} {w : World} {threads : List (Tag × Bool)} {e : Event}
    {x : Reaction World Tag} (hx : react env w threads e = some x) :
    x.shared.users = w.users ∧ ∀ p id, (x.shared.processes p).owner = some id →
      (w.processes p).owner = some id := by
  cases e with
  | take p =>
    simp only [react] at hx
    split at hx
    · cases hx
    · split at hx
      · cases hx
        refine ⟨rfl, fun p' id hid => ?_⟩
        by_cases hp : p' = p
        · subst hp
          simpa [spawn, World.setProcess] using hid
        · simpa [spawn, World.setProcess, hp] using hid
      · cases hx
  | crash p =>
    cases hx
    refine ⟨rfl, fun p' id hid => ?_⟩
    by_cases hp : p' = p
    · subst hp
      simp [World.setProcess] at hid
    · simpa [World.setProcess, hp] using hid
  | arrive | lose | progress =>
    obtain ⟨l, -, rfl⟩ := Option.map_eq_some_iff.mp hx
    exact ⟨rfl, fun _ _ hid => hid⟩
  | _ =>
    cases hx
    exact ⟨rfl, fun _ _ hid => hid⟩

/-! ## The invariant -/

abbrev Duties := Nat → Option Duty

/-- What the threads hold, they hold by their task; and there is one owner. -/
structure Dutiful (env : Deployment) (users : List User) (w : World) (g : Duties) : Prop where
  accounts : w.users = users
  cached : ∀ p id, (w.processes p).owner = some id → registeredOwner env users = some id
  rows : ∀ r ∈ w.trades.rows, registeredOwner env users = some r.userId
  owner : ∀ i q, g i = some q → ∀ id, q.owner = some id → registeredOwner env users = some id
  ids : ∀ i q, g i = some q → ∀ id ∈ q.ids, q.task.Holds w.toLedger id
  copies : ∀ i q, g i = some q → ∀ s ∈ q.copies,
    q.task.Owns s ∧ ∃ r ∈ w.trades.rows, r.terms = s

/-- What one operation of a thread adds to its duty. -/
structure Duty.Extends (env : Deployment) (users : List User) (l : Ledger) (q q' : Duty) : Prop where
  task : q'.task = q.task
  owner : ∀ id, q'.owner = some id → q.owner = some id ∨ registeredOwner env users = some id
  ids : ∀ id ∈ q'.ids, id ∈ q.ids ∨ q.task.Holds l id
  copies : ∀ s ∈ q'.copies, s ∈ q.copies ∨ q.task.Owns s ∧ ∃ r ∈ l.trades.rows, r.terms = s

theorem Duty.Extends.refl {env : Deployment} {users : List User} {l : Ledger} (q : Duty) :
    Duty.Extends env users l q q :=
  ⟨rfl, fun _ h => Or.inl h, fun _ h => Or.inl h, fun _ h => Or.inl h⟩

namespace Dutiful

variable {env : Deployment} {users : List User} {w w' : World} {g : Duties} {i : Nat} {q q' : Duty}

theorem initial (env : Deployment) (users : List User) (clock : DateTime) :
    Dutiful env users (.initial users clock) fun _ => none where
  accounts := rfl
  cached _ _ h := by cases h
  rows _ h := by cases h
  owner _ _ h := by cases h
  ids _ _ h := by cases h
  copies _ _ h := by cases h

theorem step (h : Dutiful env users w g) (hi : g i = some q) (hgrow : w.toLedger.Grows w'.toLedger)
    (husers : w'.users = w.users)
    (hcached : ∀ p id, (w'.processes p).owner = some id → registeredOwner env users = some id)
    (hrows : ∀ r ∈ w'.trades.rows, registeredOwner env users = some r.userId)
    (hq : Duty.Extends env users w'.toLedger q q') :
    Dutiful env users w' (Function.update g i (some q')) := by
  have hkept : ∀ s, (∃ r ∈ w.trades.rows, r.terms = s) → ∃ r ∈ w'.trades.rows, r.terms = s := by
    rintro s ⟨r, hr, rfl⟩
    obtain ⟨r', hr', hterms, -⟩ := hgrow r hr
    exact ⟨r', hr', hterms⟩
  refine ⟨husers.trans h.accounts, hcached, hrows, ?_, ?_, ?_⟩
  · intro j p hj id hid
    rcases update_eq_some hj with ⟨rfl, rfl⟩ | ⟨-, hj⟩
    · rcases hq.owner id hid with hold | hnew
      · exact h.owner j q hi id hold
      · exact hnew
    · exact h.owner j p hj id hid
  · intro j p hj id hid
    rcases update_eq_some hj with ⟨rfl, rfl⟩ | ⟨-, hj⟩
    · rw [hq.task]
      rcases hq.ids id hid with hold | hnew
      · exact (h.ids j q hi id hold).mono hgrow
      · exact hnew
    · exact (h.ids j p hj id hid).mono hgrow
  · intro j p hj s hs
    rcases update_eq_some hj with ⟨rfl, rfl⟩ | ⟨-, hj⟩
    · rw [hq.task]
      rcases hq.copies s hs with hold | hnew
      · exact ⟨(h.copies j q hi s hold).1, hkept s (h.copies j q hi s hold).2⟩
      · exact hnew
    · exact ⟨(h.copies j p hj s hs).1, hkept s (h.copies j p hj s hs).2⟩

end Dutiful

/-- An INSERT that is acknowledged has made its row. -/
theorem exec_insert_ok {env : Deployment} {i : Nat} {tag : Tag} {w w' : World} {n : NewTrade}
    {c : Choice} {row : Trade} (hx : exec env i tag w (.insert n) c = some (.ok row, w')) :
    row = n.row w.nextTradeId w.clock ∧ row ∈ w'.trades.rows := by
  have hx : execInsert w n c = some (.ok row, w') := by cases c <;> exact hx
  simp only [execInsert] at hx
  split at hx
  · cases hx
  split at hx
  · rename_i hfit
    split at hx
    · cases c <;> cases hx
      exact ⟨rfl, (TradeTable.mem_insert (h := hfit)).mpr (Or.inr rfl)⟩
    · cases hx
  · cases hx

/-- What an operation adds to the duty of its thread. -/
theorem extends_of_exec {env : Deployment} {users : List User} {w w' : World} {g : Duties}
    {i : Nat} {q : Duty} {tag : Tag} {o : Op} {c : Choice} {r : o.Res}
    (h : Dutiful env users w g) (hi : g i = some q) (hp : q.permits env o)
    (hx : exec env i tag w o c = some (r, w')) :
    Duty.answers o r ∧ Duty.Extends env users w'.toLedger q (q.next o r) := by
  have hrefl : Duty.Extends env users w'.toLedger q q := .refl q
  cases o with
  | cachedOwner =>
    cases c <;> cases hx
    refine ⟨trivial, rfl, fun id hid => Or.inr ?_, hrefl.ids, hrefl.copies⟩
    exact h.cached tag.process id hid
  | selectOwner email =>
    obtain rfl := hp
    have hx : c.query ((w.users.find? fun u => u.email = env.settings.webhookTradeOwnerEmail).map
        User.id) w = some (r, w') := by cases c <;> exact hx
    obtain ⟨rfl, rfl | rfl⟩ := Choice.query_eq_some hx
    · refine ⟨trivial, rfl, fun id hid => Or.inr ?_, hrefl.ids, hrefl.copies⟩
      rw [registeredOwner, ← h.accounts]
      exact hid
    · exact ⟨trivial, hrefl⟩
  | insert n =>
    cases r with
    | error e => exact ⟨trivial, hrefl⟩
    | ok row =>
      obtain ⟨payload, owner, htask, -, rfl⟩ := hp
      obtain ⟨hrow, hmem⟩ := exec_insert_ok hx
      refine ⟨trivial, rfl, hrefl.owner, fun id hid => ?_, hrefl.copies⟩
      rcases List.mem_cons.mp hid with rfl | hid
      · refine Or.inr ?_
        rw [htask]
        exact ⟨row, hmem, rfl, by rw [hrow]; rfl⟩
      · exact Or.inl hid
  | get id =>
    obtain ⟨htask, hid⟩ := hp
    obtain ⟨rfl, rfl | rfl⟩ := exec_get hx
    · cases hfind : w'.trades.find? id with
      | none => exact ⟨trivial, hrefl⟩
      | some t =>
        obtain ⟨hmem, rfl⟩ := TradeTable.find?_eq_some.mp hfind
        refine ⟨rfl, rfl, hrefl.owner, hrefl.ids, fun s hs => ?_⟩
        rcases List.mem_cons.mp hs with rfl | hs
        · exact Or.inr ⟨(h.ids i q hi _ hid).owns htask hmem, t, hmem, rfl⟩
        · exact Or.inl hs
    · exact ⟨trivial, hrefl⟩
  | getForUser user id =>
    obtain ⟨rfl, rfl | rfl⟩ := exec_getForUser hx
    · cases hfind : (w'.trades.find? id).filter fun t => t.userId = user with
      | none => exact ⟨trivial, hrefl⟩
      | some t =>
        obtain ⟨hsome, huser⟩ := Option.filter_eq_some_iff.mp hfind
        obtain ⟨hmem, rfl⟩ := TradeTable.find?_eq_some.mp hsome
        have huser : t.userId = user := of_decide_eq_true huser
        refine ⟨⟨huser, rfl⟩, rfl, hrefl.owner, hrefl.ids, fun s hs => ?_⟩
        rcases List.mem_cons.mp hs with rfl | hs
        · refine Or.inr ⟨?_, t, hmem, rfl⟩
          rw [show q.task = .reconcile user t.id from hp]
          exact ⟨rfl, huser⟩
        · exact Or.inl hs
    · exact ⟨trivial, hrefl⟩
  | selectUnsent limit =>
    cases r with
    | error e => exact ⟨trivial, hrefl⟩
    | ok ids =>
      refine ⟨trivial, rfl, hrefl.owner, fun id _ => Or.inr ?_, hrefl.copies⟩
      rw [show q.task = .resume from hp]
      trivial
  | selectReconcilable cutoff limit =>
    obtain ⟨rfl, rfl | rfl⟩ := exec_selectReconcilable hx
    · obtain ⟨olderThanSeconds, htask⟩ := hp
      refine ⟨trivial, rfl, hrefl.owner, hrefl.ids, fun s hs => ?_⟩
      rcases List.mem_append.mp hs with hs | hs
      · obtain ⟨t, ht, rfl⟩ := List.mem_map.mp hs
        have hmem : t ∈ w'.trades.rows :=
          List.mem_of_mem_filter ((List.mem_insertionSort _).mp (List.mem_of_mem_take ht))
        refine Or.inr ⟨?_, t, hmem, rfl⟩
        rw [htask]
        trivial
      · exact Or.inl hs
    · exact ⟨trivial, hrefl⟩
  | _ => exact ⟨trivial, hrefl⟩

theorem Dutiful.act {env : Deployment} {users : List User} {w w' : World} {g : Duties}
    {i : Nat} {q : Duty} {tag : Tag} {o : Op} {c : Choice} {r : o.Res}
    (h : Dutiful env users w g) (hi : g i = some q) (hp : q.permits env o)
    (hx : exec env i tag w o c = some (r, w')) :
    Dutiful env users w' (Function.update g i (some (q.next o r))) := by
  obtain ⟨husers, hcached⟩ := owner_exec hx
  refine h.step hi (grows_exec hx) husers ?_ ?_ (extends_of_exec h hi hp hx).2
  · intro p id hid
    rcases hcached p id hid with hold | rfl
    · exact h.cached p id hold
    · exact h.owner i q hi id hp
  · intro t ht
    rcases rows_exec hx t ht with ⟨s, hs, hterms⟩ | ⟨n, rfl, rfl, -⟩
    · rw [show t.userId = s.userId from congrArg Trade.Terms.userId hterms]
      exact h.rows s hs
    · obtain ⟨payload, owner, -, howner, rfl⟩ := hp
      exact h.owner i q hi owner howner

theorem Dutiful.event {env : Deployment} {users : List User} {P : Pool (service env)} {g : Duties}
    {e : Event} {x : Reaction World Tag} (h : Dutiful env users P.shared g)
    (hx : react env P.shared P.seen e = some x) :
    Dutiful env users x.shared
      (ghostsAfter (duty env) (fun tag : Tag => .start tag.task) P x g) := by
  obtain ⟨husers, hcached⟩ := owner_react hx
  have ht : x.shared.trades = P.shared.trades := (react_ledger hx).1
  have hstart : ∀ j q, ghostsAfter (duty env) (fun tag : Tag => .start tag.task) P x g j = some q →
      g j = some q ∨ ∃ task, q = .start task := by
    intro j q hj
    unfold ghostsAfter at hj
    split at hj
    · split at hj
      · cases hj
      · exact Or.inl hj
    · split at hj
      · obtain ⟨tag, -, rfl⟩ := Option.map_eq_some_iff.mp hj
        exact Or.inr ⟨_, rfl⟩
      · cases hj
  refine ⟨husers.trans h.accounts, fun p id hid => h.cached p id (hcached p id hid), ?_, ?_, ?_, ?_⟩
  · rw [ht]
    exact h.rows
  · intro j q hj id hid
    rcases hstart j q hj with hj | ⟨task, rfl⟩
    · exact h.owner j q hj id hid
    · cases hid
  · intro j q hj id hid
    rcases hstart j q hj with hj | ⟨task, rfl⟩
    · have hgrow : P.shared.toLedger.Grows x.shared.toLedger := fun r hr => ⟨r, by rwa [ht], rfl, fun h => h⟩
      exact (h.ids j q hj id hid).mono hgrow
    · cases task with
      | execute id' => exact List.mem_singleton.mp hid
      | _ => cases hid
  · rw [ht]
    intro j q hj s hs
    rcases hstart j q hj with hj | ⟨task, rfl⟩
    · exact h.copies j q hj s hs
    · cases hs

theorem dutiful_of_run {env : Deployment} {D : Pool (service env) → Label (service env) → Prop}
    {users : List User} {clock : DateTime} {ls : List (Label (service env))}
    {P : Pool (service env)}
    (h : Run (service env).system D (Pool.idle (.initial users clock)) ls P) :
    ∃ g, Ghosted (duty env) P g ∧ Dutiful env users P.shared g ∧
      Agrees (K := duty env) (fun (tag : Tag) (q : Duty) => q.task = tag.task) P g := by
  refine Coroutine.ghosts_tagged (K := duty env) (I := Dutiful env users)
    (T := fun (tag : Tag) (q : Duty) => q.task = tag.task) (fun tag : Tag => .start tag.task)
    (fun tag : Tag => keeps_duty env tag.task) (fun _ => rfl) ?_ ?_ ?_ h ?_
  · intro tag q m o r hq
    rw [← hq]
    exact Duty.task_next q o r
  · intro P g i c tag o r w q m _ _ hI _ _ _ hq hp hx
    exact ⟨(extends_of_exec hI hq hp hx).1, hI.act hq hp hx⟩
  · intro P g e x _ _ hI hx
    exact hI.event hx
  · exact ⟨fun _ => none, fun _ => .none, .initial env users clock, fun _ _ _ h => by cases h⟩

/-! ## What a step may touch -/

section Touch

variable {env : Deployment} {users : List User} {w w' : World} {g : Duties} {i : Nat} {q : Duty}
  {tag : Tag} {o : Op} {c : Choice} {r : o.Res}

/-- A row whose terms a thread has loaded is its own. -/
theorem Dutiful.owns (h : Dutiful env users w g) (hi : g i = some q) {t row : Trade}
    (ht : t.terms ∈ q.copies) (hrow : row ∈ w.trades.rows) (hid : row.id = t.id) :
    q.task.Owns row.terms ∧ row.terms = t.terms := by
  obtain ⟨howns, row', hrow', hterms⟩ := h.copies i q hi _ ht
  have hid' : row'.id = t.id := congrArg Trade.Terms.id hterms
  rw [TradeTable.eq_of_id hrow' hrow (hid'.trans hid.symm)] at hterms
  exact ⟨hterms ▸ howns, hterms⟩

/-- A row that an operation writes is the thread's own. -/
theorem Dutiful.writes_own (h : Dutiful env users w g) (hi : g i = some q) (hp : q.permits env o)
    (hx : exec env i tag w o c = some (r, w')) {row : Trade} (hrow : row ∈ w.trades.rows) :
    row ∈ w'.trades.rows ∨ q.task.Owns row.terms := by
  cases o with
  | insert n =>
    rcases exec_insert hx with rfl | ⟨hfit, rfl⟩
    · exact Or.inl hrow
    · exact Or.inl ((TradeTable.mem_insert (h := hfit)).mpr (Or.inl hrow))
  | claim id now =>
    rcases exec_claim hx with ⟨rfl, -⟩ | ⟨claimed, -, -, -, -, rfl⟩
    · exact Or.inl hrow
    · by_cases hid : row.id = id
      · obtain ⟨htask, hmem⟩ := hp
        exact Or.inr ((h.ids i q hi row.id (hid ▸ hmem)).owns htask hrow)
      · exact Or.inl (TradeTable.mem_update.mpr ⟨row, hrow, if_neg hid⟩)
  | commit t e =>
    rcases exec_commit hx with ⟨rfl, -⟩ | ⟨rfl, -⟩
    · by_cases hid : row.id = t.id
      · exact Or.inr (h.owns hi hp hrow hid).1
      · exact Or.inl (TradeTable.mem_update.mpr ⟨row, hrow, if_neg hid⟩)
    · exact Or.inl hrow
  | send request =>
    obtain ⟨-, rfl⟩ := exec_send hx
    exact Or.inl hrow
  | log record =>
    obtain rfl := exec_log hx
    exact Or.inl hrow
  | _ =>
    rw [exec_of_not_writes rfl hx]
    exact Or.inl hrow

/-- Only a claim marks a row as submitted. -/
theorem claimed_exec (hx : exec env i tag w o c = some (r, w')) {row row' : Trade}
    (hrow : row ∈ w.trades.rows) (hrow' : row' ∈ w'.trades.rows) (hid : row'.id = row.id)
    (hnone : row.submittedAt = none) (hsome : row'.submittedAt.isSome) :
    ∃ now, o = .claim row.id now := by
  have hsame : w'.trades = w.trades → False := by
    intro ht
    rw [ht] at hrow'
    rw [TradeTable.eq_of_id hrow' hrow hid, hnone] at hsome
    cases hsome
  cases o with
  | insert n =>
    rcases exec_insert hx with rfl | ⟨hfit, rfl⟩
    · exact (hsame rfl).elim
    · rcases (TradeTable.mem_insert (h := hfit)).mp hrow' with hold | rfl
      · rw [TradeTable.eq_of_id hold hrow hid, hnone] at hsome
        cases hsome
      · cases hsome
  | claim id now =>
    rcases exec_claim hx with ⟨rfl, -⟩ | ⟨claimed, -, -, -, -, rfl⟩
    · exact (hsame rfl).elim
    · obtain ⟨s, hs, rfl⟩ := TradeTable.mem_update.mp hrow'
      by_cases hsid : s.id = id
      · rw [if_pos hsid] at hid
        exact ⟨now, by rw [← hid, ← hsid]; rfl⟩
      · rw [if_neg hsid] at hid hsome
        rw [TradeTable.eq_of_id hs hrow hid, hnone] at hsome
        cases hsome
  | commit t e =>
    rcases exec_commit hx with ⟨rfl, -⟩ | ⟨rfl, -⟩
    · obtain ⟨s, hs, rfl⟩ := TradeTable.mem_update.mp hrow'
      have hkept : (if s.id = t.id then (e.update t w.clock).write s else s).id = s.id ∧
          (if s.id = t.id then (e.update t w.clock).write s else s).submittedAt =
            s.submittedAt := by
        split <;> exact ⟨rfl, rfl⟩
      rw [hkept.1] at hid
      rw [hkept.2, TradeTable.eq_of_id hs hrow hid, hnone] at hsome
      cases hsome
    · exact (hsame rfl).elim
  | send request =>
    obtain ⟨-, rfl⟩ := exec_send hx
    exact (hsame rfl).elim
  | log record =>
    obtain rfl := exec_log hx
    exact (hsame rfl).elim
  | _ => exact (hsame (congrArg Ledger.trades (exec_of_not_writes rfl hx))).elim

/-- Who adds a request to the ledger sends it. -/
theorem sent_exec (hx : exec env i tag w o c = some (r, w')) {x : HttpRequest}
    (hsent : w'.toLedger.requests = w.toLedger.requests ++ [x]) : o = .send x := by
  have hsame : w'.toLedger.requests = w.toLedger.requests → False := by
    intro h
    rw [h] at hsent
    simp at hsent
  cases o with
  | insert n => rcases exec_insert hx with rfl | ⟨hfit, rfl⟩ <;> exact (hsame rfl).elim
  | claim id now =>
    rcases exec_claim hx with ⟨rfl, -⟩ | ⟨row, -, -, -, -, rfl⟩ <;> exact (hsame rfl).elim
  | commit t e => rcases exec_commit hx with ⟨rfl, -⟩ | ⟨rfl, -⟩ <;> exact (hsame rfl).elim
  | send request =>
    obtain ⟨-, rfl⟩ := exec_send hx
    simp only [Ledger.requests, Ledger.send, List.map_append, List.map_singleton,
      List.append_cancel_left_eq, List.cons.injEq, and_true] at hsent
    rw [hsent]
  | log record =>
    obtain rfl := exec_log hx
    exact (hsame rfl).elim
  | _ => exact (hsame (congrArg Ledger.requests (exec_of_not_writes rfl hx))).elim

/-- A request is sent for a row of the thread's own. -/
theorem Dutiful.sends_own (h : Dutiful env users w g) (hi : g i = some q) {x : HttpRequest}
    (hp : q.permits env (.send x)) :
    (x.method = .post ∧ q.task.submits = true ∧ ∃ r ∈ w.trades.rows, q.task.Owns r.terms ∧
      x.placed? = some r.clientOrderId) ∨
    (x.method = .get ∧ ∃ r ∈ w.trades.rows, q.task.Owns r.terms ∧
      x = queryRequest r.symbol r.clientOrderId) := by
  rcases hp with ⟨htask, t, text, ht, rfl⟩ | ⟨t, ht, rfl⟩
  · obtain ⟨howns, r, hr, hterms⟩ := h.copies i q hi _ ht
    refine Or.inl ⟨rfl, htask, r, hr, hterms ▸ howns, ?_⟩
    rw [orderFor, orderRequest_placed?,
      show r.clientOrderId = t.clientOrderId from congrArg Trade.Terms.clientOrderId hterms]
  · obtain ⟨howns, r, hr, hterms⟩ := h.copies i q hi _ ht
    refine Or.inr ⟨rfl, r, hr, hterms ▸ howns, ?_⟩
    rw [show r.clientOrderId = t.clientOrderId from congrArg Trade.Terms.clientOrderId hterms,
      show r.symbol = t.symbol from congrArg Trade.Terms.symbol hterms]

end Touch

/-! ## The results -/

/-- **All trades belong to the configured owner.** In every run the owner of every row is the
account registered under the configured address, and so is every owner a process remembers;
nobody else has a trade to list. -/
theorem trades_belong_to_owner (env : Deployment) {users : List User} {clock : DateTime}
    {ls : List (Label (service env))} {P : Pool (service env)}
    (h : Run (service env).system unguarded (Pool.idle (.initial users clock)) ls P) :
    (∀ r ∈ P.shared.trades.rows, registeredOwner env users = some r.userId) ∧
    (∀ p id, (P.shared.processes p).owner = some id → registeredOwner env users = some id) ∧
    ∀ user, registeredOwner env users ≠ some user → ∀ limit offset status,
      listTradesForUser P.shared.trades user limit offset status = ([], 0) := by
  obtain ⟨g, -, hd, -⟩ := dutiful_of_run h
  refine ⟨hd.rows, hd.cached, fun user huser => listTradesForUser_eq_nil ?_⟩
  rintro r hr rfl
  exact huser (hd.rows r hr)

/-- The trade of the sample run. -/
theorem trades_belong_to_owner_placed :
    ∃ P, Run (service Sample.inline).system unguarded (Sample.start _) Sample.placed P ∧
      P.shared.trades.rows.map Trade.userId = [1] ∧
      ∀ r ∈ P.shared.trades.rows, registeredOwner Sample.inline Sample.users = some r.userId := by
  have h := System.run_get Sample.placed_follows
  refine ⟨_, h, ?_, (trades_belong_to_owner Sample.inline h).1⟩
  decide +kernel

/-- **Every thread keeps to its trade.** In every run, a step of a thread with task `task`

* leaves every row as it is unless the task owns it, and never changes its terms;
* adds a row only for a request, and then one of its signal;
* claims a row only for a request or an execution;
* places an order only for a request or an execution, and for a row the task owns;
* asks the exchange only about a row the task owns;

and what is no step of a thread changes no row and sends nothing. -/
theorem threads_keep_to_their_trade (env : Deployment) {users : List User} {clock : DateTime}
    {ls : List (Label (service env))} {P : Pool (service env)}
    (h : Run (service env).system unguarded (Pool.idle (.initial users clock)) ls P)
    {Q : Pool (service env)} :
    (∀ i c tag, P.tag? i = some tag → (service env).system.step P (.act i c) = some Q →
      (∀ r ∈ P.shared.trades.rows, r ∈ Q.shared.trades.rows ∨
        (tag.task.Owns r.terms ∧ ∃ r' ∈ Q.shared.trades.rows, r'.terms = r.terms)) ∧
      (∀ r' ∈ Q.shared.trades.rows, (∃ r ∈ P.shared.trades.rows, r.terms = r'.terms) ∨
        ∃ payload, tag.task = .request payload ∧ r'.signalId = payload.signalId) ∧
      (∀ r ∈ P.shared.trades.rows, r.submittedAt = none → ∀ r' ∈ Q.shared.trades.rows,
        r'.id = r.id → r'.submittedAt.isSome → tag.task.submits = true) ∧
      (∀ x, Q.shared.toLedger.requests = P.shared.toLedger.requests ++ [x] → x.method = .post →
        tag.task.submits = true ∧ ∃ r ∈ P.shared.trades.rows, tag.task.Owns r.terms ∧
          x.placed? = some r.clientOrderId) ∧
      ∀ x, Q.shared.toLedger.requests = P.shared.toLedger.requests ++ [x] → x.method = .get →
        ∃ r ∈ P.shared.trades.rows, tag.task.Owns r.terms ∧
          x = queryRequest r.symbol r.clientOrderId) ∧
    ∀ e, (service env).system.step P (.event e) = some Q →
      Q.shared.trades = P.shared.trades ∧
        Q.shared.toLedger.requests = P.shared.toLedger.requests := by
  obtain ⟨g, hg, hd, htask⟩ := dutiful_of_run h
  refine ⟨?_, ?_⟩
  · intro i c tag htag hstep
    obtain ⟨tag', o, next, r, w, hi, hx, rfl⟩ := Host.step_act hstep
    obtain ⟨q, m, hq, hperm, -⟩ := hg.act hi
    have hp : q.permits env o := hperm
    obtain rfl : tag' = tag := by
      rw [Pool.tag?, hi] at htag
      exact Option.some.inj htag
    have hqt : q.task = tag'.task := htask i q tag' hq htag
    rw [← hqt]
    refine ⟨fun r hr => ?_, fun r' hr' => ?_, fun r hr hnone r' hr' hid hsome => ?_,
      fun x hsent hpost => ?_, fun x hsent hget => ?_⟩
    · rcases hd.writes_own hq hp hx hr with hkept | howns
      · exact Or.inl hkept
      · obtain ⟨r', hr', hterms, -⟩ := grows_exec hx r hr
        exact Or.inr ⟨howns, r', hr', hterms⟩
    · rcases rows_exec hx r' hr' with ⟨s, hs, hterms⟩ | ⟨n, rfl, rfl, -⟩
      · exact Or.inl ⟨s, hs, hterms.symm⟩
      · obtain ⟨payload, owner, htask, -, rfl⟩ := hp
        exact Or.inr ⟨payload, htask, rfl⟩
    · obtain ⟨now, rfl⟩ := claimed_exec hx hr hr' hid hnone hsome
      exact hp.1
    · obtain rfl := sent_exec hx hsent
      rcases hd.sends_own hq hp with ⟨-, howns⟩ | ⟨hget, -⟩
      · exact howns
      · rw [hpost] at hget
        cases hget
    · obtain rfl := sent_exec hx hsent
      rcases hd.sends_own hq hp with ⟨hpost, -⟩ | ⟨-, howns⟩
      · rw [hget] at hpost
        cases hpost
      · exact howns
  · intro e hstep
    obtain ⟨x, hx, rfl⟩ := Host.step_event hstep
    exact ⟨(react_ledger hx).1, (react_ledger hx).2.1⟩

/-- The sample run up to the order call. -/
def Sample.announced : List (Label (service inline)) :=
  [occurs _ (.webhook 0 signal)] ++ steps _ 0 8

theorem Sample.announced_follows :
    ((service inline).system.follow unguarded (start _) announced).isSome := by decide +kernel

theorem Sample.announced_sends : ((service inline).system.step
    (((service inline).system.follow unguarded (start _) announced).get announced_follows)
    (.act 0 Choice.done)).isSome := by decide +kernel

/-- The order call of the sample run. -/
theorem threads_keep_to_their_trade_announced :
    ∃ P Q x, Run (service Sample.inline).system unguarded (Sample.start _) Sample.announced P ∧
      (service Sample.inline).system.step P (.act 0 Choice.done) = some Q ∧
      Q.shared.toLedger.requests = P.shared.toLedger.requests ++ [x] ∧ x.method = .post ∧
      ∃ r ∈ P.shared.trades.rows, (Task.request Sample.signal).Owns r.terms ∧
        x.placed? = some r.clientOrderId := by
  have h := System.run_get Sample.announced_follows
  have hstep := (Option.some_get Sample.announced_sends).symm
  have hsent : ((((service Sample.inline).system.step
      (((service Sample.inline).system.follow unguarded (Sample.start _) Sample.announced).get
        Sample.announced_follows) (.act 0 Choice.done)).get
          Sample.announced_sends).shared.toLedger.requests =
      (((service Sample.inline).system.follow unguarded (Sample.start _) Sample.announced).get
        Sample.announced_follows).shared.toLedger.requests ++
          [orderFor Sample.inline Sample.trade "0.001"]) := by decide +kernel
  have hpayload : ((((service Sample.inline).system.follow unguarded (Sample.start _)
      Sample.announced).get Sample.announced_follows).tag? 0).bind (fun tag => tag.task.payload?) =
        some Sample.signal := by decide +kernel
  obtain ⟨⟨p, task⟩, htag, htask⟩ := Option.bind_eq_some_iff.mp hpayload
  cases task with
  | request payload =>
    cases htask
    refine ⟨_, _, _, h, hstep, hsent, rfl, ?_⟩
    exact (((threads_keep_to_their_trade Sample.inline h).1 0 _ _ htag hstep).2.2.2.1 _ hsent rfl).2
  | _ => cases htask

end AutoTrader
