import AutoTrader.Sorting.Partition
import AutoTrader.Schemas.Trade
import AutoTrader.Services.Reconciliation

/-!
# `app/api/routes/trades.py`

The list of a caller's trades, one trade by its id, and the reconcile endpoint. The list is a
function of the committed rows; `none` stands for the error of the serialiser, with which the
whole request fails.
-/

namespace AutoTrader

open Python Coroutine

/-- `list_trades_for_user`. -/
def listTradesForUser (T : TradeTable) (user : UserId) (limit offset : Nat)
    (status : Option TradeStatus) : List Trade × Nat :=
  let mine := T.rows.filter fun t => t.userId = user && status.all fun s => t.status = s
  let newestFirst := mine.insertionSort fun s t =>
    t.createdAt < s.createdAt ∨ t.createdAt = s.createdAt ∧ t.id ≤ s.id
  ((newestFirst.drop offset).take limit, mine.length)

/-- The rows that both queries of `list_trades_for_user` select. -/
def TradeTable.mine (T : TradeTable) (user : UserId) (status : Option TradeStatus) : List Trade :=
  T.rows.filter fun t => t.userId = user && status.all fun s => t.status = s

/-- The order of the list: newest first, and of two that were created at the same time the
one with the higher id. -/
def Trade.Precedes (s t : Trade) : Prop :=
  t.createdAt < s.createdAt ∨ t.createdAt = s.createdAt ∧ t.id ≤ s.id

instance : DecidableRel Trade.Precedes :=
  fun s t => inferInstanceAs (Decidable (t.createdAt < s.createdAt ∨ _))

instance : Std.Total Trade.Precedes where
  total s t := by
    rcases lt_trichotomy s.createdAt t.createdAt with h | h | h
    · exact Or.inr (Or.inl h)
    · rcases le_total t.id s.id with hid | hid
      · exact Or.inl (Or.inr ⟨h.symm, hid⟩)
      · exact Or.inr (Or.inr ⟨h, hid⟩)
    · exact Or.inl (Or.inl h)

instance : IsTrans Trade Trade.Precedes where
  trans r s t hrs hst := by
    rcases hrs with hrs | ⟨hrs, hid⟩
    · rcases hst with hst | ⟨hst, -⟩
      · exact Or.inl (lt_trans hst hrs)
      · exact Or.inl (hst ▸ hrs)
    · rcases hst with hst | ⟨hst, hid'⟩
      · exact Or.inl (hrs ▸ hst)
      · exact Or.inr ⟨hst.trans hrs, le_trans hid' hid⟩

theorem Trade.Precedes.id_eq {s t : Trade} (hst : s.Precedes t) (hts : t.Precedes s) :
    s.id = t.id := by
  rcases hst with hst | ⟨hst, hid⟩
  · rcases hts with hts | ⟨hts, -⟩
    · exact absurd hst hts.asymm
    · exact absurd hts hst.ne'
  · rcases hts with hts | ⟨-, hid'⟩
    · exact absurd hst hts.ne'
    · exact le_antisymm hid' hid

theorem listTradesForUser_eq (T : TradeTable) (user : UserId) (limit offset : Nat)
    (status : Option TradeStatus) :
    listTradesForUser T user limit offset status =
      ((((T.mine user status).insertionSort Trade.Precedes).drop offset).take limit,
        (T.mine user status).length) := rfl

theorem TradeTable.mine_of_all {T : TradeTable} {user : UserId}
    (h : ∀ r ∈ T.rows, r.userId = user) : T.mine user none = T.rows := by
  refine List.filter_eq_self.mpr fun r hr => ?_
  simp [h r hr]

/-- Who has no row lists none. -/
theorem listTradesForUser_eq_nil {T : TradeTable} {user : UserId}
    (h : ∀ r ∈ T.rows, r.userId ≠ user) (limit offset : Nat) (status : Option TradeStatus) :
    listTradesForUser T user limit offset status = ([], 0) := by
  have hmine : T.mine user status = [] := by
    refine List.filter_eq_nil_iff.mpr fun r hr hmine => ?_
    simp only [Bool.and_eq_true, decide_eq_true_eq] at hmine
    exact h r hr hmine.1
  rw [listTradesForUser_eq, hmine]
  simp

/-- The order of the list tells the rows of a table apart. -/
theorem TradeTable.sorted_of_perm {T : TradeTable} {l l' : List Trade} (hperm : l.Perm l')
    (hrows : ∀ t ∈ l, t ∈ T.rows) :
    l.insertionSort Trade.Precedes = l'.insertionSort Trade.Precedes := by
  refine Sorting.insertionSort_of_perm hperm fun s hs t ht hst hts => ?_
  exact TradeTable.eq_of_id (hrows s hs) (hrows t (hperm.mem_iff.mpr ht)) (hst.id_eq hts)

theorem mem_listTradesForUser {T : TradeTable} {user : UserId} {limit offset : Nat}
    {status : Option TradeStatus} {t : Trade}
    (h : t ∈ (listTradesForUser T user limit offset status).1) : t ∈ T.rows := by
  have hmine := List.mem_of_mem_drop (List.mem_of_mem_take h)
  exact List.mem_of_mem_filter ((List.mem_insertionSort _).mp hmine)

/-- `GET /trades`. -/
def listTrades (T : TradeTable) (user : UserId) (limit offset : Nat) (status : Option TradeStatus) :
    Option TradeListResponse := do
  let (items, total) := listTradesForUser T user limit offset status
  let items ← items.mapM TradeRead.ofTrade
  return ⟨items, total, limit, offset⟩

/-- A page is served exactly when every row on it is. -/
theorem listTrades_isSome_iff {T : TradeTable} {user : UserId} {limit offset : Nat}
    {status : Option TradeStatus} :
    (listTrades T user limit offset status).isSome ↔
      ∀ t ∈ (listTradesForUser T user limit offset status).1, (TradeRead.ofTrade t).isSome := by
  have hpage : ∀ ts : List Trade, (ts.mapM TradeRead.ofTrade).isSome ↔
      ∀ t ∈ ts, (TradeRead.ofTrade t).isSome := by
    intro ts
    induction ts with
    | nil => simp
    | cons t ts ih =>
      rw [List.mapM_cons, List.forall_mem_cons, ← ih]
      cases TradeRead.ofTrade t with
      | none => simp
      | some x => cases ts.mapM TradeRead.ofTrade <;> simp
  rw [← hpage]
  simp only [listTrades]
  cases (listTradesForUser T user limit offset status).1.mapM TradeRead.ofTrade <;> simp

/-- `GET /trades/{trade_id}`, up to the serialiser. -/
def getTrade (user : UserId) (id : TradeId) : App Trade := do
  match ← App.db (App.perform (.getForUser user id)) with
  | none => throw (.resourceNotFound ("Trade " ++ String.ofList (natDigits id) ++ " was not found."))
  | some t => return t

/-- `POST /trades/{trade_id}/reconcile`, up to the serialiser. -/
def reconcileRoute (env : Deployment) (user : UserId) (id : TradeId) : App Trade := do
  match ← App.db (App.perform (.getForUser user id)) with
  | none => throw (.resourceNotFound ("Trade " ++ String.ofList (natDigits id) ++ " was not found."))
  | some t =>
    let (_, i) ← OnTrade.on (Instance.fresh t) (reconcileTrade env)
    return i.current

end AutoTrader
