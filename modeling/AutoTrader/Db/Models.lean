import AutoTrader.Python.Decimal
import Mathlib.Data.List.Sort

/-!
# The trades table

`Trade` is one row of `app/db/models.py`, with its columns under the source's names.
Of `User` only the columns that the trading workflow reads are kept, the id and the
address.

`TradeTable` is the table with its primary key and its two unique indexes: they are
fields of the structure, so that a table that breaks one of them cannot be built.
-/

namespace AutoTrader

open Python

/-- Microseconds since the epoch, in UTC. -/
abbrev DateTime := Int

abbrev TradeId := Nat

abbrev UserId := Nat

inductive OrderSide
  | buy
  | sell
  deriving DecidableEq

def OrderSide.text : OrderSide → String
  | buy => "BUY"
  | sell => "SELL"

inductive TradeStatus
  | pending
  | unknown
  | new
  | partiallyFilled
  | filled
  | cancelled
  | rejected
  | expired
  | failed
  deriving DecidableEq

namespace TradeStatus

/-- `TERMINAL_STATUSES`. -/
def isTerminal : TradeStatus → Bool
  | filled | cancelled | rejected | expired | failed => true
  | _ => false

/-- `RECONCILABLE_STATUSES`. -/
def isReconcilable : TradeStatus → Bool
  | pending | unknown | new | partiallyFilled => true
  | _ => false

/-- The two sets of statuses partition all statuses. -/
theorem isReconcilable_eq (s : TradeStatus) : s.isReconcilable = !s.isTerminal := by
  cases s <;> rfl

end TradeStatus

structure User where
  id : UserId
  email : String
  deriving DecidableEq

structure Trade where
  id : TradeId
  userId : UserId
  signalId : String
  clientOrderId : String
  symbol : String
  side : OrderSide
  orderType : String
  quantity : Decimal
  status : TradeStatus
  binanceOrderId : Option Int
  binanceStatus : Option String
  executedQuantity : Option Decimal
  cumulativeQuoteQuantity : Option Decimal
  errorCode : Option String
  errorMessage : Option String
  submittedAt : Option DateTime
  reconciledAt : Option DateTime
  createdAt : DateTime
  updatedAt : DateTime
  deriving DecidableEq

namespace Trade

def isTerminal (t : Trade) : Bool := t.status.isTerminal

/-- What was asked for: the columns that are written at the INSERT and never again. -/
structure Terms where
  id : TradeId
  userId : UserId
  signalId : String
  clientOrderId : String
  symbol : String
  side : OrderSide
  orderType : String
  quantity : Decimal
  deriving DecidableEq

def terms (t : Trade) : Terms :=
  ⟨t.id, t.userId, t.signalId, t.clientOrderId, t.symbol, t.side, t.orderType, t.quantity⟩

/-- A trade that was accepted and never handed to the exchange. -/
def unsent (t : Trade) : Bool := t.status = .pending && t.submittedAt.isNone

theorem unsent_of_submitted {t : Trade} (h : t.submittedAt.isSome) : t.unsent = false := by
  obtain ⟨now, hnow⟩ := Option.isSome_iff_exists.mp h
  simp [unsent, hnow]

end Trade

/-- The columns an INSERT gives a value to; the rest is filled in by the database and
by column defaults. -/
structure NewTrade where
  userId : UserId
  signalId : String
  clientOrderId : String
  symbol : String
  side : OrderSide
  orderType : String
  quantity : Decimal
  status : TradeStatus
  deriving DecidableEq

/-- The column takes the quantity. -/
def NewTrade.fits (n : NewTrade) : Bool := n.quantity.isStorable

/-- The row an INSERT creates, if its columns take the values. -/
def NewTrade.row (n : NewTrade) (id : TradeId) (now : DateTime) : Trade where
  id := id
  userId := n.userId
  signalId := n.signalId
  clientOrderId := n.clientOrderId
  symbol := n.symbol
  side := n.side
  orderType := n.orderType
  quantity := n.quantity.store
  status := n.status
  binanceOrderId := none
  binanceStatus := none
  executedQuantity := none
  cumulativeQuoteQuantity := none
  errorCode := none
  errorMessage := none
  submittedAt := none
  reconciledAt := none
  createdAt := now
  updatedAt := now

/-! ## The table -/

/-- The committed rows, oldest first. -/
structure TradeTable where
  rows : List Trade
  primaryKey : (rows.map Trade.id).Nodup
  uniqueSignalId : (rows.map Trade.signalId).Nodup
  uniqueClientOrderId : (rows.map Trade.clientOrderId).Nodup

namespace TradeTable

def empty : TradeTable := ⟨[], by simp, by simp, by simp⟩

def find? (T : TradeTable) (id : TradeId) : Option Trade := T.rows.find? fun t => t.id = id

def findBySignal? (T : TradeTable) (signalId : String) : Option Trade :=
  T.rows.find? fun t => t.signalId = signalId

/-- A row fits into the table: its id is fresh and it breaks no unique index. -/
def Fits (T : TradeTable) (t : Trade) : Prop :=
  (∀ r ∈ T.rows, r.id ≠ t.id) ∧ (∀ r ∈ T.rows, r.signalId ≠ t.signalId) ∧
    ∀ r ∈ T.rows, r.clientOrderId ≠ t.clientOrderId

instance (T : TradeTable) (t : Trade) : Decidable (T.Fits t) :=
  inferInstanceAs (Decidable (_ ∧ _ ∧ _))

theorem nodup_concat {α β : Type} {f : α → β} {l : List α} {a : α} (h : (l.map f).Nodup)
    (hne : ∀ b ∈ l, f b ≠ f a) : ((l ++ [a]).map f).Nodup := by
  rw [List.map_append, List.map_singleton]
  refine List.Nodup.append h (List.nodup_singleton _) ?_
  intro b hb hb'
  obtain ⟨c, hc, rfl⟩ := List.mem_map.mp hb
  exact hne c hc (List.mem_singleton.mp hb')

def insert (T : TradeTable) (t : Trade) (h : T.Fits t) : TradeTable where
  rows := T.rows ++ [t]
  primaryKey := nodup_concat T.primaryKey h.1
  uniqueSignalId := nodup_concat T.uniqueSignalId h.2.1
  uniqueClientOrderId := nodup_concat T.uniqueClientOrderId h.2.2

/-- An UPDATE of one row. It writes none of the key columns. -/
structure Update where
  write : Trade → Trade
  id : ∀ t, (write t).id = t.id
  signalId : ∀ t, (write t).signalId = t.signalId
  clientOrderId : ∀ t, (write t).clientOrderId = t.clientOrderId

/-- `UPDATE trades SET ... WHERE id = ?`. -/
def update (T : TradeTable) (id : TradeId) (u : Update) : TradeTable where
  rows := T.rows.map fun t => if t.id = id then u.write t else t
  primaryKey := by
    rw [List.map_map]
    refine (List.map_congr_left fun t _ => ?_) ▸ T.primaryKey
    simp only [Function.comp_apply]
    split
    · rw [u.id]
    · rfl
  uniqueSignalId := by
    rw [List.map_map]
    refine (List.map_congr_left fun t _ => ?_) ▸ T.uniqueSignalId
    simp only [Function.comp_apply]
    split
    · rw [u.signalId]
    · rfl
  uniqueClientOrderId := by
    rw [List.map_map]
    refine (List.map_congr_left fun t _ => ?_) ▸ T.uniqueClientOrderId
    simp only [Function.comp_apply]
    split
    · rw [u.clientOrderId]
    · rfl

/-- `DELETE`: the rows that satisfy `p` are left. -/
def filter (T : TradeTable) (p : Trade → Bool) : TradeTable where
  rows := T.rows.filter p
  primaryKey := (List.filter_sublist.map _).nodup T.primaryKey
  uniqueSignalId := (List.filter_sublist.map _).nodup T.uniqueSignalId
  uniqueClientOrderId := (List.filter_sublist.map _).nodup T.uniqueClientOrderId

variable {T : TradeTable} {s t : Trade}

theorem eq_of_id (hs : s ∈ T.rows) (ht : t ∈ T.rows) (h : s.id = t.id) : s = t :=
  List.inj_on_of_nodup_map T.primaryKey hs ht h

theorem eq_of_signalId (hs : s ∈ T.rows) (ht : t ∈ T.rows) (h : s.signalId = t.signalId) :
    s = t :=
  List.inj_on_of_nodup_map T.uniqueSignalId hs ht h

theorem eq_of_clientOrderId (hs : s ∈ T.rows) (ht : t ∈ T.rows)
    (h : s.clientOrderId = t.clientOrderId) : s = t :=
  List.inj_on_of_nodup_map T.uniqueClientOrderId hs ht h

theorem find?_eq_some {id : TradeId} : T.find? id = some t ↔ t ∈ T.rows ∧ t.id = id := by
  constructor
  · intro h
    have hid := List.find?_some h
    exact ⟨List.mem_of_find?_eq_some h, of_decide_eq_true hid⟩
  · rintro ⟨ht, rfl⟩
    cases h : T.find? t.id with
    | none => exact absurd (List.find?_eq_none.mp h t ht) (by simp)
    | some s =>
      have hid := List.find?_some h
      rw [eq_of_id (List.mem_of_find?_eq_some h) ht (of_decide_eq_true hid)]

theorem findBySignal?_eq_some {signalId : String} :
    T.findBySignal? signalId = some t ↔ t ∈ T.rows ∧ t.signalId = signalId := by
  constructor
  · intro h
    have hid := List.find?_some h
    exact ⟨List.mem_of_find?_eq_some h, of_decide_eq_true hid⟩
  · rintro ⟨ht, rfl⟩
    cases h : T.findBySignal? t.signalId with
    | none => exact absurd (List.find?_eq_none.mp h t ht) (by simp)
    | some s =>
      have hid := List.find?_some h
      rw [eq_of_signalId (List.mem_of_find?_eq_some h) ht (of_decide_eq_true hid)]

@[simp] theorem mem_insert {h : T.Fits t} : s ∈ (T.insert t h).rows ↔ s ∈ T.rows ∨ s = t := by
  simp [insert]

theorem mem_update {id : TradeId} {u : Update} :
    t ∈ (T.update id u).rows ↔ ∃ s ∈ T.rows, (if s.id = id then u.write s else s) = t := by
  simp [update]

end TradeTable

end AutoTrader
