import AutoTrader.Api.Trades
import AutoTrader.Paging.Offset
import AutoTrader.System.Sample

/-!
# Paging loses nothing

A caller reads the list of a user page by page until an empty page, while trades that are newer
than every row may be inserted between two reads. Such a trade moves the list back by one row,
so that some rows are read twice, but none is passed over. Without an insert every trade is read
exactly once, newest first, and every page shows their number (`paging_loses_nothing`).
-/

namespace AutoTrader

open Transition Paging

/-- A caller who reads the list: the committed rows, and the pages read so far. -/
structure Reading where
  trades : TradeTable
  pages : List (List Trade × Nat)

namespace Reading

/-- The next page is read, or a trade is inserted. -/
inductive Action
  | read
  | insert (t : Trade)

/-- The last page was empty. -/
def finished (s : Reading) : Bool := s.pages.getLast?.any fun p => p.1.isEmpty

def yielded (s : Reading) : List Trade := s.pages.flatMap Prod.fst

def nextPage (user : UserId) (limit : Nat) (s : Reading) : List Trade × Nat :=
  listTradesForUser s.trades user limit (s.pages.length * limit) none

/-- A trade is inserted only when it is newer than every row. -/
def step (user : UserId) (limit : Nat) (s : Reading) : Action → Option Reading
  | .read =>
    if s.finished then none else some { s with pages := s.pages ++ [s.nextPage user limit] }
  | .insert t =>
    if h : s.trades.Fits t ∧ ∀ r ∈ s.trades.rows, r.createdAt < t.createdAt then
      some { s with trades := s.trades.insert t h.1 }
    else none

def system (user : UserId) (limit : Nat) : System Reading Action := ⟨step user limit⟩

/-- No trade is inserted. -/
def ReadsOnly : Reading → Action → Prop := fun _ a => a = .read

end Reading

/-! ## The list that is read -/

section List

variable {T : TradeTable} {user : UserId} {limit : Nat} {t : Trade}

/-- The trades of a user in the order of the list. -/
def TradeTable.newestFirst (T : TradeTable) (user : UserId) : List Trade :=
  (T.mine user none).insertionSort Trade.Precedes

theorem TradeTable.mem_mine : t ∈ T.mine user none ↔ t ∈ T.rows ∧ t.userId = user := by
  simp [mine]

theorem TradeTable.mem_newestFirst :
    t ∈ T.newestFirst user ↔ t ∈ T.rows ∧ t.userId = user := by
  rw [newestFirst, List.mem_insertionSort, mem_mine]

theorem TradeTable.newestFirst_perm (T : TradeTable) (user : UserId) :
    (T.newestFirst user).Perm (T.mine user none) := List.perm_insertionSort ..

/-- A page of the list, and the number of all rows. -/
theorem listTradesForUser_page (T : TradeTable) (user : UserId) (limit n : Nat) :
    listTradesForUser T user limit (n * limit) none =
      (page (T.newestFirst user) limit n, (T.newestFirst user).length) := by
  rw [listTradesForUser_eq, TradeTable.newestFirst, List.length_insertionSort, page]

/-- A newer trade comes in front of the list, if it is one of the user's at all. -/
theorem TradeTable.newestFirst_insert (hfits : T.Fits t)
    (hnewer : ∀ r ∈ T.rows, r.createdAt < t.createdAt) :
    T.newestFirst user <:+ (T.insert t hfits).newestFirst user := by
  by_cases hmine : t.userId = user
  · have hrows : (T.insert t hfits).mine user none = T.mine user none ++ [t] := by
      simp [mine, insert, hmine]
    have hsorted : (T.mine user none ++ [t]).insertionSort Trade.Precedes =
        (t :: T.mine user none).insertionSort Trade.Precedes := by
      apply TradeTable.sorted_of_perm (T := T.insert t hfits)
      · exact List.perm_append_comm
      · intro s hs
        rw [← hrows] at hs
        exact (mem_mine.mp hs).1
    have hfront : ∀ s ∈ T.mine user none, t.Precedes s :=
      fun s hs => Or.inl (hnewer s (mem_mine.mp hs).1)
    rw [newestFirst, newestFirst, hrows, hsorted,
      List.insertionSort_cons_of_forall_rel Trade.Precedes hfront]
    exact List.suffix_cons ..
  · have hrows : (T.insert t hfits).mine user none = T.mine user none := by
      simp [mine, insert, hmine]
    rw [newestFirst, newestFirst, hrows]

end List

/-! ## Reading while trades are inserted -/

namespace Reading

section Inserting

variable {user : UserId} {limit : Nat} {s u : Reading} {t : Trade}

/-- The trade was read, or the caller is not done and it is behind the next offset. -/
def Covered (user : UserId) (limit : Nat) (t : Trade) (s : Reading) : Prop :=
  t ∈ s.yielded ∨
    s.finished = false ∧ t ∈ (s.trades.newestFirst user).drop (s.pages.length * limit)

theorem Covered.read (hlimit : 1 ≤ limit) (h : Covered user limit t s)
    (hu : step user limit s .read = some u) : Covered user limit t u := by
  simp only [step] at hu
  split at hu
  · cases hu
  cases hu
  rcases h with hread | ⟨-, hbehind⟩
  · left
    simp only [yielded, List.flatMap_append, List.mem_append]
    exact Or.inl hread
  rcases mem_page_or_behind hbehind with hpage | hbehind'
  · left
    simp only [yielded, List.flatMap_append, List.mem_append, List.flatMap_singleton, nextPage,
      listTradesForUser_page]
    exact Or.inr hpage
  · right
    refine ⟨?_, by simpa using hbehind'⟩
    -- the page that was read is not empty, since the trade was behind its offset
    simp only [finished, List.getLast?_concat, Option.any_some, nextPage, listTradesForUser_page]
    rw [List.isEmpty_eq_false_iff]
    intro hempty
    rw [drop_eq_nil_of_page hlimit hempty] at hbehind
    cases hbehind

theorem Covered.insert {r : Trade} (h : Covered user limit t s)
    (hu : step user limit s (.insert r) = some u) : Covered user limit t u := by
  simp only [step] at hu
  split at hu
  · rename_i hr
    cases hu
    rcases h with hread | ⟨hgoes, hbehind⟩
    · exact Or.inl hread
    · exact Or.inr ⟨hgoes,
        mem_drop_of_suffix (TradeTable.newestFirst_insert hr.1 hr.2) hbehind⟩
  · cases hu

/-- Every trade of the user that is there at the start stays covered. -/
theorem covered_of_run {T : TradeTable} {actions : List Action} (hlimit : 1 ≤ limit)
    (hrun : Run (system user limit) unguarded ⟨T, []⟩ actions s) (ht : t ∈ T.rows)
    (hmine : t.userId = user) : Covered user limit t s := by
  apply hrun.invariant (I := Covered user limit t)
  · right
    refine ⟨rfl, ?_⟩
    simpa using TradeTable.mem_newestFirst.mpr ⟨ht, hmine⟩
  · intro a b c ha _ hstep
    cases b with
    | read => exact ha.read hlimit hstep
    | insert r => exact ha.insert hstep

theorem mem_yielded_of_run {T : TradeTable} {actions : List Action} (hlimit : 1 ≤ limit)
    (hrun : Run (system user limit) unguarded ⟨T, []⟩ actions s) (hdone : s.finished = true)
    (ht : t ∈ T.rows) (hmine : t.userId = user) : t ∈ s.yielded := by
  rcases covered_of_run hlimit hrun ht hmine with hread | ⟨hgoes, -⟩
  · exact hread
  · rw [hdone] at hgoes
    cases hgoes

end Inserting

/-! ## Reading a list that does not change -/

section Still

variable {T : TradeTable} {user : UserId} {limit : Nat} {s : Reading} {actions : List Action}

/-- The caller after `n` reads. -/
def after (T : TradeTable) (user : UserId) (limit n : Nat) : Reading :=
  ⟨T, (List.range n).map fun k => listTradesForUser T user limit (k * limit) none⟩

theorem after_succ (n : Nat) : after T user limit (n + 1) =
    { after T user limit n with
      pages := (after T user limit n).pages ++ [(after T user limit n).nextPage user limit] } := by
  simp [after, nextPage, List.range_succ]

theorem finished_after_succ (n : Nat) :
    (after T user limit (n + 1)).finished = (page (T.newestFirst user) limit n).isEmpty := by
  simp [after, finished, List.range_succ, listTradesForUser_page]

theorem yielded_after (n : Nat) :
    (after T user limit n).yielded = (T.newestFirst user).take (n * limit) := by
  rw [← flatMap_page, yielded, after, List.flatMap_map]
  simp only [listTradesForUser_page]

/-- A run of reads leads where their number says. -/
theorem eq_after_of_run (hrun : Run (system user limit) ReadsOnly ⟨T, []⟩ actions s) :
    ∃ n, s = after T user limit n := by
  apply hrun.invariant (I := fun s => ∃ n, s = after T user limit n)
  · exact ⟨0, rfl⟩
  · rintro a b c ⟨n, rfl⟩ hb hstep
    cases hb
    simp only [system, step] at hstep
    split at hstep
    · cases hstep
    · cases hstep
      exact ⟨n + 1, (after_succ n).symm⟩

/-- **The caller who is done has read the whole list.** -/
theorem yielded_of_finished (hlimit : 1 ≤ limit) {n : Nat}
    (hdone : (after T user limit n).finished = true) :
    (after T user limit n).yielded = T.newestFirst user := by
  cases n with
  | zero => cases hdone
  | succ n =>
    rw [finished_after_succ, List.isEmpty_iff] at hdone
    have hlength := List.drop_eq_nil_iff.mp (drop_eq_nil_of_page hlimit hdone)
    rw [yielded_after, List.take_of_length_le]
    rw [Nat.succ_mul]
    omega

theorem page_eq_nil_of_length (hlimit : 1 ≤ limit) :
    page (T.newestFirst user) limit (T.newestFirst user).length = [] := by
  rw [page, List.drop_eq_nil_of_le (Nat.le_mul_of_pos_right _ hlimit), List.take_nil]

/-- The caller is done after some number of reads. -/
theorem finishes (hlimit : 1 ≤ limit) :
    ∃ actions s, Run (system user limit) ReadsOnly ⟨T, []⟩ actions s ∧ s.finished = true := by
  have hexists : ∃ n, page (T.newestFirst user) limit n = [] :=
    ⟨_, page_eq_nil_of_length hlimit⟩
  have hgoes : ∀ n ≤ Nat.find hexists, (after T user limit n).finished = false := by
    intro n hn
    cases n with
    | zero => rfl
    | succ n =>
      rw [finished_after_succ, List.isEmpty_eq_false_iff]
      exact Nat.find_min hexists hn
  have hread : ∀ n ≤ Nat.find hexists, (system user limit).step (after T user limit n) .read =
      some (after T user limit (n + 1)) := by
    intro n hn
    simp only [system, step, hgoes n hn, after_succ]
    rfl
  have hreach : ∀ n ≤ Nat.find hexists + 1, ∃ actions,
      Run (system user limit) ReadsOnly ⟨T, []⟩ actions (after T user limit n) := by
    intro n hn
    induction n with
    | zero => exact ⟨[], .nil⟩
    | succ n ih =>
      obtain ⟨actions, hrun⟩ := ih (by omega)
      exact ⟨_, hrun.snoc rfl (hread n (by omega))⟩
  obtain ⟨actions, hrun⟩ := hreach _ le_rfl
  refine ⟨actions, _, hrun, ?_⟩
  rw [finished_after_succ, Nat.find_spec hexists]
  rfl

theorem nodup_newestFirst : (T.newestFirst user).Nodup := by
  rw [(T.newestFirst_perm user).nodup_iff]
  exact (List.Nodup.of_map _ T.primaryKey).filter _

/-- Newest first, and of two that were created at the same time the one with the higher id. -/
theorem pairwise_newestFirst : (T.newestFirst user).Pairwise fun s t =>
    t.createdAt < s.createdAt ∨ t.createdAt = s.createdAt ∧ t.id < s.id := by
  have hsorted : (T.newestFirst user).Pairwise Trade.Precedes := List.pairwise_insertionSort ..
  have hdistinct : (T.newestFirst user).Pairwise fun s t => s ≠ t := nodup_newestFirst
  refine (hsorted.and hdistinct).imp_of_mem fun {s t} hs ht hst => ?_
  obtain ⟨hle, hne⟩ := hst
  rcases hle with hnewer | ⟨hsame, hid⟩
  · exact Or.inl hnewer
  · refine Or.inr ⟨hsame, lt_of_le_of_ne hid fun heq => hne ?_⟩
    exact TradeTable.eq_of_id (TradeTable.mem_newestFirst.mp hs).1
      (TradeTable.mem_newestFirst.mp ht).1 heq.symm

end Still

end Reading

/-! ## Paging -/

/-- **Paging loses nothing.** Whatever is inserted in between, a caller who has come to an empty
page has read every trade that was there at the first read; without an insert each exactly
once, newest first, with their number on every page; and without inserts the caller does come
to an empty page. -/
theorem paging_loses_nothing (T : TradeTable) (user : UserId) {limit : Nat} (hlimit : 1 ≤ limit) :
    (∀ actions s, Run (Reading.system user limit) unguarded ⟨T, []⟩ actions s →
      s.finished = true → ∀ t ∈ T.rows, t.userId = user → t ∈ s.yielded) ∧
    (∀ actions s, Run (Reading.system user limit) Reading.ReadsOnly ⟨T, []⟩ actions s →
      s.finished = true →
      s.yielded.Perm (T.rows.filter fun t => t.userId = user) ∧ s.yielded.Nodup ∧
      (s.yielded.Pairwise fun s t =>
        t.createdAt < s.createdAt ∨ t.createdAt = s.createdAt ∧ t.id < s.id) ∧
      ∀ p ∈ s.pages, p.2 = s.yielded.length) ∧
    ∃ actions s, Run (Reading.system user limit) Reading.ReadsOnly ⟨T, []⟩ actions s ∧
      s.finished = true := by
  refine ⟨fun actions s hrun hdone t ht hmine =>
    Reading.mem_yielded_of_run hlimit hrun hdone ht hmine, ?_, Reading.finishes hlimit⟩
  intro actions s hrun hdone
  obtain ⟨n, rfl⟩ := Reading.eq_after_of_run hrun
  rw [Reading.yielded_of_finished hlimit hdone]
  refine ⟨?_, Reading.nodup_newestFirst, Reading.pairwise_newestFirst, ?_⟩
  · have hmine : T.mine user none = T.rows.filter fun t => t.userId = user := by
      simp [TradeTable.mine]
    exact hmine ▸ T.newestFirst_perm user
  · intro p hp
    obtain ⟨k, -, rfl⟩ := List.mem_map.mp hp
    rw [listTradesForUser_page]

theorem paging_loses_nothing_one : ∃ actions s,
    Run (Reading.system 1 1) Reading.ReadsOnly ⟨Sample.claimed.trades, []⟩ actions s ∧
      s.finished = true ∧ Sample.trade ∈ s.yielded := by
  obtain ⟨hall, -, actions, s, hrun, hdone⟩ :=
    paging_loses_nothing Sample.claimed.trades 1 (le_refl 1)
  exact ⟨actions, s, hrun, hdone, hall actions s hrun.unguard hdone _ Sample.trade_mem rfl⟩

end AutoTrader
