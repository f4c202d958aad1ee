import AutoTrader.Db.Models

/-!
# The table `users`

The rows that are committed, and the rows that open transactions have inserted. The UNIQUE index
on `users.email` covers both, so that no table holds two of them with one address.
-/

namespace AutoTrader

structure UserRow extends User where
  passwordHash : String
  deriving DecidableEq

structure UsersTable where
  rows : List UserRow
  /-- What open transactions have inserted, with the call each of them belongs to. -/
  uncommitted : List (Nat × UserRow)
  uniqueEmail : ((rows ++ uncommitted.map Prod.snd).map fun u => u.email).Nodup

namespace UsersTable

def find? (t : UsersTable) (email : String) : Option UserRow := t.rows.find? fun u => u.email = email

/-- Another transaction has inserted the address: an INSERT of it waits for that one to end. -/
def isInserted (t : UsersTable) (email : String) : Bool :=
  t.uncommitted.any fun p => p.2.email = email

/-- No entry of the index has the address. -/
abbrev Fits (t : UsersTable) (email : String) : Prop :=
  email ∉ (t.rows ++ t.uncommitted.map Prod.snd).map fun u => u.email

def insert (t : UsersTable) (call : Nat) (row : UserRow) (h : t.Fits row.email) : UsersTable where
  rows := t.rows
  uncommitted := t.uncommitted ++ [(call, row)]
  uniqueEmail := by
    have hentries : (t.uncommitted ++ [(call, row)]).map Prod.snd =
        t.uncommitted.map Prod.snd ++ [row] := List.map_append
    rw [hentries, ← List.append_assoc]
    exact TradeTable.nodup_concat t.uniqueEmail fun u hu hemail => h (List.mem_map.mpr ⟨u, hu, hemail⟩)

/-- The COMMIT of the transaction that inserted the row. -/
def commit (t : UsersTable) (call : Nat) (row : UserRow) (h : (call, row) ∈ t.uncommitted) :
    UsersTable where
  rows := t.rows ++ [row]
  uncommitted := t.uncommitted.erase (call, row)
  uniqueEmail := by
    have hperm : (t.uncommitted.map Prod.snd).Perm
        (row :: (t.uncommitted.erase (call, row)).map Prod.snd) :=
      (List.perm_cons_erase h).map Prod.snd
    have hrows := ((hperm.append_left t.rows).map fun u => u.email).nodup_iff.mp t.uniqueEmail
    rwa [List.append_assoc, List.singleton_append]

/-- The ROLLBACK of a transaction, or its end without a COMMIT. -/
def rollback (t : UsersTable) (call : Nat) : UsersTable where
  rows := t.rows
  uncommitted := t.uncommitted.filter fun p => p.1 ≠ call
  uniqueEmail :=
    t.uniqueEmail.sublist
      (((List.filter_sublist.map Prod.snd).append_left t.rows).map fun u => u.email)

theorem find?_eq_some {t : UsersTable} {row : UserRow} (h : row ∈ t.rows) :
    t.find? row.email = some row := by
  obtain ⟨u, hu⟩ : ∃ u, t.find? row.email = some u := by
    rw [← Option.isSome_iff_exists, find?, List.find?_isSome]
    exact ⟨row, h, decide_eq_true rfl⟩
  have hemail : u.email = row.email := by simpa using List.find?_some hu
  have hnodup : (t.rows.map fun u => u.email).Nodup :=
    t.uniqueEmail.sublist ((List.sublist_append_left t.rows _).map _)
  rw [hu, List.inj_on_of_nodup_map hnodup (List.mem_of_find?_eq_some hu) h hemail]

theorem mem_of_find? {t : UsersTable} {email : String} {row : UserRow}
    (h : t.find? email = some row) : row ∈ t.rows ∧ row.email = email :=
  ⟨List.mem_of_find?_eq_some h, by simpa using List.find?_some h⟩

/-- An address that is in the index and not in an open transaction is in a row. -/
theorem exists_of_not_fits {t : UsersTable} {email : String} (hopen : t.isInserted email = false)
    (h : ¬ t.Fits email) : ∃ u ∈ t.rows, u.email = email := by
  rw [Fits, not_not] at h
  obtain ⟨u, hu, hemail⟩ := List.mem_map.mp h
  rcases List.mem_append.mp hu with hu | hu
  · exact ⟨u, hu, hemail⟩
  · obtain ⟨p, hp, rfl⟩ := List.mem_map.mp hu
    have hinserted : t.isInserted email = true :=
      List.any_eq_true.mpr ⟨p, hp, decide_eq_true hemail⟩
    rw [hopen] at hinserted
    cases hinserted

end UsersTable

end AutoTrader
