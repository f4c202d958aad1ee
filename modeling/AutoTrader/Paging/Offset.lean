import Mathlib.Data.List.Infix
import Mathlib.Data.List.Flatten

/-!
# Reading a list by offset

A list is read in pages of `limit` elements at offsets `0`, `limit`, `2 * limit`, and so on.
A list that does not change is read exactly once (`flatMap_page`). A list that grows in front
between two reads moves what is not yet read further back, never forward, so that nothing is
passed over (`mem_drop_of_suffix`); some elements are read again.
-/

namespace Paging

variable {α : Type}

/-- The `n`-th page. -/
def page (l : List α) (limit n : Nat) : List α := (l.drop (n * limit)).take limit

theorem page_append_rest (l : List α) (limit n : Nat) :
    page l limit n ++ l.drop ((n + 1) * limit) = l.drop (n * limit) := by
  rw [page, Nat.succ_mul, ← List.drop_drop, List.take_append_drop]

/-- **One read.** What is not before the page is on it or behind it. -/
theorem mem_page_or_behind {l : List α} {limit n : Nat} {a : α} (h : a ∈ l.drop (n * limit)) :
    a ∈ page l limit n ∨ a ∈ l.drop ((n + 1) * limit) := by
  rw [← page_append_rest] at h
  exact List.mem_append.mp h

/-- **One growth.** What was behind an offset stays behind it. -/
theorem mem_drop_of_suffix {l l' : List α} {k : Nat} {a : α} (hsuffix : l <:+ l')
    (h : a ∈ l.drop k) : a ∈ l'.drop k := by
  obtain ⟨front, rfl⟩ := hsuffix
  rw [List.drop_append]
  apply List.mem_append_right
  exact List.drop_subset_drop_left l (Nat.sub_le k front.length) h

/-- An empty page has nothing behind it. -/
theorem drop_eq_nil_of_page {l : List α} {limit n : Nat} (hlimit : 1 ≤ limit)
    (h : page l limit n = []) : l.drop (n * limit) = [] := by
  rcases List.take_eq_nil_iff.mp h with hzero | hnil
  · omega
  · exact hnil

/-- The first pages of a list that does not change, in order. -/
theorem flatMap_page (l : List α) (limit n : Nat) :
    (List.range n).flatMap (page l limit) = l.take (n * limit) := by
  induction n with
  | zero => simp
  | succ n ih =>
    rw [List.range_succ, List.flatMap_append, ih, List.flatMap_singleton, page, Nat.succ_mul,
      List.take_add]

end Paging
