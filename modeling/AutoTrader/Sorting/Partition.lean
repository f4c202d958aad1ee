import Mathlib.Data.List.Sort

/-!
# Sorting by parts

When one part of a list is ordered before everything else, sorting the list puts that part,
sorted by itself, in front of the rest. So whatever is taken from the front of a sorted list
does not depend on elements that are ordered behind it. And where the order tells all
elements of a list apart, the sorted list does not depend on how they were arranged. Sorting is
stable: dropping elements before it and dropping them behind it leave the same list.
-/

namespace Sorting

open List

variable {α : Type} {r : α → α → Prop} [DecidableRel r]

theorem orderedInsert_append_left {a : α} (xs : List α) {ys : List α} (h : ∀ y ∈ ys, r a y) :
    orderedInsert r a (xs ++ ys) = orderedInsert r a xs ++ ys := by
  induction xs with
  | nil =>
    cases ys with
    | nil => rfl
    | cons y ys =>
      rw [nil_append, orderedInsert_cons, if_pos (h y (mem_cons_self ..))]
      rfl
  | cons x xs ih =>
    simp only [cons_append, orderedInsert_cons]
    split
    · rfl
    · rw [ih, cons_append]

theorem orderedInsert_append_right {a : α} {xs ys : List α} (h : ∀ x ∈ xs, ¬ r a x) :
    orderedInsert r a (xs ++ ys) = xs ++ orderedInsert r a ys := by
  induction xs with
  | nil => rfl
  | cons x xs ih =>
    rw [cons_append, orderedInsert_cons, if_neg (h x (mem_cons_self ..)),
      ih fun y hy => h y (mem_cons_of_mem _ hy), cons_append]

/-- What is ordered before everything else is sorted by itself, in front. -/
theorem insertionSort_partition (p : α → Bool) {l : List α}
    (h : ∀ a ∈ l, ∀ b ∈ l, p a = true → p b = false → r a b ∧ ¬ r b a) :
    l.insertionSort r =
      (l.filter p).insertionSort r ++ (l.filter fun a => !p a).insertionSort r := by
  induction l with
  | nil => rfl
  | cons a l ih =>
    have hrest := ih fun b hb c hc => h b (mem_cons_of_mem _ hb) c (mem_cons_of_mem _ hc)
    rw [insertionSort_cons, hrest]
    cases hp : p a with
    | true =>
      rw [filter_cons_of_pos hp, filter_cons_of_neg (by simp [hp]), insertionSort_cons]
      refine orderedInsert_append_left _ fun y hy => ?_
      obtain ⟨hy, hpy⟩ := mem_filter.mp ((mem_insertionSort _).mp hy)
      exact (h a (mem_cons_self ..) y (mem_cons_of_mem _ hy) hp (by simpa using hpy)).1
    | false =>
      rw [filter_cons_of_neg (by simp [hp]), filter_cons_of_pos (by simp [hp]), insertionSort_cons]
      refine orderedInsert_append_right fun x hx => ?_
      obtain ⟨hx, hpx⟩ := mem_filter.mp ((mem_insertionSort _).mp hx)
      exact (h x (mem_cons_of_mem _ hx) a (mem_cons_self ..) hpx hp).2

/-- An order that tells the elements apart has one sorted arrangement of them. -/
theorem insertionSort_of_perm [Std.Total r] [IsTrans α r] {l l' : List α} (hperm : l.Perm l')
    (hantisymm : ∀ a ∈ l, ∀ b ∈ l', r a b → r b a → a = b) :
    l.insertionSort r = l'.insertionSort r := by
  refine Perm.eq_of_pairwise ?_ (pairwise_insertionSort r l) (pairwise_insertionSort r l') ?_
  · intro a b ha hb
    exact hantisymm a ((mem_insertionSort r).mp ha) b ((mem_insertionSort r).mp hb)
  · exact (perm_insertionSort r l).trans (hperm.trans (perm_insertionSort r l').symm)

theorem filter_orderedInsert [IsTrans α r] (p : α → Bool) (a : α) {l : List α}
    (h : l.Pairwise r) :
    (orderedInsert r a l).filter p =
      if p a then orderedInsert r a (l.filter p) else l.filter p := by
  induction l with
  | nil => cases hp : p a <;> simp [hp]
  | cons b l ih =>
    obtain ⟨hb, hl⟩ := pairwise_cons.mp h
    rw [orderedInsert_cons]
    split
    · rename_i hab
      cases hp : p a with
      | false => rw [filter_cons_of_neg (by simp [hp]), if_neg (by simp)]
      | true =>
        -- the element goes in front of whatever is left
        have hfront : ∀ c ∈ (b :: l).filter p, r a c := by
          intro c hc
          rcases mem_cons.mp (mem_of_mem_filter hc) with rfl | hc
          · exact hab
          · exact IsTrans.trans _ _ _ hab (hb c hc)
        rw [filter_cons_of_pos hp, if_pos rfl]
        exact (orderedInsert_append_left [] hfront).symm
    · rename_i hab
      cases hp : p a with
      | false =>
        have hrest := ih hl
        rw [hp, if_neg (by simp)] at hrest
        rw [if_neg (by simp), filter_cons, hrest, filter_cons]
      | true =>
        have hrest := ih hl
        rw [hp, if_pos rfl] at hrest
        rw [if_pos rfl, filter_cons, hrest, filter_cons]
        split
        · rw [orderedInsert_cons, if_neg hab]
        · rfl

/-- Sorting is stable. -/
theorem filter_insertionSort [Std.Total r] [IsTrans α r] (p : α → Bool) (l : List α) :
    (l.insertionSort r).filter p = (l.filter p).insertionSort r := by
  induction l with
  | nil => rfl
  | cons a l ih =>
    rw [insertionSort_cons, filter_orderedInsert p a (pairwise_insertionSort r l), ih]
    cases hp : p a with
    | true => rw [if_pos rfl, filter_cons_of_pos hp, insertionSort_cons]
    | false => rw [if_neg (by simp), filter_cons_of_neg (by simp [hp])]

end Sorting
