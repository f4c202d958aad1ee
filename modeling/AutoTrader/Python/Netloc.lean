import AutoTrader.Python.Case
import AutoTrader.Python.Url

/-!
# The host of a URL

The property `hostname` of what `urlsplit` returns, and where in the text of the URL it stands:
behind the last `@` of the authority, up to a colon or in brackets.
-/

namespace Python

namespace Url

/-- `text.rpartition(c)[2]`. -/
def afterLast (c : Char) (cs : List Char) : List Char := (cs.reverse.takeWhile (· != c)).reverse

/-- The host in an authority without its user. -/
def hostOf (hostinfo : List Char) : List Char :=
  if '[' ∈ hostinfo then (splitAtFirst ']' (splitAtFirst '[' hostinfo).2).1
  else (splitAtFirst ':' hostinfo).1

/-- The property `hostname`. What follows a percent sign keeps its case. -/
def hostname (tables : CaseTables) (p : SplitResult) : Option (List Char) :=
  let host := hostOf (afterLast '@' p.netloc)
  if host = [] then none
  else some (lower tables (host.takeWhile (· != '%')) ++ host.dropWhile (· != '%'))

/-! ## Behind the last occurrence -/

theorem not_mem_afterLast (c : Char) (cs : List Char) : c ∉ afterLast c cs := by
  intro hc
  have hne := (mem_takeWhile_spec (List.mem_reverse.mp hc)).1
  rw [bne_self_eq_false] at hne
  cases hne

/-- What stands in front ends with the character. -/
theorem exists_beforeLast (c : Char) (cs : List Char) :
    ∃ before, cs = before ++ afterLast c cs ∧ (before = [] ∨ before.getLast? = some c) := by
  have hsplit : cs.reverse.takeWhile (· != c) ++ cs.reverse.dropWhile (· != c) = cs.reverse :=
    List.takeWhile_append_dropWhile
  refine ⟨(cs.reverse.dropWhile (· != c)).reverse, ?_, ?_⟩
  · rw [afterLast, ← List.reverse_append, hsplit, List.reverse_reverse]
  · rw [List.reverse_eq_nil_iff, List.getLast?_reverse]
    cases hdrop : cs.reverse.dropWhile (· != c) with
    | nil => exact Or.inl rfl
    | cons d ds =>
      have hstop := head_dropWhile (congrArg List.head? hdrop)
      have hd : d = c := by simpa using hstop
      exact Or.inr (by rw [hd]; rfl)

theorem afterLast_append {c : Char} {before cs : List Char}
    (hbefore : before = [] ∨ before.getLast? = some c) (hcs : c ∉ cs) :
    afterLast c (before ++ cs) = cs := by
  have hall : ∀ d ∈ cs.reverse, (d != c) = true := by
    intro d hd
    rw [bne_iff_ne]
    rintro rfl
    exact hcs (List.mem_reverse.mp hd)
  rw [afterLast, List.reverse_append, takeWhile_stop hall, List.reverse_reverse]
  intro d hd
  rw [List.head?_reverse] at hd
  rcases hbefore with rfl | hlast
  · cases hd
  · rw [hlast, Option.some_inj] at hd
    rw [hd, bne_self_eq_false]

/-! ## Where the host stands -/

/-- The host stands at the beginning, up to a colon, or in the first brackets. -/
def Designates (hostinfo host : List Char) : Prop :=
  (∃ port, hostinfo = host ++ port ∧ '[' ∉ hostinfo ∧ ':' ∉ host ∧ (port = [] ∨ port.head? = some ':')) ∨
    ∃ before after, hostinfo = before ++ '[' :: (host ++ after) ∧ '[' ∉ before ∧ ']' ∉ host ∧
      (after = [] ∨ after.head? = some ']')

theorem takeWhile_ne {c : Char} {l r : List Char} (hl : c ∉ l) (hr : r = [] ∨ r.head? = some c) :
    (l ++ r).takeWhile (· != c) = l ∧ (l ++ r).dropWhile (· != c) = r := by
  have hall : ∀ d ∈ l, (d != c) = true := by
    intro d hd
    rw [bne_iff_ne]
    rintro rfl
    exact hl hd
  have hstop : ∀ d, r.head? = some d → (d != c) = false := by
    intro d hd
    rcases hr with rfl | hr
    · cases hd
    · rw [hr, Option.some_inj] at hd
      rw [← hd, bne_self_eq_false]
  exact ⟨takeWhile_stop hall hstop, dropWhile_stop hall hstop⟩

theorem not_mem_takeWhile_ne (c : Char) (cs : List Char) : c ∉ cs.takeWhile (· != c) := by
  intro hc
  have hne := (mem_takeWhile_spec hc).1
  rw [bne_self_eq_false] at hne
  cases hne

theorem head?_dropWhile_ne (c : Char) (cs : List Char) :
    cs.dropWhile (· != c) = [] ∨ (cs.dropWhile (· != c)).head? = some c := by
  cases hdrop : cs.dropWhile (· != c) with
  | nil => exact Or.inl rfl
  | cons d ds =>
    have hstop := head_dropWhile (congrArg List.head? hdrop)
    have hd : d = c := by simpa using hstop
    exact Or.inr (by rw [hd]; rfl)

theorem designates_iff {hostinfo host : List Char} :
    Designates hostinfo host ↔ hostOf hostinfo = host := by
  constructor
  · rintro (⟨port, rfl, hbracket, hhost, hport⟩ | ⟨before, after, rfl, hbefore, hhost, hafter⟩)
    · rw [hostOf, if_neg hbracket, splitAtFirst]
      exact (takeWhile_ne hhost hport).1
    · rw [hostOf, if_pos (by simp), splitAtFirst, splitAtFirst,
        (takeWhile_ne hbefore (Or.inr rfl)).2, List.drop_one, List.tail_cons]
      exact (takeWhile_ne hhost hafter).1
  · rintro rfl
    by_cases hbracket : '[' ∈ hostinfo
    · right
      rw [hostOf, if_pos hbracket]
      have hopen : (hostinfo.dropWhile (· != '[')).head? = some '[' := by
        refine (head?_dropWhile_ne '[' hostinfo).resolve_left fun hnil => ?_
        rw [← List.takeWhile_append_dropWhile (p := (· != '[')) (l := hostinfo), hnil,
          List.append_nil] at hbracket
        exact not_mem_takeWhile_ne '[' _ hbracket
      obtain ⟨rest, hrest⟩ : ∃ rest, hostinfo.dropWhile (· != '[') = '[' :: rest := by
        cases hdrop : hostinfo.dropWhile (· != '[') with
        | nil =>
          rw [hdrop] at hopen
          cases hopen
        | cons d rest =>
          rw [hdrop] at hopen
          cases hopen
          exact ⟨rest, rfl⟩
      refine ⟨hostinfo.takeWhile (· != '['), rest.dropWhile (· != ']'), ?_,
        not_mem_takeWhile_ne _ _, not_mem_takeWhile_ne _ _, head?_dropWhile_ne _ _⟩
      simp only [splitAtFirst, hrest, List.drop_one, List.tail_cons]
      rw [List.takeWhile_append_dropWhile, ← hrest, List.takeWhile_append_dropWhile]
    · left
      rw [hostOf, if_neg hbracket]
      exact ⟨hostinfo.dropWhile (· != ':'), List.takeWhile_append_dropWhile.symm, hbracket,
        not_mem_takeWhile_ne _ _, head?_dropWhile_ne _ _⟩

/-- `(hostname or "").lower()` is a name in ASCII, without a `k` or a percent sign, exactly if the
host is an ASCII spelling of it. -/
theorem lower_hostname_eq_iff {tables : CaseTables} {p : SplitResult} {w : List Char} (hne : w ≠ [])
    (hw : ∀ d ∈ w, d.toNat < 128 ∧ d ≠ 'k') (hpercent : '%' ∉ w) :
    lower tables ((hostname tables p).getD []) = w ↔
      (hostOf (afterLast '@' p.netloc)).map Char.toLower = w := by
  rw [hostname]
  generalize hostOf (afterLast '@' p.netloc) = host
  by_cases hnil : host = []
  · rw [if_pos hnil, hnil]
    exact iff_of_false (fun h => hne h.symm) (fun h => hne h.symm)
  · rw [if_neg hnil, Option.getD_some]
    by_cases hmem : '%' ∈ host
    · -- the sign is still there in lower case
      have hrest : (host.dropWhile (· != '%')).head? = some '%' := by
        refine (head?_dropWhile_ne '%' host).resolve_left fun hdrop => ?_
        rw [← List.takeWhile_append_dropWhile (p := (· != '%')) (l := host), hdrop,
          List.append_nil] at hmem
        exact not_mem_takeWhile_ne '%' _ hmem
      rw [lower_eq_iff hw]
      refine iff_of_false (fun h => hpercent ?_) (fun h => hpercent ?_)
      · rw [← h]
        refine List.mem_map.mpr ⟨'%', List.mem_append_right _ (List.mem_of_mem_head? hrest), rfl⟩
      · rw [← h]
        exact List.mem_map.mpr ⟨'%', hmem, rfl⟩
    · have hall : host.takeWhile (· != '%') = host ∧ host.dropWhile (· != '%') = [] := by
        have hboth := takeWhile_ne hmem (Or.inl rfl)
        rwa [List.append_nil] at hboth
      rw [hall.1, hall.2, List.append_nil, lower_lower, lower_eq_iff hw]

end Url

end Python
