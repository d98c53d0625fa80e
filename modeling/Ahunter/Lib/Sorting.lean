import Mathlib.Data.List.DropRight
import Mathlib.Data.List.Sort

/-!
# Sorting and selecting

Insertion sort is stable, so what a predicate selects of a sorted list is the
sorted selection. In a list without repetitions that is in order, the last
elements are those with few elements behind them.
-/

namespace Ahunter.Lib

variable {α : Type} {r : α → α → Prop} [DecidableRel r]

theorem orderedInsert_first {a : α} {l : List α} (h : ∀ x ∈ l, r a x) :
    l.orderedInsert r a = a :: l := by
  cases l with
  | nil => rfl
  | cons b l => exact List.orderedInsert_cons_of_le _ l (h b List.mem_cons_self)

theorem filter_orderedInsert (p : α → Bool) [Std.Total r] [IsTrans α r] (a : α)
    {l : List α} (hl : l.Pairwise r) :
    (l.orderedInsert r a).filter p =
      if p a then (l.filter p).orderedInsert r a else l.filter p := by
  induction l with
  | nil => cases hp : p a <;> simp [hp]
  | cons b l ih =>
      obtain ⟨hb, hl⟩ := List.pairwise_cons.mp hl
      rw [List.orderedInsert_cons]
      by_cases hab : r a b
      · rw [if_pos hab, List.filter_cons]
        cases hp : p a with
        | false => rfl
        | true =>
            -- Everything selected comes after `b`, hence after `a`.
            rw [if_pos rfl, if_pos rfl]
            refine (orderedInsert_first fun x hx => ?_).symm
            rcases List.mem_cons.mp (List.mem_filter.mp hx).1 with rfl | hx
            · exact hab
            · exact trans_of r hab (hb x hx)
      · rw [if_neg hab, List.filter_cons, List.filter_cons, ih hl]
        cases p b with
        | false => rfl
        | true =>
            cases p a with
            | false => rfl
            | true => exact (if_neg hab).symm

theorem filter_insertionSort (p : α → Bool) [Std.Total r] [IsTrans α r] (l : List α) :
    (l.insertionSort r).filter p = (l.filter p).insertionSort r := by
  induction l with
  | nil => rfl
  | cons a l ih =>
      rw [List.insertionSort_cons, filter_orderedInsert p a (List.pairwise_insertionSort r l),
        ih, List.filter_cons]
      cases p a <;> rfl

/-! ## The end of an ordered list -/

theorem mem_rtake {α κ : Type} [LinearOrder κ] {key : α → κ} {l : List α} {a : α} {n : ℕ}
    (hl : l.Pairwise fun x y => key x < key y) (ha : a ∈ l) :
    a ∈ l.rtake n ↔ (l.filter fun x => key a ≤ key x).length ≤ n := by
  obtain ⟨before, after, rfl⟩ := List.append_of_mem ha
  obtain ⟨-, hafter, hbefore⟩ := List.pairwise_append.mp hl
  have hbelow : before.filter (fun x => key a ≤ key x) = [] :=
    List.filter_eq_nil_iff.mpr fun x hx => by
      simpa using hbefore x hx a List.mem_cons_self
  have habove : (a :: after).filter (fun x => key a ≤ key x) = a :: after :=
    List.filter_eq_self.mpr fun x hx => by
      rcases List.mem_cons.mp hx with rfl | hx
      · simp
      · simpa using ((List.pairwise_cons.mp hafter).1 x hx).le
  rw [List.filter_append, hbelow, habove, List.nil_append, List.rtake, List.length_append]
  by_cases hn : (a :: after).length ≤ n
  · have hdrop : before.length + (a :: after).length - n ≤ before.length := by omega
    rw [List.drop_append_of_le_length hdrop]
    exact iff_of_true (List.mem_append_right _ List.mem_cons_self) hn
  · -- The cut is behind the element, where everything is larger.
    have hdrop : before.length + (a :: after).length - n
        = (before ++ [a]).length + (after.length - n) := by
      simp only [List.length_cons, List.length_append, List.length_nil] at hn ⊢
      omega
    rw [List.append_cons, hdrop, List.drop_length_add_append]
    refine iff_of_false (fun hmem => ?_) hn
    exact lt_irrefl _ ((List.pairwise_cons.mp hafter).1 a (List.mem_of_mem_drop hmem))

end Ahunter.Lib
