import Mathlib.Data.List.Basic
import Mathlib.Order.Lattice

/-!
# Pages of an ordered list

A listing in the order of strictly increasing keys is read in pages: each
page starts after the key the one before ended with. The key of an element
stands for everything up to it, so a page that ends with an element leaves
exactly what follows it.
-/

namespace Ahunter.Lib

variable {α κ : Type} [LinearOrder κ] {key : α → κ}

def afterKey (key : α → κ) (l : List α) (k : κ) : List α := l.filter fun a => k < key a

theorem afterKey_sorted {l : List α} (h : l.Pairwise fun a b => key a < key b) (k : κ) :
    (afterKey key l k).Pairwise fun a b => key a < key b := h.filter _

theorem afterKey_element {l : List α} (h : l.Pairwise fun a b => key a < key b) {n : ℕ} {a : α}
    (ha : l[n]? = some a) : afterKey key l (key a) = l.drop (n + 1) := by
  induction l generalizing n with
  | nil => simp at ha
  | cons b l ih =>
      obtain ⟨hb, hl⟩ := List.pairwise_cons.mp h
      cases n with
      | zero =>
          rw [List.getElem?_cons_zero, Option.some_inj] at ha
          subst ha
          rw [afterKey, List.filter_cons_of_neg (by simp), List.drop_succ_cons, List.drop_zero,
            List.filter_eq_self]
          exact fun c hc => by simpa using hb c hc
      | succ n =>
          rw [List.getElem?_cons_succ] at ha
          have hlt := hb a (List.mem_of_getElem? ha)
          rw [afterKey, List.filter_cons_of_neg (by simpa using hlt.le), List.drop_succ_cons]
          exact ih hl ha

theorem afterKey_next {l : List α} (h : l.Pairwise fun a b => key a < key b) {k : κ} {n : ℕ}
    {a : α} (ha : (afterKey key l k)[n]? = some a) :
    afterKey key l (key a) = (afterKey key l k).drop (n + 1) := by
  have hk : k < key a := by simpa [afterKey] using (List.mem_filter.mp (List.mem_of_getElem? ha)).2
  rw [← afterKey_element (afterKey_sorted h k) ha, afterKey, afterKey, afterKey, List.filter_filter]
  refine List.filter_congr fun b _ => ?_
  rw [Bool.eq_iff_iff]
  simpa using fun hb => hk.trans hb

end Ahunter.Lib
