import Mathlib.Order.Lattice

/-!
# The greatest of a list

The element of a nonempty list with the greatest key, and of several such
elements the one that comes first, which is what a maximum taken by a key
gives. Which key is greatest does not depend on the order of the list; which
element is, only as far as elements share that key.
-/

namespace Ahunter.Lib

variable {α κ : Type} [LinearOrder κ] {key : α → κ}

def greatest (key : α → κ) (first : α) (rest : List α) : α :=
  rest.foldl (fun best a => if key best < key a then a else best) first

theorem greatest_mem (first : α) (rest : List α) : greatest key first rest ∈ first :: rest := by
  induction rest generalizing first with
  | nil => exact List.mem_cons_self
  | cons a rest ih =>
      rw [greatest, List.foldl_cons]
      rcases List.mem_cons.mp (ih (if key first < key a then a else first)) with h | h
      · rw [greatest] at h
        rw [h]
        split
        · exact List.mem_cons_of_mem _ List.mem_cons_self
        · exact List.mem_cons_self
      · exact List.mem_cons_of_mem _ (List.mem_cons_of_mem _ h)

theorem le_greatest (first : α) (rest : List α) :
    ∀ a ∈ first :: rest, key a ≤ key (greatest key first rest) := by
  induction rest generalizing first with
  | nil => exact fun a ha => le_of_eq (congrArg key (List.mem_singleton.mp ha))
  | cons b rest ih =>
      intro a ha
      rw [greatest, List.foldl_cons]
      have hnext := ih (if key first < key b then b else first)
      have hhead := hnext _ List.mem_cons_self
      rw [greatest] at hnext hhead
      rcases List.mem_cons.mp ha with rfl | ha
      · refine le_trans ?_ hhead
        split
        next hlt => exact hlt.le
        next => exact le_refl _
      · rcases List.mem_cons.mp ha with rfl | ha
        · refine le_trans ?_ hhead
          split
          next => exact le_refl _
          next hle => exact not_lt.mp hle
        · exact hnext a (List.mem_cons_of_mem _ ha)

theorem greatest_first {first : α} {rest : List α} (h : ∀ a ∈ rest, key a ≤ key first) :
    greatest key first rest = first := by
  induction rest with
  | nil => rfl
  | cons a rest ih =>
      rw [greatest, List.foldl_cons, if_neg (not_lt.mpr (h a List.mem_cons_self))]
      exact ih fun b hb => h b (List.mem_cons_of_mem _ hb)

end Ahunter.Lib
