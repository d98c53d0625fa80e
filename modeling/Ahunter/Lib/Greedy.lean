import Mathlib.Algebra.Order.BigOperators.Group.List
import Mathlib.Tactic.Abel
import Mathlib.Tactic.Linarith

/-!
# Greedy allotment

Take an amount from a row of capacities in order, each capacity to its end
before the next one is touched. First-in-first-out disposal of lots, spending
a purse coin by coin and handing a budget round are all this one function.

Three facts carry every use of it. The allotment takes the whole amount
whenever the row holds that much (`allot_sum`). It is a prefix: every capacity
before the last one touched is exhausted (`allot_prefix`). And it composes:
taking `a` and then `b` from what is left takes exactly what taking `a + b`
at once would have taken, so how an amount is cut into parts never shows
(`allot_add`).
-/

namespace Ahunter.Lib

variable {α : Type} [AddCommGroup α] [LinearOrder α] [IsOrderedAddMonoid α]

variable {cs : List α}

/-- What a greedy pass takes from each capacity to make up `r`. -/
def allot (r : α) : List α → List α
  | [] => []
  | c :: cs => min r c :: allot (r - min r c) cs

def leftOver (cs us : List α) : List α := List.zipWith (· - ·) cs us

/-- `us` exhausts a prefix of `cs` and leaves everything after it alone. -/
def ExhaustsPrefix : List α → List α → Prop
  | [], [] => True
  | c :: cs, u :: us =>
      (u = c ∧ ExhaustsPrefix cs us) ∨ (0 ≤ u ∧ u ≤ c ∧ ∀ v ∈ us, v = 0)
  | _, _ => False

omit [IsOrderedAddMonoid α] in
@[simp] theorem allot_length (r : α) (cs : List α) : (allot r cs).length = cs.length := by
  induction cs generalizing r with
  | nil => rfl
  | cons c cs ih => simp [allot, ih]

omit [IsOrderedAddMonoid α] in
theorem allot_zero (hcs : ∀ c ∈ cs, 0 ≤ c) : ∀ u ∈ allot 0 cs, u = 0 := by
  induction cs with
  | nil => simp [allot]
  | cons c cs ih =>
      have hc : min 0 c = (0 : α) := min_eq_left (hcs c List.mem_cons_self)
      intro u hu
      simp only [allot, hc, sub_zero] at hu
      rcases List.mem_cons.mp hu with rfl | hu
      · rfl
      · exact ih (fun d hd => hcs d (List.mem_cons_of_mem _ hd)) u hu

theorem allot_nonneg {r : α} (hr : 0 ≤ r) (hcs : ∀ c ∈ cs, 0 ≤ c) : ∀ u ∈ allot r cs, 0 ≤ u := by
  induction cs generalizing r with
  | nil => simp [allot]
  | cons c cs ih =>
      intro u hu
      rcases List.mem_cons.mp hu with rfl | hu
      · exact le_min hr (hcs c List.mem_cons_self)
      · refine ih (sub_nonneg.mpr (min_le_left r c)) ?_ u hu
        exact fun d hd => hcs d (List.mem_cons_of_mem _ hd)

theorem allot_sum {r : α} (hr : 0 ≤ r) (hcs : ∀ c ∈ cs, 0 ≤ c) :
    (allot r cs).sum = min r cs.sum := by
  induction cs generalizing r with
  | nil => simp [allot, hr]
  | cons c cs ih =>
      have hcs' : ∀ d ∈ cs, 0 ≤ d := fun d hd =>
        hcs d (List.mem_cons_of_mem _ hd)
      have hsum : 0 ≤ cs.sum := List.sum_nonneg hcs'
      rw [allot, List.sum_cons, ih (sub_nonneg.mpr (min_le_left r c)) hcs',
        List.sum_cons]
      rcases le_total r c with h | h
      · rw [min_eq_left h, sub_self, min_eq_left hsum, add_zero,
          min_eq_left (h.trans (le_add_of_nonneg_right hsum))]
      · rw [min_eq_right h, ← min_add_add_left, add_sub_cancel]

theorem allot_prefix {r : α} (hr : 0 ≤ r) (hcs : ∀ c ∈ cs, 0 ≤ c) :
    ExhaustsPrefix cs (allot r cs) := by
  induction cs generalizing r with
  | nil => trivial
  | cons c cs ih =>
      have hcs' : ∀ d ∈ cs, 0 ≤ d := fun d hd =>
        hcs d (List.mem_cons_of_mem _ hd)
      rcases le_total r c with h | h
      · refine Or.inr ⟨le_min hr (hcs c List.mem_cons_self),
          min_le_right r c, ?_⟩
        rw [min_eq_left h, sub_self]
        exact allot_zero hcs'
      · exact Or.inl ⟨min_eq_right h,
          ih (sub_nonneg.mpr (min_le_left r c)) hcs'⟩

omit [LinearOrder α] [IsOrderedAddMonoid α] in
theorem leftOver_zero {us : List α} (hlen : us.length = cs.length) (hu : ∀ u ∈ us, u = 0) :
    leftOver cs us = cs := by
  induction cs generalizing us with
  | nil => simp [leftOver]
  | cons c cs ih =>
      cases us with
      | nil => simp at hlen
      | cons u us =>
          have h0 : u = 0 := hu u List.mem_cons_self
          have hlen' : us.length = cs.length := by simpa using hlen
          have := ih hlen' fun v hv => hu v (List.mem_cons_of_mem _ hv)
          simp only [leftOver] at this ⊢
          simp [h0, this]

theorem allot_allot {a b : α} (hb : 0 ≤ b) (hab : b ≤ a) (hcs : ∀ c ∈ cs, 0 ≤ c) :
    allot b (allot a cs) = allot b cs := by
  induction cs generalizing a b with
  | nil => rfl
  | cons c cs ih =>
      have hcs' : ∀ d ∈ cs, 0 ≤ d := fun d hd =>
        hcs d (List.mem_cons_of_mem _ hd)
      have hmin : min b (min a c) = min b c := by
        rw [← min_assoc, min_eq_left hab]
      simp only [allot, hmin]
      congr 1
      refine ih (sub_nonneg.mpr (min_le_left b c)) ?_ hcs'
      rcases le_total b c with h | h
      · rw [min_eq_left h, sub_self]
        exact sub_nonneg.mpr (min_le_left a c)
      · rw [min_eq_right h, min_eq_right (h.trans hab)]
        exact sub_le_sub_right hab c

theorem allot_add {a b : α} (ha : 0 ≤ a) (hb : 0 ≤ b) (hcs : ∀ c ∈ cs, 0 ≤ c) :
    List.zipWith (· + ·) (allot a cs) (allot b (leftOver cs (allot a cs))) = allot (a + b) cs := by
  induction cs generalizing a b with
  | nil => rfl
  | cons c cs ih =>
      have hcs' : ∀ d ∈ cs, 0 ≤ d := fun d hd =>
        hcs d (List.mem_cons_of_mem _ hd)
      have hc : 0 ≤ c := hcs c List.mem_cons_self
      simp only [leftOver, allot, List.zipWith_cons_cons]
      rcases le_total a c with h | h
      · -- The first pass stops inside `c`; the second resumes there.
        have hrest : leftOver cs (allot (a - a) cs) = cs := by
          have hz := allot_zero hcs'
          rw [sub_self]
          exact leftOver_zero (allot_length _ _) hz
        have hsplit : a + min b (c - a) = min (a + b) c := by
          rw [← min_add_add_left, add_sub_cancel]
        have hih := ih (a := 0) (b := b - min b (c - a)) le_rfl
          (sub_nonneg.mpr (min_le_left _ _)) hcs'
        rw [min_eq_left h, hsplit]
        congr 1
        rw [sub_self] at hrest ⊢
        simp only [leftOver] at hrest hih
        rw [hrest] at hih ⊢
        rw [hih, zero_add]
        congr 1
        rw [← hsplit]
        abel
      · have hb' : min b (c - c) = 0 := by rw [sub_self, min_eq_right hb]
        have hab : min (a + b) c = c :=
          min_eq_right (h.trans (le_add_of_nonneg_right hb))
        rw [min_eq_right h, hb', hab, add_zero, sub_zero]
        congr 1
        have hih := ih (a := a - c) (b := b) (sub_nonneg.mpr h) hb hcs'
        simp only [leftOver] at hih
        rw [hih, sub_add_eq_add_sub]

end Ahunter.Lib
