import Mathlib.Data.Rat.Floor

/-!
# Rounding half up to a quantum

Decimal rounding with ties away from zero, on exact rationals. The facts a
ledger needs of it are that it is monotone and keeps the sign; what it does
to a particular amount is computed, not reasoned about.
-/

namespace Ahunter.Lib

variable {x : ℚ}

/-- The nearest integer, ties away from zero. -/
def halfUp (x : ℚ) : ℤ :=
  if 0 ≤ x then ⌊x + 1 / 2⌋ else -⌊-x + 1 / 2⌋

/-- The nearest multiple of `quantum`, ties away from zero. -/
def roundTo (quantum x : ℚ) : ℚ := halfUp (x / quantum) * quantum

def halfEven (x : ℚ) : ℤ :=
  if x - ⌊x⌋ < 1 / 2 then ⌊x⌋
  else if 1 / 2 < x - ⌊x⌋ then ⌊x⌋ + 1
  else if ⌊x⌋ % 2 = 0 then ⌊x⌋ else ⌊x⌋ + 1

theorem halfEven_nonneg (h : 0 ≤ x) : 0 ≤ halfEven x := by
  have hfloor : 0 ≤ ⌊x⌋ := Int.floor_nonneg.mpr h
  unfold halfEven
  split
  · exact hfloor
  · split
    · omega
    · split <;> omega

theorem halfUp_nonneg (h : 0 ≤ x) : 0 ≤ halfUp x := by
  rw [halfUp, if_pos h]
  exact Int.floor_nonneg.mpr (by linarith)

theorem halfUp_nonpos (h : x ≤ 0) : halfUp x ≤ 0 := by
  unfold halfUp
  split
  · next h0 =>
      have : x = 0 := le_antisymm h h0
      subst this
      norm_num
  · have : 0 ≤ ⌊-x + 1 / 2⌋ := Int.floor_nonneg.mpr (by linarith)
    omega

theorem halfUp_mono {y : ℚ} (h : x ≤ y) : halfUp x ≤ halfUp y := by
  by_cases hx : 0 ≤ x
  · rw [halfUp, halfUp, if_pos hx, if_pos (hx.trans h)]
    exact Int.floor_le_floor (by linarith)
  · by_cases hy : 0 ≤ y
    · exact (halfUp_nonpos (not_le.mp hx).le).trans (halfUp_nonneg hy)
    · rw [halfUp, halfUp, if_neg hx, if_neg hy]
      exact neg_le_neg (Int.floor_le_floor (by linarith))

@[simp] theorem roundTo_zero (q : ℚ) : roundTo q 0 = 0 := by
  have h : ⌊(1 / 2 : ℚ)⌋ = 0 := by norm_num
  simp only [roundTo, halfUp, zero_div, le_refl, if_true, zero_add, h]
  norm_num

theorem roundTo_mono {q y : ℚ} (hq : 0 < q) (h : x ≤ y) : roundTo q x ≤ roundTo q y := by
  refine mul_le_mul_of_nonneg_right ?_ hq.le
  exact_mod_cast halfUp_mono ((div_le_div_iff_of_pos_right hq).mpr h)

theorem roundTo_nonneg {q : ℚ} (hq : 0 < q) (h : 0 ≤ x) : 0 ≤ roundTo q x := by
  have := roundTo_mono hq h
  rwa [roundTo_zero] at this

/-! ## Whole amounts -/

def Whole (quantum x : ℚ) : Prop := ∃ k : ℤ, x = k * quantum

theorem roundTo_whole (q x : ℚ) : Whole q (roundTo q x) := ⟨_, rfl⟩

theorem Whole.mul_int {q : ℚ} (h : Whole q x) (n : ℤ) : Whole q (x * n) := by
  obtain ⟨k, rfl⟩ := h
  exact ⟨k * n, by push_cast; ring⟩

theorem halfUp_add_int (hx : 0 ≤ x) {k : ℤ} (hk : 0 ≤ k) : halfUp (x + k) = halfUp x + k := by
  have hkQ : (0 : ℚ) ≤ k := by exact_mod_cast hk
  rw [halfUp, halfUp, if_pos hx, if_pos (add_nonneg hx hkQ), add_right_comm,
    Int.floor_add_intCast]

theorem roundTo_add {q y : ℚ} (hq : 0 < q) (hx : 0 ≤ x) (hy : 0 ≤ y) (h : Whole q y) :
    roundTo q (x + y) = roundTo q x + y := by
  obtain ⟨k, rfl⟩ := h
  have hk : 0 ≤ k := by
    have := nonneg_of_mul_nonneg_left hy hq
    exact_mod_cast this
  rw [roundTo, add_div, mul_div_cancel_right₀ _ hq.ne', halfUp_add_int (div_nonneg hx hq.le) hk,
    roundTo]
  push_cast
  ring

theorem Whole.roundTo {q : ℚ} (hq : 0 < q) (hx : 0 ≤ x) (h : Whole q x) : Lib.roundTo q x = x := by
  have := roundTo_add hq le_rfl hx h
  rwa [zero_add, roundTo_zero, zero_add] at this

end Ahunter.Lib
