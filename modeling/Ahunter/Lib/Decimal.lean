import Mathlib.Algebra.BigOperators.Ring.List
import Mathlib.Data.Rat.Cast.Order
import Mathlib.Tactic.FieldSimp
import Mathlib.Tactic.Positivity
import Mathlib.Tactic.Ring

/-!
# Decimals

A finite decimal is a sign, a coefficient and a power of ten. Two decimals
can stand for the same number and still be different (`1.0` and `1.00`),
which is what a program that compares their texts sees, so equality is of
representations and order is of values.

Sums and products are taken on coefficients and never round; their values
are the sums and products of the values.
-/

namespace Ahunter.Lib

structure Decimal where
  negative : Bool
  coefficient : ℕ
  exponent : ℤ
deriving DecidableEq, Repr

namespace Decimal

def signed (d : Decimal) : ℤ := if d.negative then -d.coefficient else d.coefficient

def toRat (d : Decimal) : ℚ := d.signed * (10 : ℚ) ^ d.exponent

instance : LT Decimal := ⟨fun a b => a.toRat < b.toRat⟩
instance : LE Decimal := ⟨fun a b => a.toRat ≤ b.toRat⟩

instance (a b : Decimal) : Decidable (a < b) :=
  inferInstanceAs (Decidable (a.toRat < b.toRat))
instance (a b : Decimal) : Decidable (a ≤ b) :=
  inferInstanceAs (Decidable (a.toRat ≤ b.toRat))

variable {a b : Decimal}

theorem le_def : a ≤ b ↔ a.toRat ≤ b.toRat := Iff.rfl

theorem le_of_not_gt (h : ¬ a > b) : a ≤ b := (Rat.not_lt).mp h

def zero : Decimal := ⟨false, 0, 0⟩

@[simp] theorem toRat_zero : zero.toRat = 0 := by simp [toRat, zero, signed]

def ofSigned (coefficient exponent : ℤ) : Decimal :=
  ⟨coefficient < 0, coefficient.natAbs, exponent⟩

theorem signed_ofSigned (c e : ℤ) : (ofSigned c e).signed = c := by
  simp only [signed, ofSigned, decide_eq_true_eq]
  split <;> omega

theorem toRat_ofSigned (c e : ℤ) : (ofSigned c e).toRat = c * (10 : ℚ) ^ e := by
  rw [toRat, signed_ofSigned, ofSigned]

/-- `value.copy_negate()` -/
def negate (d : Decimal) : Decimal := { d with negative := !d.negative }

@[simp] theorem toRat_negate (d : Decimal) : d.negate.toRat = -d.toRat := by
  cases d with
  | mk negative coefficient exponent => cases negative <;> simp [toRat, negate, signed]

def Integral (d : Decimal) : Prop := d.toRat.den = 1

instance (d : Decimal) : Decidable d.Integral :=
  inferInstanceAs (Decidable (_ = _))

/-! ## Exact sums and products -/

/-- The smallest exponent of a nonempty list, and no larger than `e`. -/
def lowest (e : ℤ) (values : List Decimal) : ℤ :=
  values.foldr (fun d acc => min d.exponent acc) e

theorem lowest_le (e : ℤ) (values : List Decimal) : lowest e values ≤ e := by
  induction values with
  | nil => exact le_refl e
  | cons d ds ih => exact (min_le_right _ _).trans ih

variable {values : List Decimal}

theorem lowest_le_of_mem {e : ℤ} {d : Decimal} (h : d ∈ values) : lowest e values ≤ d.exponent := by
  induction values with
  | nil => cases h
  | cons x xs ih =>
      rcases List.mem_cons.mp h with rfl | h
      · exact min_le_left _ _
      · exact (min_le_right _ _).trans (ih h)

def rescale (e : ℤ) (d : Decimal) : ℤ := d.signed * 10 ^ (d.exponent - e).toNat

theorem rescale_mul {e : ℤ} {d : Decimal} (h : e ≤ d.exponent) :
    (d.rescale e : ℚ) * 10 ^ e = d.toRat := by
  have hpow : ((10 : ℚ) ^ (d.exponent - e).toNat) * 10 ^ e = 10 ^ d.exponent := by
    rw [← zpow_natCast, ← zpow_add₀ (by norm_num)]
    congr 1
    omega
  rw [rescale, toRat, ← hpow]
  push_cast
  ring

theorem sum_rescale_mul {e : ℤ} (h : ∀ d ∈ values, e ≤ d.exponent) :
    ((values.map (rescale e)).sum : ℚ) * 10 ^ e = (values.map toRat).sum := by
  induction values with
  | nil => simp
  | cons d ds ih =>
      simp only [List.map_cons, List.sum_cons, Int.cast_add, add_mul]
      rw [rescale_mul (h d List.mem_cons_self),
        ih fun x hx => h x (List.mem_cons_of_mem _ hx)]

def sum : List Decimal → Decimal
  | [] => zero
  | d :: ds =>
      let e := lowest d.exponent ds
      ofSigned ((d :: ds).map (rescale e)).sum e

theorem toRat_sum (values : List Decimal) : (sum values).toRat = (values.map toRat).sum := by
  cases values with
  | nil => simp [sum]
  | cons d ds =>
      rw [sum, toRat_ofSigned]
      refine sum_rescale_mul fun x hx => ?_
      rcases List.mem_cons.mp hx with rfl | hx
      · exact lowest_le _ _
      · exact lowest_le_of_mem hx

def mul (a b : Decimal) : Decimal := ofSigned (a.signed * b.signed) (a.exponent + b.exponent)

theorem toRat_mul (a b : Decimal) : (mul a b).toRat = a.toRat * b.toRat := by
  rw [mul, toRat_ofSigned, toRat, toRat, zpow_add₀ (by norm_num)]
  push_cast
  ring

theorem toRat_mul_nonneg (ha : 0 ≤ a.toRat) (hb : 0 ≤ b.toRat) : 0 ≤ (mul a b).toRat := by
  rw [toRat_mul]
  exact Rat.mul_nonneg ha hb

theorem toRat_sum_nonneg (h : ∀ d ∈ values, 0 ≤ d.toRat) : 0 ≤ (sum values).toRat := by
  rw [toRat_sum]
  refine List.sum_nonneg fun x hx => ?_
  obtain ⟨d, hd, rfl⟩ := List.mem_map.mp hx
  exact h d hd

end Decimal

end Ahunter.Lib
