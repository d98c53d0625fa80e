import Ahunter.Costs.Arithmetic

/-!
# The budget's arithmetic is exact

A sum, a product or a remainder is the exact one, in the representation the
coefficients give it, as soon as every operand can be taken apart and that
result can be built; otherwise no number comes out. The calibrated limit is
one product of this kind, of the unit with the ceiling of an exact quotient,
so it is the least multiple that covers the scaled cost and the reserve, and
what the reserves leave of it covers the scaled cost.
-/

namespace Ahunter.Costs

open Ahunter.Lib

def Short (d : Decimal) : Prop := d.coefficient < longest

instance (d : Decimal) : Decidable (Short d) :=
  inferInstanceAs (Decidable (_ < _))

def Fits (d : Decimal) : Prop := Short d ∧ InRange d

instance (d : Decimal) : Decidable (Fits d) :=
  inferInstanceAs (Decidable (_ ∧ _))

/-! ## Taking apart and building -/

variable {trapped : Bool} {d : Decimal}

theorem parts_ok {value : Decimal} {p : ℤ × ℤ} :
    parts value = .ok p ↔ Short value ∧ p = (value.signed, value.exponent) := by
  simp only [parts, bind_ok, refuse_ok, pure_ok, not_le, exists_and_left, exists_const, Short]
  exact and_congr_right fun _ => eq_comm

theorem decimal_number {coefficient exponent : ℤ} :
    decimal trapped coefficient exponent = .ok (some d) ↔
      Fits (Decimal.ofSigned coefficient exponent) ∧ d = Decimal.ofSigned coefficient exponent := by
  simp only [decimal, bind_ok, refuse_ok, not_le, exists_and_left, exists_const, Fits, and_assoc]
  refine and_congr_right fun _ => ?_
  split
  next hrange =>
    rw [pure_ok, Option.some.injEq, and_iff_right hrange]
    exact eq_comm
  next hrange =>
    refine iff_of_false (fun h => ?_) fun h => hrange h.1
    split at h
    · cases h
    · cases h

theorem mapM_parts {values : List Decimal} {found : List (ℤ × ℤ)} :
    values.mapM parts = .ok found ↔
      (∀ v ∈ values, Short v) ∧ found = values.map fun v => (v.signed, v.exponent) := by
  induction values generalizing found with
  | nil =>
      rw [List.mapM_nil, pure_ok]
      exact ⟨fun h => ⟨nofun, h.symm⟩, fun h => h.2.symm⟩
  | cons value values ih =>
      simp only [List.mapM_cons, bind_ok, parts_ok, ih, pure_ok, List.forall_mem_cons,
        List.map_cons]
      constructor
      · rintro ⟨p, ⟨hshort, rfl⟩, rest, ⟨hrest, rfl⟩, rfl⟩
        exact ⟨⟨hshort, hrest⟩, rfl⟩
      · rintro ⟨⟨hshort, hrest⟩, rfl⟩
        exact ⟨_, ⟨hshort, rfl⟩, _, ⟨hrest, rfl⟩, rfl⟩

theorem lowest_parts (exponent : ℤ) (values : List Decimal) :
    (values.map fun v => (v.signed, v.exponent)).foldr (fun p acc => min p.2 acc) exponent =
      Decimal.lowest exponent values := by
  rw [Decimal.lowest, List.foldr_map]

/-! ## Sums, products and remainders -/

theorem sumOf_number {values : List Decimal} :
    sumOf trapped values = .ok (some d) ↔
      (∀ v ∈ values, Short v) ∧ Fits (Decimal.sum values) ∧ d = Decimal.sum values := by
  simp only [sumOf, bind_ok, mapM_parts, and_assoc, exists_and_left, exists_eq_left]
  refine and_congr_right fun _ => ?_
  cases values with
  | nil =>
      have hfits : Fits (Decimal.sum []) := by decide +kernel
      rw [List.map_nil, and_iff_right hfits]
      dsimp only
      rw [pure_ok, Option.some.injEq]
      exact eq_comm
  | cons value values =>
      rw [List.map_cons]
      dsimp only
      rw [decimal_number, lowest_parts]
      have hcoefficients : ((value.signed, value.exponent) ::
            values.map fun v => (v.signed, v.exponent)) =
          (value :: values).map fun v => (v.signed, v.exponent) := rfl
      rw [hcoefficients, List.map_map]
      rfl

theorem multiply_number {left right : Decimal} :
    multiply trapped left right = .ok (some d) ↔
      (Short left ∧ Short right) ∧ Fits (Decimal.mul left right) ∧ d = Decimal.mul left right := by
  simp only [multiply, bind_ok, parts_ok, and_assoc, exists_and_left, exists_eq_left,
    decimal_number]
  rfl

theorem short_negate : Short d.negate ↔ Short d := Iff.rfl

theorem remainingOf_number {limit : Decimal} {charges : List Decimal} :
    remainingOf trapped limit charges = .ok (some d) ↔
      (∀ v ∈ limit :: charges, Short v) ∧ Fits (remaining limit charges) ∧
        d = remaining limit charges := by
  rw [remainingOf, sumOf_number]
  simp only [List.forall_mem_cons, List.forall_mem_map, short_negate]
  rfl

/-! ## Calibrated limits -/

variable {researchCost multiplier roundingUnit : Decimal} {phases baselinePhases : ℕ}

def scaledCost (researchCost multiplier : Decimal) (phases baselinePhases : ℕ) : ℚ :=
  researchCost.toRat * multiplier.toRat * phases / baselinePhases

def unitsFor (value : ℚ) (roundingUnit : Decimal) : Decimal :=
  Decimal.ofSigned ⌈value / roundingUnit.toRat⌉ 0

def Calibratable (researchCost multiplier : Decimal) (phases baselinePhases : ℕ)
    (reserve roundingUnit : Decimal) : Prop :=
  (0 < phases ∧ 0 < baselinePhases) ∧ 0 ≤ researchCost.toRat ∧ 0 ≤ reserve.toRat ∧
    0 < multiplier.toRat ∧ 0 < roundingUnit.toRat

theorem derivedLimit_ok {reserve total : Decimal} :
    derivedLimit researchCost multiplier phases baselinePhases reserve roundingUnit = .ok total ↔
      Calibratable researchCost multiplier phases baselinePhases reserve roundingUnit ∧
        total = Decimal.mul roundingUnit
          (unitsFor (scaledCost researchCost multiplier phases baselinePhases
            + reserve.toRat) roundingUnit) := by
  simp only [derivedLimit, bind_ok, refuse_ok, pure_ok, exists_and_left, exists_const,
    not_or, not_lt, not_le, Calibratable, and_assoc, Nat.pos_iff_ne_zero, ne_eq]
  constructor
  · rintro ⟨h1, h2, h3, h4, h5, h6, h⟩
    exact ⟨h1, h2, h3, h4, h5, h6, h.symm⟩
  · rintro ⟨h1, h2, h3, h4, h5, h6, h⟩
    exact ⟨h1, h2, h3, h4, h5, h6, h.symm⟩

theorem derivedLimitOf_number {reserve : Option Decimal} {total : Decimal} :
    derivedLimitOf trapped researchCost multiplier phases baselinePhases reserve roundingUnit
        = .ok (some total) ↔ ∃ kept, reserve = some kept ∧
        derivedLimit researchCost multiplier phases baselinePhases kept roundingUnit = .ok total ∧
        (Short roundingUnit ∧ Short (unitsFor
          (scaledCost researchCost multiplier phases baselinePhases + kept.toRat) roundingUnit)) ∧
        Fits total := by
  simp only [derivedLimitOf, derivedLimit, finiteOnly, bind_ok, need_ok, refuse_ok, pure_ok,
    multiply_number, unitsFor, scaledCost]
  constructor
  · rintro ⟨_, hphases, kept, rfl, _, hvalid, hshort, hfits, rfl⟩
    exact ⟨kept, rfl, ⟨(), hphases, (), hvalid, rfl⟩, hshort, hfits⟩
  · rintro ⟨kept, rfl, ⟨_, hphases, _, hvalid, rfl⟩, hshort, hfits⟩
    exact ⟨(), hphases, kept, rfl, (), hvalid, hshort, hfits, rfl⟩

def LeastMultiple (total value unit : ℚ) : Prop :=
  (∃ n : ℤ, total = n * unit) ∧ value ≤ total ∧ ∀ n : ℤ, value ≤ n * unit → total ≤ n * unit

theorem unitsFor_least {value : ℚ} (hunit : 0 < roundingUnit.toRat) :
    LeastMultiple (Decimal.mul roundingUnit (unitsFor value roundingUnit)).toRat value
      roundingUnit.toRat := by
  have htotal : (Decimal.mul roundingUnit (unitsFor value roundingUnit)).toRat =
      ⌈value / roundingUnit.toRat⌉ * roundingUnit.toRat := by
    rw [Decimal.toRat_mul, unitsFor, Decimal.toRat_ofSigned, zpow_zero, mul_one, mul_comm]
  rw [htotal]
  refine ⟨⟨_, rfl⟩, ?_, fun n hn => ?_⟩
  · exact (div_le_iff₀ hunit).mp (Int.le_ceil _)
  · have hceil : ⌈value / roundingUnit.toRat⌉ ≤ n :=
      Int.ceil_le.mpr ((div_le_iff₀ hunit).mpr hn)
    exact mul_le_mul_of_nonneg_right (by exact_mod_cast hceil) hunit.le

theorem scaledCost_nonneg (hcost : 0 ≤ researchCost.toRat) (hmultiplier : 0 < multiplier.toRat) :
    0 ≤ scaledCost researchCost multiplier phases baselinePhases := by
  unfold scaledCost
  positivity

theorem derivedLimitOf_least {reserve total : Decimal}
    (h : derivedLimitOf trapped researchCost multiplier phases baselinePhases (some reserve)
      roundingUnit = .ok (some total)) :
    Calibratable researchCost multiplier phases baselinePhases reserve roundingUnit ∧
      LeastMultiple total.toRat
        (scaledCost researchCost multiplier phases baselinePhases + reserve.toRat)
        roundingUnit.toRat := by
  obtain ⟨kept, hkept, hderived, -⟩ := derivedLimitOf_number.mp h
  cases hkept
  obtain ⟨hvalid, rfl⟩ := derivedLimit_ok.mp hderived
  exact ⟨hvalid, unitsFor_least hvalid.2.2.2.2⟩

theorem allocation_covers {formula : Formula} {reserves : Reserves} {maximum : Decimal}
    {total research : Decimal}
    (h : deriveAllocation trapped formula reserves maximum phases baselinePhases
      = .ok ⟨total, some research⟩) :
    scaledCost maximum formula.multiplier phases baselinePhases ≤ research.toRat ∧
      0 ≤ research.toRat ∧
      research.toRat + reserves.environment.toRat + reserves.evaluation.toRat = total.toRat := by
  simp only [deriveAllocation, finiteOnly, bind_ok, need_ok, pure_ok] at h
  obtain ⟨reserve, hreserve, limit, hlimit, found, rfl, left, hleft, hderived⟩ := h
  cases hderived
  obtain ⟨kept, rfl, -⟩ := derivedLimitOf_number.mp hlimit
  obtain ⟨⟨-, hcost, -, hmultiplier, -⟩, -, hcovers, -⟩ := derivedLimitOf_least hlimit
  obtain ⟨-, -, rfl⟩ := sumOf_number.mp hreserve
  obtain ⟨-, -, rfl⟩ := remainingOf_number.mp hleft
  have hscaled : 0 ≤ scaledCost maximum formula.multiplier phases baselinePhases :=
    scaledCost_nonneg hcost hmultiplier
  rw [Decimal.toRat_sum] at hcovers
  rw [toRat_remaining]
  simp only [List.map_cons, List.map_nil, List.sum_cons, List.sum_nil] at hcovers ⊢
  refine ⟨?_, ?_, ?_⟩
  · linarith
  · linarith
  · ring

/-! ## Exactness -/

def Exact (result : Except ArithmeticError (Option Decimal)) (operands : List Decimal)
    (exact : Decimal) (value : ℚ) : Prop :=
  exact.toRat = value ∧
    ((∀ v ∈ operands, Short v) → Fits exact → result = .ok (some exact)) ∧
    ∀ d, result = .ok (some d) → d.toRat = value

theorem exact_of_number {result : Except ArithmeticError (Option Decimal)}
    {operands : List Decimal} {exact : Decimal} {value : ℚ}
    (h : ∀ d, result = .ok (some d) ↔ (∀ v ∈ operands, Short v) ∧ Fits exact ∧ d = exact)
    (hvalue : exact.toRat = value) : Exact result operands exact value := by
  refine ⟨hvalue, fun hshort hfits => (h exact).mpr ⟨hshort, hfits, rfl⟩, fun d hd => ?_⟩
  rw [((h d).mp hd).2.2]
  exact hvalue

/-- In every context, sums, products and remainders are the exact ones as soon
as they fit, and no other number ever; a calibrated limit is the least multiple
of its unit that covers the scaled cost and the reserve; and what the reserves
leave of it covers the scaled cost and adds up with them to the total. -/
theorem budgeting_exact :
    (∀ trapped values,
      Exact (sumOf trapped values) values (Decimal.sum values) (values.map Decimal.toRat).sum) ∧
    (∀ trapped left right,
      Exact (multiply trapped left right) [left, right] (Decimal.mul left right)
        (left.toRat * right.toRat)) ∧
    (∀ trapped limit charges,
      Exact (remainingOf trapped limit charges) (limit :: charges) (remaining limit charges)
        (limit.toRat - (charges.map Decimal.toRat).sum)) ∧
    (∀ trapped researchCost multiplier phases baselinePhases reserve roundingUnit total,
      derivedLimitOf trapped researchCost multiplier phases baselinePhases (some reserve)
          roundingUnit = .ok (some total) →
        LeastMultiple total.toRat
          (scaledCost researchCost multiplier phases baselinePhases + reserve.toRat)
          roundingUnit.toRat) ∧
    (∀ trapped researchCost multiplier phases baselinePhases reserve roundingUnit count total,
      Calibratable researchCost multiplier phases baselinePhases reserve roundingUnit →
        count = unitsFor (scaledCost researchCost multiplier phases baselinePhases
          + reserve.toRat) roundingUnit →
        total = Decimal.mul roundingUnit count →
        Short roundingUnit → Short count → Fits total →
        derivedLimitOf trapped researchCost multiplier phases baselinePhases (some reserve)
          roundingUnit = .ok (some total)) ∧
    (∀ trapped formula reserves maximum phases baselinePhases total research,
      deriveAllocation trapped formula reserves maximum phases baselinePhases
          = .ok ⟨total, some research⟩ →
        scaledCost maximum formula.multiplier phases baselinePhases ≤ research.toRat ∧
          0 ≤ research.toRat ∧
          research.toRat + reserves.environment.toRat + reserves.evaluation.toRat
            = total.toRat) := by
  refine ⟨fun trapped values => ?_, fun trapped left right => ?_,
    fun trapped limit charges => ?_, ?_, ?_, fun _ _ _ _ _ _ _ _ => allocation_covers⟩
  · exact exact_of_number (fun _ => sumOf_number) (Decimal.toRat_sum values)
  · refine exact_of_number (fun _ => ?_) (Decimal.toRat_mul left right)
    rw [multiply_number, List.forall_mem_cons, List.forall_mem_singleton]
  · exact exact_of_number (fun _ => remainingOf_number) (toRat_remaining limit charges)
  · exact fun _ _ _ _ _ _ _ _ h => (derivedLimitOf_least h).2
  · rintro trapped researchCost multiplier phases baselinePhases reserve roundingUnit _ _
      hvalid rfl rfl hunit hcount hfits
    exact derivedLimitOf_number.mpr
      ⟨reserve, rfl, derivedLimit_ok.mpr ⟨hvalid, rfl⟩, ⟨hunit, hcount⟩, hfits⟩

/-- A cost of 4.8 at 1.25, for 7 phases of 16, and a reserve of 0.6. -/
theorem seven_phase_limit :
    derivedLimitOf true ⟨false, 48, -1⟩ ⟨false, 125, -2⟩ 7 16 (some ⟨false, 6, -1⟩)
      ⟨false, 1, 0⟩ = .ok (some ⟨false, 4, 0⟩) := by
  have hvalid : Calibratable ⟨false, 48, -1⟩ ⟨false, 125, -2⟩ 7 16 ⟨false, 6, -1⟩
      ⟨false, 1, 0⟩ := by
    unfold Calibratable
    decide +kernel
  exact budgeting_exact.2.2.2.2.1 true _ _ _ _ ⟨false, 6, -1⟩ ⟨false, 1, 0⟩ ⟨false, 4, 0⟩ _
    hvalid (by decide +kernel) (by decide +kernel) (by decide +kernel) (by decide +kernel)
    (by decide +kernel)

/-- Two short decimals whose exact sum has 4301 digits, in any context. -/
theorem long_sum_raises :
    sumOf true [⟨false, 1, 4300⟩, ⟨false, 1, 0⟩] = .error tooLong ∧
      sumOf false [⟨false, 1, 4300⟩, ⟨false, 1, 0⟩] = .error tooLong := by
  constructor <;> decide +kernel

end Ahunter.Costs
