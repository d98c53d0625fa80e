import Ahunter.Costs.Ledger
import Mathlib.Data.Nat.Log

/-!
# Budget arithmetic

The budget adds and multiplies decimals as whole numbers and rebuilds a
decimal from the result, so that no context can round. Two limits remain, both
of the language: the texts of integers have at most 4300 digits, and a decimal
has a largest and a smallest exponent. Past the first the conversion raises;
past the second building the decimal raises too, or gives NaN where the
ambient context does not trap invalid operations, which is all that is read of
that context.
-/

namespace Ahunter.Costs

open Ahunter.Lib

inductive ArithmeticError
  | valueError (message : String)
  | invalidOperation
deriving DecidableEq, Repr

/-- The first number whose text has more digits than may be converted. -/
def longest : ℕ := 10 ^ 4300

def tooLong : ArithmeticError :=
  .valueError "Exceeds the limit (4300 digits) for integer string conversion"

/-- `_parts(value)` -/
def parts (value : Decimal) : Except ArithmeticError (ℤ × ℤ) := do
  refuse (longest ≤ value.coefficient) tooLong
  pure (value.signed, value.exponent)

def InRange (d : Decimal) : Prop :=
  -1999999999999999997 ≤ d.exponent ∧
    d.exponent + Nat.log 10 d.coefficient ≤ 999999999999999999

instance (d : Decimal) : Decidable (InRange d) :=
  inferInstanceAs (Decidable (_ ∧ _))

/-- `_decimal(coefficient, exponent)`; `none` is NaN. -/
def decimal (trapped : Bool) (coefficient exponent : ℤ) :
    Except ArithmeticError (Option Decimal) := do
  refuse (longest ≤ coefficient.natAbs) tooLong
  if InRange (Decimal.ofSigned coefficient exponent) then
    pure (some (Decimal.ofSigned coefficient exponent))
  else if trapped then .error .invalidOperation
  else pure none

/-- `_sum(values)` -/
def sumOf (trapped : Bool) (values : List Decimal) :
    Except ArithmeticError (Option Decimal) := do
  let found ← values.mapM parts
  match found with
  | [] => pure (some Decimal.zero)
  | (coefficient, exponent) :: rest =>
      let lowest := rest.foldr (fun p acc => min p.2 acc) exponent
      decimal trapped
        (((coefficient, exponent) :: rest).map fun p =>
          p.1 * 10 ^ (p.2 - lowest).toNat).sum lowest

/-- `_multiply(left, right)` -/
def multiply (trapped : Bool) (left right : Decimal) :
    Except ArithmeticError (Option Decimal) := do
  let (a, x) ← parts left
  let (b, y) ← parts right
  decimal trapped (a * b) (x + y)

/-- `_remaining(limit, *charges)` -/
def remainingOf (trapped : Bool) (limit : Decimal) (charges : List Decimal) :
    Except ArithmeticError (Option Decimal) :=
  sumOf trapped (limit :: charges.map Decimal.negate)

/-! ## Calibrated limits -/

def finiteOnly (message : String) (value : Option Decimal) :
    Except ArithmeticError Decimal :=
  need value (.valueError message)

/-- `derived_limit(research_cost, multiplier, phases, baseline_phases, reserve,
rounding_unit)` with the arithmetic's own limits; the reserve may be NaN. -/
def derivedLimitOf (trapped : Bool) (researchCost multiplier : Decimal)
    (phases baselinePhases : ℕ) (reserve : Option Decimal) (roundingUnit : Decimal) :
    Except ArithmeticError (Option Decimal) := do
  refuse (phases = 0 ∨ baselinePhases = 0) (.valueError "positive phase counts required")
  let reserve ← finiteOnly "invalid calibrated cost parameters" reserve
  refuse (researchCost.toRat < 0 ∨ reserve.toRat < 0 ∨ multiplier.toRat ≤ 0
    ∨ roundingUnit.toRat ≤ 0) (.valueError "invalid calibrated cost parameters")
  let quanta := (researchCost.toRat * multiplier.toRat * phases / baselinePhases
    + reserve.toRat) / roundingUnit.toRat
  multiply trapped roundingUnit (Decimal.ofSigned ⌈quanta⌉ 0)

/-- A task's total limit and what it leaves for research. -/
structure Derived where
  total : Decimal
  research : Option Decimal
deriving DecidableEq

/-- The allocation `Calibrations.complete` derives for a task, from the
costliest measurement and the task's reserves. -/
def deriveAllocation (trapped : Bool) (formula : Formula) (reserves : Reserves)
    (maximum : Decimal) (phases baselinePhases : ℕ) :
    Except ArithmeticError Derived := do
  let reserve ← sumOf trapped [reserves.environment, reserves.evaluation]
  let total ← derivedLimitOf trapped maximum formula.multiplier phases baselinePhases
    reserve formula.roundingUnit
  let total ← finiteOnly "invalid literal for int() with base 10: ''" total
  let research ← remainingOf trapped total [reserves.environment, reserves.evaluation]
  pure ⟨total, research⟩

end Ahunter.Costs
