import Ahunter.Costs.Contracts

/-!
# The budget projection

What the cost budget of one test keeps, and what the store holds around it:
the requests and responses of its operations, the campaign and the result
that fix a calibrated budget, and the reconciliations of a test that has
ended.
-/

namespace Ahunter.Costs

open Ahunter.Lib
open Ahunter.Records

/-! ## Invocations -/

inductive SettledBy
  | action (actionId : String)
  | record (recordId : String)
deriving DecidableEq, Repr

/-- `invocation["status"]`, with what only a settled invocation has. -/
inductive InvocationStatus
  | reserved
  | started
  | unsettled
  | settled (receipt : UsageReceipt) (costUsd : Decimal) (by_ : SettledBy)
  | releasedUnstarted
deriving DecidableEq

def InvocationStatus.isSettled : InvocationStatus → Bool
  | .settled .. => true
  | _ => false

/-- `status in ('started', 'unsettled')` -/
def InvocationStatus.pending : InvocationStatus → Bool
  | .started | .unsettled => true
  | _ => false

structure Invocation where
  bound : CallBound
  maximumCostUsd : Decimal
  status : InvocationStatus
  reservationActionId : String
deriving DecidableEq

inductive FailureCode
  | platformResourceFailure
  | costUpperBoundExceeded
deriving DecidableEq, Repr

def FailureCode.of : Bucket → FailureCode
  | .research => .costUpperBoundExceeded
  | _ => .platformResourceFailure

structure CostFailure where
  invocationId : String
  code : FailureCode
deriving DecidableEq, Repr

/-! ## Limits -/

/-- A limit per bucket; `none` is no limit. -/
structure Limits where
  research : Option Decimal
  environment : Option Decimal
  evaluation : Option Decimal
deriving DecidableEq

def Limits.of (l : Limits) : Bucket → Option Decimal
  | .research => l.research
  | .environment => l.environment
  | .evaluation => l.evaluation

structure Reserves where
  environment : Decimal
  evaluation : Decimal
deriving DecidableEq

def Reserves.within (r : Reserves) (total : Decimal) : Limits where
  research := some (remaining total [r.environment, r.evaluation])
  environment := some r.environment
  evaluation := some r.evaluation

def Limits.AddUp (l : Limits) (total : Option Decimal) : Prop :=
  match total with
  | none => l.research = none
  | some t => ∃ r e v, l.research = some r ∧ l.environment = some e ∧
      l.evaluation = some v ∧ r.toRat + e.toRat + v.toRat = t.toRat

theorem Reserves.within_addUp (r : Reserves) (total : Decimal) :
    (r.within total).AddUp (some total) := by
  refine ⟨_, _, _, rfl, rfl, rfl, ?_⟩
  rw [toRat_remaining]
  simp
  ring

/-! ## Calibration -/

structure TaskAllocation where
  totalLimit : Decimal
  limits : Limits
  addUp : limits.AddUp (some totalLimit)

instance : DecidableEq TaskAllocation := fun a b =>
  decidable_of_iff (a.totalLimit = b.totalLimit ∧ a.limits = b.limits) (by
    cases a; cases b; simp)

structure Formula where
  multiplier : Decimal
  roundingUnit : Decimal
deriving DecidableEq

/-- `derived_limit(research_cost, multiplier, phases, baseline_phases, reserve,
rounding_unit)` -/
def derivedLimit (researchCost multiplier : Decimal) (phases baselinePhases : ℕ)
    (reserve roundingUnit : Decimal) : Attempt Decimal := do
  refuse (phases = 0 ∨ baselinePhases = 0)
    (invalidValue "positive phase counts required")
  refuse (researchCost.toRat < 0 ∨ reserve.toRat < 0 ∨ multiplier.toRat ≤ 0
    ∨ roundingUnit.toRat ≤ 0) (invalidValue "invalid calibrated cost parameters")
  let quanta := (researchCost.toRat * multiplier.toRat * phases / baselinePhases
    + reserve.toRat) / roundingUnit.toRat
  pure (Decimal.mul roundingUnit (Decimal.ofSigned ⌈quanta⌉ 0))

structure Campaign where
  definitionId : String
  testIds : List String
  priceTableHash : String
  envelopes : Dict String ResourceEnvelope
  reserves : Dict String Reserves
  phaseCounts : Dict String ℕ
  tuningTaskId : String
  formula : Formula
deriving DecidableEq

structure CalibrationResult where
  campaignId : String
  campaign : Campaign
  maximumResearchCost : Decimal
  allocations : Dict String TaskAllocation
deriving DecidableEq

/-- Where a calibrated budget's limits come from: the measurement of an
uncapped baseline, or the result of the campaign. -/
structure Allocation where
  campaignId : String
  resultId : Option String
  totalLimit : Option Decimal
  limits : Limits
  addUp : limits.AddUp totalLimit

instance : DecidableEq Allocation := fun a b =>
  decidable_of_iff (a.campaignId = b.campaignId ∧ a.resultId = b.resultId ∧
    a.totalLimit = b.totalLimit ∧ a.limits = b.limits) (by
    cases a; cases b; simp)

/-! ## The projection -/

structure BudgetValue where
  specificationHash : String
  priceTableHash : String
  table : PriceTable
  envelope : ResourceEnvelope
  limits : Limits
  totalLimit : Option Decimal
  invocations : Dict String Invocation
  failures : List CostFailure
  allocation : Option Allocation
deriving DecidableEq

/-- `value["invocations"][invocation_id] = invocation` -/
def BudgetValue.assign (v : BudgetValue) (invocationId : String) (i : Invocation) :
    BudgetValue :=
  { v with invocations := v.invocations.set invocationId i }

inductive Projection
  | budget (value : BudgetValue)
  | other (text : String)
deriving DecidableEq

structure Totals where
  settled : Decimal
  held : Decimal
  unsettled : ℕ
deriving DecidableEq

def Totals.add (t : Totals) (i : Invocation) : Totals :=
  match i.status with
  | .settled _ costUsd _ => { t with settled := Decimal.sum [t.settled, costUsd] }
  | .releasedUnstarted => t
  | .reserved => { t with held := Decimal.sum [t.held, i.maximumCostUsd] }
  | .started | .unsettled =>
      { t with
        held := Decimal.sum [t.held, i.maximumCostUsd]
        unsettled := t.unsettled + 1 }

/-- `CostBudget._totals(value)[bucket]` -/
def totals (value : BudgetValue) (bucket : Bucket) : Totals :=
  (value.invocations.values.filter fun i => i.bound.bucket = bucket).foldl
    Totals.add ⟨Decimal.zero, Decimal.zero, 0⟩

/-! ## Requests and records -/

inductive ChangeOperation
  | start
  | unknown
  | releaseUnstarted
deriving DecidableEq, Repr

/-- `allowed[operation]` and the status it leads to. -/
def ChangeOperation.target : ChangeOperation → InvocationStatus → Option InvocationStatus
  | .start, .reserved => some .started
  | .unknown, .started => some .unsettled
  | .releaseUnstarted, .reserved => some .releasedUnstarted
  | _, _ => none

inductive BudgetRequest
  | opening (table : PriceTable) (envelope : ResourceEnvelope)
      (campaignId calibrationResultId : Option String)
  | reserve (bound : CallBound)
  | change (operation : ChangeOperation) (invocationId : String)
      (atomicUpdates : List (ProjectionUpdate Projection))
  | settle (invocationId : String) (receipt : UsageReceipt)
deriving DecidableEq

inductive BudgetResponse
  | opened
  | accountingInvalid
  | insufficient (remaining required : Decimal)
  | reserved (invocationId : String) (maximumCostUsd : Decimal)
  | changed (operation : ChangeOperation) (invocationId : String)
  | settled (invocationId : String) (costUsd : Decimal) (upperBoundExceeded : Bool)
deriving DecidableEq

inductive TerminalRequest
  | settle (receipt : UsageReceipt)
  | releaseUnstarted
deriving DecidableEq

/-- A `terminal_reconciliation`. -/
structure Reconciliation where
  testId : String
  invocationId : String
  basisSequence : ℕ
  before : Invocation
  request : TerminalRequest
deriving DecidableEq

inductive Purpose
  | tuning
  | selectionValidation
  | calibration
  | finalHoldout
deriving DecidableEq, Repr

structure TestValue where
  definitionId : String
  taskId : String
  purpose : Purpose
  rerunOf : Option String
deriving DecidableEq

inductive CostRecord
  | definition (specification : Specification)
  | test (value : TestValue)
  | campaign (value : Campaign)
  | calibration (value : CalibrationResult)
  | operation (request : BudgetRequest) (response : BudgetResponse)
  | reconciliation (fact : Reconciliation)
  | other (text : String)
deriving DecidableEq

inductive CostPayload
  | budget (request : BudgetRequest) (response : BudgetResponse)
  | other (text : String)
deriving DecidableEq

abbrev CostDb := Db CostRecord CostPayload Projection
abbrev CostEvent := Event CostPayload Projection
abbrev CostHost := Host Evidence

end Ahunter.Costs
