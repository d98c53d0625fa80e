import Ahunter.Lib.Decimal
import Ahunter.Records.Commit

/-!
# Cost contracts

What a cost budget is told: prices, the bound a call may not exceed, the
receipt of what it used, and the measured envelope of a task. A contract
that its validator would refuse cannot be built.
-/

namespace Ahunter.Costs

open Ahunter.Lib
open Ahunter.Records

/-! ## Money -/

/-- `Money`: a finite decimal that is not negative. -/
abbrev Money := { d : Decimal // 0 ≤ d.toRat }

def Money.zero : Money := ⟨Decimal.zero, by simp⟩

/-- `_remaining(limit, *charges)` -/
def remaining (limit : Decimal) (charges : List Decimal) : Decimal :=
  Decimal.sum (limit :: charges.map Decimal.negate)

theorem toRat_remaining (limit : Decimal) (charges : List Decimal) :
    (remaining limit charges).toRat = limit.toRat - (charges.map Decimal.toRat).sum := by
  rw [remaining, Decimal.toRat_sum, List.map_cons, List.sum_cons, List.map_map]
  have hneg : (charges.map (Decimal.toRat ∘ Decimal.negate)).sum
      = -(charges.map Decimal.toRat).sum := by
    induction charges with
    | nil => simp
    | cons c cs ih =>
        simp only [List.map_cons, List.sum_cons, ih, Function.comp_apply,
          Decimal.toRat_negate]
        ring
  rw [hneg, sub_eq_add_neg]

/-! ## Prices -/

inductive Bucket
  | research
  | environment
  | evaluation
deriving DecidableEq, Repr

inductive ResourceKind
  | model
  | search
  | compute
deriving DecidableEq, Repr

structure Meter where
  meterId : String
  unit : String
  usdPerUnit : Money
deriving DecidableEq

structure Tariff where
  resource : String
  kind : ResourceKind
  usageSemanticsHash : String
  meters : List Meter
  meters_ne : meters ≠ []
  meters_nodup : (meters.map Meter.meterId).Nodup
  model_priced : kind = .model → ∃ m ∈ meters, 0 < m.usdPerUnit.val.toRat
deriving DecidableEq

inductive EvidenceKind
  | fixture
  | providerVerified
deriving DecidableEq, Repr

structure PriceTable where
  version : String
  evidenceKind : EvidenceKind
  sourceHash : String
  tariffs : List Tariff
  tariffs_ne : tariffs ≠ []
  tariffs_nodup : (tariffs.map Tariff.resource).Nodup
deriving DecidableEq

structure BoundClaim where
  invocationId : String
  actorId : String
  phaseId : String
  bucket : Bucket
  resource : String
  adapterRef : String
  executorRef : String
  priceTableHash : String
  usageSemanticsHash : String
  maximumUnits : Dict String Money
deriving DecidableEq

structure CallBound extends BoundClaim where
  proofHash : String
deriving DecidableEq

inductive UsageOutcome
  | completed
  | failed
  | cancelled
deriving DecidableEq, Repr

/-- What a receipt's evidence attests. -/
structure UsageClaim where
  resource : String
  adapterRef : String
  executorRef : String
  priceTableHash : String
  usageSemanticsHash : String
  units : Dict String Money
  outcome : UsageOutcome
  supplierBillUsd : Option Money
deriving DecidableEq

structure UsageReceipt extends UsageClaim where
  evidenceHash : String
deriving DecidableEq

structure EnvelopeClaim where
  specificationHash : String
  taskId : String
  priceTableHash : String
  safetyFactor : Decimal
  safetyFactor_pos : 0 < safetyFactor.toRat
  environmentUnits : Dict String (Dict String Money)
  evaluationUnits : Dict String (Dict String Money)
deriving DecidableEq

structure ResourceEnvelope extends EnvelopeClaim where
  replayEvidenceHash : String
deriving DecidableEq

/-- What the bytes of an artifact decode to. -/
inductive Evidence
  | usage (invocationId : String) (claim : UsageClaim)
  | bound (claim : BoundClaim)
  | envelope (claim : EnvelopeClaim)
  | other (text : String)
deriving DecidableEq

/-! ## Specifications -/

inductive BudgetMode
  | explicit
  | calibrated
deriving DecidableEq, Repr

/-- The budget of a specification. A limit that is to be derived, or a
reserve that is unresolved, is `none`. -/
structure BudgetSettings where
  mode : BudgetMode
  taskCostLimit : Option Decimal
  environmentReserve : Option Money
  evaluationReserve : Option Money
  priceTableRef : String
  calibrationMultiplier : Decimal
  roundingUnit : Decimal
  envelopeSafetyFactor : Decimal
deriving DecidableEq

structure Specification where
  specificationHash : String
  budget : BudgetSettings
  model : String
deriving DecidableEq

/-- SHA-256 of a canonical encoding, for the values that are named by it. -/
structure Digests where
  table : PriceTable → String
  identity : List String → String
  recordIdentity : String → String → List String → String

/-! ## Pricing -/

def costUnavailable (code : String) : Failure := ⟨.costUnavailable, code⟩

/-- `CostBudget._tariff(table, resource)` -/
def tariff (table : PriceTable) (resource : String) : Attempt Tariff :=
  need (table.tariffs.find? fun t => t.resource = resource)
    (costUnavailable "cost_capability_missing")

def unitsOf (units : Dict String Money) (meterId : String) : Money :=
  (units.get? meterId).getD Money.zero

/-- `CostBudget._price(table, resource, units)` -/
def price (table : PriceTable) (resource : String)
    (units : Dict String Money) : Attempt Decimal := do
  let t ← tariff table resource
  refuse (¬ (∀ k ∈ units.keys, k ∈ t.meters.map Meter.meterId)
      ∨ ¬ ∀ m ∈ t.meters, m.meterId ∈ units.keys)
    (costUnavailable "usage_dimensions_incomplete")
  refuse (∃ m ∈ t.meters, m.unit = "token"
      ∧ ¬ (unitsOf units m.meterId).val.Integral)
    (costUnavailable "token_usage_must_be_integral")
  pure (Decimal.sum (t.meters.map fun m =>
    Decimal.mul (unitsOf units m.meterId).val m.usdPerUnit.val))

theorem price_nonneg {table : PriceTable} {resource : String}
    {units : Dict String Money} {amount : Decimal}
    (h : price table resource units = .ok amount) : 0 ≤ amount.toRat := by
  simp only [price, bind_ok, refuse_ok, pure_ok] at h
  obtain ⟨t, -, _, -, _, -, rfl⟩ := h
  refine Decimal.toRat_sum_nonneg fun d hd => ?_
  obtain ⟨m, -, rfl⟩ := List.mem_map.mp hd
  exact Decimal.toRat_mul_nonneg (unitsOf units m.meterId).2 m.usdPerUnit.2

end Ahunter.Costs
