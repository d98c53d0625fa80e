import Ahunter.Sim.Corporate

/-!
# Special settlements

A delisting, a merger or a cash replacement retires a security: every owned
lot is exchanged, at once and completely, for the cash and the replacement
shares its sealed terms give it. The terms are bound to a snapshot of exactly
the lots owned, so nothing here derives an allocation of its own.
-/

namespace Ahunter.Sim

open Ahunter.Lib

def settlementUnsupported (message : String) : Failure :=
  ⟨.settlementUnsupported, message⟩

/-- `entitlement_snapshot(state, security)` -/
def entitlementSnapshot (s : AccountState) (security : String) :
    Dict String OwnedLot :=
  Dict.ofList ((s.stockLots.entries.filter fun e =>
    e.2.security = security && e.2.quantity ≠ 0).map fun e =>
      (e.1, ⟨e.2.quantity, e.2.acquiredOn, e.2.costBasis, e.2.acquiredSequence⟩))

/-- `"settlement:" + settlement_id + ":" + key` -/
def replacementLotId (settlementId lotId : String) : String :=
  "settlement:" ++ settlementId ++ ":" ++ lotId

/-- `"settlement:" + settlement_id` -/
def settlementReceivableId (settlementId : String) : String :=
  "settlement:" ++ settlementId

/-- `value.quantize(Decimal("0.01"))`, which rounds half to even. -/
def quantizeCents (value : ℚ) : ℚ := halfEven (value / cent) * cent

/-- The loop of a settlement over the allocations so far. -/
structure Conversion where
  state : AccountState
  grossCash : ℚ
  tax : ℚ
  entries : List Entry
  created : List String

def carryOne (replacementId : String) (a : LotConsideration)
    (acc : Dict String Obligation) (e : String × Obligation) :
    Attempt (Dict String Obligation) := do
  refuse (e.2.sharesRemaining ≠ a.oldQuantity) (settlementUnsupported
    "tax-lot units need a complete source conversion allocation")
  pure (acc.set e.1 { e.2 with
    lotId := replacementId
    sharesRemaining := a.replacementQuantity })

def treatTax (spec : AccountSpec) (terms : SettlementTerms) (at_ : Instant)
    (a : LotConsideration) (s : AccountState) :
    Attempt (AccountState × ℚ × List Entry) := do
  let outstanding := s.dividendObligations.entries.filter fun e =>
    e.2.lotId = a.lotId && 0 < e.2.basisRemaining
  match terms.dividendTaxTreatment with
  | .noOutstandingObligations => do
      refuse (outstanding ≠ []) (settlementUnsupported
        "source tax treatment cannot discard outstanding dividend obligations")
      pure (s, 0, [])
  | .dispose => assessDisposal spec.zone s a.lotId a.oldQuantity at_
  | .carry => do
      refuse (a.replacementQuantity = 0) (settlementUnsupported
        "tax-lot carry cannot erase a retired lot without replacement")
      let obligations ← walk
        (carryOne (replacementLotId terms.settlementId a.lotId) a)
        s.dividendObligations outstanding
      pure ({ s with dividendObligations := obligations }, 0, [])

def replaceLot (spec : AccountSpec) (terms : SettlementTerms) (at_ : Instant)
    (a : LotConsideration) (lot : StockLot) (s : AccountState) :
    Attempt (AccountState × List Entry × List String) :=
  match a.replacementCostBasis with
  | none => pure (s, [], [])
  | some basis => do
      let oldBasis := quantizeCents (lot.costBasis * a.oldQuantity)
      let newBasis := quantizeCents (basis * a.replacementQuantity)
      refuse (newBasis > oldBasis ∨ (a.cashAmount = 0 ∧ newBasis ≠ oldBasis))
        (settlementUnsupported
          "replacement cost allocation must preserve carried investment basis")
      let security ← need terms.replacementSecurity
        (missingKey "replacement_security")
      let tradable ← need terms.replacementTradableAt
        (missingKey "replacement_tradable_at")
      let inherit := terms.holdingStart = .inherit
      let new : StockLot := {
        security := security
        quantity := a.replacementQuantity
        acquiredOn := if inherit then lot.acquiredOn else spec.zone.date at_
        acquiredSequence :=
          if inherit then lot.acquiredSequence else s.nextLotSequence
        costBasis := basis
        sellableOn := spec.zone.date tradable
        availableAt := tradable }
      let key := replacementLotId terms.settlementId a.lotId
      let next := if inherit then s.nextLotSequence else s.nextLotSequence + 1
      pure ({ s with
          stockLots := s.stockLots.set key new
          nextLotSequence := next },
        [.shares security a.replacementQuantity none], [key])

def convertOne (spec : AccountSpec) (terms : SettlementTerms) (at_ : Instant)
    (acc : Conversion) (a : LotConsideration) : Attempt Conversion := do
  let lot ← need (acc.state.stockLots.get? a.lotId) (missingKey a.lotId)
  let (s, tax, taxEntries) ← treatTax spec terms at_ a acc.state
  let (s, newEntries, created) ← replaceLot spec terms at_ a lot s
  let retired ← need (s.stockLots.get? a.lotId) (missingKey a.lotId)
  let retired := { retired with quantity := 0 }
  pure {
    state := { s with stockLots := s.stockLots.set a.lotId retired }
    grossCash := acc.grossCash + a.cashAmount
    tax := acc.tax + tax
    entries := acc.entries ++ taxEntries ++ newEntries ++
      [.shares terms.security (-a.oldQuantity) none]
    created := acc.created ++ created }

def settlementAdmissible (spec : AccountSpec) (terms : SettlementTerms)
    (at_ : Instant) : Attempt Unit :=
  refuse (at_ ≠ terms.effectiveAt ∨
      spec.visible terms.availability ⟨at_, at_⟩ = false)
    (settlementUnsupported
      "settlement needs its proven effective time and available source terms")

def settlementMatches (terms : SettlementTerms) (s : AccountState) :
    Attempt Unit := do
  refuse (s.specialSettlements.contains terms.settlementId = true)
    (settlementUnsupported "settlement identity has already retired its security")
  refuse (∃ item ∈ s.specialSettlements.values,
      item.terms.security = terms.security ∨
        terms.replacementSecurity = some item.terms.security)
    (settlementUnsupported "settlement cannot recreate a retired security identity")
  let owned := entitlementSnapshot s terms.security
  refuse (owned ≠ terms.entitlementSnapshot ∨
      (¬ ∀ k ∈ owned.keys, k ∈ terms.allocations.map LotConsideration.lotId) ∨
      ∃ a ∈ terms.allocations,
        (owned.get? a.lotId).map OwnedLot.quantity ≠ some a.oldQuantity)
    (settlementUnsupported "settlement allocation does not match every owned lot")
  refuse (∃ o ∈ s.orders.values, o.security = terms.security ∧
      o.status.held = true)
    (settlementUnsupported
      "outstanding orders must terminate before security retirement")
  refuse (∃ item ∈ s.corporateActions.values,
      item.terms.security = terms.security ∧ item.applied = false)
    (settlementUnsupported
      "registered corporate entitlements must be applied before retirement")

def settlementReceivable (terms : SettlementTerms) (gross tax : ℚ) :
    Receivable where
  amount := gross - tax
  navAmount := gross - tax
  qualified := true
  kind := .specialSettlement
  sourceRef := terms.sourceRefs.head terms.sourceRefs_ne
  detached := none
  grossAmount := some gross
  withheldTax := some tax

/-- `SpecialSettlements.apply(terms, at=…, action_id=…)` -/
def specialSettlement (spec : AccountSpec) (terms : SettlementTerms)
    (at_ : Instant) (s : AccountState) : Attempt Outcome := do
  settlementMatches terms s
  let c ← walk (convertOne spec terms at_) ⟨s, 0, 0, [], []⟩ terms.allocations
  refuse (c.tax > c.grossCash)
    (settlementUnsupported
      "fixed cash consideration cannot cover collectible dividend tax")
  let receivableId := settlementReceivableId terms.settlementId
  let item : SettlementItem := {
    terms := terms
    status := if c.grossCash = 0 then .settled else .receivable
    replacementLotIds := c.created
    receivableId := if c.grossCash = 0 then none else some receivableId }
  let receivables := if c.grossCash = 0 then c.state.receivables
    else c.state.receivables.set receivableId
      (settlementReceivable terms c.grossCash c.tax)
  let claim := if c.grossCash = 0 then []
    else [Entry.receivables (c.grossCash - c.tax) (some terms.settlementId)]
  pure { state := { c.state with
           receivables := receivables
           specialSettlements :=
             c.state.specialSettlements.set terms.settlementId item }
         at_ := at_
         visibleAt := at_
         entries := c.entries ++ claim }

/-- `SpecialSettlements.pay(settlement_id, at=…, action_id=…)` -/
def specialSettlementPay (spec : AccountSpec) (settlementId : String)
    (at_ : Instant) (s : AccountState) : Attempt Outcome := do
  let absent := settlementUnsupported
    "settlement has no unpaid fixed cash consideration"
  let item ← need (s.specialSettlements.get? settlementId) absent
  refuse (item.status ≠ .receivable) absent
  refuse (item.terms.cashPaymentAt ≠ some at_)
    (settlementUnsupported
      "cash consideration requires its proven payment instant")
  let receivableId ← need item.receivableId (missingKey "receivable_id")
  let receivable ← need (s.receivables.get? receivableId) (missingKey receivableId)
  let amount := receivable.amount
  let today := spec.zone.date at_
  let receivable := { receivable with
    amount := 0
    navAmount := 0 }
  let item := { item with status := .settled }
  pure { state := { s with
           cashLots := s.cashLots ++ [⟨receivableId, amount, at_, today, today⟩]
           receivables := s.receivables.set receivableId receivable
           specialSettlements := s.specialSettlements.set settlementId item }
         at_ := at_
         visibleAt := at_
         entries := [.cash amount none, .receivables (-amount) none] }

end Ahunter.Sim
