import Ahunter.Sim.Account

/-!
# Corporate entitlements

A corporate action goes through the ledger in up to three steps. At the
record date's close it is registered: the lots that are entitled are written
down, a dividend becomes a receivable and leaves a tax obligation on each
lot. At its effective instant it is applied: a dividend detaches, a split
changes the lots in place, a bonus issue adds a new lot beside each old one.
A dividend is paid last, less whatever tax had to be deferred until then.
-/

namespace Ahunter.Sim

open Ahunter.Lib

/-! ## Registration -/

/-- Who holds what at the record date. -/
def entitlementsOf (s : AccountState) (security : String) : List Entitlement :=
  (s.stockLots.entries.filter fun e =>
    e.2.security = security && e.2.quantity ≠ 0).map fun e =>
      ⟨e.1, e.2.quantity, e.2.acquiredOn⟩

def newObligation (terms : CorporateTerms) (policy : DividendTaxPolicy)
    (e : Entitlement) : Obligation where
  actionId := terms.action.actionId
  lotId := e.lotId
  acquiredOn := e.acquiredOn
  sharesRemaining := e.quantity
  basisRemaining := e.quantity * terms.taxablePerOldShare
  taxExact := 0
  assessed := 0
  reserved := 0
  policy := policy

def dividendAmount (terms : CorporateTerms) (entitled : List Entitlement) : ℚ :=
  rounded ((entitled.map fun e =>
    e.quantity * terms.action.cashPerShare.getD 0).sum)

def dividendReceivable (terms : CorporateTerms) (amount : ℚ) : Receivable where
  amount := amount
  navAmount := 0
  qualified := true
  kind := .dividend
  sourceRef := terms.sourceRefs.head terms.sourceRefs_ne
  detached := some false
  grossAmount := none
  withheldTax := none

/-- The checks of `register` that do not look at the account. -/
def registrable (spec : AccountSpec) (terms : CorporateTerms) (at_ : Instant) :
    Attempt Unit := do
  let action := terms.action
  let today := spec.zone.date at_
  let boundary : Boundary := ⟨at_, at_⟩
  refuse ((action.kind = .bonus ∨ action.kind = .split) ∧
      terms.taxablePerOldShare ≠ 0) (corporateUnsupported
    "taxable share distributions need an explicit tax-unit allocation policy")
  refuse (action.kind = .delisting ∨ action.kind = .merger)
    (corporateUnsupported
      "special corporate events need executable settlement/conversion terms")
  refuse (at_ ≠ terms.recordAt.instant ∨ today ∉ spec.sessions ∨
      exchangeOf terms.security ≠ terms.marketRule.exchange.toList ∨
      ¬ terms.marketRule.covers today ∨
      spec.zone.time at_ ≠ terms.marketRule.closingAuction.stop)
    (corporateUnsupported
      "entitlement registration must use the proven market record-date close")
  refuse (spec.visible terms.availability boundary = false)
    (corporateUnsupported "corporate terms were unavailable at registration")
  refuse (∃ p ∈ terms.taxPolicy, ¬ p.covers action.recordDate ∨
      spec.visible p.availability boundary = false)
    (corporateUnsupported "tax policy does not cover the entitlement registration")

def obligationsWith (obligations : Dict String Obligation)
    (terms : CorporateTerms) (policy : DividendTaxPolicy)
    (entitled : List Entitlement) : Dict String Obligation :=
  entitled.foldl (fun d e => d.set (terms.action.actionId ++ ":" ++ e.lotId)
    (newObligation terms policy e)) obligations

/-- `CorporateActions.register(terms, at=…, action_id=…)` -/
def corporateRegister (spec : AccountSpec) (terms : CorporateTerms)
    (at_ : Instant) (s : AccountState) : Attempt Outcome := do
  let action := terms.action
  refuse (s.corporateActions.contains action.actionId = true)
    (corporateUnsupported "corporate entitlement identity was already registered")
  let entitled := entitlementsOf s terms.security
  let item : CorporateItem := {
    terms := terms
    entitlements := entitled
    applied := false
    distributed := false
    deferredTax := 0
    status := .registered }
  match action.kind with
  | .rights => do
      refuse (spec.voluntarySubscription = true)
        (corporateUnsupported "voluntary subscription policy is unsupported")
      let item := { item with
        status := .notParticipating
        applied := true
        distributed := true }
      pure { state := { s with
               corporateActions := s.corporateActions.set action.actionId item }
             at_ := at_
             visibleAt := at_
             entries := [] }
  | kind => do
      let amount := dividendAmount terms entitled
      let receivables := if kind = .dividend then
          s.receivables.set action.actionId (dividendReceivable terms amount)
        else s.receivables
      let entries := if kind = .dividend then
          [Entry.dividendEntitlement amount action.actionId]
        else []
      let obligations ← if terms.taxablePerOldShare = 0 then
          pure s.dividendObligations
        else do
          let policy ← need terms.taxPolicy (missingKey "tax_policy")
          pure (obligationsWith s.dividendObligations terms policy entitled)
      pure { state := { s with
               corporateActions := s.corporateActions.set action.actionId item
               receivables := receivables
               dividendObligations := obligations }
             at_ := at_
             visibleAt := at_
             entries := entries }

/-! ## Application -/

def targetShares (quantity : ℤ) (ratio : ℚ) : Attempt ℤ := do
  let target := quantity * ratio
  refuse ((⌊target⌋ : ℚ) ≠ target)
    (corporateUnsupported "fractional-share allocation evidence is unavailable")
  pure ⌊target⌋

def entitledLot (s : AccountState) (e : Entitlement) : Attempt StockLot := do
  let lot ← need (s.stockLots.get? e.lotId) (missingKey e.lotId)
  refuse (lot.quantity ≠ e.quantity) (corporateUnsupported
    "share action needs complete ownership at its effective boundary")
  pure lot

def splitLot (spec : AccountSpec) (terms : CorporateTerms) (at_ : Instant)
    (tradable : Stamp) (quantity old : ℤ) (lot : StockLot) : StockLot :=
  { lot with
    quantity := quantity
    costBasis := lot.costBasis / (quantity / old)
    sellableOn := tradable.date
    availableAt := tradable.instant
    acquiredOn := if terms.newShareHoldingStart = some .effectiveDate then
        spec.zone.date at_
      else lot.acquiredOn }

def splitObligation (lotId : String) (factor : ℚ)
    (acc : Dict String Obligation) (e : String × Obligation) :
    Attempt (Dict String Obligation) :=
  if e.2.lotId ≠ lotId then pure acc
  else do
    let units := e.2.sharesRemaining * factor
    refuse ((⌊units⌋ : ℚ) ≠ units)
      (corporateUnsupported "fractional tax-unit allocation is unavailable")
    pure (acc.set e.1 { e.2 with sharesRemaining := ⌊units⌋ })

def splitOne (spec : AccountSpec) (terms : CorporateTerms) (ratio : ℚ)
    (tradable : Stamp) (at_ : Instant) (acc : AccountState × List Entry)
    (e : Entitlement) : Attempt (AccountState × List Entry) := do
  let (s, entries) := acc
  let lot ← entitledLot s e
  let quantity ← targetShares e.quantity ratio
  refuse (quantity ≤ 0) (corporateUnsupported "invalid split resulting quantity")
  let obligations ← walk (splitObligation e.lotId (quantity / e.quantity))
    s.dividendObligations s.dividendObligations.entries
  let lot := splitLot spec terms at_ tradable quantity e.quantity lot
  pure ({ s with
      stockLots := s.stockLots.set e.lotId lot
      dividendObligations := obligations },
    entries ++ [.shares terms.security (quantity - e.quantity)
      (some terms.action.actionId)])

/-- `"corporate:" + corporate_id + ":" + lot_id` -/
def bonusLotId (corporateId lotId : String) : String :=
  "corporate:" ++ corporateId ++ ":" ++ lotId

def bonusOne (spec : AccountSpec) (corporateId : String)
    (terms : CorporateTerms) (ratio : ℚ) (tradable : Stamp) (at_ : Instant)
    (acc : AccountState × List Entry) (e : Entitlement) :
    Attempt (AccountState × List Entry) := do
  let (s, entries) := acc
  let lot ← entitledLot s e
  let quantity ← targetShares e.quantity ratio
  let basis := lot.costBasis * e.quantity / (e.quantity + quantity)
  let bonus : StockLot := {
    security := terms.security
    quantity := quantity
    acquiredOn := if terms.newShareHoldingStart = some .inherit then e.acquiredOn
      else spec.zone.date at_
    sellableOn := tradable.date
    availableAt := tradable.instant
    costBasis := basis
    acquiredSequence := s.nextLotSequence }
  let old := { lot with costBasis := basis }
  pure ({ s with
      stockLots := (s.stockLots.set e.lotId old).set
        (bonusLotId corporateId e.lotId) bonus
      nextLotSequence := s.nextLotSequence + 1 },
    entries ++ [.shares terms.security quantity (some corporateId)])

def applyKind (spec : AccountSpec) (corporateId : String) (item : CorporateItem)
    (at_ : Instant) (s : AccountState) : Attempt (AccountState × List Entry) := do
  let terms := item.terms
  match terms.action.kind with
  | .dividend => do
      let receivable ← need (s.receivables.get? corporateId) (missingKey corporateId)
      let receivable := { receivable with
        detached := some true
        navAmount := receivable.amount }
      pure ({ s with receivables := s.receivables.set corporateId receivable }, [])
  | .split => do
      let ratio ← need terms.action.sharesRatio (missingKey "shares_ratio")
      let tradable ← need terms.tradableAt (missingKey "tradable_at")
      walk (splitOne spec terms ratio tradable at_) (s, []) item.entitlements
  | .bonus => do
      refuse (∃ o ∈ s.dividendObligations.values,
          o.lotId ∈ item.entitlements.map Entitlement.lotId ∧ 0 < o.basisRemaining)
        (corporateUnsupported
          "bonus shares need explicit outstanding dividend tax-unit allocation")
      let ratio ← need terms.action.sharesRatio (missingKey "shares_ratio")
      let tradable ← need terms.tradableAt (missingKey "tradable_at")
      walk (bonusOne spec corporateId terms ratio tradable at_) (s, [])
        item.entitlements
  | _ =>
      .error (corporateUnsupported "corporate action application is unsupported")

/-- `CorporateActions.apply(corporate_id, at=…, action_id=…)` -/
def corporateApply (spec : AccountSpec) (corporateId : String) (at_ : Instant)
    (s : AccountState) : Attempt Outcome := do
  let absent := corporateUnsupported "entitlement is absent or already applied"
  let item ← need (s.corporateActions.get? corporateId) absent
  refuse (item.applied = true) absent
  let terms := item.terms
  refuse (at_ ≠ terms.effectiveAt.instant ∨ spec.zone.date at_ ∉ spec.sessions)
    (corporateUnsupported
      "corporate action requires its fixed effective instant/calendar")
  refuse (∃ o ∈ s.orders.values, o.security = terms.security ∧
      o.status.held = true) (corporateUnsupported
    "unresolved orders must expire before corporate price/share adjustment")
  let (s, entries) ← applyKind spec corporateId item at_ s
  let item := { item with
    distributed := item.distributed || terms.action.kind ≠ .dividend
    applied := true
    status := .applied }
  pure { state := { s with
           corporateActions := s.corporateActions.set corporateId item }
         at_ := at_
         visibleAt := at_
         entries := entries }

/-! ## Payment -/

/-- `CorporateActions.pay(corporate_id, at=…, action_id=…)` -/
def corporatePay (spec : AccountSpec) (corporateId : String) (at_ : Instant)
    (s : AccountState) : Attempt Outcome := do
  let absent := corporateUnsupported
    "cash entitlement is absent, attached or already paid"
  let item ← need (s.corporateActions.get? corporateId) absent
  refuse (item.applied = false ∨ item.distributed = true) absent
  refuse (item.terms.paymentAt.map Stamp.instant ≠ some at_ ∨
      item.terms.action.kind ≠ .dividend)
    (corporateUnsupported "payment requires its fixed distribution time")
  let receivable ← need (s.receivables.get? corporateId) (missingKey corporateId)
  let gross := receivable.amount
  let tax := item.deferredTax
  refuse (tax > gross)
    (corporateUnsupported "cash dividend cannot cover its deferred dividend tax")
  let today := spec.zone.date at_
  let item := { item with
    distributed := true
    status := .paid
    deferredTax := 0 }
  let receivable := { receivable with
    amount := 0
    navAmount := 0 }
  pure { state := { s with
           payables := s.payables - tax
           deferredDividendTax := s.deferredDividendTax - tax
           cashLots := s.cashLots ++
             [⟨"dividend:" ++ corporateId, gross - tax, at_, today, today⟩]
           receivables := s.receivables.set corporateId receivable
           corporateActions := s.corporateActions.set corporateId item }
         at_ := at_
         visibleAt := at_
         entries := [.cash (gross - tax) none, .receivables (-gross) none,
           .payables (-tax) none] }

end Ahunter.Sim
