import Ahunter.Costs.Ledger

/-!
# The cost budget

The operations of one test's budget. Each reads the budget projection,
decides, and commits the next one as an event that expects the revision it
read, so an operation is a decision (`Decision`) on a database it has read,
followed by a commit on the database it finds.
-/

namespace Ahunter.Costs

open Ahunter.Lib
open Ahunter.Records

/-! ## Receipts and reserves -/

/-- `priced_receipt(records, table, invocation, receipt)` -/
def pricedReceipt (host : CostHost) (table : PriceTable) (i : Invocation)
    (receipt : UsageReceipt) : Attempt (Decimal × Bool) := do
  refuse (i.status.pending = false) (conflict "usage requires a started invocation")
  let bound := i.bound
  refuse (receipt.resource ≠ bound.resource ∨ receipt.adapterRef ≠ bound.adapterRef
      ∨ receipt.executorRef ≠ bound.executorRef
      ∨ receipt.priceTableHash ≠ bound.priceTableHash
      ∨ receipt.usageSemanticsHash ≠ bound.usageSemanticsHash)
    (conflict "receipt does not match invocation")
  let evidence ← host.readJson receipt.evidenceHash
  refuse (evidence ≠ .usage bound.invocationId receipt.toUsageClaim)
    (conflict "usage evidence mismatch")
  let amount ← price table receipt.resource receipt.units
  let exceeded := decide (i.maximumCostUsd < amount
    ∨ ∃ e ∈ receipt.units.entries, (unitsOf bound.maximumUnits e.1).val < e.2.val)
  pure (amount, exceeded)

/-- One bucket of `resource_reserves`. -/
def bucketReserve (table : PriceTable) (units : Dict String (Dict String Money))
    (safetyFactor : Decimal) (configured : Option Money) : Attempt Decimal := do
  refuse (units.entries = []) (costUnavailable "resource_envelope_unresolved")
  walk (fun _ resource => do
    let t ← tariff table resource
    refuse (t.kind ≠ .compute)
      (costUnavailable "environment_reserve_is_compute_only")) () units.keys
  let amounts ← walk (fun acc e => do
    let amount ← price table e.1 e.2
    pure (acc ++ [amount])) [] units.entries
  let amount := Decimal.mul (Decimal.sum amounts) safetyFactor
  let limit := (configured.map Subtype.val).getD amount
  refuse (limit < amount) (costUnavailable "resource_envelope_exceeds_reserve")
  pure limit

/-- `resource_reserves(records, sealed, task_id, table, envelope)` -/
def resourceReserves (host : CostHost) (digests : Digests)
    (spec : Specification) (taskId : String) (table : PriceTable)
    (envelope : ResourceEnvelope) : Attempt Reserves := do
  let settings := spec.budget
  refuse (table.version ≠ settings.priceTableRef
      ∨ envelope.priceTableHash ≠ digests.table table
      ∨ envelope.specificationHash ≠ spec.specificationHash
      ∨ envelope.taskId ≠ taskId
      ∨ envelope.safetyFactor.toRat ≠ settings.envelopeSafetyFactor.toRat)
    (conflict "price or resource envelope does not match sealed conditions")
  let _ ← host.readJson table.sourceHash
  walk (fun _ t => host.readJson t.usageSemanticsHash >>= fun _ => pure ()) ()
    table.tariffs
  let evidence ← host.readJson envelope.replayEvidenceHash
  refuse (evidence ≠ .envelope envelope.toEnvelopeClaim)
    (conflict "resource envelope evidence mismatch")
  let environment ← bucketReserve table envelope.environmentUnits
    envelope.safetyFactor settings.environmentReserve
  let evaluation ← bucketReserve table envelope.evaluationUnits
    envelope.safetyFactor settings.evaluationReserve
  pure ⟨environment, evaluation⟩

/-! ## Calibrated allocations -/

/-- `_typed(records, record_id, 'calibration_campaign')` -/
def typedCampaign (db : CostDb) (recordId : String) :
    Attempt (Record CostRecord × Campaign) := do
  let record ← db.read recordId
  match record.kind, record.value with
  | .cost, .data (.campaign c) => pure (record, c)
  | _, _ => .error (conflict "wrong calibration record type")

/-- `_typed(records, record_id, 'calibration_result')` -/
def typedResult (db : CostDb) (recordId : String) : Attempt CalibrationResult := do
  let record ← db.read recordId
  match record.kind, record.value with
  | .cost, .data (.calibration r) => pure r
  | _, _ => .error (conflict "wrong calibration record type")

def testValue (r : Record CostRecord) : Option TestValue :=
  match r.value with
  | .data (.test v) => some v
  | _ => none

/-- `allocation_for(records, test_id, table, envelope, campaign_id=…,
result_id=…)` -/
def allocationFor (db : CostDb) (digests : Digests) (testId : String)
    (table : PriceTable) (envelope : ResourceEnvelope)
    (campaignId resultId : Option String) : Attempt Allocation := do
  let campaignId ← need campaignId (costUnavailable "calibration_required")
  let test ← db.test testId
  let value ← need (testValue test) (conflict "budget requires a typed Test")
  let (record, campaign) ← typedCampaign db campaignId
  refuse (test.experimentId ≠ record.experimentId
      ∨ value.definitionId ≠ campaign.definitionId
      ∨ digests.table table ≠ campaign.priceTableHash
      ∨ campaign.envelopes.get? value.taskId ≠ some envelope)
    (conflict "calibration allocation conditions mismatch")
  if value.purpose = .calibration then do
    refuse (resultId.isSome = true ∨ testId ∉ campaign.testIds
        ∨ value.rerunOf.isSome = true)
      (conflict "only the original frozen calibration samples can initialize measurement budgets")
    let reserves ← need (campaign.reserves.get? value.taskId)
      ⟨.lookupError, value.taskId⟩
    pure {
      campaignId := campaignId
      resultId := none
      totalLimit := none
      limits := ⟨none, some reserves.environment, some reserves.evaluation⟩
      addUp := rfl }
  else do
    let expected := digests.recordIdentity record.experimentId "cost-calibration"
      [campaignId]
    refuse (resultId ≠ some expected)
      (costUnavailable "calibration_result_required")
    let result ← typedResult db expected
    refuse (result.campaign ≠ campaign)
      (conflict "calibration result campaign mismatch")
    let share ← need (result.allocations.get? value.taskId)
      ⟨.lookupError, value.taskId⟩
    pure {
      campaignId := campaignId
      resultId := resultId
      totalLimit := some share.totalLimit
      limits := share.limits
      addUp := share.addUp }

/-! ## The budget of a test -/

structure CostBudget where
  lease : Lease
  experimentId : String
  specification : Specification
  taskId : String
deriving DecidableEq

inductive Decision
  | done (event : CostEvent)
  | commit (expected : Option ℕ) (value : BudgetValue) (request : BudgetRequest)
      (response : BudgetResponse) (extra : List (ProjectionUpdate Projection))

namespace CostBudget

/-- `budget._state()` -/
def state (b : CostBudget) (db : CostDb) : Attempt (ℕ × BudgetValue) := do
  let row ← db.projection b.lease.testId "cost_budget"
  let row ← need row (costUnavailable "budget_not_initialized")
  match row.value with
  | .data (.budget value) => do
      refuse (value.specificationHash ≠ b.specification.specificationHash)
        (conflict "budget specification mismatch")
      pure (row.sequence, value)
  | _ => .error ⟨.lookupError, "specification_hash"⟩

def requestOf (e : CostEvent) : Option BudgetRequest :=
  match e.content.payload with
  | .data (.budget request _) => some request
  | _ => none

/-- `budget._prior(action_id, request)` -/
def prior (b : CostBudget) (db : CostDb) (actionId : String)
    (request : BudgetRequest) : Attempt (Option CostEvent) :=
  match db.prior b.lease.testId "budget" actionId 0 with
  | none => pure none
  | some event => do
      refuse (requestOf event ≠ some request)
        (conflict "budget action has different input")
      pure (some event)

def links (b : CostBudget) : BudgetRequest → List Link
  | .opening _ _ campaignId resultId =>
      ⟨"test", b.lease.testId⟩ ::
        (campaignId.toList ++ resultId.toList).map fun id => ⟨"source", id⟩
  | _ => [⟨"test", b.lease.testId⟩]

/-- The artifacts the record of an operation refers to. -/
def refs : BudgetRequest → List String
  | .opening table envelope _ _ =>
      table.sourceHash :: envelope.replayEvidenceHash ::
        table.tariffs.map Tariff.usageSemanticsHash
  | .reserve bound => [bound.proofHash]
  | .settle _ receipt => [receipt.evidenceHash]
  | .change .. => []

def event (b : CostBudget) (actionId : String) (expected : Option ℕ)
    (value : BudgetValue) (request : BudgetRequest) (response : BudgetResponse)
    (extra : List (ProjectionUpdate Projection)) :
    Commit CostPayload Projection where
  testId := b.lease.testId
  lease := some b.lease
  phaseId := "budget"
  actionId := actionId
  attempt := 0
  content := {
    kind := "budget_operation"
    payload := .data (.budget request response)
    updates := ⟨"cost_budget", expected, .data (.budget value)⟩ :: extra
    outbox := []
    simulatedAt := none
    transitionTo := none }

/-- `budget._commit(state, value, request, response, action_id, …)` -/
def commit (b : CostBudget) (host : CostHost) (digests : Digests)
    (actionId : String) (guard : CostDb → Attempt Unit) :
    Decision → Call CostRecord CostPayload Projection CostEvent
  | .done event, db => (.ok event, db)
  | .commit expected value request response extra, db =>
      let identity := [b.lease.testId, actionId]
      match prepare host {
          experimentId := b.experimentId
          kind := .cost
          recordId := digests.recordIdentity b.experimentId "cost" identity
          submissionIdentity := digests.identity identity
          value := .data (.operation request response)
          links := b.links request
          artifactHashes := refs request
          sourcePolicyHashes := [] } with
      | .error e => (.error e, db)
      | .ok prepared =>
          db.commit host (b.event actionId expected value request response extra)
            fun db => do
              guard db
              let (_, db) ← db.insert host prepared
              pure db

/-! ## Operations -/

def allocated (b : CostBudget) (host : CostHost) (digests : Digests)
    (table : PriceTable) (envelope : ResourceEnvelope)
    (campaignId resultId : Option String) (db : CostDb) :
    Attempt (Option Decimal × Limits × Option Allocation) :=
  let settings := b.specification.budget
  match settings.mode with
  | .explicit => do
      refuse (campaignId.isSome = true ∨ resultId.isSome = true)
        (conflict "explicit budget cannot take calibrated allocations")
      let total ← need settings.taskCostLimit
        (costUnavailable "resource_envelope_unresolved")
      refuse (settings.environmentReserve.isNone = true
          ∨ settings.evaluationReserve.isNone = true)
        (costUnavailable "resource_envelope_unresolved")
      let reserves ← resourceReserves host digests b.specification b.taskId
        table envelope
      pure (some total, reserves.within total, none)
  | .calibrated => do
      let allocation ← allocationFor db digests b.lease.testId table envelope
        campaignId resultId
      pure (allocation.totalLimit, allocation.limits, some allocation)

/-- `budget.initialize(table, envelope, action_id=…, …)` -/
def initializeBudget (b : CostBudget) (host : CostHost) (digests : Digests)
    (table : PriceTable) (envelope : ResourceEnvelope) (actionId : String)
    (campaignId resultId : Option String) (db : CostDb) : Attempt Decision := do
  let request := BudgetRequest.opening table envelope campaignId resultId
  match ← b.prior db actionId request with
  | some event => pure (.done event)
  | none => do
      let row ← db.projection b.lease.testId "cost_budget"
      refuse (row.isSome = true) (conflict "budget already initialized")
      let (totalLimit, limits, allocation) ← b.allocated host digests table envelope
        campaignId resultId db
      pure (.commit none {
        specificationHash := b.specification.specificationHash
        priceTableHash := digests.table table
        table := table
        envelope := envelope
        limits := limits
        totalLimit := totalLimit
        invocations := Dict.empty
        failures := []
        allocation := allocation } request .opened [])

def admitted (b : CostBudget) (host : CostHost) (value : BudgetValue)
    (bound : CallBound) : Attempt Decimal := do
  let t ← tariff value.table bound.resource
  refuse (t.kind ≠ .compute ∧ bound.bucket ≠ .research)
    (costUnavailable "research_cannot_spend_environment_reserve")
  refuse (t.kind = .model ∧ bound.resource ≠ b.specification.model)
    (costUnavailable "model_does_not_match_sealed_specification")
  refuse (bound.priceTableHash ≠ value.priceTableHash
      ∨ bound.usageSemanticsHash ≠ t.usageSemanticsHash)
    (conflict "invocation price or usage semantics mismatch")
  let evidence ← host.readJson bound.proofHash
  refuse (evidence ≠ .bound bound.toBoundClaim)
    (costUnavailable "cost_capability_missing")
  price value.table bound.resource bound.maximumUnits

def left (value : BudgetValue) (bucket : Bucket) : Option Decimal :=
  let t := totals value bucket
  (value.limits.of bucket).map fun limit => remaining limit [t.settled, t.held]

def grant (value : BudgetValue) (bound : CallBound) (amount : Decimal)
    (actionId : String) : BudgetValue × BudgetResponse :=
  if value.failures ≠ [] ∧ bound.bucket = .research then
    (value, .accountingInvalid)
  else match left value bound.bucket with
    | some rest =>
        if rest < amount then (value, .insufficient rest amount)
        else accept
    | none => accept
where
  accept : BudgetValue × BudgetResponse :=
    (value.assign bound.invocationId ⟨bound, amount, .reserved, actionId⟩,
      .reserved bound.invocationId amount)

/-- `budget.reserve(bound, action_id=…, guard=…)` -/
def reserve (b : CostBudget) (host : CostHost) (bound : CallBound)
    (actionId : String) (db : CostDb) : Attempt Decision := do
  let request := BudgetRequest.reserve bound
  match ← b.prior db actionId request with
  | some event => pure (.done event)
  | none => do
      let (sequence, value) ← b.state db
      match value.invocations.get? bound.invocationId with
      | some known => do
          refuse (known.bound ≠ bound)
            (conflict "invocation identity has different bound")
          -- A durable reservation may be retried, but must not dispatch again.
          let event ← b.prior db known.reservationActionId request
          let event ← need event ⟨.lookupError, known.reservationActionId⟩
          pure (.done event)
      | none => do
          let amount ← b.admitted host value bound
          let (value', response) := grant value bound amount actionId
          pure (.commit (some sequence) value' request response [])

/-- `budget._change(invocation_id, operation, action_id=…, …)` -/
def change (b : CostBudget) (operation : ChangeOperation) (invocationId : String)
    (actionId : String) (extra : List (ProjectionUpdate Projection))
    (db : CostDb) : Attempt Decision := do
  let request := BudgetRequest.change operation invocationId extra
  match ← b.prior db actionId request with
  | some event => pure (.done event)
  | none => do
      let (sequence, value) ← b.state db
      let i ← need (value.invocations.get? invocationId)
        (conflict "unknown invocation")
      let status ← need (operation.target i.status)
        (conflict "invalid invocation transition")
      pure (.commit (some sequence)
        (value.assign invocationId { i with status := status }) request
        (.changed operation invocationId) extra)

/-- `budget.start(invocation_id, action_id=…, guard=…, extra_updates=…)` -/
def start (b : CostBudget) (invocationId actionId : String)
    (extra : List (ProjectionUpdate Projection)) (db : CostDb) : Attempt Decision :=
  b.change .start invocationId actionId extra db

/-- `budget.mark_unknown(invocation_id, action_id=…)` -/
def markUnknown (b : CostBudget) (invocationId actionId : String) (db : CostDb) :
    Attempt Decision :=
  b.change .unknown invocationId actionId [] db

/-- `budget.release_unstarted(invocation_id, action_id=…, guard=…)` -/
def releaseUnstarted (b : CostBudget) (invocationId actionId : String)
    (db : CostDb) : Attempt Decision :=
  b.change .releaseUnstarted invocationId actionId [] db

def settled (value : BudgetValue) (invocationId : String) (i : Invocation)
    (receipt : UsageReceipt) (amount : Decimal) (exceeded : Bool)
    (by_ : SettledBy) : BudgetValue :=
  { value.assign invocationId { i with status := .settled receipt amount by_ } with
    failures := if exceeded then
        value.failures ++ [⟨invocationId, FailureCode.of i.bound.bucket⟩]
      else value.failures }

/-- `budget.settle(invocation_id, receipt, action_id=…, …)` -/
def settle (b : CostBudget) (host : CostHost) (invocationId : String)
    (receipt : UsageReceipt) (actionId : String) (db : CostDb) :
    Attempt Decision := do
  let request := BudgetRequest.settle invocationId receipt
  match ← b.prior db actionId request with
  | some event => pure (.done event)
  | none => do
      let (sequence, value) ← b.state db
      let i ← need (value.invocations.get? invocationId)
        (conflict "unknown invocation")
      match i.status with
      | .settled earlier _ by_ => do
          refuse (earlier ≠ receipt)
            (conflict "settled invocation has different usage")
          match by_ with
          | .action settlementActionId => do
              let event ← b.prior db settlementActionId request
              let event ← need event ⟨.lookupError, settlementActionId⟩
              pure (.done event)
          | .record _ => .error ⟨.lookupError, "settlement_action_id"⟩
      | _ => do
          let (amount, exceeded) ← pricedReceipt host value.table i receipt
          pure (.commit (some sequence)
            (settled value invocationId i receipt amount exceeded (.action actionId))
            request (.settled invocationId amount exceeded) [])

end CostBudget

/-! ## Calls -/

inductive Operation
  | opening (table : PriceTable) (envelope : ResourceEnvelope)
      (campaignId resultId : Option String)
  | reserve (bound : CallBound)
  | start (invocationId : String) (extra : List (ProjectionUpdate Projection))
  | markUnknown (invocationId : String)
  | releaseUnstarted (invocationId : String)
  | settle (invocationId : String) (receipt : UsageReceipt)
deriving DecidableEq

structure BudgetCall where
  budget : CostBudget
  host : CostHost
  actionId : String
  guard : CostDb → Attempt Unit
  operation : Operation

def BudgetCall.decide (c : BudgetCall) (digests : Digests) (db : CostDb) :
    Attempt Decision :=
  match c.operation with
  | .opening table envelope campaignId resultId =>
      c.budget.initializeBudget c.host digests table envelope c.actionId
        campaignId resultId db
  | .reserve bound => c.budget.reserve c.host bound c.actionId db
  | .start invocationId extra => c.budget.start invocationId c.actionId extra db
  | .markUnknown invocationId => c.budget.markUnknown invocationId c.actionId db
  | .releaseUnstarted invocationId =>
      c.budget.releaseUnstarted invocationId c.actionId db
  | .settle invocationId receipt =>
      c.budget.settle c.host invocationId receipt c.actionId db

def BudgetCall.run (c : BudgetCall) (digests : Digests) (read : CostDb) :
    Call CostRecord CostPayload Projection CostEvent := fun db =>
  match c.decide digests read with
  | .error e => (.error e, db)
  | .ok decision =>
      c.budget.commit c.host digests c.actionId c.guard decision db

/-! ## The system a budget runs in

Several workers, in turn or at once, call the operations of the budgets in
one store. A call reads, decides and then commits, and between the two the
others may write: it commits to the database it finds, of which the one it
read is an earlier state. Everyone else in the store writes neither a budget
projection nor a budget event. -/

/-- `records.projection(test_id, "cost_budget")`, unchecked. -/
def budgetRow (db : CostDb) (testId : String) : Option (Revision Projection) :=
  db.projections.get? (projectionKey testId "cost_budget")

def BudgetEvent (e : CostEvent) : Prop :=
  "cost_budget" ∈ e.updates.map ProjectionUpdate.name ∨
    (CostBudget.requestOf e).isSome = true

/-- What everyone but a budget may do to the store. -/
structure Elsewhere (db db' : CostDb) : Prop where
  events : ∃ new, db'.events = db.events ++ new ∧ ∀ e ∈ new,
    ¬ BudgetEvent e ∧ (e.updates.map ProjectionUpdate.name).Nodup
  rows : ∀ testId, budgetRow db' testId = budgetRow db testId

inductive Step (digests : Digests) (db : CostDb) : CostDb → Prop
  | call (c : BudgetCall) (read : CostDb) (hread : read.events <+: db.events) :
      Step digests db (c.run digests read db).2
  | elsewhere {db' : CostDb} (h : Elsewhere db db') : Step digests db db'

abbrev Run (digests : Digests) : CostDb → CostDb → Prop :=
  Relation.ReflTransGen (Step digests)

structure Unopened (testId : String) (db : CostDb) : Prop where
  row : budgetRow db testId = none
  events : ∀ e ∈ db.events, e.testId = testId → ¬ BudgetEvent e
  once : ∀ e ∈ db.events, (e.updates.map ProjectionUpdate.name).Nodup

def Limits.Nonneg (l : Limits) : Prop :=
  ∀ o ∈ [l.research, l.environment, l.evaluation], ∀ limit ∈ o, 0 ≤ limit.toRat

instance (l : Limits) : Decidable l.Nonneg := by
  unfold Limits.Nonneg
  infer_instance

/-! ## What the log says -/

def BudgetRequest.starts (k : String) : BudgetRequest → Bool
  | .change .start k' _ => k' = k
  | _ => false

def BudgetRequest.releases (k : String) : BudgetRequest → Bool
  | .change .releaseUnstarted k' _ => k' = k
  | _ => false

def BudgetRequest.settles (k : String) : BudgetRequest → Bool
  | .settle k' _ => k' = k
  | _ => false

def requests (db : CostDb) (testId : String) (p : BudgetRequest → Bool) :
    List CostEvent :=
  db.events.filter fun e => e.testId = testId ∧ (CostBudget.requestOf e).any p = true

end Ahunter.Costs
