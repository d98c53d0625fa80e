import Ahunter.Costs.Reconciliation

/-!
# Experiment totals

What an experiment has cost: the invocations in the budgets of its tests, each
as its reconciliations leave it, and the attempts of the outer proposals, which
belong to no test. A proposal attempt is two records at most, the start and the
settlement; what such a record holds is text to the budgets, and read here.
-/

namespace Ahunter.Costs

open Ahunter.Lib
open Ahunter.Records

/-! ## Proposal attempts -/

inductive ProposalFact
  | started (table : PriceTable) (bound : CallBound) (maximumCostUsd : Decimal)
  | settled (startId : String) (receipt : UsageReceipt) (costUsd : Decimal)
      (upperBoundExceeded : Bool)
deriving DecidableEq

structure ProposalText where
  write : ProposalFact → String
  read : String → Option ProposalFact
  read_write : ∀ fact fact', read (write fact) = some fact' → fact' = fact

def proposalOf (texts : ProposalText) (r : Record CostRecord) : Option ProposalFact :=
  match r.value with
  | .data (.other text) => texts.read text
  | _ => none

def proposalInvocation (bound : CallBound) (maximumCostUsd : Decimal)
    (status : InvocationStatus) : Invocation :=
  ⟨bound, maximumCostUsd, status, ""⟩

namespace ProposalCosts

/-- `proposals._id(kind, invocation_id)` -/
def recordId (digests : Digests) (experimentId kind invocationId : String) : String :=
  digests.recordIdentity experimentId kind [invocationId]

/-- `ProposalCosts(records, experiment_id)` -/
def opened (db : CostDb) (experimentId : String) : Attempt Unit :=
  refuse (experimentId ∉ db.experiments) ⟨.missing, "unknown experiment"⟩

def parentLink (db : CostDb) (experimentId : String) :
    Option String → Attempt (List Link)
  | none => pure []
  | some parentId => do
      let parent ← db.read parentId
      refuse (parent.experimentId ≠ experimentId ∨ parent.kind ≠ .candidateProposal)
        (conflict "proposal parent belongs to another experiment or kind")
      pure [⟨"candidate", parentId⟩]

/-- The record `record_started` puts. -/
def startRequest (host : CostHost) (digests : Digests) (texts : ProposalText)
    (db : CostDb) (experimentId : String) (table : PriceTable) (bound : CallBound)
    (parentCandidateId : Option String) : Attempt (Prepared CostRecord) := do
  opened db experimentId
  refuse (bound.bucket ≠ .research)
    (conflict "proposal work cannot consume an Episode resource reserve")
  let t ← tariff table bound.resource
  refuse (bound.priceTableHash ≠ digests.table table
      ∨ bound.usageSemanticsHash ≠ t.usageSemanticsHash)
    (conflict "proposal price or usage semantics mismatch")
  let evidence ← host.readJson bound.proofHash
  refuse (evidence ≠ .bound bound.toBoundClaim) (costUnavailable "cost_capability_missing")
  let amount ← price table bound.resource bound.maximumUnits
  let links ← parentLink db experimentId parentCandidateId
  pure {
    experimentId := experimentId
    kind := .cost
    recordId := recordId digests experimentId "proposal-cost-start" bound.invocationId
    submissionIdentity := "proposal-start:" ++ bound.invocationId
    value := .data (.other (texts.write (.started table bound amount)))
    links := links
    artifactHashes := table.sourceHash ::
      (table.tariffs.map Tariff.usageSemanticsHash ++ [bound.proofHash])
    sourcePolicyHashes := [] }

/-- `proposals.record_started(table, bound, parent_candidate_id=…)` -/
def recordStarted (host : CostHost) (digests : Digests) (texts : ProposalText)
    (experimentId : String) (table : PriceTable) (bound : CallBound)
    (parentCandidateId : Option String) :
    Call CostRecord CostPayload Projection (Record CostRecord) := fun db =>
  match startRequest host digests texts db experimentId table bound parentCandidateId with
  | .error e => (.error e, db)
  | .ok request => db.put host request

/-- The record `settle` puts. -/
def settleRequest (host : CostHost) (digests : Digests) (texts : ProposalText)
    (db : CostDb) (experimentId invocationId : String) (receipt : UsageReceipt) :
    Attempt (Prepared CostRecord) := do
  opened db experimentId
  let start ← db.read (recordId digests experimentId "proposal-cost-start" invocationId)
  match proposalOf texts start with
  | some (.started table bound maximum) => do
      let (amount, exceeded) ← pricedReceipt host table
        (proposalInvocation bound maximum .started) receipt
      pure {
        experimentId := experimentId
        kind := .cost
        recordId := recordId digests experimentId "proposal-cost-settle" invocationId
        submissionIdentity := "proposal-settle:" ++ invocationId
        value := .data (.other (texts.write
          (.settled start.recordId receipt amount exceeded)))
        links := [⟨"source", start.recordId⟩]
        artifactHashes := [receipt.evidenceHash]
        sourcePolicyHashes := [] }
  | _ => .error ⟨.lookupError, "table"⟩

/-- `proposals.settle(invocation_id, receipt)` -/
def settle (host : CostHost) (digests : Digests) (texts : ProposalText)
    (experimentId invocationId : String) (receipt : UsageReceipt) :
    Call CostRecord CostPayload Projection (Record CostRecord) := fun db =>
  match settleRequest host digests texts db experimentId invocationId receipt with
  | .error e => (.error e, db)
  | .ok request => db.put host request

end ProposalCosts

/-! ## Totals -/

/-- `_bucket()` -/
structure CostTotals where
  settledUsd : Decimal
  heldUpperUsd : Decimal
  unsettledInvocations : ℕ
  reservedInvocations : ℕ
  startedInvocations : ℕ
  invoiceKnownUsd : Decimal
  invoiceUnknownInvocations : ℕ
deriving DecidableEq

def CostTotals.new : CostTotals := ⟨Decimal.zero, Decimal.zero, 0, 0, 0, Decimal.zero, 0⟩

/-- `_accumulate(total, invocation)` -/
def CostTotals.accumulate (t : CostTotals) (i : Invocation) : CostTotals :=
  match i.status with
  | .settled receipt costUsd _ =>
      let t := { t with
        settledUsd := Decimal.sum [t.settledUsd, costUsd]
        startedInvocations := t.startedInvocations + 1 }
      match receipt.supplierBillUsd with
      | none => { t with invoiceUnknownInvocations := t.invoiceUnknownInvocations + 1 }
      | some bill => { t with invoiceKnownUsd := Decimal.sum [t.invoiceKnownUsd, bill.val] }
  | .reserved => { t with
      heldUpperUsd := Decimal.sum [t.heldUpperUsd, i.maximumCostUsd]
      reservedInvocations := t.reservedInvocations + 1 }
  | .started | .unsettled => { t with
      heldUpperUsd := Decimal.sum [t.heldUpperUsd, i.maximumCostUsd]
      unsettledInvocations := t.unsettledInvocations + 1
      startedInvocations := t.startedInvocations + 1
      invoiceUnknownInvocations := t.invoiceUnknownInvocations + 1 }
  | .releasedUnstarted => t

/-- `_accumulate(groups.setdefault(key, _bucket()), invocation)` -/
def accumulateIn (groups : Dict String CostTotals) (key : String) (i : Invocation) :
    Dict String CostTotals :=
  groups.set key (((groups.get? key).getD CostTotals.new).accumulate i)

def Purpose.text : Purpose → String
  | .tuning => "tuning"
  | .selectionValidation => "selection_validation"
  | .calibration => "calibration"
  | .finalHoldout => "final_holdout"

def Bucket.text : Bucket → String
  | .research => "research"
  | .environment => "environment"
  | .evaluation => "evaluation"

inductive ReportedFailure
  | test (testId : String) (failure : CostFailure)
  | proposal (invocationId : String) (code : FailureCode)
deriving DecidableEq

/-- What `_read` has gathered so far. -/
structure Reading where
  total : CostTotals
  byPurpose : Dict String CostTotals
  byBucket : Dict String CostTotals
  failures : List ReportedFailure
  missing : List String
  executions : List String

def Reading.new : Reading := ⟨.new, Dict.empty, Dict.empty, [], [], []⟩

/-- `add(identity, invocation, purpose)` -/
def Reading.add (r : Reading) (identity : String) (i : Invocation) (purpose : String) :
    Attempt Reading := do
  refuse (identity ∈ r.executions) (conflict "duplicate physical execution identity")
  pure { r with
    executions := r.executions ++ [identity]
    total := r.total.accumulate i
    byPurpose := accumulateIn r.byPurpose purpose i
    byBucket := accumulateIn r.byBucket i.bound.bucket.text i }

namespace ExperimentCosts

def testIds (db : CostDb) (experimentId : String) : List String :=
  (db.records.filter fun r => r.experimentId = experimentId ∧ r.kind = .test).map
    fun r => r.recordId

def startIds (texts : ProposalText) (db : CostDb) (experimentId : String) : List String :=
  (db.records.filter fun r => r.experimentId = experimentId ∧ r.kind = .cost ∧
    (match proposalOf texts r with
      | some (.started ..) => true
      | _ => false) = true).map fun r => r.recordId

def ran (db : CostDb) (testId : String) : Bool :=
  db.events.any fun e => e.testId == testId && e.content.kind == "status_transition" &&
    match e.updates.head? with
    | some ⟨_, _, .status .running _⟩ => true
    | _ => false

/-- One test of the loop over `rows`. -/
def addTest (host : CostHost) (digests : Digests) (db : CostDb) (r : Reading)
    (testId : String) : Attempt Reading := do
  let test ← db.test testId
  match ← db.projection testId "cost_budget" with
  | none =>
      -- A test that never ran has no executed work; one that did lacks evidence.
      if ran db testId = true then pure { r with missing := r.missing ++ [testId] }
      else pure r
  | some _ => do
      let state ← effectiveBudget host db testId
      let r ← walk (fun r e => do
        let value ← need (testValue test) ⟨.lookupError, "purpose"⟩
        r.add (digests.identity ["test", testId, e.1]) e.2 value.purpose.text) r
        state.value.invocations.entries
      pure { r with
        failures := r.failures ++ state.value.failures.map (.test testId) }

def settledAttempt (host : CostHost) (digests : Digests) (texts : ProposalText)
    (db : CostDb) (experimentId startId : String) (table : PriceTable) (bound : CallBound)
    (maximum : Decimal) : Attempt (Invocation × Bool) :=
  let started := proposalInvocation bound maximum .started
  let settlementId := ProposalCosts.recordId digests experimentId "proposal-cost-settle"
    bound.invocationId
  match db.records.find? fun r => r.recordId = settlementId with
  | none => pure (started, false)
  | some settlement =>
      match proposalOf texts settlement with
      | some (.settled source receipt costUsd _) => do
          let (amount, exceeded) ← pricedReceipt host table started receipt
          refuse (source ≠ startId ∨ costUsd.toRat ≠ amount.toRat)
            (conflict "proposal settlement basis mismatch")
          pure (proposalInvocation bound maximum
            (.settled receipt amount (.record settlementId)), exceeded)
      | _ => .error ⟨.lookupError, "receipt"⟩

/-- One attempt of the loop over `starts`. -/
def addProposal (host : CostHost) (digests : Digests) (texts : ProposalText)
    (db : CostDb) (experimentId : String) (r : Reading) (startId : String) :
    Attempt Reading := do
  let start ← db.read startId
  match proposalOf texts start with
  | some (.started table bound maximum) => do
      let (i, exceeded) ← settledAttempt host digests texts db experimentId startId table
        bound maximum
      let r := if exceeded = true then
          { r with failures := r.failures ++
              [.proposal bound.invocationId .costUpperBoundExceeded] }
        else r
      r.add (digests.identity ["proposal", experimentId, bound.invocationId]) i "proposal"
  | _ => .error ⟨.lookupError, "invocation"⟩

end ExperimentCosts

/-- What `_read` returns, but for the constants in it. -/
structure CostReport where
  total : CostTotals
  byPurpose : Dict String CostTotals
  byBucket : Dict String CostTotals
  testCount : ℕ
  proposalAttemptCount : ℕ
  reconciled : Bool
  accountingValid : Bool
  missingCostTests : List String
  failures : List ReportedFailure

/-- `ExperimentCosts(records)._read(experiment_id)` -/
def ExperimentCosts.read (host : CostHost) (digests : Digests) (texts : ProposalText)
    (db : CostDb) (experimentId : String) : Attempt CostReport := do
  refuse (experimentId ∉ db.experiments) ⟨.missing, "unknown experiment"⟩
  let rows := testIds db experimentId
  let r ← walk (addTest host digests db) Reading.new rows
  let starts := startIds texts db experimentId
  let r ← walk (addProposal host digests texts db experimentId) r starts
  let reconciled := decide (¬ (r.missing ≠ [] ∨ r.total.unsettledInvocations ≠ 0 ∨
    r.total.reservedInvocations ≠ 0))
  pure {
    total := r.total
    byPurpose := r.byPurpose
    byBucket := r.byBucket
    testCount := rows.length
    proposalAttemptCount := starts.length
    reconciled := reconciled
    accountingValid := reconciled && decide (r.failures = [])
    missingCostTests := r.missing
    failures := r.failures }

end Ahunter.Costs
