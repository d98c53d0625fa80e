import Ahunter.Costs.Budget

/-!
# Terminal reconciliation

A test that has ended keeps its budget frozen, and what arrives late is
recorded beside it: one fact per invocation, bound to the frozen projection
it was made against. Reading the budget lays the facts over it, in the order
they were recorded, and checks each of them again.
-/

namespace Ahunter.Costs

open Ahunter.Lib
open Ahunter.Records

/-- `_apply(records, state, fact)` -/
def applyFact (host : CostHost) (sequence : ℕ) (value : BudgetValue)
    (recordId : String) (fact : Reconciliation) : Attempt BudgetValue := do
  refuse (sequence ≠ fact.basisSequence)
    (conflict "late cost fact has a different frozen budget basis")
  let e := conflict "late cost fact has a different invocation basis"
  let i ← need (value.invocations.get? fact.invocationId) e
  refuse (i ≠ fact.before) e
  match fact.request with
  | .releaseUnstarted => do
      refuse (i.status ≠ .reserved)
        (conflict "a started invocation cannot be released as unstarted")
      pure (value.assign fact.invocationId { i with status := .releasedUnstarted })
  | .settle receipt => do
      let (amount, exceeded) ← pricedReceipt host value.table i receipt
      pure (CostBudget.settled value fact.invocationId i receipt amount exceeded
        (.record recordId))

def factOf (testId : String) (r : Record CostRecord) : Option Reconciliation :=
  match r.kind, r.value with
  | .cost, .data (.reconciliation fact) =>
      if fact.testId = testId then some fact else none
  | _, _ => none

def reconciliations (db : CostDb) (testId : String) :
    List (Record CostRecord × Reconciliation) :=
  db.records.filterMap fun r => (factOf testId r).map fun fact => (r, fact)

/-- A budget as its reconciliations leave it. -/
structure Effective where
  sequence : ℕ
  value : BudgetValue
  reconciliationIds : List String
deriving DecidableEq

def overlay (host : CostHost) (experimentId testId : String) (state : Effective)
    (row : Record CostRecord × Reconciliation) : Attempt Effective := do
  refuse (row.1.experimentId ≠ experimentId ∨ ⟨"test", testId⟩ ∉ row.1.links)
    (conflict "terminal cost scope mismatch")
  let value ← applyFact host state.sequence state.value row.1.recordId row.2
  pure ⟨state.sequence, value, state.reconciliationIds ++ [row.1.recordId]⟩

def storedBudget (db : CostDb) (testId : String) : Attempt Effective := do
  let row ← db.projection testId "cost_budget"
  let row ← need row (costUnavailable "budget_not_initialized")
  match row.value with
  | .data (.budget value) => pure ⟨row.sequence, value, []⟩
  | _ => .error ⟨.lookupError, "invocations"⟩

/-- `effective_budget(records, test_id)` -/
def effectiveBudget (host : CostHost) (db : CostDb) (testId : String) :
    Attempt Effective := do
  let test ← db.test testId
  let state ← storedBudget db testId
  let rows := reconciliations db testId
  match rows with
  | [] => pure state
  | _ => do
      let status ← db.status testId
      refuse (status.terminal = false)
        (conflict "terminal cost facts cannot overlay an active Test")
      walk (overlay host test.experimentId testId) state rows

/-! ## Writing -/

/-- The artifacts a reconciliation refers to. -/
def TerminalRequest.refs : TerminalRequest → List String
  | .settle receipt => [receipt.evidenceHash]
  | .releaseUnstarted => []

/-- The transaction of `TerminalCosts._write(…)`. -/
def terminalBody (host : CostHost) (digests : Digests) (testId invocationId : String)
    (request : TerminalRequest) (experimentId : String)
    (guard : CostDb → Attempt Unit) :
    Body.Run CostRecord CostPayload Projection (Record CostRecord) := fun db =>
  let identity := [testId, invocationId]
  let recordId := digests.recordIdentity experimentId "cost-reconciliation" identity
  match db.records.find? fun r => r.recordId = recordId with
  | some previous =>
      match previous.value with
      | .data (.reconciliation fact) => do
          refuse (fact.request ≠ request)
            (conflict "terminal invocation already has different reconciliation")
          pure (previous, db)
      | _ => .error ⟨.lookupError, "request"⟩
  | none => do
      let status ← db.status testId
      refuse (status.terminal = false)
        (conflict "active Test accounting requires its worker lease")
      let state ← effectiveBudget host db testId
      let i ← need (state.value.invocations.get? invocationId)
        (conflict "unknown invocation cannot acquire terminal charges")
      let fact : Reconciliation := ⟨testId, invocationId, state.sequence, i, request⟩
      -- Pure validation before the immutable fact is inserted.
      let _ ← applyFact host state.sequence state.value recordId fact
      let prepared ← prepare host {
        experimentId := experimentId
        kind := .cost
        recordId := recordId
        submissionIdentity := "terminal-cost:" ++ digests.identity identity
        value := .data (.reconciliation fact)
        links := [⟨"test", testId⟩]
        artifactHashes := request.refs
        sourcePolicyHashes := [] }
      guard db
      db.insert host prepared

/-- `TerminalCosts(records)._write(test_id, invocation_id, request, refs,
guard=…)` -/
def terminalWrite (host : CostHost) (digests : Digests) (testId invocationId : String)
    (request : TerminalRequest) (guard : CostDb → Attempt Unit) :
    Call CostRecord CostPayload Projection (Record CostRecord) := fun db =>
  match db.test testId with
  | .error e => (.error e, db)
  | .ok test => transaction host
      (terminalBody host digests testId invocationId request test.experimentId guard) db

namespace TerminalCosts

/-- `TerminalCosts(records).settle(test_id, invocation_id, receipt, guard=…)` -/
def settle (host : CostHost) (digests : Digests) (testId invocationId : String)
    (receipt : UsageReceipt) (guard : CostDb → Attempt Unit) :
    Call CostRecord CostPayload Projection (Record CostRecord) :=
  terminalWrite host digests testId invocationId (.settle receipt) guard

end TerminalCosts

end Ahunter.Costs
