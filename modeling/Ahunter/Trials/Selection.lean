import Ahunter.Trials.Evaluate

/-!
# The selection, and what is known of its holdout

The selection of an experiment is the last record that revises it. A holdout
is unseen as long as nothing that was shown, said or run covers one of its
dates; what was shown is read off the exposure records, and each of those is
weighed again by what it showed.
-/

namespace Ahunter.Trials

open Ahunter.Lib Ahunter.Records
open Ahunter.Sim (Date)

variable {X P V : Type}

/-! ## The current revision -/

/-- `current_selection(records, experiment_id)` -/
def currentSelection (db : TrialDb X P V) (experimentId : String) :
    Option (TrialRecord X × Revised) :=
  (db.records.filterMap fun r =>
    if r.experimentId = experimentId then (revised? r).map (Prod.mk r) else none).getLast?

/-- `require_selection_open(records, experiment_id)` -/
def requireSelectionOpen (db : TrialDb X P V) (experimentId : String) : Attempt Unit :=
  refuse (∃ c ∈ currentSelection db experimentId, c.2.operation = .finalize)
    (conflict "experiment selection is frozen; new optimization requires another experiment")

/-! ## Exposure -/

/-- `_cancellation_metadata(records, record)` -/
def cancellationMetadata (db : TrialDb X P V) (r : TrialRecord X) : Attempt Bool :=
  match r.kind, r.value with
  | .serviceControl, .data (.cancellation testId _) =>
      if r.links ≠ [⟨"test", testId⟩] ∨ r.artifactHashes ≠ [] ∨ r.sourcePolicyHashes ≠ [] then
        pure false
      else do
        let test ← db.read testId
        pure (test? test).isSome
  | _, _ => pure false

def typedRegistration (r : TrialRecord X) : Bool :=
  (specification? r).isSome || (plan? r).isSome || (test? r).isSome

/-- `action in {"record_detail", "record_export"} or action.startswith("artifact:")` -/
def Action.reads : Action → Bool
  | .recordDetail | .recordExport | .artifact _ => true
  | .events _ _ => false

def metadataRead (db : TrialDb X P V) : Exposure → Attempt Bool
  | .released release =>
      if release.action.reads = true then do
        let target ← db.read release.targetId
        let cancellation ← cancellationMetadata db target
        pure (typedRegistration target || (revised? target).isSome || cancellation)
      else pure false
  | .declared _ _ => pure false

/-- What one exposure record counts as. -/
inductive Seen
  | metadata
  | unresolved
  | dates (matched : List Date)
deriving DecidableEq, Repr

def Exposure.matched (holdout : List Date) : Exposure → List Date
  | .released release => holdout.filter fun d => release.scopes.any fun s => s.tradingDates.contains d
  | .declared periods _ => holdout.filter fun d => periods.any fun p => decide (p.1 ≤ d ∧ d ≤ p.2)

def Exposure.dated : Exposure → Bool
  | .released release => release.scopes.any fun s => !s.tradingDates.isEmpty
  | .declared periods _ => !periods.isEmpty

def weigh (db : TrialDb X P V) (holdout : List Date) (e : Exposure) : Attempt Seen := do
  if ← metadataRead db e then pure .metadata
  else do
    match e with
    | .declared periods _ =>
        refuse (∃ p ∈ periods, p.2 < p.1) (conflict "exposure period is invalid")
    | .released _ => pure ()
    if e.dated = true then pure (.dates (e.matched holdout)) else pure .unresolved

def startedTests (db : TrialDb X P V) : List String :=
  ((db.events.filter fun e => e.updates.any fun u => match u.value with
    | .status s _ => u.name == "status" && s == .running
    | .data _ => false).map Event.testId).dedup

def trainedOn (g : Hashes X) (db : TrialDb X P V) (holdout : List Date) (testId : String) :
    Attempt (List Date) := do
  let record ← db.test testId
  match test? record with
  | none => pure []
  | some test => do
      let (_, sealed) ← definitionSpecification db test.definitionId
      let spec ← verifySpecification g sealed
      let task ← need (spec.tasks.find? fun t => t.taskId = test.taskId) ⟨.lookupError, "task"⟩
      if task.role = .finalHoldout then pure []
      else
        pure (holdout.filter fun d => sealed.tasks.any fun t =>
          t.taskId == test.taskId && t.tradingDates.contains d)

structure HoldoutReport where
  definitionId : String
  definitionHash : String
  holdoutDates : List Date
  overlappingRoles : List Date
  exposures : List (String × String × List Date)
  unresolvedExposures : List (String × String)
  previousTrainingTests : List (String × List Date)
  metadataReadIds : List String
deriving DecidableEq, Repr

/-- `report["unseen"]` -/
def HoldoutReport.unseen (r : HoldoutReport) : Bool :=
  r.overlappingRoles.isEmpty && r.exposures.isEmpty && r.unresolvedExposures.isEmpty
    && r.previousTrainingTests.isEmpty

def roleDates (spec : ExperimentDraft) (sealed : ResolvedSpecification) (p : Role → Bool) :
    Attempt (List Date) := do
  let dates ← gather (fun t : Task =>
      need ((taskDates sealed).get? t.taskId) (keyError t.taskId))
    (spec.tasks.filter fun t => p t.role)
  pure (dates.flatten.dedup.insertionSort (· ≤ ·))

def exposureRecords (db : TrialDb X P V) : List (TrialRecord X × Exposure) :=
  db.records.filterMap fun r => (exposure? r).map (Prod.mk r)

/-- `holdout_exposure(records, definition_id)` -/
def holdoutExposure (g : Hashes X) (db : TrialDb X P V) (definitionId : String) :
    Attempt HoldoutReport := do
  let definition ← db.read definitionId
  let sealed ← need (specification? definition)
    (conflict "holdout exposure requires a typed definition")
  let spec ← verifySpecification g sealed
  let holdout ← roleDates spec sealed (· == .finalHoldout)
  refuse (holdout = []) (conflict "definition has no predeclared final holdout")
  let others ← roleDates spec sealed (· != .finalHoldout)
  let seen ← gather (fun e : TrialRecord X × Exposure => do
    let s ← weigh db holdout e.2
    pure (e.1, s)) (exposureRecords db)
  let trained ← gather (fun testId => do
    let dates ← trainedOn g db holdout testId
    pure (testId, dates)) (startedTests db)
  pure {
    definitionId := definitionId
    definitionHash := g.content definition.value
    holdoutDates := holdout
    overlappingRoles := holdout.filter others.contains
    exposures := seen.filterMap fun s => match s.2 with
      | .dates matched =>
          if matched = [] then none else some (s.1.recordId, g.content s.1.value, matched)
      | _ => none
    unresolvedExposures := seen.filterMap fun s =>
      if s.2 = .unresolved then some (s.1.recordId, g.content s.1.value) else none
    previousTrainingTests := trained.filter fun t => !t.2.isEmpty
    metadataReadIds := seen.filterMap fun s =>
      if s.2 = .metadata then some s.1.recordId else none }

/-- `require_holdout_plan(records, experiment_id, definition_id, plan, selection_id)` -/
def requireHoldoutPlan (g : Hashes X) (db : TrialDb X P V) (experimentId definitionId : String)
    (plan : TestPlan) (selectionId : String) : Attempt Unit := do
  let e := conflict "holdout requires the exact finalized selection and definition"
  let (record, revised) ← need (currentSelection db experimentId) e
  refuse (record.recordId ≠ selectionId ∨ revised.operation ≠ .finalize
    ∨ revised.definitionId ≠ definitionId) e
  let names ← gather (fun id => do
    let r ← db.read id
    let p ← need (proposal? r) (keyError "proposal")
    pure p.proposalId) [revised.initialBaselineId, revised.currentBaselineId]
  refuse (¬ SameElements plan.proposals names)
    (conflict "holdout runs only the initial baseline and final selected candidate")
  refuse (∃ r ∈ db.records, r.experimentId = experimentId
      ∧ ∃ p ∈ plan? r, p.selectionId = some selectionId)
    (conflict "final selection already has its single predeclared holdout plan")
  let report ← holdoutExposure g db definitionId
  refuse (report.unseen = false) (conflict "holdout exposure changed after selection freeze")

end Ahunter.Trials
