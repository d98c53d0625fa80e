import Ahunter.Lib.Text
import Ahunter.Trials.Registry

/-!
# Reusing a baseline

A plan may take its baseline samples from an earlier comparison, as one
complete cohort under the same conditions. Which cohort is decided by the
order comparisons were frozen in, and what a cohort has to show are proofs
of acceptance: no net asset value is read.
-/

namespace Ahunter.Trials

open Ahunter.Lib Ahunter.Records

variable {X P V : Type}

/-- `_repeat_key(sample)` -/
def PlannedTest.repeatKey (s : PlannedTest) : String × ℕ × String × Option ℕ :=
  (s.taskId, s.repeatIndex, s.repeatId, s.seed)

def firstAssessment (db : TrialDb X P V) (testId : String) : Option (TrialRecord X × Assessment) :=
  (db.records.filterMap fun r =>
    (assessment? r).bind fun a => if a.testId = testId then some (r, a) else none).head?

/-- What a baseline cohort has to match. -/
structure Wanted where
  experimentId : String
  specificationHash : String
  requested : TestPlan
  baseline : String
  purpose : Purpose
  conditions : RuntimeConditions
  packageHash : String

def TestPlan.samplesOf (plan : TestPlan) (proposalId : String) : List PlannedTest :=
  plan.tests.filter fun s => s.proposalId = proposalId

structure Cohort where
  samples : List PlannedTest
  proofs : Dict String ReuseProof
deriving DecidableEq

section Cohorts

variable [DecidableEq V]

def sampleProof (g : Hashes X) (db : TrialDb X P V) (source planRecord : TrialRecord X)
    (definitionId experimentId packageHash : String) (runtime : RuntimeConditions)
    (sample : PlannedTest) : Attempt (Option (String × ReuseProof)) := do
  let testId := g.identity experimentId "test" sample.testId
  let record ← db.test testId
  match test? record with
  | none => pure none
  | some test =>
      if test.planId ≠ planRecord.recordId ∨ test.sample ≠ sample
          ∨ test.definitionId ≠ definitionId ∨ test.rerunOf ≠ none then pure none
      else do
        if (← db.status testId) ≠ .completed then pure none
        else
          match firstAssessment db testId with
          | none => pure none
          | some (first, assessment) => do
              refuse (first.experimentId ≠ experimentId ∨ ⟨"test", testId⟩ ∉ first.links)
                (conflict "baseline source assessment scope mismatch")
              let conditions ← need (runtime.tasks.get? sample.taskId) (keyError sample.taskId)
              if ¬ MatchesConditions g assessment sample runtime.specificationHash conditions
                  packageHash then pure none
              else
                pure (some (testId, {
                  sourcePlanId := planRecord.recordId
                  sourcePlanHash := g.content planRecord.value
                  sourceComparisonId := source.recordId
                  sourceComparisonHash := g.content source.value
                  testHash := g.content record.value
                  assessmentId := first.recordId
                  assessmentHash := g.content first.value }))

def sampleProofs (f : PlannedTest → Attempt (Option (String × ReuseProof))) :
    List PlannedTest → Attempt (Option (List (String × ReuseProof)))
  | [] => pure (some [])
  | s :: rest => do
      match ← f s with
      | none => pure none
      | some proof => do
          match ← sampleProofs f rest with
          | none => pure none
          | some proofs => pure (some (proof :: proofs))

def Wanted.Admits (w : Wanted) (source : TrialRecord X) (pair : Pair) : Prop :=
  source.experimentId = w.experimentId ∧ pair.selection ≠ none ∧ pair.runtime ≠ none
    ∧ pair.packages.get? w.baseline = some w.packageHash

instance (w : Wanted) (source : TrialRecord X) (pair : Pair) : Decidable (w.Admits source pair) :=
  inferInstanceAs (Decidable (_ ∧ _))

/-- `_source_cohort(records, source, …)` -/
def sourceCohort (g : Hashes X) (host : TrialHost X) (db : TrialDb X P V)
    (source : TrialRecord X) (w : Wanted) : Attempt (Option Cohort) :=
  match pair? source with
  | none => pure none
  | some pair =>
      match pair.runtime with
      | none => pure none
      | some (pinned, fingerprint) =>
          if ¬ w.Admits source pair then pure none
          else do
            let e := conflict "baseline source plan binding mismatch"
            let planRecord ← db.read pair.planId
            let plan ← need (plan? planRecord) e
            refuse (planRecord.experimentId ≠ w.experimentId
              ∨ g.content planRecord.value ≠ pair.planHash) e
            if plan.purpose ≠ w.purpose ∨ plan.plan.seedSupport ≠ w.requested.seedSupport
                ∨ pair.specificationHash ≠ w.specificationHash then pure none
            else do
              let (_, sealed) ← definitionSpecification db plan.definitionId
              if pinned.tasks ≠ w.conditions.tasks then pure none
              else do
                let (runtime, _) ← runtimeConditions g host sealed plan.plan pinned.tasks
                refuse (runtime ≠ pinned ∨ g.runtime runtime pair.packages ≠ fingerprint)
                  (conflict "baseline source runtime fingerprint mismatch")
                let wanted := (w.requested.samplesOf w.baseline).map PlannedTest.repeatKey
                let samples := plan.plan.samplesOf w.baseline
                if runtime.specificationHash ≠ w.conditions.specificationHash
                    ∨ samples.length ≠ wanted.dedup.length
                    ∨ ¬ SameElements (samples.map PlannedTest.repeatKey) wanted then pure none
                else do
                  match ← sampleProofs (sampleProof g db source planRecord plan.definitionId
                      w.experimentId w.packageHash runtime) samples with
                  | none => pure none
                  | some proofs => pure (some ⟨samples, Dict.ofList proofs⟩)

/-- `validate_reused_plan(records, plan, selection_id, runtime)` -/
def validateReusedPlan (g : Hashes X) (host : TrialHost X) (db : TrialDb X P V)
    (planRecord : TrialRecord X) (plan : PlanEntry) (selectionId : Option String)
    (runtime : Option RuntimeConditions) : Attempt Unit :=
  match plan.reuse with
  | none => pure ()
  | some reuse => do
      let e := conflict "reused baseline requires its original selection and exact runtime conditions"
      refuse (selectionId ≠ some reuse.request.expectedSelectionId) e
      let conditions ← need runtime e
      refuse (conditions.tasks ≠ reuse.request.runtimeConditions) e
      let selected ← db.read reuse.request.expectedSelectionId
      let revised ← need (revised? selected) (keyError "current_baseline_id")
      let baselineRecord ← db.read revised.currentBaselineId
      let baseline ← need (proposal? baselineRecord) (keyError "proposal")
      let (_, sealed) ← definitionSpecification db plan.definitionId
      let source ← db.read reuse.sourceComparisonId
      let found ← sourceCohort g host db source {
        experimentId := planRecord.experimentId
        specificationHash := sealed.specificationHash
        requested := plan.plan
        baseline := baseline.proposalId
        purpose := plan.purpose
        conditions := conditions
        packageHash := revised.currentPackageHash }
      let cohort ← need found
        (conflict "pinned baseline cohort no longer satisfies original reuse qualifications")
      refuse (cohort.proofs ≠ reuse.sources)
        (conflict "pinned baseline cohort no longer satisfies original reuse qualifications")
      refuse ((plan.plan.samplesOf baseline.proposalId).isPerm cohort.samples = false)
        (conflict "reuse must retain every original baseline sample identity")

def frozenPairs (db : TrialDb X P V) (experimentId : String) : List (TrialRecord X) :=
  db.records.filter fun r => r.experimentId = experimentId ∧ (pair? r).isSome

def firstCohort (f : TrialRecord X → Attempt (Option Cohort)) :
    List (TrialRecord X) → Attempt (Option (TrialRecord X × Cohort))
  | [] => pure none
  | source :: rest => do
      match ← f source with
      | some cohort => pure (some (source, cohort))
      | none => firstCohort f rest

end Cohorts

/-! ## Registering a plan that reuses its baseline -/

/-- What `BaselineReuse.register` returns: the plan, and which of its tests
are reused. -/
structure Reused (X : Type) where
  plan : TrialRecord X
  reusedTestIds : List String
  newTestIds : List String

/-- `_result(plan)` -/
def reuseResult (g : Hashes X) (db : TrialDb X P V) (record : TrialRecord X) :
    Attempt (Reused X) := do
  let plan ← need (plan? record) (keyError "plan")
  let tests ← gather (fun s : PlannedTest =>
      db.read (g.identity record.experimentId "test" s.testId)) plan.plan.tests
  pure {
    plan := record
    reusedTestIds := plan.sources.keys
    newTestIds := (tests.map fun t => t.recordId).filter fun t => !plan.sources.contains t }

def resolvePlan (template : TestPlan) (baseline : String) (cohort : Cohort) :
    Attempt TestPlan := do
  let tests ← gather (fun s : PlannedTest =>
      if s.proposalId = baseline then
        need (cohort.samples.reverse.find? fun c => c.repeatKey = s.repeatKey)
          (keyError s.repeatId)
      else pure s) template.tests
  pure { template with tests := tests }

section Register

variable [DecidableEq X] [DecidableEq V]

/-- The transaction of `BaselineReuse.register`, for a plan that is not there
yet. -/
def registerReuse (g : Hashes X) (host : TrialHost X) (experimentId : String)
    (sealed : ResolvedSpecification) (runtime : RuntimeConditions) (artifacts : List String)
    (request : ReuseRequest) : Body.Run (Entry X) P V (Reused X) := fun db => do
  let template := request.inputPlan
  let e := conflict "baseline reuse requires the expected current selection and definition"
  let (current, revised) ← need (currentSelection db experimentId) e
  refuse (current.recordId ≠ request.expectedSelectionId
    ∨ revised.definitionId ≠ request.definitionId) e
  requireSelectionOpen db experimentId
  let baselineRecord ← db.read revised.currentBaselineId
  let baseline ← need (proposal? baselineRecord) (keyError "proposal")
  let others := template.proposals.filter fun p => p ≠ baseline.proposalId
  refuse (others.length ≠ 1)
    (conflict "reuse plan requires the current baseline and one candidate")
  let other ← need others.head? (conflict "reuse plan requires the current baseline and one candidate")
  let _ ← compareReturns g sealed template Dict.empty baseline.proposalId other
  let found ← firstCohort (fun source => sourceCohort g host db source {
      experimentId := experimentId
      specificationHash := sealed.specificationHash
      requested := template
      baseline := baseline.proposalId
      purpose := request.purpose
      conditions := runtime
      packageHash := revised.currentPackageHash }) (frozenPairs db experimentId)
  let (source, cohort) ← need found
    (conflict "no complete qualified baseline cohort matches the predeclared repeat design")
  let resolved ← resolvePlan template baseline.proposalId cohort
  let (requests, host) ← preparePlan g host db experimentId request.definitionId resolved
    request.submissionIdentity request.purpose none
    (some ⟨request, source.recordId, cohort.proofs⟩)
  let prepared ← gather (prepare host) (match requests with
    | [] => []
    | plan :: tests => { plan with artifactHashes := plan.artifactHashes ++ artifacts } :: tests)
  let (_, db) ← insertAll host prepared db
  let record ← db.read (g.identity experimentId "plan" template.planId)
  let result ← reuseResult g db record
  pure (result, db)

/-- What `BaselineReuse.register` settles before its transaction. -/
def reuseRequest (g : Hashes X) (host : TrialHost X) (db : TrialDb X P V)
    (experimentId : String) (request : ReuseRequest) :
    Attempt (ResolvedSpecification × RuntimeConditions × List String) := do
  refuse (request.purpose ∉ [.tuning, .selectionValidation])
    (conflict "baseline reuse cannot supply calibration or final holdout samples")
  refuse (strip request.submissionIdentity = "")
    (invalidValue "reuse submission identity required")
  refuse (¬ request.inputPlan.Valid) (invalidValue "invalid test plan")
  let (_, sealed) ← typed specification? experimentId db request.definitionId
  let (runtime, artifacts) ← runtimeConditions g host sealed request.inputPlan
    request.runtimeConditions
  pure (sealed, runtime, artifacts)

/-- `BaselineReuse.register(experiment_id, definition_id, plan, …)` -/
def register (g : Hashes X) (host : TrialHost X) (experimentId : String)
    (request : ReuseRequest) : Call (Entry X) P V (Reused X) := fun db =>
  match reuseRequest g host db experimentId request with
  | .error e => (.error e, db)
  | .ok (sealed, runtime, artifacts) => transaction host (fun db =>
      let planId := g.identity experimentId "plan" request.inputPlan.planId
      if hasRecord db planId then do
        let existing ← db.read planId
        refuse (((plan? existing).bind PlanEntry.reuse).map Reuse.request ≠ some request)
          (conflict "reuse plan identity already has different inputs")
        let result ← reuseResult g db existing
        pure (result, db)
      else registerReuse g host experimentId sealed runtime artifacts request db) db

end Register

end Ahunter.Trials
