import Ahunter.Trials.Reuse

/-!
# Frozen pairs and their results

A comparison is frozen before its tests run: the plan, the candidates, the
conditions and the selection it is made against. Its result is recorded
once, from the first assessment of each predeclared sample, and is
recomputed from the same records by everything that acts on it later.
-/

namespace Ahunter.Trials

open Ahunter.Lib Ahunter.Records

variable {X P V : Type} [DecidableEq V]

/-! ## Qualification -/

def sampleOutcome (g : Hashes X) (db : TrialDb X P V) (frozen planRecord : TrialRecord X)
    (plan : PlanEntry) (pair : Pair) (item : SampleItem) (planned : PlannedTest) :
    Attempt (Option (String × Outcome) × Bool) := do
  let testId := g.identity frozen.experimentId "test" planned.testId
  let record ← db.test testId
  let e := conflict "comparison Test binding mismatch"
  let test ← need (test? record) e
  let source := match plan.sources.get? testId with
    | some proof => proof.sourcePlanId
    | none => planRecord.recordId
  refuse (item.testId ≠ testId ∨ test.sample ≠ planned ∨ test.planId ≠ source
    ∨ test.rerunOf ≠ none) e
  match item.assessment with
  | none => pure (none, false)
  | some (assessmentId, assessmentHash) => do
      let e := conflict "comparison assessment binding mismatch"
      let assessment ← db.read assessmentId
      let a ← need (assessment? assessment) e
      refuse (g.content assessment.value ≠ assessmentHash
        ∨ assessment.experimentId ≠ frozen.experimentId ∨ a.testId ≠ testId
        ∨ ⟨"test", testId⟩ ∉ assessment.links) e
      refuse (((firstAssessment db testId).map fun f => f.1.recordId)
          ≠ some assessment.recordId)
        (conflict "comparison cannot substitute a later assessment")
      let outcome : Outcome := {
        status := item.status
        valid := a.valid
        initialNav := a.navDiagnostic.bind NavDiagnostic.initialNav
        terminalNav := a.navDiagnostic.bind NavDiagnostic.terminalNav }
      match pair.runtimeConditions with
      | none => pure (some (planned.testId, outcome), false)
      | some runtime => do
          let conditions ← need (runtime.tasks.get? planned.taskId) (keyError planned.taskId)
          let packageHash ← need (pair.packages.get? planned.proposalId)
            (keyError planned.proposalId)
          if ¬ MatchesConditions g a planned runtime.specificationHash conditions packageHash
              ∨ item.status ≠ .completed then pure (some (planned.testId, outcome), false)
          else do
            let status ← db.status testId
            pure (some (planned.testId, outcome), status == .completed)

/-- Whether the frozen conditions are still what they were. -/
def checkRuntime (g : Hashes X) (host : TrialHost X) (sealed : ResolvedSpecification)
    (plan : TestPlan) (pair : Pair) : Attempt Unit :=
  match pair.runtime with
  | none => pure ()
  | some (runtime, fingerprint) => do
      let (checked, _) ← runtimeConditions g host sealed plan runtime.tasks
      refuse (checked ≠ runtime ∨ g.runtime runtime pair.packages ≠ fingerprint)
        (conflict "comparison runtime fingerprint mismatch")

def checkReuse (g : Hashes X) (host : TrialHost X) (db : TrialDb X P V)
    (planRecord : TrialRecord X) (plan : PlanEntry) (selectionId : Option String)
    (runtime : Option RuntimeConditions) : Attempt Unit :=
  if plan.sources.entries = [] then pure ()
  else validateReusedPlan g host db planRecord plan selectionId runtime

/-- `result.update(decision="inconclusive", reason="runtime_acceptance_incomplete")`
for what is eligible and not qualified. -/
def Reduction.withheld (r : Reduction) (qualified : Bool) : Reduction :=
  if r.decision = .eligible ∧ qualified = false then
    { r with decision := .inconclusive, reason := .runtimeAcceptanceIncomplete }
  else r

/-- `qualified_comparison(records, frozen, samples)` -/
def qualifiedComparison (g : Hashes X) (host : TrialHost X) (db : TrialDb X P V)
    (frozen : TrialRecord X) (pair : Pair) (samples : List SampleItem) :
    Attempt (Reduction × Bool) := do
  let e := conflict "comparison plan binding mismatch"
  let planRecord ← db.read pair.planId
  let (definition, sealed) ← definitionSpecification db pair.definitionId
  let plan ← need (plan? planRecord) e
  refuse (g.content planRecord.value ≠ pair.planHash
    ∨ planRecord.experimentId ≠ frozen.experimentId
    ∨ plan.definitionId ≠ definition.recordId) e
  checkReuse g host db planRecord plan pair.selectionId pair.runtimeConditions
  refuse (samples.map SampleItem.testId ≠ pair.testIds
      ∨ samples.length ≠ plan.plan.tests.length)
    (conflict "comparison result changed its predeclared samples")
  checkRuntime g host sealed plan.plan pair
  let outcomes ← gather (fun s => sampleOutcome g db frozen planRecord plan pair s.1 s.2)
    (samples.zip plan.plan.tests)
  let qualified := pair.runtime.isSome && pair.selection.isSome && outcomes.all Prod.snd
  let result ← compareReturns g sealed plan.plan
    (Dict.ofList (outcomes.filterMap Prod.fst)) pair.baseline pair.candidate
  pure (result.withheld qualified, qualified)

/-! ## Freezing -/

def pairPackages (g : Hashes X) (host : TrialHost X) (db : TrialDb X P V)
    (experimentId : String) (names : List String) : Attempt (List (String × String × String)) :=
  gather (fun name => do
    let record ← db.read (g.identity experimentId "candidate" name)
    let p ← need (proposal? record) (conflict "comparison requires typed candidates")
    let _ ← readCandidate host p.packageHash
    pure (name, p.packageHash, record.recordId)) names

def repairLink (db : TrialDb X P V) (experimentId planId : String) :
    Option String → Attempt (List Link)
  | none => pure []
  | some previous => do
      let e := conflict
        "a repaired comparison requires a new plan linked to the inconclusive result"
      let record ← db.read previous
      let result ← need (result? record) e
      refuse (record.experimentId ≠ experimentId ∨ result.decision ≠ .inconclusive
        ∨ result.planId = planId) e
      pure [⟨"comparison", previous⟩]

def pairRuntime (g : Hashes X) (host : TrialHost X) (sealed : ResolvedSpecification)
    (plan : TestPlan) (packages : Dict String String) (expectedSelectionId : Option String) :
    Option (Dict String TaskComparisonConditions) →
      Attempt (Option (RuntimeConditions × String) × List String)
  | none => pure (none, [])
  | some supplied => do
      refuse (expectedSelectionId = none)
        (conflict "qualified comparison requires the expected current selection")
      let (conditions, artifacts) ← runtimeConditions g host sealed plan supplied
      pure (some (conditions, g.runtime conditions packages), artifacts)

def pairSelection (g : Hashes X) (db : TrialDb X P V) (experimentId definitionId : String)
    (baseline : String) : Option String → Attempt (Option (String × String))
  | none => pure none
  | some selectionId => do
      let e := conflict
        "comparison must face the current baseline under its original definition"
      let selected ← db.read selectionId
      let revised ← need (revised? selected) e
      refuse (selected.experimentId ≠ experimentId ∨ revised.operation = .finalize
        ∨ revised.currentBaselineId ≠ g.identity experimentId "candidate" baseline
        ∨ revised.definitionId ≠ definitionId) e
      pure (some (selectionId, g.content selected.value))

/-- What a call to `freeze` is given. -/
structure FreezeRequest where
  planId : String
  baseline : String
  candidate : String
  submissionIdentity : String
  previousComparison : Option String
  expectedSelectionId : Option String
  runtimeConditions : Option (Dict String TaskComparisonConditions)

/-- What `freeze` prepares before its transaction. -/
structure Freezing (X : Type) where
  planRecord : TrialRecord X
  plan : PlanEntry
  pair : Pair
  prepared : Prepared (Entry X)

/-- Everything `freeze` does before its transaction. -/
def prepareFreeze (g : Hashes X) (host : TrialHost X) (db : TrialDb X P V)
    (request : FreezeRequest) : Attempt (Freezing X) := do
  refuse (strip request.submissionIdentity = "")
    (invalidValue "comparison submission identity required")
  let planRecord ← db.read request.planId
  let e := conflict "comparison requires a registered tuning or selection plan"
  let plan ← need (plan? planRecord) e
  refuse (plan.purpose ∉ [.tuning, .selectionValidation]) e
  let (definition, sealed) ← definitionSpecification db plan.definitionId
  let _ ← compareReturns g sealed plan.plan Dict.empty request.baseline request.candidate
  let experimentId := planRecord.experimentId
  let identity := g.identity experimentId "comparison-plan" request.submissionIdentity
  let tests := plan.plan.tests.map fun s => g.identity experimentId "test" s.testId
  let named ← pairPackages g host db experimentId [request.baseline, request.candidate]
  let repaired ← repairLink db experimentId request.planId request.previousComparison
  let packages := Dict.ofList (named.map fun n => (n.1, n.2.1))
  let (runtime, artifacts) ← pairRuntime g host sealed plan.plan packages
    request.expectedSelectionId request.runtimeConditions
  let selection ← pairSelection g db experimentId definition.recordId request.baseline
    request.expectedSelectionId
  let pair : Pair := {
    planId := request.planId
    baseline := request.baseline
    candidate := request.candidate
    testIds := tests
    definitionId := definition.recordId
    specificationHash := plan.plan.specificationHash
    planHash := g.content planRecord.value
    packages := packages
    previousComparison := request.previousComparison
    runtime := runtime
    selection := selection
    registrationFingerprint := "" }
  let pair := { pair with registrationFingerprint := g.registration pair }
  let prepared ← prepare host {
    experimentId := experimentId
    kind := .comparison
    recordId := identity
    submissionIdentity := "comparison-plan:" ++ request.submissionIdentity
    value := .data (.comparisonPlan pair)
    links := ⟨"plan", request.planId⟩ :: (tests.map fun t => ⟨"test", t⟩)
      ++ (named.map fun n => ⟨"candidate", n.2.2⟩) ++ repaired
      ++ request.expectedSelectionId.toList.map fun s => ⟨"selection", s⟩
    artifactHashes := artifacts
    sourcePolicyHashes := [] }
  pure ⟨planRecord, plan, pair, prepared⟩

def unstarted (db : TrialDb X P V) (plan : PlanEntry) (planId : String)
    (tests : List (String × PlannedTest)) : Attempt Unit :=
  walk (fun _ t =>
    if plan.sources.contains t.1 = true then pure ()
    else do
      let e := conflict "comparison pair and samples must freeze before execution"
      let record ← db.test t.1
      let test ← need (test? record) e
      refuse (test.planId ≠ planId ∨ test.sample ≠ t.2 ∨ test.rerunOf ≠ none) e
      let status ← db.status t.1
      refuse (status ≠ .created) e
      let budget ← db.projection t.1 "cost_budget"
      refuse (budget.isSome = true) e) () tests

def selectionCurrent (db : TrialDb X P V) (experimentId : String) :
    Option String → Attempt Unit
  | none => pure ()
  | some selectionId =>
      refuse ((currentSelection db experimentId).map (fun c => c.1.recordId) ≠ some selectionId)
        (conflict "selection revision changed before comparison freeze")

variable [DecidableEq X]

/-- The transaction of `comparisons.freeze(…)`. -/
def freezeBody (g : Hashes X) (host : TrialHost X) (f : Freezing X) :
    Body.Run (Entry X) P V (TrialRecord X) := fun db => do
  checkReuse g host db f.planRecord f.plan f.pair.selectionId f.pair.runtimeConditions
  unlessRegistered db f.prepared.recordId (do
    selectionCurrent db f.planRecord.experimentId f.pair.selectionId
    unstarted db f.plan f.pair.planId (f.pair.testIds.zip f.plan.plan.tests))
  Db.insert host f.prepared db

/-- `comparisons.freeze(plan_id, baseline=…, candidate=…, …)` -/
def freeze (g : Hashes X) (host : TrialHost X) (request : FreezeRequest) :
    Call (Entry X) P V (TrialRecord X) := fun db =>
  match prepareFreeze g host db request with
  | .error e => (.error e, db)
  | .ok f => transaction host (freezeBody g host f) db

/-! ## Completing -/

/-- `public_summary`: what the optimizer may see. -/
def publicSummary (r : Reduction) : PublicSummary :=
  match r.summary with
  | some s => {
      baselineMeanReturn := .number s.baselineMeanReturn
      candidateMeanReturn := .number s.candidateMeanReturn
      meanImprovement := .number s.meanImprovement
      worstPairedDifference := .number s.worstPairedDifference
      positiveRepeats := .int s.positiveRepeats
      plannedRepeats := .int s.plannedRepeats
      decision := some r.decision }
  | none => {
      baselineMeanReturn := .null
      candidateMeanReturn := .null
      meanImprovement := .null
      worstPairedDifference := .null
      positiveRepeats := .null
      plannedRepeats := .int r.plannedRepeats
      decision := some r.decision }

def sampleItem (g : Hashes X) (db : TrialDb X P V) (experimentId testId : String) :
    Attempt SampleItem := do
  let status ← db.status testId
  match firstAssessment db testId with
  | none => pure ⟨testId, status, none⟩
  | some (assessment, _) => do
      refuse (assessment.experimentId ≠ experimentId ∨ ⟨"test", testId⟩ ∉ assessment.links)
        (conflict "comparison assessment scope mismatch")
      pure ⟨testId, status, some (assessment.recordId, g.content assessment.value)⟩

def resultRequest (g : Hashes X) (frozen : TrialRecord X) (pair : Pair)
    (samples : List SampleItem) (result : Reduction) (qualified : Bool) : Prepared (Entry X) where
  experimentId := frozen.experimentId
  kind := .comparison
  recordId := g.identity frozen.experimentId "comparison-result" frozen.recordId
  submissionIdentity := "comparison-result:" ++ frozen.recordId
  value := .data (.comparisonResult {
    planId := pair.planId
    comparisonId := frozen.recordId
    registrationFingerprint := pair.registrationFingerprint
    samples := samples
    result := result
    decision := result.decision
    formalReady := qualified
    promotionAuthorized := qualified && result.decision == .eligible
    selectionId := pair.selectionId
    runtimeFingerprint := pair.runtimeFingerprint
    publicSummary := publicSummary result })
  links := ⟨"comparison", frozen.recordId⟩ :: ⟨"plan", pair.planId⟩
    :: samples.filterMap fun s => s.assessment.map fun a => ⟨"evaluation", a.1⟩
  artifactHashes := []
  sourcePolicyHashes := []

/-- The transaction of `comparisons.complete(…)`, for a result that is not
there yet. -/
def completeBody (g : Hashes X) (host : TrialHost X) (frozen : TrialRecord X) (pair : Pair)
    (requireTerminal : Bool) : Body.Run (Entry X) P V (TrialRecord X) := fun db => do
  let _ ← db.read pair.planId
  let statuses ← gather db.status (if requireTerminal then pair.testIds else [])
  refuse (∃ s ∈ statuses, s.terminal = false)
    (conflict "comparison result requires every predeclared Test to be terminal")
  let samples ← gather (sampleItem g db frozen.experimentId) pair.testIds
  let (result, qualified) ← qualifiedComparison g host db frozen pair samples
  let prepared ← prepare host (resultRequest g frozen pair samples result qualified)
  Db.insert host prepared db

/-- `comparisons.complete(comparison_id, require_terminal=…)` -/
def complete (g : Hashes X) (host : TrialHost X) (comparisonId : String)
    (requireTerminal : Bool) : Call (Entry X) P V (TrialRecord X) := fun db =>
  match db.read comparisonId with
  | .error e => (.error e, db)
  | .ok frozen =>
      match pair? frozen with
      | none => (.error (conflict "comparison requires its frozen pair"), db)
      | some pair => transaction host (fun db =>
          let identity := g.identity frozen.experimentId "comparison-result" comparisonId
          if hasRecord db identity then do
            let record ← db.read identity
            pure (record, db)
          else completeBody g host frozen pair requireTerminal db) db

end Ahunter.Trials
