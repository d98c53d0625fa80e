import Ahunter.Trials.Selection

/-!
# Registrations

Definitions, candidates and plans enter the record store through a registry
that checks their bindings before it writes. A plan enters with all its
tests, or not at all; the tests it reuses are linked and not written again.
-/

namespace Ahunter.Trials

open Ahunter.Lib Ahunter.Records

variable {X P V : Type}

/-! ## Artifacts -/

/-- `artifacts.put_bytes(…)`: what later reads of the store find. -/
def putBytes (host : TrialHost X) (contentHash : String) (a : Artifact X) : TrialHost X :=
  { host with artifacts := fun k => if k = contentHash then some a else host.artifacts k }

/-- `read_candidate(package_hash, artifacts=…)` -/
def readCandidate (host : TrialHost X) (packageHash : String) : Attempt CandidatePackage := do
  match ← host.readJson packageHash with
  | .manifest package =>
      refuse (package.packageHash ≠ packageHash)
        (invalidValue "candidate manifest hash mismatch")
      walk (fun _ f => host.readJson f.2 >>= fun _ => pure ()) () package.files
      pure package
  | _ => .error (invalidValue "candidate manifest is invalid")

def insertAll [DecidableEq X] (host : TrialHost X) (prepared : List (Prepared (Entry X))) :
    Body.Run (Entry X) P V Unit := fun db => do
  let db ← walk (fun db p => do
    let (_, db) ← Db.insert host p db
    pure db) db prepared
  pure ((), db)

/-! ## Definitions and candidates -/

/-- `registry._prepare_definition(…)` -/
def prepareDefinition (g : Hashes X) (host : TrialHost X) (experimentId : String)
    (sealed : ResolvedSpecification) (submissionIdentity : String) :
    Attempt (Prepared (Entry X)) := do
  let _ ← verifySpecification g sealed
  let value : Body (Entry X) := .data (.definition sealed)
  prepare (putBytes host (g.content value) (.document value)) {
    experimentId := experimentId
    kind := .definition
    recordId := g.identity experimentId "definition" submissionIdentity
    submissionIdentity := submissionIdentity
    value := value
    links := []
    artifactHashes := [g.content value]
    sourcePolicyHashes := [] }

/-- `registry.definition(experiment_id, specification, submission_identity=…)` -/
def definition [DecidableEq X] (g : Hashes X) (host : TrialHost X) (experimentId : String)
    (sealed : ResolvedSpecification) (submissionIdentity : String) :
    Call (Entry X) P V (TrialRecord X) := fun db =>
  match prepareDefinition g host experimentId sealed submissionIdentity with
  | .error e => (.error e, db)
  | .ok p =>
      transaction
        (putBytes host (g.content p.value) (.document p.value))
        (Db.insert (putBytes host (g.content p.value) (.document p.value)) p) db

def parentLink (g : Hashes X) (host : TrialHost X) (db : TrialDb X P V) (experimentId : String)
    (proposal : CandidateProposal) : Attempt (List Link) :=
  match proposal.parentProposalId with
  | none => pure []
  | some parent => do
      let parentId := g.identity experimentId "candidate" parent
      let (_, p) ← typed proposal? experimentId db parentId
      let _ ← readCandidate host p.packageHash
      pure [⟨"parent", parentId⟩]

/-- What `registry.candidate` prepares. -/
def prepareCandidate (g : Hashes X) (host : TrialHost X) (db : TrialDb X P V)
    (experimentId : String) (proposal : CandidateProposal) (submissionIdentity : String) :
    Attempt (List (Prepared (Entry X))) := do
  refuse (proposal.parentProposalId = some proposal.proposalId)
    (invalidValue "proposal cannot parent itself")
  let package ← readCandidate host proposal.packageHash
  let packageId := g.identity experimentId "package" package.packageHash
  let proposalId := g.identity experimentId "candidate" proposal.proposalId
  let parent ← parentLink g host db experimentId proposal
  gather (prepare host) [
    { experimentId := experimentId
      kind := .candidatePackage
      recordId := packageId
      submissionIdentity := package.packageHash
      value := .data (.candidatePackage package)
      links := []
      artifactHashes := package.packageHash :: package.files.map Prod.snd
      sourcePolicyHashes := [] },
    { experimentId := experimentId
      kind := .candidateProposal
      recordId := proposalId
      submissionIdentity := submissionIdentity
      value := .data (.candidateProposal proposal)
      links := ⟨"package", packageId⟩ :: parent
      artifactHashes := proposal.diffArtifactHash.toList
      sourcePolicyHashes := [] }]

def unlessRegistered (db : TrialDb X P V) (recordId : String) (check : Attempt Unit) :
    Attempt Unit :=
  if hasRecord db recordId then pure () else check

/-- `registry.candidate(experiment_id, proposal, submission_identity=…)` -/
def candidate [DecidableEq X] (g : Hashes X) (host : TrialHost X) (experimentId : String)
    (proposal : CandidateProposal) (submissionIdentity : String) :
    Call (Entry X) P V Unit := fun db =>
  match prepareCandidate g host db experimentId proposal submissionIdentity with
  | .error e => (.error e, db)
  | .ok prepared => transaction host (fun db => do
      unlessRegistered db (g.identity experimentId "candidate" proposal.proposalId)
        (requireSelectionOpen db experimentId)
      insertAll host prepared db) db

/-! ## Plans -/

def checkPlan (g : Hashes X) (sealed : ResolvedSpecification) (plan : TestPlan)
    (purpose : Purpose) : Attempt ExperimentDraft := do
  let spec ← verifySpecification g sealed
  refuse (¬ plan.Valid) (invalidValue "invalid test plan")
  refuse (plan.specificationHash ≠ sealed.specificationHash)
    (conflict "test plan specification differs from its definition")
  let tasks := plan.taskIds
  let role := purpose.role
  refuse (∃ t ∈ tasks, ((taskMap spec).get? t).map Task.role ≠ some role)
    (conflict "plan tasks have an unknown or incompatible role")
  refuse (purpose ∈ [.selectionValidation, .finalHoldout] ∧ ¬ SameElements tasks
      ((spec.tasks.filter fun t => t.role = role).map Task.taskId))
    (conflict "selection plan must include every predeclared selection task")
  refuse (purpose = .calibration ∧ (plan.proposals.length ≠ 1 ∨ tasks.length ≠ 1))
    (conflict "calibration requires one initial baseline and one tuning task")
  let repeats := if purpose = .calibration then spec.calibrationRepeats else spec.evaluate.repeats
  refuse (¬ SameElements (plan.tests.map PlannedTest.slot)
      (matrix plan.proposals tasks repeats))
    (conflict "test plan must contain the complete predeclared candidate/task/repeat matrix")
  refuse (plan.proposals.length > 1 ∧ ∃ b ∈ blocks plan.proposals.length plan.tests.length
      plan.tests, ¬ Interleaved plan.proposals b)
    (conflict "candidate runs must be predeclared in interleaved task/repeat blocks")
  pure spec

def candidateRecords (g : Hashes X) (db : TrialDb X P V) (experimentId : String)
    (plan : TestPlan) : Attempt (List (String × TrialRecord X × CandidateProposal)) :=
  gather (fun name => do
    let r ← typed proposal? experimentId db (g.identity experimentId "candidate" name)
    pure (name, r)) plan.proposals

def testRequest (g : Hashes X) (spec : ExperimentDraft) (experimentId definitionId planId : String)
    (purpose : Purpose) (selectionId : Option String) (order : ℕ) (sample : PlannedTest) :
    Attempt (Prepared (Entry X)) := do
  let task ← need ((taskMap spec).get? sample.taskId) (keyError sample.taskId)
  pure {
    experimentId := experimentId
    kind := .test
    recordId := g.identity experimentId "test" sample.testId
    submissionIdentity := sample.testId
    value := .data (.test {
      definitionId := definitionId
      planId := planId
      purpose := purpose
      order := order
      sample := sample
      role := task.role
      taskId := sample.taskId
      selectionId := selectionId
      rerunOf := none
      rerunReason := none })
    links := ⟨"definition", definitionId⟩ :: ⟨"plan", planId⟩
      :: (selectionId.toList.map fun s => ⟨"selection", s⟩)
      ++ [⟨"candidate", g.identity experimentId "candidate" sample.proposalId⟩]
    artifactHashes := []
    sourcePolicyHashes := [] }

/-- `registry._prepare_plan(…)`: the requests of a plan and of its own tests,
and the artifact store with the plan's bytes. -/
def preparePlan (g : Hashes X) (host : TrialHost X) (db : TrialDb X P V)
    (experimentId definitionId : String) (plan : TestPlan) (submissionIdentity : String)
    (purpose : Purpose) (selectionId : Option String) (reuse : Option Reuse) :
    Attempt (List (Prepared (Entry X)) × TrialHost X) := do
  refuse (purpose = .finalHoldout ∧ selectionId = none)
    (invalidValue "holdout requires finalized selection; unsupported plan purpose")
  refuse (purpose ≠ .finalHoldout ∧ selectionId ≠ none)
    (invalidValue "selection freeze reference is only valid for final holdout")
  let (_, sealed) ← typed specification? experimentId db definitionId
  let spec ← checkPlan g sealed plan purpose
  let candidates ← candidateRecords g db experimentId plan
  walk (fun _ c => readCandidate host c.2.2.packageHash >>= fun _ => pure ()) () candidates
  let planId := g.identity experimentId "plan" plan.planId
  let entry : PlanEntry := ⟨definitionId, purpose, plan, selectionId, reuse⟩
  let value : Body (Entry X) := .data (.testPlan entry)
  let tests ← gather (fun s => testRequest g spec experimentId definitionId planId purpose
      selectionId s.2 s.1)
    (plan.tests.zipIdx.filter fun s =>
      !entry.sources.contains (g.identity experimentId "test" s.1.testId))
  let request : Prepared (Entry X) := {
    experimentId := experimentId
    kind := .testPlan
    recordId := planId
    submissionIdentity := submissionIdentity
    value := value
    links := ⟨"definition", definitionId⟩
      :: (selectionId.toList.map fun s => ⟨"selection", s⟩)
      ++ (entry.sources.keys.map fun t => ⟨"test", t⟩)
      ++ candidates.map fun c => ⟨"candidate", c.2.1.recordId⟩
    artifactHashes := [g.content value]
    sourcePolicyHashes := [] }
  pure (request :: tests, putBytes host (g.content value) (.document value))

def planAllowed (g : Hashes X) (db : TrialDb X P V) (experimentId definitionId : String)
    (plan : TestPlan) (purpose : Purpose) (selectionId : Option String) : Attempt Unit :=
  match purpose, selectionId with
  | .finalHoldout, some selection =>
      requireHoldoutPlan g db experimentId definitionId plan selection
  | .finalHoldout, none => pure ()
  | _, _ => requireSelectionOpen db experimentId

/-- `registry.test_plan(experiment_id, definition_id, plan, …)` -/
def testPlan [DecidableEq X] (g : Hashes X) (host : TrialHost X)
    (experimentId definitionId : String) (plan : TestPlan) (submissionIdentity : String)
    (purpose : Purpose) (selectionId : Option String) : Call (Entry X) P V Unit := fun db =>
  match (do
    let (requests, host) ← preparePlan g host db experimentId definitionId plan
      submissionIdentity purpose selectionId none
    let prepared ← gather (prepare host) requests
    pure (prepared, host)) with
  | .error e => (.error e, db)
  | .ok (prepared, host) => transaction host (fun db => do
      unlessRegistered db (g.identity experimentId "plan" plan.planId)
        (planAllowed g db experimentId definitionId plan purpose selectionId)
      insertAll host prepared db) db

/-- What `registry.rerun` prepares. -/
def prepareRerun [DecidableEq V] (g : Hashes X) (host : TrialHost X) (db : TrialDb X P V)
    (experimentId testId rerunIdentity reason : String) : Attempt (Prepared (Entry X)) := do
  refuse (reason = "") (invalidValue "rerun reason required")
  let (original, test) ← typed test? experimentId db testId
  refuse (test.purpose = .finalHoldout) (conflict "final holdout cannot add unplanned reruns")
  let status ← db.status testId
  refuse (status.terminal = false) (conflict "only terminal tests may be rerun")
  prepare host {
    experimentId := experimentId
    kind := .test
    recordId := g.identity experimentId "rerun" rerunIdentity
    submissionIdentity := "rerun:" ++ rerunIdentity
    value := .data (.test { test with rerunOf := some testId, rerunReason := some reason })
    links := original.links ++ [⟨"rerun_of", testId⟩]
    artifactHashes := []
    sourcePolicyHashes := [] }

/-- `registry.rerun(experiment_id, test_id, rerun_identity=…, reason=…)` -/
def rerun [DecidableEq X] [DecidableEq V] (g : Hashes X) (host : TrialHost X)
    (experimentId testId rerunIdentity reason : String) :
    Call (Entry X) P V (TrialRecord X) := fun db =>
  match prepareRerun g host db experimentId testId rerunIdentity reason with
  | .error e => (.error e, db)
  | .ok p => transaction host (fun db => do
      unlessRegistered db p.recordId (requireSelectionOpen db experimentId)
      Db.insert host p db) db

end Ahunter.Trials
