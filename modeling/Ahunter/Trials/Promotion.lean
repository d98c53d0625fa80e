import Ahunter.Trials.Comparisons

/-!
# Making a selection

A selection starts with a baseline, is promoted by comparisons that
qualified against it, and is frozen once. Each comparison leads to one
decision, whatever it decides, and only a promotion revises the selection.
-/

namespace Ahunter.Trials

open Ahunter.Lib Ahunter.Records

variable {X P V : Type}

section Selecting

variable [DecidableEq V]

/-! ## The initial baseline -/

def nothingStarted (db : TrialDb X P V) (experimentId : String) : Attempt Unit :=
  walk (fun _ r =>
    if r.experimentId = experimentId ∧ r.kind = .test then do
      let e := conflict "initial baseline must be fixed before any Test starts"
      let status ← db.status r.recordId
      refuse (status ≠ .created) e
      let budget ← db.projection r.recordId "cost_budget"
      refuse (budget.isSome = true) e
    else pure ()) () db.records

/-- What `selection.initialize` prepares. -/
def prepareInitial (g : Hashes X) (host : TrialHost X) (db : TrialDb X P V)
    (experimentId definitionId baselineId : String) : Attempt (Prepared (Entry X)) := do
  let e := conflict "initial selection requires its definition and a registered root baseline"
  let definition ← db.read definitionId
  let baseline ← db.read baselineId
  let sealed ← need (specification? definition) e
  let proposal ← need (proposal? baseline) e
  refuse (definition.experimentId ≠ experimentId ∨ baseline.experimentId ≠ experimentId
    ∨ proposal.parentProposalId ≠ none) e
  let _ ← verifySpecification g sealed
  let _ ← readCandidate host proposal.packageHash
  prepare host {
    experimentId := experimentId
    kind := .selection
    recordId := g.identity experimentId "selection" "initial"
    submissionIdentity := "selection:initial"
    value := .data (.selection ⟨none, some {
      operation := .initial
      definitionId := definitionId
      initialBaselineId := baselineId
      currentBaselineId := baselineId
      initialPackageHash := proposal.packageHash
      currentPackageHash := proposal.packageHash
      previousSelectionId := none
      previousSelectionHash := none }⟩)
    links := [⟨"target", definitionId⟩, ⟨"candidate", baselineId⟩]
    artifactHashes := []
    sourcePolicyHashes := [] }

variable [DecidableEq X]

/-- `selection.initialize(experiment_id, definition_id, baseline_id)` -/
def initializeSelection (g : Hashes X) (host : TrialHost X)
    (experimentId definitionId baselineId : String) :
    Call (Entry X) P V (TrialRecord X) := fun db =>
  match prepareInitial g host db experimentId definitionId baselineId with
  | .error e => (.error e, db)
  | .ok p => transaction host (fun db => do
      unlessRegistered db p.recordId (do
        refuse ((currentSelection db experimentId).isSome = true)
          (conflict "initial selection already exists")
        nothingStarted db experimentId)
      Db.insert host p db) db

/-! ## Decisions -/

def selectionDecision (g : Hashes X) (experimentId expectedSelectionId : String)
    (current : TrialRecord X) (revised : Revised) (pair : Pair) (result : Reduction)
    (qualified : Bool) : Attempt (Decision × Reason) :=
  if revised.operation = .finalize then pure (.selectionFrozen, .selectionFrozen)
  else if current.recordId ≠ expectedSelectionId then
    pure (.staleBaseline, .selectionRevisionChanged)
  else if pair.selection = none then pure (.inconclusive, .comparisonHasNoSelectionBinding)
  else if result.decision ≠ .eligible then pure (result.decision, result.reason)
  else if qualified = false then pure (.inconclusive, .runtimeAcceptanceIncomplete)
  else do
    refuse (some (g.content current.value) ≠ pair.selectionHash
        ∨ revised.currentBaselineId ≠ g.identity experimentId "candidate" pair.baseline
        ∨ revised.definitionId ≠ pair.definitionId)
      (conflict "comparison must qualify against the current baseline and definition")
    pure (.promoted, .selectionThresholdsSatisfied)

def promotion (g : Hashes X) (host : TrialHost X) (db : TrialDb X P V) (experimentId : String)
    (current : TrialRecord X) (revised : Revised) (pair : Pair) :
    Attempt (Revised × List Link) := do
  let candidateId := g.identity experimentId "candidate" pair.candidate
  let record ← db.read candidateId
  let packageHash ← need (pair.packages.get? pair.candidate) (keyError pair.candidate)
  let proposal ← need (proposal? record) (keyError "proposal")
  refuse (proposal.packageHash ≠ packageHash) (conflict "comparison candidate package mismatch")
  let _ ← readCandidate host packageHash
  pure ({ revised with
      operation := .promote
      currentBaselineId := candidateId
      currentPackageHash := packageHash
      previousSelectionId := some current.recordId
      previousSelectionHash := some (g.content current.value) },
    [⟨"candidate", candidateId⟩, ⟨"target", revised.definitionId⟩])

/-- The transaction of `selection.apply_comparison`, for a decision that has
not been made. -/
def decideSelection (g : Hashes X) (host : TrialHost X) (comparison : TrialRecord X)
    (c : ComparisonResult) (expectedSelectionId submissionIdentity : String) :
    Body.Run (Entry X) P V (TrialRecord X) := fun db => do
  let e := conflict "selection comparison binding mismatch"
  let experimentId := comparison.experimentId
  let frozen ← db.read c.comparisonId
  let pair ← need (pair? frozen) e
  refuse (frozen.experimentId ≠ experimentId
    ∨ c.registrationFingerprint ≠ pair.registrationFingerprint
    ∨ c.selectionId ≠ pair.selectionId) e
  refuse (pair.selection ≠ none ∧ pair.selectionId ≠ some expectedSelectionId)
    (conflict "comparison cannot be rebound to another selection revision")
  let (current, revised) ← need (currentSelection db experimentId)
    (conflict "selection must be initialized before applying comparisons")
  let (result, qualified) ← qualifiedComparison g host db frozen pair c.samples
  refuse (result ≠ c.result ∨ c.decision ≠ result.decision ∨ c.formalReady ≠ qualified
      ∨ c.promotionAuthorized ≠ (qualified && result.decision == .eligible)
      ∨ c.runtimeFingerprint ≠ pair.runtimeFingerprint)
    (conflict "comparison decision contradicts its original evidence")
  let (decision, reason) ← selectionDecision g experimentId expectedSelectionId current revised
    pair result qualified
  let (promoted, links) ← (if decision = .promoted then do
      let (revision, links) ← promotion g host db experimentId current revised pair
      pure (some revision, links)
    else pure (none, []) : Attempt (Option Revised × List Link))
  let prepared ← prepare host {
    experimentId := experimentId
    kind := .selection
    recordId := g.identity experimentId "selection-decision" comparison.recordId
    submissionIdentity := "selection-decision:" ++ comparison.recordId
    value := .data (.selection ⟨some {
      comparisonId := comparison.recordId
      expectedSelectionId := expectedSelectionId
      submissionIdentity := submissionIdentity
      decision := decision
      reason := reason
      comparisonHash := g.content comparison.value
      observedSelectionId := current.recordId
      observedSelectionHash := g.content current.value
      formalReady := qualified }, promoted⟩)
    links := ⟨"comparison", comparison.recordId⟩ :: ⟨"selection", current.recordId⟩ :: links
    artifactHashes := []
    sourcePolicyHashes := [] }
  Db.insert host prepared db

/-- `selection.apply_comparison(comparison_id, …)` -/
def applyComparison (g : Hashes X) (host : TrialHost X)
    (comparisonId expectedSelectionId submissionIdentity : String) :
    Call (Entry X) P V (TrialRecord X) := fun db =>
  match (do
    refuse (strip submissionIdentity = "") (invalidValue "selection submission identity required")
    let comparison ← db.read comparisonId
    let c ← need (result? comparison)
      (conflict "selection requires a completed comparison record")
    pure (comparison, c) : Attempt (TrialRecord X × ComparisonResult)) with
  | .error e => (.error e, db)
  | .ok (comparison, c) => transaction host (fun db =>
      let identity := g.identity comparison.experimentId "selection-decision" comparisonId
      if hasRecord db identity then do
        let previous ← db.read identity
        let entry ← need (selection? previous) (keyError "request")
        let decided ← need entry.decided (keyError "request")
        refuse (decided.comparisonId ≠ comparisonId
            ∨ decided.expectedSelectionId ≠ expectedSelectionId
            ∨ decided.submissionIdentity ≠ submissionIdentity)
          (conflict "comparison selection decision already has different inputs")
        pure (previous, db)
      else decideSelection g host comparison c expectedSelectionId submissionIdentity db) db

/-! ## The final selection -/

omit [DecidableEq V] in
/-- `any(not call["quiescent"] or call["status"] == "prepared" …)`, which
`busy` reads off the value of a projection -/
def unfinished (busy : V → Bool) : Value V → Bool
  | .data v => busy v
  | .status _ _ => false

def nothingRunning (busy : V → Bool) (db : TrialDb X P V) (experimentId : String) :
    Attempt Unit :=
  walk (fun _ r =>
    if r.experimentId = experimentId ∧ r.kind = .test then do
      let status ← db.status r.recordId
      refuse (status.terminal = false)
        (conflict "selection cannot freeze while planned Tests remain unfinished")
      walk (fun _ name => do
        let state ← db.projection r.recordId name
        refuse (state.any (fun s => unfinished busy s.value) = true)
          (conflict "selection cannot freeze while physical cleanup is unknown"))
        () ["candidate_processes", "model_invocations"]
    else pure ()) () db.records

/-- The transaction of `selection.finalize`, for a freeze that has not been
made. -/
def freezeSelection (g : Hashes X) (busy : V → Bool) (host : TrialHost X)
    (experimentId expectedSelectionId submissionIdentity : String) :
    Body.Run (Entry X) P V (TrialRecord X) := fun db => do
  let e := conflict "selection revision changed"
  let (current, revised) ← need (currentSelection db experimentId) e
  refuse (current.recordId ≠ expectedSelectionId) e
  requireSelectionOpen db experimentId
  nothingRunning busy db experimentId
  let report ← holdoutExposure g db revised.definitionId
  refuse (report.unseen = false)
    (conflict "final holdout is exposed, overlaps training, or lacks exposure provenance")
  let _ ← readCandidate host revised.initialPackageHash
  let _ ← readCandidate host revised.currentPackageHash
  let prepared ← prepare host {
    experimentId := experimentId
    kind := .selection
    recordId := g.identity experimentId "selection-freeze" submissionIdentity
    submissionIdentity := "selection-freeze:" ++ submissionIdentity
    value := .data (.selection ⟨(selection? current).bind SelectionEntry.decided |>.map
        fun d => { d with formalReady := false }, some { revised with
      operation := .finalize
      previousSelectionId := some current.recordId
      previousSelectionHash := some (g.content current.value) }⟩)
    links := [⟨"target", revised.definitionId⟩, ⟨"selection", current.recordId⟩,
      ⟨"candidate", revised.initialBaselineId⟩, ⟨"candidate", revised.currentBaselineId⟩]
    artifactHashes := []
    sourcePolicyHashes := [] }
  Db.insert host prepared db

/-- `selection.finalize(experiment_id, …)` -/
def finalize (g : Hashes X) (busy : V → Bool) (host : TrialHost X)
    (experimentId expectedSelectionId submissionIdentity : String) :
    Call (Entry X) P V (TrialRecord X) := fun db =>
  if strip submissionIdentity = "" then
    (.error (invalidValue "selection submission identity required"), db)
  else transaction host (fun db =>
    let identity := g.identity experimentId "selection-freeze" submissionIdentity
    if hasRecord db identity then do
      let previous ← db.read identity
      let revised ← need (revised? previous) (keyError "previous_selection_id")
      refuse (revised.previousSelectionId ≠ some expectedSelectionId)
        (conflict "selection identity already has different inputs")
      pure (previous, db)
    else freezeSelection g busy host experimentId expectedSelectionId submissionIdentity db) db

end Selecting

end Ahunter.Trials
