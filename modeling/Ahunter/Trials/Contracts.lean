import Ahunter.Lib.Decimal
import Ahunter.Records.Sources

/-!
# What experiments record

The contracts of the experiment platform, from a resolved specification to
the selection that is made in the end, as the values records hold. A value
keeps the constraints its contract declares as fields, so a contract that
exists has passed its validation; a check that the platform makes again
later is made again here.

Hashes are texts. What they cover is given by the functions of `Hashes`,
one for each kind of value that is hashed.
-/

namespace Ahunter.Trials

open Ahunter.Lib Ahunter.Records
open Ahunter.Sim (Date Instant)

/-! ## Specifications -/

inductive Role
  | tuning
  | selectionValidation
  | finalHoldout
deriving DecidableEq, Repr

inductive Purpose
  | tuning
  | selectionValidation
  | calibration
  | finalHoldout
deriving DecidableEq, Repr

/-- `"tuning" if purpose == "calibration" else purpose` -/
def Purpose.role : Purpose → Role
  | .tuning => .tuning
  | .selectionValidation => .selectionValidation
  | .calibration => .tuning
  | .finalHoldout => .finalHoldout

@[ext] structure Task where
  taskId : String
  role : Role
  weight : Decimal
  weight_pos : 0 < weight.toRat

instance : DecidableEq Task := fun _ _ => decidable_of_iff _ Task.ext_iff.symm

/-- `EvaluationSettings`. The score, and what every experiment turns on, is
the same in all of them. -/
structure EvaluationSettings where
  repeats : ℕ
  minimumImprovement : Decimal
  positiveNumerator : ℕ
  positiveDenominator : ℕ
  worstRepeatRegression : Decimal
  stabilityPolicyRef : String
  allowMixedDurations : Bool
  repeats_pos : 0 < repeats
  minimumImprovement_nonneg : 0 ≤ minimumImprovement.toRat
  positive_proper : 0 < positiveNumerator ∧ positiveNumerator ≤ positiveDenominator
  worstRepeatRegression_nonpos : worstRepeatRegression.toRat ≤ 0
deriving DecidableEq

theorem oneDay_ne : ([1] : List Date) ≠ [] := by decide

theorem fullWeight_pos : 0 < (⟨false, 1, 0⟩ : Decimal).toRat := by decide +kernel

def sampleSettings (mixed : Bool) : EvaluationSettings where
  repeats := 1
  minimumImprovement := ⟨false, 0, 0⟩
  positiveNumerator := 1
  positiveDenominator := 1
  worstRepeatRegression := ⟨false, 0, 0⟩
  stabilityPolicyRef := "paired_repeat_threshold_v1"
  allowMixedDurations := mixed
  repeats_pos := by decide
  minimumImprovement_nonneg := by decide +kernel
  positive_proper := by decide
  worstRepeatRegression_nonpos := by decide +kernel

/-- `ExperimentDraft`: what the modules below read of it. -/
structure ExperimentDraft where
  tasks : List Task
  calibrationRepeats : ℕ
  evaluate : EvaluationSettings
  tasks_ne : tasks ≠ []
  tasks_unique : (tasks.map Task.taskId).Nodup
deriving DecidableEq

structure ResolvedTask where
  taskId : String
  tradingDates : List Date
  tradingDates_ne : tradingDates ≠ []
deriving DecidableEq

/-- `ResolvedSpecification`. The effective settings are the draft their text
decodes to, and `resolve`, which alone yields one, resolves every task. -/
structure ResolvedSpecification where
  specificationHash : String
  effective : ExperimentDraft
  tasks : List ResolvedTask
  tasks_resolved : tasks.map ResolvedTask.taskId = effective.tasks.map Task.taskId
deriving DecidableEq

/-! ## Plans -/

structure PlannedTest where
  testId : String
  proposalId : String
  taskId : String
  repeatId : String
  repeatIndex : ℕ
  seed : Option ℕ
deriving DecidableEq, Repr

/-- Which run of which candidate on which task a sample is. -/
def PlannedTest.slot (s : PlannedTest) : String × String × ℕ :=
  (s.proposalId, s.taskId, s.repeatIndex)

inductive SeedSupport
  | supported
  | unsupported
deriving DecidableEq, Repr

/-- `TestPlan`, as `unique_samples` leaves it. -/
structure TestPlan where
  planId : String
  specificationHash : String
  tests : List PlannedTest
  seedSupport : SeedSupport
deriving DecidableEq

/-- Paired repeats share the repeat and the seed, and different repeats are
named differently. -/
def PlannedTest.Agrees (s t : PlannedTest) : Prop :=
  s.repeatIndex = t.repeatIndex ↔ s.repeatId = t.repeatId

instance (s t : PlannedTest) : Decidable (s.Agrees t) :=
  inferInstanceAs (Decidable (_ ↔ _))

/-- What `TestPlan` validates. -/
structure TestPlan.Valid (plan : TestPlan) : Prop where
  tests_ne : plan.tests ≠ []
  ids_unique : (plan.tests.map PlannedTest.testId).Nodup
  slots_unique : (plan.tests.map PlannedTest.slot).Nodup
  repeats : ∀ s ∈ plan.tests, ∀ t ∈ plan.tests, s.Agrees t
  seeds : ∀ s ∈ plan.tests, ∀ t ∈ plan.tests, s.repeatIndex = t.repeatIndex → s.seed = t.seed
  supported : ∀ s ∈ plan.tests, s.seed = none ↔ plan.seedSupport = .unsupported

instance (plan : TestPlan) : Decidable plan.Valid :=
  decidable_of_iff (plan.tests ≠ [] ∧ (plan.tests.map PlannedTest.testId).Nodup
      ∧ (plan.tests.map PlannedTest.slot).Nodup
      ∧ (∀ s ∈ plan.tests, ∀ t ∈ plan.tests, s.Agrees t)
      ∧ (∀ s ∈ plan.tests, ∀ t ∈ plan.tests, s.repeatIndex = t.repeatIndex → s.seed = t.seed)
      ∧ ∀ s ∈ plan.tests, s.seed = none ↔ plan.seedSupport = .unsupported)
    ⟨fun ⟨h₁, h₂, h₃, h₄, h₅, h₆⟩ => ⟨h₁, h₂, h₃, h₄, h₅, h₆⟩,
      fun ⟨h₁, h₂, h₃, h₄, h₅, h₆⟩ => ⟨h₁, h₂, h₃, h₄, h₅, h₆⟩⟩

/-! ## Candidates -/

structure CandidatePackage where
  packageHash : String
  files : List (String × String)
deriving DecidableEq, Repr

structure CandidateProposal where
  proposalId : String
  packageHash : String
  parentProposalId : Option String
  hypothesis : String
  source : String
  diffArtifactHash : Option String
deriving DecidableEq, Repr

/-! ## Conditions of a run -/

/-- `TaskComparisonConditions` -/
structure TaskComparisonConditions where
  dataCorpusHash : String
  dataCorpusGeneration : String
  searchPolicyHash : String
  actualModelId : String
  actualReasoningEffort : String
  executorHash : String
  feeScheduleHash : String
  priceTableHash : String
  budgetHash : String
deriving DecidableEq, Repr

/-- The fields whose names end in `_hash`. -/
def TaskComparisonConditions.hashes (c : TaskComparisonConditions) : List String :=
  [c.dataCorpusHash, c.searchPolicyHash, c.executorHash, c.feeScheduleHash, c.priceTableHash,
    c.budgetHash]

structure RuntimeConditions where
  specificationHash : String
  samplePlanHash : String
  tasks : Dict String TaskComparisonConditions
deriving DecidableEq

/-! ## Reuse -/

/-- What `BaselineReuse.register` was asked for. -/
structure ReuseRequest where
  definitionId : String
  inputPlan : TestPlan
  expectedSelectionId : String
  runtimeConditions : Dict String TaskComparisonConditions
  submissionIdentity : String
  purpose : Purpose
deriving DecidableEq

structure ReuseProof where
  sourcePlanId : String
  sourcePlanHash : String
  sourceComparisonId : String
  sourceComparisonHash : String
  testHash : String
  assessmentId : String
  assessmentHash : String
deriving DecidableEq, Repr

structure Reuse where
  request : ReuseRequest
  sourceComparisonId : String
  sources : Dict String ReuseProof
deriving DecidableEq

/-! ## Registrations -/

structure PlanEntry where
  definitionId : String
  purpose : Purpose
  plan : TestPlan
  selectionId : Option String
  reuse : Option Reuse
deriving DecidableEq

/-- `plan["value"].get("reuse", {}).get("sources", {})` -/
def PlanEntry.sources (p : PlanEntry) : Dict String ReuseProof :=
  match p.reuse with
  | none => Dict.empty
  | some reuse => reuse.sources

structure TestEntry where
  definitionId : String
  planId : String
  purpose : Purpose
  order : ℕ
  sample : PlannedTest
  role : Role
  taskId : String
  selectionId : Option String
  rerunOf : Option String
  rerunReason : Option String
deriving DecidableEq, Repr

/-! ## Assessments -/

/-- The net asset values an assessment found, if they are numbers. -/
structure NavDiagnostic where
  initialNav : Option Decimal
  terminalNav : Option Decimal
  formalScore : Bool
deriving DecidableEq

structure Assessment where
  testId : String
  rescoreOf : Option String
  valid : Bool
  reasons : List String
  formalReady : Bool
  navDiagnostic : Option NavDiagnostic
  sample : PlannedTest
  specificationHash : String
  runtimeConditionsHash : Option String
  packageHash : Option String
deriving DecidableEq

/-! ## Comparisons -/

inductive Decision
  | eligible
  | promoted
  | notImproved
  | unstable
  | inconclusive
  | tuningOnly
  | holdoutOnly
  | staleBaseline
  | selectionFrozen
deriving DecidableEq, Repr

inductive Reason
  | requiredSamplesInvalid
  | roleExcludedFromSelection
  | mixedDurationsRequireExplicitWeights
  | runtimeAcceptanceIncomplete
  | eligible
  | notImproved
  | unstable
  | selectionFrozen
  | selectionRevisionChanged
  | comparisonHasNoSelectionBinding
  | selectionThresholdsSatisfied
deriving DecidableEq, Repr

inductive InvalidReason
  | missingSample
  | sampleNotCompleted
  | sampleInvalid
deriving DecidableEq, Repr

/-- What one group of tasks comes to. The decimals show the fractions. -/
structure Summary where
  baselineMeanReturn : Decimal
  candidateMeanReturn : Decimal
  meanImprovement : Decimal
  worstPairedDifference : Decimal
  exact : ℚ × ℚ × ℚ × ℚ
  positiveRepeats : ℕ
  plannedRepeats : ℕ
  decision : Decision
  pairedDifferences : List Decimal
  pairedDifferencesExact : List ℚ
deriving DecidableEq

structure Group where
  taskIds : List String
  tradingDayCounts : List ℕ
  weights : List (String × Decimal)
  summary : Summary
deriving DecidableEq

/-- What `compare_returns` returns. -/
structure Reduction where
  role : Role
  plannedRepeats : ℕ
  seedSupport : SeedSupport
  invalidSamples : List (String × InvalidReason)
  decision : Decision
  reason : Reason
  groups : List Group
  summary : Option Summary
deriving DecidableEq

/-- A field of a public summary, as a reader finds it: not there, null, a
truth value, an integer, a number in another spelling, or anything else. -/
inductive Field
  | absent
  | null
  | bool (b : Bool)
  | int (z : ℤ)
  | number (d : Decimal)
  | other
deriving DecidableEq

structure PublicSummary where
  baselineMeanReturn : Field
  candidateMeanReturn : Field
  meanImprovement : Field
  worstPairedDifference : Field
  positiveRepeats : Field
  plannedRepeats : Field
  decision : Option Decision
deriving DecidableEq

structure Pair where
  planId : String
  baseline : String
  candidate : String
  testIds : List String
  definitionId : String
  specificationHash : String
  planHash : String
  packages : Dict String String
  previousComparison : Option String
  runtime : Option (RuntimeConditions × String)
  selection : Option (String × String)
  registrationFingerprint : String
deriving DecidableEq

def Pair.runtimeConditions (p : Pair) : Option RuntimeConditions := p.runtime.map Prod.fst

def Pair.runtimeFingerprint (p : Pair) : Option String := p.runtime.map Prod.snd

def Pair.selectionId (p : Pair) : Option String := p.selection.map Prod.fst

def Pair.selectionHash (p : Pair) : Option String := p.selection.map Prod.snd

structure SampleItem where
  testId : String
  status : Status
  assessment : Option (String × String)
deriving DecidableEq, Repr

structure ComparisonResult where
  planId : String
  comparisonId : String
  registrationFingerprint : String
  samples : List SampleItem
  result : Reduction
  decision : Decision
  formalReady : Bool
  promotionAuthorized : Bool
  selectionId : Option String
  runtimeFingerprint : Option String
  publicSummary : PublicSummary
deriving DecidableEq

/-! ## Selections -/

inductive SelectionOperation
  | initial
  | promote
  | finalize
deriving DecidableEq, Repr

/-- A revision of the selection: `selection_version == 1`. -/
structure Revised where
  operation : SelectionOperation
  definitionId : String
  initialBaselineId : String
  currentBaselineId : String
  initialPackageHash : String
  currentPackageHash : String
  previousSelectionId : Option String
  previousSelectionHash : Option String
deriving DecidableEq, Repr

/-- What one comparison led to: `selection_decision_version == 1`. -/
structure Decided where
  comparisonId : String
  expectedSelectionId : String
  submissionIdentity : String
  decision : Decision
  reason : Reason
  comparisonHash : String
  observedSelectionId : String
  observedSelectionHash : String
  formalReady : Bool
deriving DecidableEq, Repr

structure SelectionEntry where
  decided : Option Decided
  revised : Option Revised
deriving DecidableEq, Repr

/-! ## Scopes and exposures -/

structure Scope where
  role : Option Role
  taskId : Option String
  tradingDates : List Date
  specificationHash : Option String
deriving DecidableEq, Repr

/-- What an owner did with a record. -/
inductive Action
  | recordDetail
  | recordExport
  | artifact (contentHash : String)
  | events (after limit : ℕ)
deriving DecidableEq, Repr

structure Release where
  action : Action
  targetId : String
  targetHash : String
  scopes : List Scope
deriving DecidableEq, Repr

inductive Exposure
  | released (release : Release)
  | declared (periods : List (Date × Date)) (note : String)
deriving DecidableEq, Repr

/-- `service_control` records that stop a test, with the reason an owner
gave. -/
inductive Cancellation
  | cancel
  | cancelRequest (reason : String)
deriving DecidableEq, Repr

/-! ## Records -/

/-- What the record of an experiment holds. The rest of the platform's
records are values this part does not look into. -/
inductive Entry (X : Type)
  | definition (specification : ResolvedSpecification)
  | candidatePackage (package : CandidatePackage)
  | candidateProposal (proposal : CandidateProposal)
  | testPlan (plan : PlanEntry)
  | test (test : TestEntry)
  | evaluation (assessment : Assessment)
  | comparisonPlan (pair : Pair)
  | comparisonResult (result : ComparisonResult)
  | comparisonNote (completed : Bool) (publicSummary : PublicSummary)
  | selection (selection : SelectionEntry)
  | exposure (exposure : Exposure)
  | cancellation (testId : String) (cancellation : Cancellation)
  | sourceDocument (document : SourceDocument)
  | sourceExpiration (sourceId : String)
  | other (value : X)
deriving DecidableEq

/-- The digests of the platform, and the identities made from them. -/
structure Hashes (X : Type) where
  /-- `digest(value)`, of the value a record holds -/
  content : Body (Entry X) → String
  /-- `record_identity(experiment_id, kind, local_id)` -/
  identity : String → String → String → String
  /-- the identity `verify_specification` recomputes -/
  specification : ExperimentDraft → List ResolvedTask → String
  scope : Scope → String
  plan : TestPlan → String
  conditions : TaskComparisonConditions → String
  /-- `digest({"runtime": runtime, "packages": packages})` -/
  runtime : RuntimeConditions → Dict String String → String
  /-- `digest(value)`, of a frozen pair without its fingerprint -/
  registration : Pair → String

inductive Artifact (X : Type)
  | manifest (package : CandidatePackage)
  | document (value : Body (Entry X))
  | bytes
deriving DecidableEq

abbrev TrialDb (X P V : Type) := Db (Entry X) P V

abbrev TrialRecord (X : Type) := Record (Entry X)

abbrev TrialHost (X : Type) := Host (Artifact X)

/-- `verify_specification(sealed)` -/
def verifySpecification {X : Type} (g : Hashes X) (sealed : ResolvedSpecification) :
    Attempt ExperimentDraft := do
  refuse (g.specification sealed.effective sealed.tasks ≠ sealed.specificationHash)
    (invalidValue "resolved specification content hash mismatch")
  pure sealed.effective

/-! ## Typed records -/

section Typed

variable {X P V : Type}

def specification? (r : TrialRecord X) : Option ResolvedSpecification :=
  match r.kind, r.value with
  | .definition, .data (.definition s) => some s
  | _, _ => none

def proposal? (r : TrialRecord X) : Option CandidateProposal :=
  match r.kind, r.value with
  | .candidateProposal, .data (.candidateProposal p) => some p
  | _, _ => none

def plan? (r : TrialRecord X) : Option PlanEntry :=
  match r.kind, r.value with
  | .testPlan, .data (.testPlan p) => some p
  | _, _ => none

def test? (r : TrialRecord X) : Option TestEntry :=
  match r.kind, r.value with
  | .test, .data (.test t) => some t
  | _, _ => none

def assessment? (r : TrialRecord X) : Option Assessment :=
  match r.kind, r.value with
  | .evaluation, .data (.evaluation a) => some a
  | _, _ => none

def pair? (r : TrialRecord X) : Option Pair :=
  match r.kind, r.value with
  | .comparison, .data (.comparisonPlan p) => some p
  | _, _ => none

def result? (r : TrialRecord X) : Option ComparisonResult :=
  match r.kind, r.value with
  | .comparison, .data (.comparisonResult c) => some c
  | _, _ => none

def selection? (r : TrialRecord X) : Option SelectionEntry :=
  match r.kind, r.value with
  | .selection, .data (.selection s) => some s
  | _, _ => none

def revised? (r : TrialRecord X) : Option Revised := (selection? r).bind SelectionEntry.revised

def exposure? (r : TrialRecord X) : Option Exposure :=
  match r.kind, r.value with
  | .exposure, .data (.exposure e) => some e
  | _, _ => none

def typed {α : Type} (view : TrialRecord X → Option α) (experimentId : String)
    (db : TrialDb X P V) (recordId : String) : Attempt (TrialRecord X × α) := do
  let record ← db.read recordId
  let value ← need (view record) (conflict "record has the wrong kind or experiment")
  refuse (record.experimentId ≠ experimentId)
    (conflict "record has the wrong kind or experiment")
  pure (record, value)

def definitionSpecification (db : TrialDb X P V) (recordId : String) :
    Attempt (TrialRecord X × ResolvedSpecification) := do
  let record ← db.read recordId
  let sealed ← need (specification? record) ⟨.lookupError, "specification"⟩
  pure (record, sealed)

/-- `SELECT 1 FROM lagent_records WHERE record_id=?` -/
def hasRecord (db : TrialDb X P V) (recordId : String) : Prop :=
  ∃ r ∈ db.records, r.recordId = recordId

instance (db : TrialDb X P V) (recordId : String) : Decidable (hasRecord db recordId) :=
  inferInstanceAs (Decidable (∃ r ∈ db.records, r.recordId = recordId))

end Typed

end Ahunter.Trials
