import Ahunter.Trials.Contracts

/-!
# The comparison of two candidates

A comparison reduces the returns of one complete, predeclared pair: every
repeat of every task, once with the baseline and once with the candidate.
Returns and means are fractions; the decimals beside them are for display
and no decision reads them.
-/

namespace Ahunter.Trials

open Ahunter.Lib Ahunter.Records
open Ahunter.Sim (Date)

/-! ## Numbers -/

/-- `len(str(n))` -/
def digitCount (n : ℕ) : ℕ := (Nat.toDigits 10 n).length

def trimZeros : ℕ → ℕ → ℤ → ℕ × ℤ
  | 0, coefficient, exponent => (coefficient, exponent)
  | fuel + 1, coefficient, exponent =>
      if exponent < 0 ∧ coefficient % 10 = 0 then trimZeros fuel (coefficient / 10) (exponent + 1)
      else (coefficient, exponent)

/-- The nearest integer to `n / d`, ties to the even one. -/
def nearestEven (n d : ℕ) : ℕ :=
  let q := n / d
  let r := n % d
  if 2 * r < d then q else if d < 2 * r then q + 1 else if q % 2 = 0 then q else q + 1

def roundDigits (coefficient : ℕ) (exponent : ℤ) : ℕ × ℤ :=
  let excess := digitCount coefficient - 50
  let rounded := nearestEven coefficient (10 ^ excess)
  if digitCount rounded > 50 then (rounded / 10, exponent + excess + 1)
  else (rounded, exponent + excess)

/-- `Decimal(value.numerator) / Decimal(value.denominator)`, in a context of
50 digits -/
def render (value : ℚ) : Decimal :=
  let n := value.num.natAbs
  let d := value.den
  if n = 0 then ⟨false, 0, 0⟩
  else
    let shift : ℤ := digitCount d - digitCount n + 51
    let dividend := n * 10 ^ shift.toNat
    let divisor := d * 10 ^ (-shift).toNat
    let quotient := dividend / divisor
    let (coefficient, exponent) :=
      if dividend % divisor ≠ 0 then
        (if quotient % 5 = 0 then quotient + 1 else quotient, -shift)
      else trimZeros (digitCount quotient) quotient (-shift)
    let (coefficient, exponent) := roundDigits coefficient exponent
    ⟨value.num < 0, coefficient, exponent⟩

/-- `_number(value)` -/
def number (value : Option Decimal) : Attempt ℚ :=
  need (value.map Decimal.toRat)
    (invalidValue "evaluation numbers must be finite decimal strings or integers")

/-- `terminal_return(initial_nav, terminal_nav)` -/
def terminalReturn (initialNav terminalNav : Option Decimal) : Attempt ℚ := do
  let initial ← number initialNav
  let terminal ← number terminalNav
  refuse (initial ≤ 0) (invalidValue "initial NAV must be positive")
  pure (terminal / initial - 1)

/-! ## Samples -/

/-- What is known of one sample. -/
structure Outcome where
  status : Status
  valid : Bool
  initialNav : Option Decimal
  terminalNav : Option Decimal
deriving DecidableEq

def keyError (key : String) : Failure := ⟨.lookupError, key⟩

/-- Why a sample does not count, if it does not. -/
def invalidReason (outcome : Option Outcome) : Option InvalidReason :=
  match outcome with
  | none => some .missingSample
  | some o =>
      if o.status ≠ .completed then some .sampleNotCompleted
      else if o.valid = false then some .sampleInvalid
      else none

def invalidSamples (plan : TestPlan) (outcomes : Dict String Outcome) :
    List (String × InvalidReason) :=
  plan.tests.filterMap fun s =>
    (invalidReason (outcomes.get? s.testId)).map fun reason => (s.testId, reason)

def sampleReturn (outcomes : Dict String Outcome) (s : PlannedTest) :
    Attempt ((String × String × ℕ) × ℚ) := do
  let o ← need (outcomes.get? s.testId) (keyError s.testId)
  let value ← terminalReturn o.initialNav o.terminalNav
  pure (s.slot, value)

def sampleReturns (plan : TestPlan) (outcomes : Dict String Outcome) :
    Attempt (List ((String × String × ℕ) × ℚ)) :=
  gather (sampleReturn outcomes)
    (plan.tests.filter fun s => (invalidReason (outcomes.get? s.testId)).isNone)

/-! ## The pair -/

/-- `{t.task_id: t for t in spec.tasks}` -/
def taskMap (spec : ExperimentDraft) : Dict String Task :=
  Dict.ofList (spec.tasks.map fun t => (t.taskId, t))

/-- `{t.task_id: t.trading_dates for t in sealed.tasks}` -/
def taskDates (sealed : ResolvedSpecification) : Dict String (List Date) :=
  Dict.ofList (sealed.tasks.map fun t => (t.taskId, t.tradingDates))

/-- `{t.task_id: len(t.trading_dates) for t in sealed.tasks}` -/
def durations (sealed : ResolvedSpecification) : Dict String ℕ :=
  (taskDates sealed).map fun _ dates => dates.length

def TestPlan.taskIds (plan : TestPlan) : List String :=
  sortedSet (plan.tests.map PlannedTest.taskId)

def TestPlan.proposals (plan : TestPlan) : List String :=
  sortedSet (plan.tests.map PlannedTest.proposalId)

/-- `set(product(proposals, tasks, range(repeats)))` -/
def matrix (proposals tasks : List String) (repeats : ℕ) : List (String × String × ℕ) :=
  proposals.flatMap fun p => tasks.flatMap fun t => (List.range repeats).map fun i => (p, t, i)

def SameElements {α : Type} (l m : List α) : Prop := l ⊆ m ∧ m ⊆ l

instance {α : Type} [DecidableEq α] (l m : List α) : Decidable (SameElements l m) :=
  inferInstanceAs (Decidable (_ ∧ _))

/-- `range(0, len(plan.tests), width)`, as blocks -/
def blocks {α : Type} (width : ℕ) : ℕ → List α → List (List α)
  | 0, _ => []
  | _ + 1, [] => []
  | fuel + 1, l => l.take width :: blocks width fuel (l.drop width)

def Interleaved (proposals : List String) (block : List PlannedTest) : Prop :=
  (block.map fun s => (s.taskId, s.repeatIndex)).dedup.length = 1 ∧
    SameElements (block.map PlannedTest.proposalId) proposals

instance (proposals : List String) (block : List PlannedTest) :
    Decidable (Interleaved proposals block) := inferInstanceAs (Decidable (_ ∧ _))

/-- What `compare_returns` checks of a pair before it looks at outcomes: the
specification, and the one role its tasks have. -/
def checkPair {X : Type} (g : Hashes X) (sealed : ResolvedSpecification) (plan : TestPlan)
    (baseline candidate : String) : Attempt (ExperimentDraft × Role) := do
  let spec ← verifySpecification g sealed
  refuse (spec.evaluate.stabilityPolicyRef ≠ "paired_repeat_threshold_v1")
    (conflict "unsupported evaluation stability policy")
  refuse (¬ plan.Valid) (invalidValue "invalid test plan")
  refuse (plan.specificationHash ≠ sealed.specificationHash)
    (conflict "comparison plan specification mismatch")
  refuse (baseline = candidate ∨ ¬ SameElements plan.proposals [baseline, candidate])
    (conflict "comparison requires exactly its baseline and candidate")
  let tasks := plan.taskIds
  refuse (∃ t ∈ tasks, (taskMap spec).contains t = false)
    (conflict "comparison plan has unknown tasks")
  let roles := (tasks.filterMap fun t => ((taskMap spec).get? t).map Task.role).dedup
  refuse (roles.length ≠ 1) (conflict "comparison cannot mix task roles")
  let role ← need roles.head? (conflict "comparison cannot mix task roles")
  refuse (role = .selectionValidation ∧ ¬ SameElements tasks
      ((spec.tasks.filter fun t => t.role = role).map Task.taskId))
    (conflict "comparison omits a predeclared selection task")
  refuse (¬ SameElements (plan.tests.map PlannedTest.slot)
      (matrix [baseline, candidate] tasks spec.evaluate.repeats))
    (conflict "comparison requires the complete predeclared repeat matrix")
  refuse (∃ b ∈ blocks 2 plan.tests.length plan.tests, ¬ Interleaved [baseline, candidate] b)
    (conflict "comparison plan must interleave paired runs")
  pure (spec, role)

/-! ## The reduction -/

/-- `groups` -/
def taskGroups (spec : ExperimentDraft) (sealed : ResolvedSpecification) (plan : TestPlan) :
    List (List String) :=
  let tasks := plan.taskIds
  if spec.evaluate.allowMixedDurations = true then [tasks]
  else
    ((tasks.filterMap (durations sealed).get?).dedup.insertionSort (· ≤ ·)).map fun count =>
      tasks.filter fun t => (durations sealed).get? t = some count

def groupDecision (s : EvaluationSettings) (improvement worst : ℚ) (positives : ℕ) : Decision :=
  if improvement ≤ 0 ∨ improvement < s.minimumImprovement.toRat then .notImproved
  else if positives * s.positiveDenominator < s.repeats * s.positiveNumerator
      ∨ worst < s.worstRepeatRegression.toRat then .unstable
  else .eligible

def repeatReturn (weights : List (String × Decimal))
    (values : List ((String × String × ℕ) × ℚ)) (name : String) (index : ℕ) : Attempt ℚ := do
  let terms ← gather (fun w => do
    let value ← need (values.lookup (name, w.1, index)) (keyError w.1)
    pure (w.2.toRat * value)) weights
  pure (terms.sum / (weights.map fun w => w.2.toRat).sum)

def groupWeights (spec : ExperimentDraft) (group : List String) :
    Attempt (List (String × Decimal)) :=
  gather (fun t => do
    let task ← need ((taskMap spec).get? t) (keyError t)
    pure (t, task.weight)) group

/-- What a group of tasks comes to, from the returns of its samples. -/
def summarize (s : EvaluationSettings) (weights : List (String × Decimal))
    (values : List ((String × String × ℕ) × ℚ)) (baseline candidate : String) :
    Attempt Summary := do
  let old ← gather (repeatReturn weights values baseline) (List.range s.repeats)
  let new ← gather (repeatReturn weights values candidate) (List.range s.repeats)
  let differences := List.zipWith (fun b c => c - b) old new
  let oldMean := old.sum / s.repeats
  let newMean := new.sum / s.repeats
  let improvement := newMean - oldMean
  let worst ← need differences.min? (invalidValue "min() arg is an empty sequence")
  let positives := differences.countP fun d => 0 < d
  pure {
    baselineMeanReturn := render oldMean
    candidateMeanReturn := render newMean
    meanImprovement := render improvement
    worstPairedDifference := render worst
    exact := (oldMean, newMean, improvement, worst)
    positiveRepeats := positives
    plannedRepeats := s.repeats
    decision := groupDecision s improvement worst positives
    pairedDifferences := differences.map render
    pairedDifferencesExact := differences }

def reduceGroup (spec : ExperimentDraft) (sealed : ResolvedSpecification)
    (values : List ((String × String × ℕ) × ℚ)) (baseline candidate : String)
    (group : List String) : Attempt Group := do
  let weights ← groupWeights spec group
  let summary ← summarize spec.evaluate weights values baseline candidate
  pure {
    taskIds := group
    tradingDayCounts := (group.filterMap (durations sealed).get?).dedup.insertionSort (· ≤ ·)
    weights := weights
    summary := summary }

def conclude (role : Role) (groups : List Group) : Decision × Reason × Option Summary :=
  match role, groups with
  | .tuning, [only] => (.tuningOnly, .roleExcludedFromSelection, some only.summary)
  | .tuning, _ => (.tuningOnly, .roleExcludedFromSelection, none)
  | .finalHoldout, [only] => (.holdoutOnly, .roleExcludedFromSelection, some only.summary)
  | .finalHoldout, _ => (.holdoutOnly, .roleExcludedFromSelection, none)
  | .selectionValidation, [only] =>
      let reason := match only.summary.decision with
        | .notImproved => .notImproved
        | .unstable => .unstable
        | _ => .eligible
      (only.summary.decision, reason, some only.summary)
  | .selectionValidation, _ => (.inconclusive, .mixedDurationsRequireExplicitWeights, none)

/-- `compare_returns(specification, plan, outcomes, baseline=…, candidate=…)` -/
def compareReturns {X : Type} (g : Hashes X) (sealed : ResolvedSpecification) (plan : TestPlan)
    (outcomes : Dict String Outcome) (baseline candidate : String) : Attempt Reduction := do
  let (spec, role) ← checkPair g sealed plan baseline candidate
  refuse (¬ outcomes.keys ⊆ plan.tests.map PlannedTest.testId)
    (conflict "unplanned samples cannot replace original comparison samples")
  let values ← sampleReturns plan outcomes
  let invalid := invalidSamples plan outcomes
  let result (decision : Decision) (reason : Reason) (groups : List Group)
      (summary : Option Summary) : Reduction := {
    role := role
    plannedRepeats := spec.evaluate.repeats
    seedSupport := plan.seedSupport
    invalidSamples := invalid
    decision := decision
    reason := reason
    groups := groups
    summary := summary }
  if invalid ≠ [] then
    pure (result .inconclusive .requiredSamplesInvalid [] none)
  else do
    refuse (∃ t ∈ plan.taskIds, (durations sealed).contains t = false) (keyError "task_id")
    let groups ← gather (reduceGroup spec sealed values baseline candidate)
      (taskGroups spec sealed plan)
    let (decision, reason, summary) := conclude role groups
    pure (result decision reason groups summary)

/-! ## Conditions -/

/-- `_runtime_conditions(records, definition, plan, supplied)` -/
def runtimeConditions {X A : Type} (g : Hashes X) (host : Host A)
    (sealed : ResolvedSpecification) (plan : TestPlan)
    (supplied : Dict String TaskComparisonConditions) :
    Attempt (RuntimeConditions × List String) := do
  refuse (¬ SameElements supplied.keys (plan.tests.map PlannedTest.taskId))
    (conflict "runtime conditions must cover the exact predeclared tasks")
  let artifacts := supplied.values.flatMap TaskComparisonConditions.hashes
  walk (fun _ h => host.readJson h >>= fun _ => pure ()) () artifacts
  pure (⟨sealed.specificationHash, g.plan plan, supplied⟩, artifacts)

/-- `assessment_matches_conditions(assessment, planned, …)` -/
def MatchesConditions {X : Type} (g : Hashes X) (a : Assessment) (planned : PlannedTest)
    (specificationHash : String) (conditions : TaskComparisonConditions)
    (packageHash : String) : Prop :=
  a.formalReady = true ∧ a.valid = true ∧ a.reasons = []
    ∧ (∃ nav ∈ a.navDiagnostic, nav.formalScore = true) ∧ a.sample = planned
    ∧ a.specificationHash = specificationHash
    ∧ a.runtimeConditionsHash = some (g.conditions conditions)
    ∧ a.packageHash = some packageHash

instance {X : Type} (g : Hashes X) (a : Assessment) (planned : PlannedTest)
    (specificationHash : String) (conditions : TaskComparisonConditions)
    (packageHash : String) :
    Decidable (MatchesConditions g a planned specificationHash conditions packageHash) :=
  inferInstanceAs (Decidable (_ ∧ _))

end Ahunter.Trials
