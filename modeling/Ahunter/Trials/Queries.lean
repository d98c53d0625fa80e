import Ahunter.Trials.Comparisons

/-!
# What may be read

A record shows the tasks of its scopes: its own, when it is a registration,
and otherwise those of the records it is about. What shows a task that is
not for tuning is hidden. An optimizer does not get it at all; an owner gets
it after the store has recorded that it was released. A completed comparison
gives an optimizer a fixed list of numbers and a decision.
-/

namespace Ahunter.Trials

open Ahunter.Lib Ahunter.Records
open Ahunter.Sim (Date)

variable {X P V A : Type}

inductive Viewer
  | owner
  | optimizer
deriving DecidableEq, Repr

def denied (message : String) : Failure := ⟨.integrityError, message⟩

/-! ## Scopes -/

def inheritedRelations : List String :=
  ["test", "plan", "target", "source", "evaluation", "comparison", "rescore_of", "rerun_of"]

def unknownScope : Scope := ⟨none, none, [], none⟩

def taskScopes (g : Hashes X) (sealed : ResolvedSpecification)
    (selected : ExperimentDraft → List String) : Attempt (List Scope) := do
  let spec ← verifySpecification g sealed
  refuse (¬ selected spec ⊆ spec.tasks.map Task.taskId)
    (conflict "record references unknown task scope")
  gather (fun t : Task => do
    let dates ← need ((taskDates sealed).get? t.taskId) (keyError t.taskId)
    pure ⟨some t.role, some t.taskId, dates, some sealed.specificationHash⟩)
    (spec.tasks.filter fun t => (selected spec).contains t.taskId)

def boundScopes (g : Hashes X) (db : TrialDb X P V) (record : TrialRecord X)
    (definitionId : String) (selected : List String) : Attempt (List Scope) := do
  let e := conflict "invalid record definition scope"
  let definition ← db.read definitionId
  let sealed ← need (specification? definition) e
  refuse (definition.experimentId ≠ record.experimentId) e
  taskScopes g sealed fun _ => selected

def ownScopes (g : Hashes X) (db : TrialDb X P V) (record : TrialRecord X) :
    Option (Attempt (List Scope)) :=
  match record.kind, record.value with
  | .candidatePackage, .data (.candidatePackage _) => some (pure [])
  | .candidateProposal, .data (.candidateProposal _) => some (pure [])
  | .definition, .data (.definition sealed) =>
      some (taskScopes g sealed fun spec => spec.tasks.map Task.taskId)
  | .testPlan, .data (.testPlan plan) =>
      some (boundScopes g db record plan.definitionId (plan.plan.tests.map PlannedTest.taskId))
  | .test, .data (.test test) => some (boundScopes g db record test.definitionId [test.taskId])
  | _, _ => none

def inheritedFrom (record : TrialRecord X) : List String :=
  (record.links.filter fun l => inheritedRelations.contains l.relation).map Link.targetId

/-- `tuple(inherited[key] for key in sorted(inherited))`, or the unknown
scope when nothing is inherited. -/
def mergeScopes (g : Hashes X) (scopes : List Scope) : List Scope :=
  if scopes = [] then [unknownScope]
  else (Dict.ofList (scopes.map fun s => (g.scope s, s))).values

/-- `queries.scopes(record_id, _seen)`. Every record on the way is in the
store and none is there twice, so the records bound the depth. -/
def scopesFrom (g : Hashes X) (db : TrialDb X P V) : ℕ → List String → String →
    Attempt (List Scope)
  | 0, _, _ => .error (conflict "cyclic experiment record scope")
  | fuel + 1, seen, recordId => do
      refuse (recordId ∈ seen) (conflict "cyclic experiment record scope")
      let record ← db.read recordId
      match ownScopes g db record with
      | some own => own
      | none => do
          let inherited ← gather (scopesFrom g db fuel (recordId :: seen))
            (inheritedFrom record)
          pure (mergeScopes g inherited.flatten)

/-- `queries.scopes(record_id)` -/
def scopes (g : Hashes X) (db : TrialDb X P V) (recordId : String) : Attempt (List Scope) :=
  scopesFrom g db (db.records.length + 1) [] recordId

/-- `any(scope["role"] != "tuning" for scope in scopes)` -/
def hidden (scopes : List Scope) : Bool := scopes.any fun s => s.role != some .tuning

/-! ## Feedback -/

/-- `require_comparison_scope(record_id)` -/
def requireComparisonScope (g : Hashes X) (db : TrialDb X P V) (recordId : String) :
    Attempt (TrialRecord X) := do
  let record ← db.read recordId
  refuse (record.kind ≠ .comparison)
    (denied "only completed comparisons expose selection feedback")
  let scopes ← scopes g db recordId
  refuse (scopes = [] ∨ ∃ s ∈ scopes, s.role ∉ [some .tuning, some .selectionValidation])
    (denied "final holdout or unknown scope cannot become optimizer feedback")
  pure record

def feedbackDecisions : List Decision :=
  [.eligible, .promoted, .notImproved, .unstable, .inconclusive, .tuningOnly, .staleBaseline]

def Field.decimal? : Field → Option Decimal
  | .int z => some ⟨z < 0, z.natAbs, 0⟩
  | .number d => some d
  | _ => none

def numberField (decision : Decision) (raw : Field) : Attempt (Option Decimal) :=
  if raw = .null ∧ decision = .inconclusive then pure none
  else do
    let d ← need raw.decimal? (denied "comparison feedback has invalid numeric fields")
    pure (some d)

def Field.count? : Field → Option ℕ
  | .int z => if 0 ≤ z then some z.toNat else none
  | _ => none

structure Feedback where
  recordId : String
  baselineMeanReturn : Option Decimal
  candidateMeanReturn : Option Decimal
  meanImprovement : Option Decimal
  worstPairedDifference : Option Decimal
  positiveRepeats : Option ℕ
  plannedRepeats : ℕ
  decision : Decision
deriving DecidableEq

def positiveField (decision : Decision) (raw : Field) : Attempt (Option ℕ) :=
  if raw = .null ∧ decision = .inconclusive then pure none
  else do
    let n ← need raw.count? (denied "comparison feedback has invalid repeat counts")
    pure (some n)

def completedSummary (record : TrialRecord X) : Attempt PublicSummary :=
  match record.kind, record.value with
  | .comparison, .data (.comparisonResult c) => pure c.publicSummary
  | .comparison, .data (.comparisonNote true summary) => pure summary
  | _, _ => .error (denied "comparison feedback is unavailable before completion")

def parseSummary (recordId : String) (summary : PublicSummary) : Attempt Feedback := do
  let e := denied "comparison feedback has an invalid decision"
  let decision ← need summary.decision e
  refuse (decision ∉ feedbackDecisions) e
  let baseline ← numberField decision summary.baselineMeanReturn
  let candidate ← numberField decision summary.candidateMeanReturn
  let improvement ← numberField decision summary.meanImprovement
  let worst ← numberField decision summary.worstPairedDifference
  let positive ← positiveField decision summary.positiveRepeats
  let planned ← need summary.plannedRepeats.count?
    (denied "comparison feedback has invalid repeat counts")
  refuse (planned = 0 ∨ ∃ n ∈ positive, planned < n)
    (denied "comparison feedback has inconsistent repeat counts")
  pure ⟨recordId, baseline, candidate, improvement, worst, positive, planned, decision⟩

/-- `queries.comparison_feedback(record_id)` -/
def comparisonFeedback (g : Hashes X) (db : TrialDb X P V) (recordId : String) :
    Attempt Feedback := do
  let record ← requireComparisonScope g db recordId
  let summary ← completedSummary record
  parseSummary recordId summary

end Ahunter.Trials
