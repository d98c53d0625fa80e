import Ahunter.Trials.Views

/-!
# The evolution tree

Paged views of the history of an experiment: its proposals, the tests and
the comparisons of one of them, and its selection. A cursor carries how far
the records and the events go, so that later pages do not combine an old set
of candidates with newer tests, results or baselines. What an instance keeps
of the definitions it has read is not here, since a definition does not
change.
-/

namespace Ahunter.Trials

open Ahunter.Lib Ahunter.Records
open Ahunter.Sim (Instant)

variable {X P V : Type}

/-! ## Snapshots -/

inductive EvolutionView
  | tree
  | tests
  | comparisons
  | selection
deriving DecidableEq, Repr

def EvolutionView.kind : EvolutionView → RecordKind
  | .tree => .candidateProposal
  | .tests => .test
  | .comparisons => .comparison
  | .selection => .selection

/-- How far a listing has come, and how far it goes. -/
structure Bound where
  experimentId : String
  view : EvolutionView
  proposalId : Option String
  after : ℕ
  recordsThrough : ℕ
  eventsThrough : ℕ
deriving DecidableEq, Repr

/-- `_bounds(experiment, view, proposal, cursor)` -/
def bounds (db : TrialDb X P V) (experimentId : String) (view : EvolutionView)
    (proposalId : Option String) (cursor : Option Bound) : Attempt Bound := do
  let records := (db.records.map Record.sequence).foldr max 0
  let events := (db.events.map Event.sequence).foldr max 0
  match cursor with
  | none => pure ⟨experimentId, view, proposalId, 0, records, events⟩
  | some c => do
      refuse (c.experimentId ≠ experimentId ∨ c.view ≠ view ∨ c.proposalId ≠ proposalId
          ∨ ¬ (c.after ≤ c.recordsThrough ∧ c.recordsThrough ≤ records)
          ∨ ¬ c.eventsThrough ≤ events)
        (invalidValue "invalid or mismatched evolution cursor")
      pure c

structure RecordIdentity where
  recordId : String
  contentHash : String
  sequence : ℕ
  createdAt : Instant
deriving DecidableEq, Repr

/-- `identity(record)` -/
def identityOf (g : Hashes X) (r : TrialRecord X) : RecordIdentity :=
  ⟨r.recordId, g.content r.value, r.sequence, r.createdAt⟩

/-! ## Candidates -/

/-- `queries._candidate_proposal(experiment_id, record_id)` -/
def candidateProposal (db : TrialDb X P V) (experimentId recordId : String) :
    Attempt (TrialRecord X × CandidateProposal) := do
  let e := conflict "candidate query requires a typed proposal in this experiment"
  let record ← db.read recordId
  refuse (record.experimentId ≠ experimentId) e
  let proposal ← need (proposal? record) e
  pure (record, proposal)

def lineage (g : Hashes X) (db : TrialDb X P V) (experimentId : String) (record : TrialRecord X)
    (proposal : CandidateProposal) : Attempt (List Link × Option String) := do
  let package : Link := ⟨"package", g.identity experimentId "package" proposal.packageHash⟩
  match proposal.parentProposalId with
  | none | some "" => pure ([package], none)
  | some name => do
      let parent := g.identity experimentId "candidate" name
      let (ancestor, _) ← candidateProposal db experimentId parent
      refuse (record.sequence ≤ ancestor.sequence)
        (conflict "proposal parent must precede its child")
      pure ([package, ⟨"parent", parent⟩], some parent)

/-- `_candidate(experiment, record_id, ceiling)` -/
def boundCandidate (g : Hashes X) (db : TrialDb X P V) (experimentId recordId : String)
    (ceiling : ℕ) : Attempt (TrialRecord X × CandidateProposal × Option String) := do
  let (record, proposal) ← candidateProposal db experimentId recordId
  refuse (ceiling < record.sequence) ⟨.missing, "proposal is outside this tree snapshot"⟩
  refuse (g.identity experimentId "candidate" proposal.proposalId ≠ recordId)
    (conflict "proposal identity differs from its local name")
  let (expected, parent) ← lineage g db experimentId record proposal
  refuse (record.links ≠ expected)
    (conflict "proposal lineage links differ from its declared parent")
  pure (record, proposal, parent)

/-! ## Tests -/

def statusEvent (testId : String) (eventsThrough : ℕ) (e : Event P V) : Bool :=
  e.testId == testId && decide (e.sequence ≤ eventsThrough)
    && e.updates.any fun u => u.name == "status"

/-- `_status(test_id, events_through)` -/
def statusThrough (db : TrialDb X P V) (testId : String) (eventsThrough : ℕ) :
    Attempt Status :=
  match ((db.events.filter (statusEvent testId eventsThrough)).map Event.sequence).max? with
  | none => pure .created
  | some sequence => do
      let e := conflict "invalid original Test status event"
      let event ← db.event sequence
      match event.updates.filter fun u => u.name == "status" with
      | [⟨_, _, .status s _⟩] => do
          refuse (event.testId ≠ testId) e
          pure s
      | _ => .error e

structure TestLine where
  identity : RecordIdentity
  planId : String
  definitionId : String
  proposalId : String
  taskId : String
  role : Role
  purpose : Purpose
  repeatId : String
  repeatIndex : ℕ
  rerunOf : Option String
  eligibleForOriginalComparison : Bool
  status : Status
  detailHidden : Bool
deriving DecidableEq, Repr

/-- `self._definitions[definition_id]` -/
def definitionScopes (g : Hashes X) (db : TrialDb X P V) (experimentId definitionId : String) :
    Attempt (Dict String Scope) := do
  let definition ← db.read definitionId
  refuse (definition.experimentId ≠ experimentId ∨ definition.kind ≠ .definition)
    (conflict "Test definition scope differs from its experiment")
  let found ← scopes g db definitionId
  pure (Dict.ofList (found.map fun s => (s.taskId.getD "", s)))

/-- `_test(experiment, record, candidate, bound)` -/
def testLine (g : Hashes X) (db : TrialDb X P V) (experimentId : String)
    (record : TrialRecord X) (candidateId : String) (eventsThrough : ℕ) : Attempt TestLine := do
  let e := conflict "Test is not bound to its original proposal"
  let test ← need (test? record) e
  refuse (record.experimentId ≠ experimentId
    ∨ g.identity experimentId "candidate" test.sample.proposalId ≠ candidateId
    ∨ ⟨"candidate", candidateId⟩ ∉ record.links) e
  let scopes ← definitionScopes g db experimentId test.definitionId
  let e := conflict "Test task scope differs from its definition"
  let scope ← need (scopes.get? test.taskId) e
  refuse (scope.role ≠ some test.role) e
  let status ← statusThrough db record.recordId eventsThrough
  pure {
    identity := identityOf g record
    planId := test.planId
    definitionId := test.definitionId
    proposalId := test.sample.proposalId
    taskId := test.taskId
    role := test.role
    purpose := test.purpose
    repeatId := test.sample.repeatId
    repeatIndex := test.sample.repeatIndex
    rerunOf := test.rerunOf
    eligibleForOriginalComparison := test.rerunOf = none ∨ test.rerunOf = some ""
    status := status
    detailHidden := test.role ≠ .tuning }

/-! ## Selections -/

structure SelectionLine where
  identity : RecordIdentity
  decided : Option (String × Decision × Reason × String)
  operation : Option SelectionOperation
  definitionId : Option String
  initialBaselineId : Option String
  currentBaselineId : Option String
  previousSelectionId : Option String
deriving DecidableEq, Repr

/-- `DECISIONS` -/
def historyDecisions : List Decision :=
  [.promoted, .selectionFrozen, .staleBaseline, .inconclusive, .tuningOnly, .notImproved,
    .unstable]

def decidedLine (g : Hashes X) (db : TrialDb X P V) :
    Option Decided → Attempt (Option (String × Decision × Reason × String))
  | none => pure none
  | some d => do
      let _ ← comparisonFeedback g db d.comparisonId
      refuse (d.decision ∉ historyDecisions) (conflict "unknown selection decision metadata")
      pure (some (d.comparisonId, d.decision, d.reason, d.observedSelectionId))

/-- `_selection(experiment, record)`; a record without an operation retains. -/
def selectionLine (g : Hashes X) (db : TrialDb X P V) (experimentId : String)
    (record : TrialRecord X) : Attempt SelectionLine := do
  refuse (record.experimentId ≠ experimentId ∨ record.kind ≠ .selection)
    (conflict "selection history scope mismatch")
  let e := conflict "selection history requires a typed original decision"
  let entry ← need (selection? record) e
  let decided ← decidedLine g db entry.decided
  refuse (entry.decided = none ∧ entry.revised = none) e
  pure {
    identity := identityOf g record
    decided := decided
    operation := entry.revised.map Revised.operation
    definitionId := entry.revised.map Revised.definitionId
    initialBaselineId := entry.revised.map Revised.initialBaselineId
    currentBaselineId := entry.revised.map Revised.currentBaselineId
    previousSelectionId := entry.revised.bind Revised.previousSelectionId }

/-! ## Comparisons -/

structure ComparisonLine where
  identity : RecordIdentity
  planId : String
  baseline : String
  candidate : String
  baselineRecordId : String
  candidateRecordId : String
  selectionId : Option String
  result : Option (String × Feedback)
deriving DecidableEq

def resultWithin (g : Hashes X) (db : TrialDb X P V) (experimentId : String)
    (record : TrialRecord X) (pair : Pair) (recordsThrough : ℕ) :
    Attempt (Option (String × Feedback)) := do
  let resultId := g.identity experimentId "comparison-result" record.recordId
  match db.records.find? fun r => r.recordId = resultId ∧ r.sequence ≤ recordsThrough with
  | none => pure none
  | some _ => do
      let e := conflict "comparison result differs from its original pair"
      let completed ← db.read resultId
      let c ← need (result? completed) e
      refuse (completed.experimentId ≠ experimentId ∨ c.comparisonId ≠ record.recordId
        ∨ c.planId ≠ pair.planId) e
      let feedback ← comparisonFeedback g db resultId
      pure (some (resultId, feedback))

/-- `_comparison(experiment, record, bound)`; the status of a pair is
`completed` when it has a result. -/
def comparisonLine (g : Hashes X) (db : TrialDb X P V) (experimentId : String)
    (record : TrialRecord X) (recordsThrough : ℕ) : Attempt ComparisonLine := do
  let pair ← need (pair? record)
    (conflict "comparison history requires an original frozen pair")
  let _ ← requireComparisonScope g db record.recordId
  let participants := [pair.baseline, pair.candidate].map (g.identity experimentId "candidate")
  refuse (¬ SameElements ((record.links.filter fun l => l.relation = "candidate").map
      Link.targetId) participants)
    (conflict "comparison opponents differ from its original candidate links")
  let result ← resultWithin g db experimentId record pair recordsThrough
  pure {
    identity := identityOf g record
    planId := pair.planId
    baseline := pair.baseline
    candidate := pair.candidate
    baselineRecordId := g.identity experimentId "candidate" pair.baseline
    candidateRecordId := g.identity experimentId "candidate" pair.candidate
    selectionId := pair.selectionId
    result := result }

/-! ## Proposals -/

structure TreeLine where
  identity : RecordIdentity
  proposal : CandidateProposal
  parentRecordId : Option String
  testCount : ℕ
  testStatusCounts : List (Status × ℕ)
  taskRoleCounts : List (Role × ℕ)
  initialBaseline : Bool
  currentBaseline : Bool
deriving DecidableEq, Repr

def sortedStatuses : List Status :=
  [.blocked, .cancelled, .completed, .created, .evaluating, .failed, .preflight, .queued, .running]

def sortedRoles : List Role := [.finalHoldout, .selectionValidation, .tuning]

/-- `dict(sorted(Counter(…).items()))` -/
def counts {α : Type} [DecidableEq α] (order found : List α) : List (α × ℕ) :=
  (order.map fun a => (a, found.count a)).filter fun c => c.2 ≠ 0

def recordsWithin (db : TrialDb X P V) (experimentId : String) (kind : RecordKind)
    (recordsThrough : ℕ) (candidateId : Option String) : List (TrialRecord X) :=
  db.records.filter fun r => r.experimentId = experimentId ∧ r.kind = kind
    ∧ r.sequence ≤ recordsThrough ∧ ∀ id ∈ candidateId, ⟨"candidate", id⟩ ∈ r.links

def treeLine (g : Hashes X) (db : TrialDb X P V) (experimentId recordId : String)
    (bound : Bound) (selection : Option SelectionLine) : Attempt TreeLine := do
  let (record, proposal, parent) ← boundCandidate g db experimentId recordId bound.recordsThrough
  let tests ← gather (fun r => do
      let test ← db.read r.recordId
      testLine g db experimentId test recordId bound.eventsThrough)
    (recordsWithin db experimentId .test bound.recordsThrough (some recordId))
  pure {
    identity := identityOf g record
    proposal := proposal
    parentRecordId := parent
    testCount := tests.length
    testStatusCounts := counts sortedStatuses (tests.map TestLine.status)
    taskRoleCounts := counts sortedRoles (tests.map TestLine.role)
    initialBaseline := (selection.bind SelectionLine.initialBaselineId) = some recordId
    currentBaseline := (selection.bind SelectionLine.currentBaselineId) = some recordId }

/-! ## Pages -/

inductive EvolutionLine
  | tree (line : TreeLine)
  | test (line : TestLine)
  | comparison (line : ComparisonLine)
  | selection (line : SelectionLine)
deriving DecidableEq

def viewRows (db : TrialDb X P V) (experimentId : String) (view : EvolutionView)
    (recordsThrough : ℕ) (candidateId : Option String) : List (TrialRecord X) :=
  (recordsWithin db experimentId view.kind recordsThrough candidateId).filter fun r =>
    view ≠ .comparisons ∨ (pair? r).isSome = true

/-- `SELECT … ORDER BY record_sequence DESC LIMIT 1`, the last revision -/
def selectionWithin (db : TrialDb X P V) (experimentId : String) (recordsThrough : ℕ) :
    Option (TrialRecord X) :=
  (db.records.filter fun r => r.experimentId = experimentId ∧ (revised? r).isSome = true
    ∧ r.sequence ≤ recordsThrough).getLast?

def viewLine (g : Hashes X) (db : TrialDb X P V) (experimentId : String)
    (candidateId : Option String) (bound : Bound) (selection : Option SelectionLine)
    (row : TrialRecord X) : Attempt EvolutionLine := do
  let record ← db.read row.recordId
  match bound.view with
  | .tree => .tree <$> treeLine g db experimentId row.recordId bound selection
  | .tests => .test <$> testLine g db experimentId record (candidateId.getD "") bound.eventsThrough
  | .comparisons => .comparison <$> comparisonLine g db experimentId record bound.recordsThrough
  | .selection => .selection <$> selectionLine g db experimentId record

structure EvolutionPage where
  items : List EvolutionLine
  total : ℕ
  nextCursor : Option Bound
  selection : Option SelectionLine
  recordsThrough : ℕ
  eventsThrough : ℕ
deriving DecidableEq

def currentLine (g : Hashes X) (db : TrialDb X P V) (experimentId : String)
    (recordsThrough : ℕ) : Attempt (Option SelectionLine) :=
  match selectionWithin db experimentId recordsThrough with
  | none => pure none
  | some row => do
      let record ← db.read row.recordId
      some <$> selectionLine g db experimentId record

def viewCandidate (g : Hashes X) (db : TrialDb X P V) (experimentId : String)
    (proposalId : Option String) (recordsThrough : ℕ) : Attempt (Option String) :=
  match proposalId with
  | none => pure none
  | some name => do
      let candidateId := g.identity experimentId "candidate" name
      let _ ← boundCandidate g db experimentId candidateId recordsThrough
      pure (some candidateId)

/-- `EvolutionTree.page(experiment_id=…, view=…, limit=…, proposal_id=…, cursor=…)` -/
def evolutionPage (g : Hashes X) (db : TrialDb X P V) (experimentId : String)
    (view : EvolutionView) (limit : ℕ) (proposalId : Option String) (cursor : Option Bound) :
    Attempt EvolutionPage := do
  refuse (¬ (1 ≤ limit ∧ limit ≤ 200)) (invalidValue "invalid evolution view or limit")
  refuse (¬ (view ∈ [.tests, .comparisons] ↔ proposalId ≠ none))
    (invalidValue "node views require one proposal")
  let bound ← bounds db experimentId view proposalId cursor
  let candidateId ← viewCandidate g db experimentId proposalId bound.recordsThrough
  let all := viewRows db experimentId view bound.recordsThrough candidateId
  let rows := (all.filter fun r => bound.after < r.sequence).take (limit + 1)
  let selection ← currentLine g db experimentId bound.recordsThrough
  let items ← gather (viewLine g db experimentId candidateId bound selection) (rows.take limit)
  pure {
    items := items
    total := all.length
    nextCursor := if rows.length > limit then
      (rows[limit - 1]?).map fun r => { bound with after := r.sequence } else none
    selection := selection
    recordsThrough := bound.recordsThrough
    eventsThrough := bound.eventsThrough }

end Ahunter.Trials
