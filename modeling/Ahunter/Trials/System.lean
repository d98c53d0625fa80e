import Ahunter.Trials.Promotion
import Ahunter.Trials.Views

/-!
# Runs of the experiment store

Whatever happens to the store is one of these calls, by anyone and in any
order. Each has its own view of the world outside: the clock, the artifacts
it finds and where it fails. Assessments and the other facts about the runs
of tests come from hosts of their own; what is asked of them is what their
links say they are about.
-/

namespace Ahunter.Trials

open Ahunter.Lib Ahunter.Records
open Ahunter.Sim (Date Instant)

variable {X P V : Type}

/-! ## Facts about tests -/

def factKinds : List RecordKind :=
  [.phase, .invocation, .cost, .ledger, .correction, .preflight, .dataBundle, .bundleImport,
    .query, .searchRequest, .searchResponse, .snapshot, .valuation, .replayProgram,
    .serviceInput]

structure FactRequest (p : Prepared (Entry X)) : Prop where
  kind : p.kind ∈ factKinds
  value : ∃ x, p.value = .data (.other x)

def AssessmentLink (db : TrialDb X P V) (a : Assessment) (l : Link) : Prop :=
  l = ⟨"test", a.testId⟩ ∨
    (l.relation = "rescore_of" ∧ ∃ r ∈ db.records, r.recordId = l.targetId ∧
      ∃ b ∈ assessment? r, b.testId = a.testId) ∨
    (l.relation = "source" ∧ ∃ r ∈ db.records, r.recordId = l.targetId ∧ r.kind ∈ factKinds ∧
      r.links = [⟨"test", a.testId⟩])

structure AssessmentRequest (db : TrialDb X P V) (p : Prepared (Entry X)) (a : Assessment) :
    Prop where
  kind : p.kind = .evaluation
  value : p.value = .data (.evaluation a)
  test : ∃ r ∈ db.records, r.recordId = a.testId ∧ (test? r).isSome
  linked : ⟨"test", a.testId⟩ ∈ p.links
  links : ∀ l ∈ p.links, AssessmentLink db a l

def cancellationRequest (g : Hashes X) (experimentId testId submissionIdentity : String)
    (c : Cancellation) : Prepared (Entry X) where
  experimentId := experimentId
  kind := .serviceControl
  recordId := g.identity experimentId "cancel-request" submissionIdentity
  submissionIdentity := "cancel-request:" ++ submissionIdentity
  value := .data (.cancellation testId c)
  links := [⟨"test", testId⟩]
  artifactHashes := []
  sourcePolicyHashes := []

def sourceRequest (g : Hashes X) (experimentId testId submissionIdentity : String)
    (document : SourceDocument) : Prepared (Entry X) where
  experimentId := experimentId
  kind := .sourceDocument
  recordId := g.identity experimentId "source" document.sourceId
  submissionIdentity := submissionIdentity
  value := .data (.sourceDocument document)
  links := [⟨"test", testId⟩]
  artifactHashes := []
  sourcePolicyHashes := [document.contentHash]

def expirationRequest (g : Hashes X) (experimentId recordId submissionIdentity : String) :
    Prepared (Entry X) where
  experimentId := experimentId
  kind := .sourceExpiration
  recordId := g.identity experimentId "expiry" submissionIdentity
  submissionIdentity := submissionIdentity
  value := .data (.sourceExpiration recordId)
  links := [⟨"source", recordId⟩]
  artifactHashes := []
  sourcePolicyHashes := []

/-! ## Steps -/

section Steps

variable [DecidableEq X] [DecidableEq P] [DecidableEq V]

/-- One call on the store. -/
inductive Step (g : Hashes X) : TrialDb X P V → TrialDb X P V → Prop
  | definition (db) (host : TrialHost X) (experimentId sealed submissionIdentity) :
      Step g db (definition g host experimentId sealed submissionIdentity db).2
  | candidate (db) (host : TrialHost X) (experimentId proposal submissionIdentity) :
      Step g db (candidate g host experimentId proposal submissionIdentity db).2
  | testPlan (db) (host : TrialHost X) (experimentId definitionId plan submissionIdentity purpose
      selectionId) :
      Step g db (testPlan g host experimentId definitionId plan submissionIdentity purpose
        selectionId db).2
  | rerun (db) (host : TrialHost X) (experimentId testId rerunIdentity reason) :
      Step g db (rerun g host experimentId testId rerunIdentity reason db).2
  | register (db) (host : TrialHost X) (experimentId request) :
      Step g db (register g host experimentId request db).2
  | freeze (db) (host : TrialHost X) (request) : Step g db (freeze g host request db).2
  | complete (db) (host : TrialHost X) (comparisonId requireTerminal) :
      Step g db (complete g host comparisonId requireTerminal db).2
  | initial (db) (host : TrialHost X) (experimentId definitionId baselineId) :
      Step g db (initializeSelection g host experimentId definitionId baselineId db).2
  | applyComparison (db) (host : TrialHost X) (comparisonId expectedSelectionId
      submissionIdentity) :
      Step g db (applyComparison g host comparisonId expectedSelectionId submissionIdentity db).2
  | finalize (db) (host : TrialHost X) (busy : V → Bool) (experimentId expectedSelectionId
      submissionIdentity) :
      Step g db (finalize g busy host experimentId expectedSelectionId submissionIdentity db).2
  | authorize (db) (host : TrialHost X) (viewer recordId auditIdentity action) :
      Step g db (authorize g host viewer recordId auditIdentity action db).2
  | declareExposure (db) (host : TrialHost X) (viewer experimentId submissionIdentity periods
      note) :
      Step g db (declareExposure g host viewer experimentId submissionIdentity periods note db).2
  | assess (db) (host : TrialHost X) (p a) (h : AssessmentRequest db p a) :
      Step g db (Db.put host p db).2
  | fact (db) (host : TrialHost X) (p) (h : FactRequest p) : Step g db (Db.put host p db).2
  | cancel (db) (host : TrialHost X) (experimentId testId submissionIdentity cancellation) :
      Step g db (Db.put host (cancellationRequest g experimentId testId submissionIdentity
        cancellation) db).2
  | source (db) (host : TrialHost X) (experimentId testId submissionIdentity document) :
      Step g db (Db.put host (sourceRequest g experimentId testId submissionIdentity
        document) db).2
  | expire (db) (host : TrialHost X) (experimentId recordId submissionIdentity) :
      Step g db (Db.put host (expirationRequest g experimentId recordId submissionIdentity) db).2
  | commit (db) (host : TrialHost X) (c : Commit P V) : Step g db (Db.commit host c pure db).2
  | transition (db) (host : TrialHost X) (testId target actionId lease reason) :
      Step g db (Db.transition host testId target actionId lease reason db).2
  | claim (db) (host : TrialHost X) (testId workerId seconds supersede) :
      Step g db (Db.claim host testId workerId seconds (some pure) supersede db).2
  | renew (db) (host : TrialHost X) (lease seconds) : Step g db (Db.renew host lease seconds db).2
  | service (db) (work : Dict String WorkRow) (service : Option ServiceRow) :
      Step g db { db with work := work, service := service }

/-- The stores a store can become. -/
inductive Later (g : Hashes X) (db : TrialDb X P V) : TrialDb X P V → Prop
  | here : Later g db db
  | next {t u : TrialDb X P V} (h : Later g db t) (step : Step g t u) : Later g db u

def emptyStore (experiments : List String) : TrialDb X P V :=
  ⟨experiments, [], [], Dict.empty, [], Dict.empty, Dict.empty, none⟩

/-- The stores there can be. -/
def Reached (g : Hashes X) (db : TrialDb X P V) : Prop :=
  ∃ experiments, Later g (emptyStore experiments) db

end Steps

end Ahunter.Trials
