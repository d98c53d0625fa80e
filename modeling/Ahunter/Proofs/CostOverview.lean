import Ahunter.Costs.Totals

/-!
# The overview as its parts

The overview of an experiment walks its tests and its proposal attempts and
adds every invocation it meets to three places at once: the total, the group of
its purpose and the group of its bucket. What a test or an attempt brings does
not depend on what was added before, so the walk is a gathering of parts and a
count of what they hold, refused if two executions share an identity.
-/

namespace Ahunter.Costs

open Ahunter.Lib
open Ahunter.Records

/-! ## Executions -/

/-- Where an invocation ran: under a test, or as an outer proposal. -/
inductive Origin
  | test (testId invocationId : String)
  | proposal (experimentId invocationId : String)
deriving DecidableEq

/-- What the identity of an execution is the digest of. -/
def Origin.key : Origin → List String
  | .test testId invocationId => ["test", testId, invocationId]
  | .proposal experimentId invocationId => ["proposal", experimentId, invocationId]

theorem Origin.key_injective : Function.Injective Origin.key := by
  rintro (⟨a, b⟩ | ⟨a, b⟩) (⟨c, d⟩ | ⟨c, d⟩) h
  · simp only [Origin.key, List.cons.injEq, and_true, true_and] at h
    obtain ⟨rfl, rfl⟩ := h
    rfl
  · simp [Origin.key] at h
  · simp [Origin.key] at h
  · simp only [Origin.key, List.cons.injEq, and_true, true_and] at h
    obtain ⟨rfl, rfl⟩ := h
    rfl

/-- One physical invocation of an experiment. -/
structure Execution where
  origin : Origin
  purpose : String
  invocation : Invocation

def Execution.identity (digests : Digests) (x : Execution) : String :=
  digests.identity x.origin.key

def Execution.bucket (x : Execution) : String := x.invocation.bound.bucket.text

/-- What one test or one proposal attempt brings to the overview. -/
structure Part where
  executions : List Execution
  failures : List ReportedFailure
  missing : List String

def budgetExecutions (test : Record CostRecord) (testId : String)
    (entries : List (String × Invocation)) : Attempt (List Execution) :=
  gather (fun e => do
    let value ← need (testValue test) ⟨.lookupError, "purpose"⟩
    pure ⟨.test testId e.1, value.purpose.text, e.2⟩) entries

def testPart (host : CostHost) (db : CostDb) (testId : String) : Attempt Part := do
  let test ← db.test testId
  match ← db.projection testId "cost_budget" with
  | none => pure ⟨[], [], if ExperimentCosts.ran db testId = true then [testId] else []⟩
  | some _ => do
      let state ← effectiveBudget host db testId
      let executions ← budgetExecutions test testId state.value.invocations.entries
      pure ⟨executions, state.value.failures.map (.test testId), []⟩

def proposalPart (host : CostHost) (digests : Digests) (texts : ProposalText)
    (db : CostDb) (experimentId startId : String) : Attempt Part := do
  let start ← db.read startId
  match proposalOf texts start with
  | some (.started table bound maximum) => do
      let (i, exceeded) ← ExperimentCosts.settledAttempt host digests texts db experimentId
        startId table bound maximum
      pure ⟨[⟨.proposal experimentId bound.invocationId, "proposal", i⟩],
        if exceeded = true then [.proposal bound.invocationId .costUpperBoundExceeded]
        else [], []⟩
  | _ => .error ⟨.lookupError, "invocation"⟩

/-! ## Adding up -/

variable {digests : Digests} {r r' : Reading}

def Reading.count (digests : Digests) (r : Reading) (x : Execution) : Attempt Reading :=
  r.add (x.identity digests) x.invocation x.purpose

def Reading.join (digests : Digests) (r : Reading) (p : Part) : Attempt Reading := do
  let r ← walk (Reading.count digests) r p.executions
  pure { r with failures := r.failures ++ p.failures, missing := r.missing ++ p.missing }

/-- The sum of invocations. -/
def tallyFrom (t : CostTotals) (executions : List Execution) : CostTotals :=
  executions.foldl (fun t x => t.accumulate x.invocation) t

def groupFrom (key : Execution → String) (groups : Dict String CostTotals)
    (executions : List Execution) : Dict String CostTotals :=
  executions.foldl (fun g x => accumulateIn g (key x) x.invocation) groups

def Reading.counted (digests : Digests) (r : Reading) (executions : List Execution) :
    Reading :=
  { r with
    total := tallyFrom r.total executions
    byPurpose := groupFrom Execution.purpose r.byPurpose executions
    byBucket := groupFrom Execution.bucket r.byBucket executions
    executions := r.executions ++ executions.map (Execution.identity digests) }

theorem count_ok {x : Execution} :
    r.count digests x = .ok r' ↔
      x.identity digests ∉ r.executions ∧ r' = r.counted digests [x] := by
  simp only [Reading.count, Reading.add, bind_ok, refuse_ok, pure_ok]
  constructor
  · rintro ⟨-, hnew, rfl⟩
    exact ⟨hnew, rfl⟩
  · rintro ⟨hnew, rfl⟩
    exact ⟨(), hnew, rfl⟩

theorem countAll_ok {executions : List Execution} (hr : r.executions.Nodup) :
    walk (Reading.count digests) r executions = .ok r' ↔
      (r.executions ++ executions.map (Execution.identity digests)).Nodup ∧
        r' = r.counted digests executions := by
  induction executions generalizing r with
  | nil =>
      rw [List.map_nil, List.append_nil]
      constructor
      · intro h
        cases h
        refine ⟨hr, ?_⟩
        simp [Reading.counted, tallyFrom, groupFrom]
      · rintro ⟨-, rfl⟩
        simp [Reading.counted, tallyFrom, groupFrom]
  | cons x executions ih =>
      have hmove : r.executions ++ (x :: executions).map (Execution.identity digests)
          = (r.counted digests [x]).executions
            ++ executions.map (Execution.identity digests) := by
        simp [Reading.counted]
      have hcounted : r.counted digests (x :: executions)
          = (r.counted digests [x]).counted digests executions := by
        simp [Reading.counted, tallyFrom, groupFrom]
      rw [walk_cons_ok, hmove, hcounted]
      constructor
      · rintro ⟨mid, hmid, hrest⟩
        obtain ⟨hnew, rfl⟩ := count_ok.mp hmid
        refine (ih ?_).mp hrest
        refine List.nodup_append.mpr ⟨hr, List.nodup_cons.mpr ⟨nofun, .nil⟩, ?_⟩
        intro a ha b hb heq
        subst heq
        cases List.mem_singleton.mp hb
        exact hnew ha
      · rintro ⟨hnodup, rfl⟩
        have hmid := (List.nodup_append.mp hnodup).1
        have hnew : x.identity digests ∉ r.executions := fun hmem =>
          (List.nodup_append.mp hmid).2.2 _ hmem _ (List.mem_singleton.mpr rfl) rfl
        exact ⟨_, count_ok.mpr ⟨hnew, rfl⟩, (ih hmid).mpr ⟨hnodup, rfl⟩⟩

def Reading.joined (digests : Digests) (r : Reading) (parts : List Part) : Reading :=
  { r.counted digests (parts.flatMap Part.executions) with
    failures := r.failures ++ parts.flatMap Part.failures
    missing := r.missing ++ parts.flatMap Part.missing }

theorem joinAll_ok {parts : List Part} (hr : r.executions.Nodup) :
    walk (Reading.join digests) r parts = .ok r' ↔
      (r.executions ++ (parts.flatMap Part.executions).map
        (Execution.identity digests)).Nodup ∧ r' = r.joined digests parts := by
  induction parts generalizing r with
  | nil =>
      rw [List.flatMap_nil, List.map_nil, List.append_nil]
      constructor
      · intro h
        cases h
        refine ⟨hr, ?_⟩
        simp [Reading.joined, Reading.counted, tallyFrom, groupFrom]
      · rintro ⟨-, rfl⟩
        simp [Reading.joined, Reading.counted, tallyFrom, groupFrom]
  | cons p parts ih =>
      have hone : ∀ mid, r.join digests p = .ok mid ↔
          (r.executions ++ p.executions.map (Execution.identity digests)).Nodup ∧
            mid = r.joined digests [p] := by
        intro mid
        simp only [Reading.join, bind_ok, pure_ok, countAll_ok hr]
        constructor
        · rintro ⟨_, ⟨hnodup, rfl⟩, rfl⟩
          exact ⟨hnodup, by simp [Reading.joined, Reading.counted]⟩
        · rintro ⟨hnodup, rfl⟩
          exact ⟨_, ⟨hnodup, rfl⟩, by simp [Reading.joined, Reading.counted]⟩
      have hmove : r.executions ++
            ((p :: parts).flatMap Part.executions).map (Execution.identity digests)
          = (r.joined digests [p]).executions ++
            (parts.flatMap Part.executions).map (Execution.identity digests) := by
        simp [Reading.joined, Reading.counted]
      have hjoined : r.joined digests (p :: parts)
          = (r.joined digests [p]).joined digests parts := by
        simp [Reading.joined, Reading.counted, tallyFrom, groupFrom]
      have hexecutions : (r.joined digests [p]).executions =
          r.executions ++ p.executions.map (Execution.identity digests) := by
        simp [Reading.joined, Reading.counted]
      rw [walk_cons_ok, hmove, hjoined]
      constructor
      · rintro ⟨mid, hmid, hrest⟩
        obtain ⟨hnodup, rfl⟩ := (hone mid).mp hmid
        refine (ih ?_).mp hrest
        rw [hexecutions]
        exact hnodup
      · rintro ⟨hnodup, rfl⟩
        have hmid := (List.nodup_append.mp hnodup).1
        have hfirst := hmid
        rw [hexecutions] at hfirst
        exact ⟨_, (hone _).mpr ⟨hfirst, rfl⟩, (ih hmid).mpr ⟨hnodup, rfl⟩⟩

/-! ## The overview as its parts -/

variable {db : CostDb} {experimentId : String}

theorem addBudget_ok {test : Record CostRecord} {testId : String}
    {entries : List (String × Invocation)} :
    walk (fun r e => do
        let value ← need (testValue test) ⟨.lookupError, "purpose"⟩
        Reading.add r (digests.identity ["test", testId, e.1]) e.2 value.purpose.text) r
        entries = .ok r' ↔ ∃ executions, budgetExecutions test testId entries = .ok executions ∧
        walk (Reading.count digests) r executions = .ok r' := by
  refine walk_gather fun r e r' => ?_
  simp only [bind_ok, need_ok, pure_ok]
  constructor
  · rintro ⟨value, hvalue, hadd⟩
    exact ⟨_, ⟨value, hvalue, rfl⟩, hadd⟩
  · rintro ⟨_, ⟨value, hvalue, rfl⟩, hadd⟩
    exact ⟨value, hvalue, hadd⟩

variable {host : CostHost}

theorem addTest_ok {testId : String} :
    ExperimentCosts.addTest host digests db r testId = .ok r' ↔
      ∃ p, testPart host db testId = .ok p ∧ r.join digests p = .ok r' := by
  unfold ExperimentCosts.addTest testPart
  cases db.test testId with
  | error e => simp [bind, Except.bind]
  | ok test =>
      cases db.projection testId "cost_budget" with
      | error e => simp [bind, Except.bind]
      | ok row =>
          cases row with
          | none =>
              simp only [bind_ok, Except.ok.injEq, exists_eq_left', pure_ok, Reading.join,
                walk_nil, List.append_nil]
              split
              · exact pure_ok
              · rw [List.append_nil]
                exact pure_ok
          | some row =>
              simp only [bind_ok, Except.ok.injEq, exists_eq_left', pure_ok, Reading.join,
                addBudget_ok]
              constructor
              · rintro ⟨state, hstate, mid, ⟨executions, hexecutions, hwalk⟩, rfl⟩
                exact ⟨_, ⟨state, hstate, executions, hexecutions, rfl⟩, mid, hwalk,
                  by rw [List.append_nil]⟩
              · rintro ⟨_, ⟨state, hstate, executions, hexecutions, rfl⟩, mid, hwalk, rfl⟩
                exact ⟨state, hstate, mid, ⟨executions, hexecutions, hwalk⟩,
                  by rw [List.append_nil]⟩

theorem join_one {x : Execution} {failures : List ReportedFailure} :
    r.join digests ⟨[x], failures, []⟩ = .ok r' ↔ x.identity digests ∉ r.executions ∧
      r' = { r.counted digests [x] with failures := r.failures ++ failures } := by
  simp only [Reading.join, walk_cons_ok, count_ok, bind_ok, pure_ok, walk_nil,
    Except.ok.injEq, List.append_nil]
  constructor
  · rintro ⟨_, ⟨_, ⟨hnew, rfl⟩, rfl⟩, rfl⟩
    exact ⟨hnew, rfl⟩
  · rintro ⟨hnew, rfl⟩
    exact ⟨_, ⟨_, ⟨hnew, rfl⟩, rfl⟩, rfl⟩

variable {texts : ProposalText}

theorem addProposal_ok {startId : String} :
    ExperimentCosts.addProposal host digests texts db experimentId r startId = .ok r' ↔
      ∃ p, proposalPart host digests texts db experimentId startId = .ok p ∧
        r.join digests p = .ok r' := by
  unfold ExperimentCosts.addProposal proposalPart
  cases db.read startId with
  | error e => simp [bind, Except.bind]
  | ok start =>
      simp only [bind_ok, Except.ok.injEq, exists_eq_left']
      cases proposalOf texts start with
      | none => simp
      | some fact =>
          cases fact with
          | settled => simp
          | started table bound maximum =>
              simp only [bind_ok, pure_ok, Prod.exists]
              constructor
              · rintro ⟨i, exceeded, hattempt, hadd⟩
                refine ⟨_, ⟨i, exceeded, hattempt, rfl⟩, join_one.mpr ?_⟩
                simp only [Reading.add, bind_ok, refuse_ok, pure_ok] at hadd
                obtain ⟨-, hnew, rfl⟩ := hadd
                cases exceeded with
                | false => exact ⟨hnew, by simp [Reading.counted, tallyFrom, groupFrom,
                    Execution.bucket, Execution.identity, Origin.key]⟩
                | true => exact ⟨hnew, rfl⟩
              · rintro ⟨_, ⟨i, exceeded, hattempt, rfl⟩, hjoin⟩
                obtain ⟨hnew, rfl⟩ := join_one.mp hjoin
                refine ⟨i, exceeded, hattempt, ?_⟩
                simp only [Reading.add, bind_ok, refuse_ok, pure_ok]
                cases exceeded with
                | false => exact ⟨(), hnew, by simp [Reading.counted, tallyFrom, groupFrom,
                    Execution.bucket, Execution.identity, Origin.key]⟩
                | true => exact ⟨(), hnew, rfl⟩

theorem addTests_ok {testIds : List String} :
    walk (ExperimentCosts.addTest host digests db) r testIds = .ok r' ↔
      ∃ parts, gather (testPart host db) testIds = .ok parts ∧
        walk (Reading.join digests) r parts = .ok r' := by
  refine walk_gather fun r testId r' => ?_
  exact addTest_ok

theorem addProposals_ok {startIds : List String} :
    walk (ExperimentCosts.addProposal host digests texts db experimentId) r startIds = .ok r' ↔
      ∃ parts, gather (proposalPart host digests texts db experimentId) startIds
          = .ok parts ∧ walk (Reading.join digests) r parts = .ok r' := by
  refine walk_gather fun r startId r' => ?_
  exact addProposal_ok

def reportOf (digests : Digests) (parts : List Part) (tests starts : ℕ) : CostReport :=
  let r := Reading.new.joined digests parts
  let reconciled := decide (¬ (r.missing ≠ [] ∨ r.total.unsettledInvocations ≠ 0 ∨
    r.total.reservedInvocations ≠ 0))
  { total := r.total
    byPurpose := r.byPurpose
    byBucket := r.byBucket
    testCount := tests
    proposalAttemptCount := starts
    reconciled := reconciled
    accountingValid := reconciled && decide (r.failures = [])
    missingCostTests := r.missing
    failures := r.failures }

theorem read_ok {report : CostReport} :
    ExperimentCosts.read host digests texts db experimentId = .ok report ↔
      experimentId ∈ db.experiments ∧ ∃ tests proposals,
        gather (testPart host db) (ExperimentCosts.testIds db experimentId) = .ok tests ∧
        gather (proposalPart host digests texts db experimentId)
          (ExperimentCosts.startIds texts db experimentId) = .ok proposals ∧
        (((tests ++ proposals).flatMap Part.executions).map (Execution.identity digests)).Nodup ∧
        report = reportOf digests (tests ++ proposals)
          (ExperimentCosts.testIds db experimentId).length
          (ExperimentCosts.startIds texts db experimentId).length := by
  simp only [ExperimentCosts.read, bind_ok, refuse_ok, not_not, pure_ok,
    addTests_ok, addProposals_ok]
  have hjoin : ∀ (tests proposals : List Part) (r : Reading),
      (∃ mid, walk (Reading.join digests) Reading.new tests = .ok mid ∧
        walk (Reading.join digests) mid proposals = .ok r) ↔
      (((tests ++ proposals).flatMap Part.executions).map
          (Execution.identity digests)).Nodup ∧
        r = Reading.new.joined digests (tests ++ proposals) := by
    intro tests proposals r
    rw [← bind_ok, ← walk_append, joinAll_ok (r := Reading.new) List.nodup_nil]
    rfl
  constructor
  · rintro ⟨-, hknown, mid, ⟨tests, htests, hmid⟩, r, ⟨proposals, hproposals, hr⟩, rfl⟩
    obtain ⟨hnodup, rfl⟩ := (hjoin tests proposals r).mp ⟨mid, hmid, hr⟩
    exact ⟨hknown, tests, proposals, htests, hproposals, hnodup, rfl⟩
  · rintro ⟨hknown, tests, proposals, htests, hproposals, hnodup, rfl⟩
    obtain ⟨mid, hmid, hr⟩ := (hjoin tests proposals _).mpr ⟨hnodup, rfl⟩
    exact ⟨(), hknown, mid, ⟨tests, htests, hmid⟩, _, ⟨proposals, hproposals, hr⟩, rfl⟩

end Ahunter.Costs
