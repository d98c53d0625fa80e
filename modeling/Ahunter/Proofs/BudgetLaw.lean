import Ahunter.Proofs.BudgetRuns

/-!
# The law of a cost budget

In every state any number of workers can reach, a limited bucket is never
overcommitted beyond the overruns that are on record, a started invocation
keeps its hold until the step that settles it, and each invocation is priced
once. The rest of the store takes no part in this: what the others do to it
is a step elsewhere.
-/

namespace Ahunter.Costs

open Ahunter.Lib
open Ahunter.Records

/-! ## Moves of one invocation -/

theorem Move.limits {u v : BudgetValue} {request : BudgetRequest}
    {response : BudgetResponse} (h : Move (some u) request response v) :
    v.limits = u.limits ∧ v.totalLimit = u.totalLimit := by
  cases h <;> exact ⟨rfl, rfl⟩

theorem Move.pending {u v : BudgetValue} {request : BudgetRequest}
    {response : BudgetResponse} (h : Move (some u) request response v) {k : String}
    {i : Invocation} (hget : u.invocations.get? k = some i) (hpending : i.status.pending = true) :
    (∃ j, v.invocations.get? k = some j ∧ j.status.pending = true ∧
        j.bound = i.bound ∧ j.maximumCostUsd = i.maximumCostUsd) ∨
      (∃ receipt amount exceeded by_, request = .settle k receipt ∧
        response = .settled k amount exceeded ∧
        v.invocations.get? k = some { i with status := .settled receipt amount by_ }) := by
  cases h with
  | denied => exact .inl ⟨i, hget, hpending, rfl, rfl⟩
  | @reserved u bound amount actionId hnew _ _ =>
      refine .inl ⟨i, ?_, hpending, rfl, rfl⟩
      rw [BudgetValue.assign, Dict.get?_set_of_ne, hget]
      rintro rfl
      rw [hnew] at hget
      cases hget
  | @changed u operation j x status extra hx htarget =>
      by_cases hk : k = j
      · subst hk
        rw [hget] at hx
        cases hx
        refine .inl ⟨_, Dict.get?_set_self _ _ _, ?_, rfl, rfl⟩
        cases operation <;> cases hs : i.status <;>
          simp_all [ChangeOperation.target, InvocationStatus.pending]
        subst htarget
        rfl
      · refine .inl ⟨i, ?_, hpending, rfl, rfl⟩
        rw [BudgetValue.assign, Dict.get?_set_of_ne hk, hget]
  | @settled u j x receipt amount exceeded by_ hx _ _ _ =>
      by_cases hk : k = j
      · subst hk
        rw [hget] at hx
        cases hx
        exact .inr ⟨receipt, amount, exceeded, by_, rfl, rfl, Dict.get?_set_self _ _ _⟩
      · refine .inl ⟨i, ?_, hpending, rfl, rfl⟩
        rw [CostBudget.settled, BudgetValue.assign, Dict.get?_set_of_ne hk, hget]

/-! ## The law -/

def budgetOf (db : CostDb) (testId : String) : Option BudgetValue :=
  held (budgetRow db testId)

/-- What holds of a test's budget `v` in the state `db`. -/
structure BudgetLaw (digests : Digests) (testId : String) (db : CostDb)
    (v : BudgetValue) : Prop where
  /-- A limited bucket's charges stay within its limit, up to the overruns on
  record. -/
  within : ∀ bucket limit, v.limits.of bucket = some limit →
    (totals v bucket).settled.toRat + (totals v bucket).held.toRat
      ≤ limit.toRat + v.recordedOverrun
  unfailed : v.failures = [] → ∀ bucket limit, v.limits.of bucket = some limit →
    (totals v bucket).settled.toRat + (totals v bucket).held.toRat ≤ limit.toRat
  /-- The failures on record are the settled invocations that overran. -/
  recorded : ∀ k, v.Recorded k ↔ ∃ i, v.invocations.get? k = some i ∧ Overran i
  /-- What has been started is not released. -/
  unreleased : ∀ k, requests db testId (BudgetRequest.starts k) ≠ [] →
    requests db testId (BudgetRequest.releases k) = [] ∧
      ∃ i, v.invocations.get? k = some i ∧ i.status ≠ .releasedUnstarted
  /-- A started invocation holds its maximum until the step that settles it. -/
  holds : ∀ db', Step digests db db' → ∀ k i, v.invocations.get? k = some i →
    i.status.pending = true → ∃ w j, budgetOf db' testId = some w ∧
      w.invocations.get? k = some j ∧ j.bound = i.bound ∧
      j.maximumCostUsd = i.maximumCostUsd ∧
      (j.status.pending = true ∨ ∃ event receipt amount exceeded by_,
        db'.events = db.events ++ [event] ∧ event.testId = testId ∧
        event.content.payload
          = .data (.budget (.settle k receipt) (.settled k amount exceeded)) ∧
        j.status = .settled receipt amount by_)
  /-- No invocation is priced twice. -/
  priced : ∀ k, (requests db testId (BudgetRequest.settles k)).length ≤ 1
  addUp : v.limits.AddUp v.totalLimit
  /-- The limits are those the budget was opened with. -/
  fixed : ∀ db', Step digests db db' → ∃ w, budgetOf db' testId = some w ∧
    w.limits = v.limits ∧ w.totalLimit = v.totalLimit

theorem recordedOverrun_nil {v : BudgetValue} (h : v.failures = []) : v.recordedOverrun = 0 := by
  rw [BudgetValue.recordedOverrun, h]
  rfl

theorem Limits.Nonneg.of {l : Limits} (h : l.Nonneg) {bucket : Bucket} {limit : Decimal}
    (hlimit : l.of bucket = some limit) : 0 ≤ limit.toRat := by
  refine h (l.of bucket) ?_ limit hlimit
  cases bucket <;> simp [Limits.of]

theorem Kept.moves {digests : Digests} {testId : String} {db db' : CostDb}
    (hkept : Kept testId db) {v : BudgetValue} (hv : budgetOf db testId = some v)
    (h : Step digests db db') :
    budgetOf db' testId = some v ∨
      ∃ event request response w, Moved testId db db' event request response w ∧
        budgetOf db' testId = some w ∧ Move (some v) request response w := by
  rcases step_cases testId h hkept.once with
    hsame | ⟨event, request, response, w, hmoved⟩
  · exact .inl (by rw [budgetOf, hsame.row]; exact hv)
  · refine .inr ⟨event, request, response, w, hmoved, ?_, ?_⟩
    · rw [budgetOf, hmoved.row]
      rfl
    · have hmove := hmoved.move
      rwa [show held (budgetRow db testId) = some v from hv] at hmove

/-- A cost budget keeps its law in every run of its operations. -/
theorem cost_budget_lawful {digests : Digests} {testId : String} {start db : CostDb}
    {v : BudgetValue} (hstart : Unopened testId start) (hrun : Run digests start db)
    (hv : budgetOf db testId = some v) (hlimits : v.limits.Nonneg) :
    BudgetLaw digests testId db v := by
  have hkept := hrun.kept hstart
  have hsound := hkept.sound v hv
  have hlogged : ∀ k, tally db testId k = expectedTally (v.invocations.get? k) :=
    fun k => by
      rw [hkept.logged, show held (budgetRow db testId) = some v from hv]
      rfl
  have hwithin : ∀ bucket limit, v.limits.of bucket = some limit →
      (totals v bucket).settled.toRat + (totals v bucket).held.toRat
        ≤ limit.toRat + v.recordedOverrun :=
    fun bucket limit hlimit => hsound.within_limit hlimit (hlimits.of hlimit)
  constructor
  case within => exact hwithin
  case unfailed =>
    intro hnone bucket limit hlimit
    have := hwithin bucket limit hlimit
    rwa [recordedOverrun_nil hnone, add_zero] at this
  case recorded => exact hsound.recorded
  case unreleased =>
    intro k hstarted
    have hk := hlogged k
    rw [← List.length_pos_iff_ne_nil] at hstarted
    rw [← List.length_eq_zero_iff]
    cases hget : v.invocations.get? k with
    | none =>
        rw [hget, expectedTally, Option.elim_none, tally, Tally.mk.injEq] at hk
        omega
    | some i =>
        rw [hget, expectedTally, Option.elim_some] at hk
        refine ⟨?_, i, rfl, ?_⟩
        · cases hs : i.status <;>
            rw [hs, InvocationStatus.tally, tally, Tally.mk.injEq] at hk <;> omega
        · intro hs
          rw [hs, InvocationStatus.tally, tally, Tally.mk.injEq] at hk
          omega
  case holds =>
    intro db' hstep k i hget hpending
    rcases hkept.moves hv hstep with hsame | ⟨event, request, response, w, hmoved, hw,
      hmove⟩
    · exact ⟨v, i, hsame, hget, rfl, rfl, .inl hpending⟩
    · rcases hmove.pending hget hpending with ⟨j, hj, hstill, hbound, hmax⟩ |
        ⟨receipt, amount, exceeded, by_, rfl, rfl, hj⟩
      · exact ⟨w, j, hw, hj, hbound, hmax, .inl hstill⟩
      · exact ⟨w, _, hw, hj, rfl, rfl, .inr ⟨event, receipt, amount, exceeded, by_,
          hmoved.events, hmoved.owner, hmoved.payload, rfl⟩⟩
  case priced =>
    intro k
    have hk := hlogged k
    rw [tally] at hk
    cases hget : v.invocations.get? k with
    | none =>
        rw [hget, expectedTally, Option.elim_none, Tally.mk.injEq] at hk
        omega
    | some i =>
        rw [hget, expectedTally, Option.elim_some] at hk
        cases hs : i.status <;>
          rw [hs, InvocationStatus.tally, Tally.mk.injEq] at hk <;> omega
  case addUp => exact hsound.addUp
  case fixed =>
    intro db' hstep
    rcases hkept.moves hv hstep with hsame | ⟨_, _, _, w, _, hw, hmove⟩
    · exact ⟨v, hsame, rfl, rfl⟩
    · exact ⟨w, hw, hmove.limits⟩

/-! ## A run -/

def dollars (n : ℕ) : Money := ⟨⟨false, n, 0⟩, by simp [Decimal.toRat, Decimal.signed]⟩

def sampleTable : PriceTable where
  version := "v1"
  evidenceKind := .fixture
  sourceHash := "prices"
  tariffs := [{
    resource := "cpu"
    kind := .compute
    usageSemanticsHash := "seconds"
    meters := [⟨"s", "second", dollars 1⟩]
    meters_ne := by simp
    meters_nodup := by simp
    model_priced := nofun }]
  tariffs_ne := by simp
  tariffs_nodup := by simp

def sampleUnits (n : ℕ) : Dict String Money := Dict.ofList [("s", dollars n)]

def sampleEnvelope : ResourceEnvelope where
  specificationHash := "spec"
  taskId := "task"
  priceTableHash := "table"
  safetyFactor := ⟨false, 1, 0⟩
  safetyFactor_pos := by simp [Decimal.toRat, Decimal.signed]
  environmentUnits := Dict.ofList [("cpu", sampleUnits 1)]
  evaluationUnits := Dict.ofList [("cpu", sampleUnits 2)]
  replayEvidenceHash := "replay"

def sampleSpecification : Specification where
  specificationHash := "spec"
  budget := {
    mode := .explicit
    taskCostLimit := some ⟨false, 100, -1⟩
    environmentReserve := some (dollars 2)
    evaluationReserve := some (dollars 3)
    priceTableRef := "v1"
    calibrationMultiplier := ⟨false, 1, 0⟩
    roundingUnit := ⟨false, 1, 0⟩
    envelopeSafetyFactor := ⟨false, 1, 0⟩ }
  model := "model"

def sampleDigests : Digests where
  table := fun _ => "table"
  identity := fun parts => String.intercalate "/" parts
  recordIdentity := fun e k parts => String.intercalate "/" (e :: k :: parts)

def sampleBound : CallBound where
  invocationId := "call"
  actorId := "actor"
  phaseId := "phase"
  bucket := .research
  resource := "cpu"
  adapterRef := "adapter"
  executorRef := "executor"
  priceTableHash := "table"
  usageSemanticsHash := "seconds"
  maximumUnits := sampleUnits 4
  proofHash := "proof"

def sampleReceipt : UsageReceipt where
  resource := "cpu"
  adapterRef := "adapter"
  executorRef := "executor"
  priceTableHash := "table"
  usageSemanticsHash := "seconds"
  units := sampleUnits 7
  outcome := .completed
  supplierBillUsd := none
  evidenceHash := "usage"

def sampleHost : CostHost where
  now := 0
  artifacts := fun h =>
    if h = "usage" then some (.usage "call" sampleReceipt.toUsageClaim)
    else if h = "proof" then some (.bound sampleBound.toBoundClaim)
    else if h = "replay" then some (.envelope sampleEnvelope.toEnvelopeClaim)
    else some (.other h)
  faults := fun _ => false

def sampleRecord (kind : RecordKind) (recordId : String) (value : CostRecord)
    (sequence : ℕ) : Record CostRecord where
  experimentId := "experiment"
  kind := kind
  recordId := recordId
  submissionIdentity := recordId
  value := .data value
  links := []
  artifactHashes := []
  sourcePolicyHashes := []
  sequence := sequence
  createdAt := 0

def sampleStart : CostDb where
  experiments := ["experiment"]
  records := [
    sampleRecord .definition "definition" (.definition sampleSpecification) 1,
    sampleRecord .test "test" (.test ⟨"definition", "task", .tuning, none⟩) 2]
  events := []
  projections := Dict.empty
  outbox := []
  leases := Dict.ofList [("test", ⟨"worker", 1, 100⟩)]
  work := Dict.empty
  service := none

def sampleCall (actionId : String) (operation : Operation) : BudgetCall where
  budget := ⟨⟨"test", "worker", 1⟩, "experiment", sampleSpecification, "task"⟩
  host := sampleHost
  actionId := actionId
  guard := fun _ => .ok ()
  operation := operation

def sampleCalls : List BudgetCall := [
  sampleCall "open" (.opening sampleTable sampleEnvelope none none),
  sampleCall "reserve" (.reserve sampleBound),
  sampleCall "start" (.start "call" []),
  sampleCall "settle" (.settle "call" sampleReceipt)]

def afterCalls (digests : Digests) (db : CostDb) (calls : List BudgetCall) : CostDb :=
  calls.foldl (fun db c => (c.run digests db db).2) db

theorem afterCalls_run (digests : Digests) (db : CostDb) (calls : List BudgetCall) :
    Run digests db (afterCalls digests db calls) := by
  induction calls generalizing db with
  | nil => exact .refl
  | cons c calls ih =>
      exact .head (.call c db List.prefix_rfl) (ih (c.run digests db db).2)

def sampleBudget : BudgetValue :=
  (budgetOf (afterCalls sampleDigests sampleStart sampleCalls) "test").get
    (by decide +kernel)

example : sampleBudget.failures = [⟨"call", .costUpperBoundExceeded⟩] := by
  decide +kernel

theorem sampleStart_unopened : Unopened "test" sampleStart :=
  ⟨by decide +kernel, by simp [sampleStart], by simp [sampleStart]⟩

theorem cost_budget_lawful_sample :
    BudgetLaw sampleDigests "test" (afterCalls sampleDigests sampleStart sampleCalls)
      sampleBudget :=
  cost_budget_lawful sampleStart_unopened (afterCalls_run _ _ _)
    (Option.some_get _).symm (by decide +kernel)

end Ahunter.Costs
