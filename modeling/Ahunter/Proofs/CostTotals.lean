import Ahunter.Proofs.BudgetRuns
import Ahunter.Proofs.CostOverview

/-!
# Every execution counted once

An invocation has the test and the name it ran under as its origin, or the name
of its proposal attempt. The overview is a tally of a list without repeated
origins, and its groups are tallies of the parts of that list, so the numbers of
the groups add up to those of the total. Records have one identity each and a
proposal attempt starts under that of its invocation, so in a store that runs
have reached no two executions share an origin, and the overview is refused
only for what cannot be read.
-/

namespace Ahunter.Costs

open Ahunter.Lib
open Ahunter.Records

/-! ## Sums -/

/-- The numbers of a group. -/
def CostTotals.amounts (t : CostTotals) : ℚ × ℚ × ℚ × ℕ × ℕ × ℕ × ℕ :=
  (t.settledUsd.toRat, t.heldUpperUsd.toRat, t.invoiceKnownUsd.toRat,
    t.unsettledInvocations, t.reservedInvocations, t.startedInvocations,
    t.invoiceUnknownInvocations)

def charge (i : Invocation) : ℚ × ℚ × ℚ × ℕ × ℕ × ℕ × ℕ :=
  (CostTotals.new.accumulate i).amounts

theorem accumulate_amounts (t : CostTotals) (i : Invocation) :
    (t.accumulate i).amounts = t.amounts + charge i := by
  obtain ⟨bound, maximum, status, actionId⟩ := i
  cases status with
  | reserved =>
      simp [CostTotals.accumulate, CostTotals.amounts, charge, CostTotals.new,
        Decimal.toRat_sum]
  | started =>
      simp [CostTotals.accumulate, CostTotals.amounts, charge, CostTotals.new,
        Decimal.toRat_sum]
  | unsettled =>
      simp [CostTotals.accumulate, CostTotals.amounts, charge, CostTotals.new,
        Decimal.toRat_sum]
  | releasedUnstarted =>
      simp [CostTotals.accumulate, CostTotals.amounts, charge, CostTotals.new]
  | settled receipt costUsd by_ =>
      cases hbill : receipt.supplierBillUsd with
      | none =>
          simp [CostTotals.accumulate, CostTotals.amounts, charge, CostTotals.new,
            Decimal.toRat_sum, hbill]
      | some bill =>
          simp [CostTotals.accumulate, CostTotals.amounts, charge, CostTotals.new,
            Decimal.toRat_sum, hbill]

theorem tallyFrom_amounts (t : CostTotals) (executions : List Execution) :
    (tallyFrom t executions).amounts =
      t.amounts + (executions.map fun x => charge x.invocation).sum := by
  induction executions generalizing t with
  | nil => exact (add_zero _).symm
  | cons x executions ih =>
      have hrest := ih (t.accumulate x.invocation)
      rw [accumulate_amounts, add_assoc] at hrest
      rw [List.map_cons, List.sum_cons]
      exact hrest

theorem accumulateIn_sum (groups : Dict String CostTotals) (key : String) (i : Invocation) :
    (accumulateIn groups key i).sum (fun _ t => t.amounts) =
      groups.sum (fun _ t => t.amounts) + charge i := by
  have hset := Dict.sum_set groups key
    (((groups.get? key).getD CostTotals.new).accumulate i) fun _ t => t.amounts
  rw [accumulate_amounts] at hset
  cases hget : groups.get? key with
  | none =>
      rw [hget] at hset
      simp only [Option.elim_none, Option.getD_none, add_zero] at hset
      have hnew : CostTotals.new.amounts = 0 := by
        simp [CostTotals.amounts, CostTotals.new]
      rw [hnew, zero_add] at hset
      rw [accumulateIn, hget]
      exact hset
  | some old =>
      rw [hget] at hset
      simp only [Option.elim_some, Option.getD_some] at hset
      rw [accumulateIn, hget]
      refine add_right_cancel (b := old.amounts) ?_
      rw [add_assoc, add_comm (charge i)]
      exact hset

theorem groupFrom_sum (key : Execution → String) (groups : Dict String CostTotals)
    (executions : List Execution) :
    (groupFrom key groups executions).sum (fun _ t => t.amounts) =
      groups.sum (fun _ t => t.amounts) + (executions.map fun x => charge x.invocation).sum := by
  induction executions generalizing groups with
  | nil => exact (add_zero _).symm
  | cons x executions ih =>
      have hrest := ih (accumulateIn groups (key x) x.invocation)
      rw [accumulateIn_sum, add_assoc] at hrest
      rw [List.map_cons, List.sum_cons]
      exact hrest

theorem groupFrom_get? (key : Execution → String) (groups : Dict String CostTotals)
    (executions : List Execution) (k : String) :
    (groupFrom key groups executions).get? k =
      if executions.filter (fun x => key x = k) = [] then groups.get? k
      else some (tallyFrom ((groups.get? k).getD CostTotals.new)
        (executions.filter fun x => key x = k)) := by
  induction executions generalizing groups with
  | nil => rfl
  | cons x executions ih =>
      have hrest := ih (accumulateIn groups (key x) x.invocation)
      by_cases hk : key x = k
      · have hget : (accumulateIn groups (key x) x.invocation).get? k =
            some (((groups.get? k).getD CostTotals.new).accumulate x.invocation) := by
          rw [accumulateIn, hk, Dict.get?_set, if_pos rfl]
        rw [List.filter_cons_of_pos (by simpa using hk), if_neg (List.cons_ne_nil _ _)]
        refine hrest.trans ?_
        rw [hget, Option.getD_some]
        split
        · next hnil => rw [hnil]; rfl
        · rfl
      · have hget : (accumulateIn groups (key x) x.invocation).get? k = groups.get? k := by
          rw [accumulateIn, Dict.get?_set, if_neg (Ne.symm hk)]
        rw [List.filter_cons_of_neg (by simpa using hk)]
        refine hrest.trans ?_
        rw [hget]

theorem accumulate_open (t : CostTotals) (i : Invocation) :
    ((t.accumulate i).unsettledInvocations = 0 ↔
        t.unsettledInvocations = 0 ∧ i.status.pending = false) ∧
      ((t.accumulate i).reservedInvocations = 0 ↔
        t.reservedInvocations = 0 ∧ i.status ≠ .reserved) := by
  obtain ⟨bound, maximum, status, actionId⟩ := i
  cases status with
  | reserved => simp [CostTotals.accumulate, InvocationStatus.pending]
  | started => simp [CostTotals.accumulate, InvocationStatus.pending]
  | unsettled => simp [CostTotals.accumulate, InvocationStatus.pending]
  | releasedUnstarted => simp [CostTotals.accumulate, InvocationStatus.pending]
  | settled receipt costUsd by_ =>
      cases hbill : receipt.supplierBillUsd with
      | none => simp [CostTotals.accumulate, InvocationStatus.pending, hbill]
      | some bill => simp [CostTotals.accumulate, InvocationStatus.pending, hbill]

theorem tally_open (t : CostTotals) (executions : List Execution) :
    ((tallyFrom t executions).unsettledInvocations = 0 ↔ t.unsettledInvocations = 0 ∧
        ∀ x ∈ executions, x.invocation.status.pending = false) ∧
      ((tallyFrom t executions).reservedInvocations = 0 ↔ t.reservedInvocations = 0 ∧
        ∀ x ∈ executions, x.invocation.status ≠ .reserved) := by
  induction executions generalizing t with
  | nil => simp [tallyFrom]
  | cons x executions ih =>
      have hrest := ih (t.accumulate x.invocation)
      rw [(accumulate_open t x.invocation).1, (accumulate_open t x.invocation).2, and_assoc,
        and_assoc] at hrest
      rw [List.forall_mem_cons, List.forall_mem_cons]
      exact hrest

/-! ## What is counted -/

variable {host : CostHost} {digests : Digests} {texts : ProposalText} {db : CostDb}
  {experimentId : String}

variable {testId : String} {executions : List Execution}

inductive Physical (host : CostHost) (digests : Digests) (texts : ProposalText)
    (db : CostDb) (experimentId : String) : Execution → Prop
  | test {testId k : String} {i : Invocation} {test : Record CostRecord}
      {value : TestValue} {row : Revision Projection} {state : Effective}
      (hmem : testId ∈ ExperimentCosts.testIds db experimentId)
      (htest : db.test testId = .ok test) (hvalue : testValue test = some value)
      (hrow : db.projection testId "cost_budget" = .ok (some row))
      (hstate : effectiveBudget host db testId = .ok state)
      (hi : state.value.invocations.get? k = some i) :
      Physical host digests texts db experimentId ⟨.test testId k, value.purpose.text, i⟩
  | proposal {startId : String} {start : Record CostRecord} {table : PriceTable}
      {bound : CallBound} {maximum : Decimal} {i : Invocation} {exceeded : Bool}
      (hmem : startId ∈ ExperimentCosts.startIds texts db experimentId)
      (hstart : db.read startId = .ok start)
      (hfact : proposalOf texts start = some (.started table bound maximum))
      (hattempt : ExperimentCosts.settledAttempt host digests texts db experimentId startId
        table bound maximum = .ok (i, exceeded)) :
      Physical host digests texts db experimentId
        ⟨.proposal experimentId bound.invocationId, "proposal", i⟩

inductive Failed (host : CostHost) (digests : Digests) (texts : ProposalText)
    (db : CostDb) (experimentId : String) : ReportedFailure → Prop
  | test {testId : String} {failure : CostFailure} {row : Revision Projection}
      {state : Effective} (hmem : testId ∈ ExperimentCosts.testIds db experimentId)
      (hrow : db.projection testId "cost_budget" = .ok (some row))
      (hstate : effectiveBudget host db testId = .ok state)
      (hfailure : failure ∈ state.value.failures) :
      Failed host digests texts db experimentId (.test testId failure)
  | proposal {startId : String} {start : Record CostRecord} {table : PriceTable}
      {bound : CallBound} {maximum : Decimal} {i : Invocation}
      (hmem : startId ∈ ExperimentCosts.startIds texts db experimentId)
      (hstart : db.read startId = .ok start)
      (hfact : proposalOf texts start = some (.started table bound maximum))
      (hattempt : ExperimentCosts.settledAttempt host digests texts db experimentId startId
        table bound maximum = .ok (i, true)) :
      Failed host digests texts db experimentId
        (.proposal bound.invocationId .costUpperBoundExceeded)

def MissingCost (db : CostDb) (experimentId testId : String) : Prop :=
  testId ∈ ExperimentCosts.testIds db experimentId ∧
    db.projection testId "cost_budget" = .ok none ∧ ExperimentCosts.ran db testId = true

theorem testPart_cases {p : Part} (h : testPart host db testId = .ok p) :
    (db.projection testId "cost_budget" = .ok none ∧ p.executions = [] ∧ p.failures = [] ∧
        p.missing = if ExperimentCosts.ran db testId = true then [testId] else []) ∨
      ∃ test row state, db.test testId = .ok test ∧
        db.projection testId "cost_budget" = .ok (some row) ∧
        effectiveBudget host db testId = .ok state ∧
        budgetExecutions test testId state.value.invocations.entries = .ok p.executions ∧
        p.failures = state.value.failures.map (.test testId) ∧ p.missing = [] := by
  simp only [testPart, bind_ok] at h
  obtain ⟨test, htest, row, hrow, h⟩ := h
  cases row with
  | none =>
      cases pure_ok.mp h
      exact .inl ⟨hrow, rfl, rfl, rfl⟩
  | some row =>
      simp only [bind_ok, pure_ok] at h
      obtain ⟨state, hstate, executions, hexecutions, rfl⟩ := h
      exact .inr ⟨test, row, state, htest, hrow, hstate, hexecutions, rfl, rfl⟩

theorem proposalPart_cases {startId : String} {p : Part}
    (h : proposalPart host digests texts db experimentId startId = .ok p) :
    ∃ start table bound maximum i exceeded, db.read startId = .ok start ∧
      proposalOf texts start = some (.started table bound maximum) ∧
      ExperimentCosts.settledAttempt host digests texts db experimentId startId table bound
        maximum = .ok (i, exceeded) ∧
      p = ⟨[⟨.proposal experimentId bound.invocationId, "proposal", i⟩],
        if exceeded = true then [.proposal bound.invocationId .costUpperBoundExceeded]
        else [], []⟩ := by
  simp only [proposalPart, bind_ok] at h
  obtain ⟨start, hstart, h⟩ := h
  split at h
  next table bound maximum hfact =>
    simp only [bind_ok, pure_ok, Prod.exists] at h
    obtain ⟨i, exceeded, hattempt, rfl⟩ := h
    exact ⟨start, table, bound, maximum, i, exceeded, hstart, hfact, hattempt, rfl⟩
  next => cases h

theorem mem_budgetExecutions {test : Record CostRecord} {entries : List (String × Invocation)}
    (h : budgetExecutions test testId entries = .ok executions) {x : Execution} :
    x ∈ executions ↔ ∃ k i value, (k, i) ∈ entries ∧ testValue test = some value ∧
      x = ⟨.test testId k, value.purpose.text, i⟩ := by
  constructor
  · intro hx
    obtain ⟨⟨k, i⟩, hmem, hone⟩ := gather_from h hx
    simp only [bind_ok, need_ok, pure_ok] at hone
    obtain ⟨value, hvalue, rfl⟩ := hone
    exact ⟨k, i, value, hmem, hvalue, rfl⟩
  · rintro ⟨k, i, value, hmem, hvalue, rfl⟩
    obtain ⟨y, hy, hone⟩ := gather_mem h hmem
    simp only [bind_ok, need_ok, pure_ok] at hone
    obtain ⟨value', hvalue', rfl⟩ := hone
    cases hvalue.symm.trans hvalue'
    exact hy

theorem budgetExecutions_origins {test : Record CostRecord} {entries : List (String × Invocation)}
    (h : budgetExecutions test testId entries = .ok executions) :
    executions.map Execution.origin = entries.map fun e => Origin.test testId e.1 := by
  induction entries generalizing executions with
  | nil =>
      cases h
      rfl
  | cons e entries ih =>
      simp only [budgetExecutions, gather, bind_ok, need_ok, pure_ok] at h
      obtain ⟨_, ⟨value, -, rfl⟩, rest, hrest, rfl⟩ := h
      rw [List.map_cons, List.map_cons]
      exact congrArg _ (ih (by simpa only [budgetExecutions] using hrest))

theorem parts_complete {tests proposals : List Part}
    (htests : gather (testPart host db) (ExperimentCosts.testIds db experimentId) = .ok tests)
    (hproposals : gather (proposalPart host digests texts db experimentId)
      (ExperimentCosts.startIds texts db experimentId) = .ok proposals) :
    (∀ x, x ∈ (tests ++ proposals).flatMap Part.executions ↔
        Physical host digests texts db experimentId x) ∧
      (∀ f, f ∈ (tests ++ proposals).flatMap Part.failures ↔
        Failed host digests texts db experimentId f) ∧
      ∀ t, t ∈ (tests ++ proposals).flatMap Part.missing ↔ MissingCost db experimentId t := by
  refine ⟨fun x => ⟨fun hx => ?_, fun hx => ?_⟩, fun f => ⟨fun hf => ?_, fun hf => ?_⟩,
    fun t => ⟨fun ht => ?_, fun ht => ?_⟩⟩
  · obtain ⟨p, hp, hx⟩ := List.mem_flatMap.mp hx
    rcases List.mem_append.mp hp with hp | hp
    · obtain ⟨testId, hmem, hpart⟩ := gather_from htests hp
      rcases testPart_cases hpart with ⟨-, hnone, -⟩ |
        ⟨test, row, state, htest, hrow, hstate, hexecutions, -⟩
      · rw [hnone] at hx
        cases hx
      · obtain ⟨k, i, value, hi, hvalue, rfl⟩ := (mem_budgetExecutions hexecutions).mp hx
        exact .test hmem htest hvalue hrow hstate (Dict.mem_entries.mp hi)
    · obtain ⟨startId, hmem, hpart⟩ := gather_from hproposals hp
      obtain ⟨start, table, bound, maximum, i, exceeded, hstart, hfact, hattempt, rfl⟩ :=
        proposalPart_cases hpart
      cases List.mem_singleton.mp hx
      exact .proposal hmem hstart hfact hattempt
  · cases hx with
    | test hmem htest hvalue hrow hstate hi =>
        obtain ⟨p, hp, hpart⟩ := gather_mem htests hmem
        refine List.mem_flatMap.mpr ⟨p, List.mem_append_left _ hp, ?_⟩
        rcases testPart_cases hpart with ⟨hnone, -⟩ |
          ⟨test, row, state, htest', -, hstate', hexecutions, -⟩
        · cases hnone.symm.trans hrow
        · cases htest.symm.trans htest'
          cases hstate.symm.trans hstate'
          exact (mem_budgetExecutions hexecutions).mpr
            ⟨_, _, _, Dict.mem_entries.mpr hi, hvalue, rfl⟩
    | proposal hmem hstart hfact hattempt =>
        obtain ⟨p, hp, hpart⟩ := gather_mem hproposals hmem
        refine List.mem_flatMap.mpr ⟨p, List.mem_append_right _ hp, ?_⟩
        obtain ⟨start, table, bound, maximum, i, exceeded, hstart', hfact', hattempt', rfl⟩ :=
          proposalPart_cases hpart
        cases hstart.symm.trans hstart'
        cases hfact.symm.trans hfact'
        cases hattempt.symm.trans hattempt'
        exact List.mem_singleton.mpr rfl
  · obtain ⟨p, hp, hf⟩ := List.mem_flatMap.mp hf
    rcases List.mem_append.mp hp with hp | hp
    · obtain ⟨testId, hmem, hpart⟩ := gather_from htests hp
      rcases testPart_cases hpart with ⟨-, -, hnone, -⟩ |
        ⟨test, row, state, -, hrow, hstate, -, hfailures, -⟩
      · rw [hnone] at hf
        cases hf
      · rw [hfailures] at hf
        obtain ⟨failure, hfailure, rfl⟩ := List.mem_map.mp hf
        exact .test hmem hrow hstate hfailure
    · obtain ⟨startId, hmem, hpart⟩ := gather_from hproposals hp
      obtain ⟨start, table, bound, maximum, i, exceeded, hstart, hfact, hattempt, rfl⟩ :=
        proposalPart_cases hpart
      cases exceeded with
      | false => cases hf
      | true =>
          cases List.mem_singleton.mp hf
          exact .proposal hmem hstart hfact hattempt
  · cases hf with
    | test hmem hrow hstate hfailure =>
        obtain ⟨p, hp, hpart⟩ := gather_mem htests hmem
        refine List.mem_flatMap.mpr ⟨p, List.mem_append_left _ hp, ?_⟩
        rcases testPart_cases hpart with ⟨hnone, -⟩ |
          ⟨test, row, state, -, -, hstate', -, hfailures, -⟩
        · cases hnone.symm.trans hrow
        · cases hstate.symm.trans hstate'
          rw [hfailures]
          exact List.mem_map_of_mem hfailure
    | proposal hmem hstart hfact hattempt =>
        obtain ⟨p, hp, hpart⟩ := gather_mem hproposals hmem
        refine List.mem_flatMap.mpr ⟨p, List.mem_append_right _ hp, ?_⟩
        obtain ⟨start, table, bound, maximum, i, exceeded, hstart', hfact', hattempt', rfl⟩ :=
          proposalPart_cases hpart
        cases hstart.symm.trans hstart'
        cases hfact.symm.trans hfact'
        cases hattempt.symm.trans hattempt'
        exact List.mem_singleton.mpr rfl
  · obtain ⟨p, hp, hin⟩ := List.mem_flatMap.mp ht
    rcases List.mem_append.mp hp with hp | hp
    · obtain ⟨testId, hmem, hpart⟩ := gather_from htests hp
      rcases testPart_cases hpart with ⟨hnone, -, -, hmissing⟩ | ⟨_, _, _, -, -, -, -, -, hmissing⟩
      · rw [hmissing] at hin
        split at hin
        next hran =>
          cases List.mem_singleton.mp hin
          exact ⟨hmem, hnone, hran⟩
        next => cases hin
      · rw [hmissing] at hin
        cases hin
    · obtain ⟨startId, hmem, hpart⟩ := gather_from hproposals hp
      obtain ⟨_, _, _, _, _, _, -, -, -, rfl⟩ := proposalPart_cases hpart
      cases hin
  · obtain ⟨hmem, hnone, hran⟩ := ht
    obtain ⟨p, hp, hpart⟩ := gather_mem htests hmem
    refine List.mem_flatMap.mpr ⟨p, List.mem_append_left _ hp, ?_⟩
    rcases testPart_cases hpart with ⟨-, -, -, hmissing⟩ | ⟨_, _, _, -, hrow, -⟩
    · rw [hmissing, if_pos hran]
      exact List.mem_singleton.mpr rfl
    · cases hnone.symm.trans hrow

/-! ## No two executions share an origin -/

structure Recorded (digests : Digests) (texts : ProposalText) (db : CostDb) : Prop where
  ids : (db.records.map fun r => r.recordId).Nodup
  starts : ∀ r ∈ db.records, ∀ table bound maximum,
    proposalOf texts r = some (.started table bound maximum) →
      r.recordId = ProposalCosts.recordId digests r.experimentId "proposal-cost-start"
        bound.invocationId

theorem Recorded.append {new : List (Record CostRecord)} (h : Recorded digests texts db)
    {db' : CostDb} (hrecords : db'.records = db.records ++ new)
    (hids : (db'.records.map fun r => r.recordId).Nodup)
    (hnew : ∀ r ∈ new, ∀ table bound maximum,
      proposalOf texts r = some (.started table bound maximum) →
        r.recordId = ProposalCosts.recordId digests r.experimentId "proposal-cost-start"
          bound.invocationId) : Recorded digests texts db' := by
  refine ⟨hids, fun r hr => ?_⟩
  rw [hrecords] at hr
  rcases List.mem_append.mp hr with hr | hr
  · exact h.starts r hr
  · exact hnew r hr

theorem Recorded.put {request : Prepared CostRecord} (h : Recorded digests texts db)
    (hrequest : ∀ r : Record CostRecord, r.value = request.value →
      ∀ table bound maximum, proposalOf texts r = some (.started table bound maximum) →
        request.recordId = ProposalCosts.recordId digests request.experimentId
          "proposal-cost-start" bound.invocationId) :
    Recorded digests texts (db.put host request).2 := by
  rcases Db.put_cases host request db with hsame | ⟨p, r, hprepare, hr, -, hids, hput⟩
  · rw [hsame]
    exact h
  · obtain ⟨hexperiment, -, hid, hvalue, -⟩ := prepare_ok hprepare
    rw [hput]
    have hrid : r.recordId = p.recordId := congrArg Prepared.recordId hr
    refine h.append rfl ?_ fun x hx table bound maximum hfact => ?_
    · rw [List.map_append]
      refine List.nodup_append.mpr ⟨h.ids, List.nodup_cons.mpr ⟨nofun, .nil⟩, ?_⟩
      intro a ha b hb heq
      obtain ⟨x, hx, rfl⟩ := List.mem_map.mp ha
      cases List.mem_singleton.mp hb
      exact hids x hx (heq.trans hrid)
    · cases List.mem_singleton.mp hx
      have hsame : r.value = request.value :=
        (congrArg Prepared.value hr).trans hvalue
      have hin : r.experimentId = request.experimentId :=
        (congrArg Prepared.experimentId hr).trans hexperiment
      rw [hrid, hid, hin]
      exact hrequest r hsame table bound maximum hfact

theorem proposalOf_written {r : Record CostRecord} {fact fact' : ProposalFact}
    (h : r.value = .data (.other (texts.write fact)))
    (hfact : proposalOf texts r = some fact') : fact' = fact := by
  rw [proposalOf, h] at hfact
  exact texts.read_write fact fact' hfact

theorem Recorded.recordStarted {table : PriceTable} {bound : CallBound}
    {parent : Option String} (h : Recorded digests texts db) :
    Recorded digests texts
      (ProposalCosts.recordStarted host digests texts experimentId table bound parent db).2 := by
  unfold ProposalCosts.recordStarted
  split
  · exact h
  · next request hrequest =>
      simp only [ProposalCosts.startRequest, bind_ok, pure_ok] at hrequest
      obtain ⟨-, -, -, -, t, -, -, -, evidence, -, -, -, amount, -, links, -, rfl⟩ := hrequest
      refine h.put fun r hr table' bound' maximum' hfact => ?_
      cases proposalOf_written hr hfact
      rfl

theorem Recorded.settle {invocationId : String} {receipt : UsageReceipt}
    (h : Recorded digests texts db) :
    Recorded digests texts
      (ProposalCosts.settle host digests texts experimentId invocationId receipt db).2 := by
  unfold ProposalCosts.settle
  split
  · exact h
  · next request hrequest =>
      simp only [ProposalCosts.settleRequest, bind_ok] at hrequest
      obtain ⟨-, -, start, -, hrequest⟩ := hrequest
      split at hrequest
      next table bound maximum hstart =>
        simp only [bind_ok, pure_ok, Prod.exists] at hrequest
        obtain ⟨amount, exceeded, -, rfl⟩ := hrequest
        refine h.put fun r hr table' bound' maximum' hfact => ?_
        cases proposalOf_written hr hfact
      next => cases hrequest

inductive CostStep (digests : Digests) (texts : ProposalText) (db : CostDb) :
    CostDb → Prop
  | started (host : CostHost) (experimentId : String) (table : PriceTable)
      (bound : CallBound) (parent : Option String) :
      CostStep digests texts db
        (ProposalCosts.recordStarted host digests texts experimentId table bound parent db).2
  | settled (host : CostHost) (experimentId invocationId : String)
      (receipt : UsageReceipt) :
      CostStep digests texts db
        (ProposalCosts.settle host digests texts experimentId invocationId receipt db).2
  | elsewhere {db' : CostDb} {new : List (Record CostRecord)}
      (hrecords : db'.records = db.records ++ new)
      (hids : (db'.records.map fun r => r.recordId).Nodup)
      (hnew : ∀ r ∈ new, proposalOf texts r = none) : CostStep digests texts db db'

def CostReachable (digests : Digests) (texts : ProposalText) (db : CostDb) : Prop :=
  ∃ start : CostDb, start.records = [] ∧
    Relation.ReflTransGen (CostStep digests texts) start db

theorem CostReachable.recorded (h : CostReachable digests texts db) :
    Recorded digests texts db := by
  obtain ⟨start, hempty, hrun⟩ := h
  induction hrun with
  | refl =>
      refine ⟨?_, fun r hr => ?_⟩
      · rw [hempty]
        exact .nil
      · rw [hempty] at hr
        cases hr
  | tail _ hstep ih =>
      cases hstep with
      | started host experimentId table bound parent => exact ih.recordStarted
      | settled host experimentId invocationId receipt => exact ih.settle
      | elsewhere hrecords hids hnew =>
          refine ih.append hrecords hids fun r hr table bound maximum hfact => ?_
          rw [hnew r hr] at hfact
          cases hfact

theorem origins_nodup (keyOf : Origin → Option String) {ids : List String}
    {f : String → Attempt Part} {parts : List Part} (h : gather f ids = .ok parts) (hids : ids.Nodup)
    (hpart : ∀ id ∈ ids, ∀ p, f id = .ok p → (p.executions.map Execution.origin).Nodup)
    (hkey : ∀ id ∈ ids, ∀ p, f id = .ok p → ∀ x ∈ p.executions, keyOf x.origin = some id) :
    ((parts.flatMap Part.executions).map Execution.origin).Nodup := by
  induction ids generalizing parts with
  | nil =>
      cases h
      exact .nil
  | cons id ids ih =>
      simp only [gather, bind_ok, pure_ok] at h
      obtain ⟨p, hp, parts, hparts, rfl⟩ := h
      obtain ⟨hnew, hids⟩ := List.nodup_cons.mp hids
      have hrest := ih hparts hids
        (fun j hj => hpart j (List.mem_cons_of_mem id hj))
        fun j hj => hkey j (List.mem_cons_of_mem id hj)
      rw [List.flatMap_cons, List.map_append]
      refine List.nodup_append.mpr ⟨hpart id List.mem_cons_self p hp, hrest, ?_⟩
      intro a ha b hb heq
      obtain ⟨x, hx, rfl⟩ := List.mem_map.mp ha
      obtain ⟨y, hy, rfl⟩ := List.mem_map.mp hb
      obtain ⟨q, hq, hyq⟩ := List.mem_flatMap.mp hy
      obtain ⟨j, hj, hfj⟩ := gather_from hparts hq
      have hxid := hkey id List.mem_cons_self p hp x hx
      have hyid := hkey j (List.mem_cons_of_mem id hj) q hfj y hyq
      rw [heq, hyid, Option.some_inj] at hxid
      exact hnew (hxid ▸ hj)

def Origin.testId? : Origin → Option String
  | .test testId _ => some testId
  | .proposal .. => none

theorem testPart_origins {p : Part} (h : testPart host db testId = .ok p) :
    (p.executions.map Execution.origin).Nodup ∧
      ∀ x ∈ p.executions, x.origin.testId? = some testId := by
  rcases testPart_cases h with ⟨-, hnone, -⟩ | ⟨test, row, state, -, -, -, hexecutions, -⟩
  · rw [hnone]
    exact ⟨.nil, fun x hx => absurd hx List.not_mem_nil⟩
  · refine ⟨?_, fun x hx => ?_⟩
    · have hkeys := state.value.invocations.keys_nodup
      have horigins := budgetExecutions_origins hexecutions
      rw [horigins]
      have hinjective : Function.Injective (Origin.test testId) := fun a b hab => by
        cases hab
        rfl
      have hmapped : (state.value.invocations.keys.map (Origin.test testId)).Nodup :=
        hkeys.map hinjective
      rw [Dict.keys, List.map_map] at hmapped
      exact hmapped
    · obtain ⟨k, i, value, -, -, rfl⟩ := (mem_budgetExecutions hexecutions).mp hx
      rfl

theorem mem_startIds {startId : String}
    (h : startId ∈ ExperimentCosts.startIds texts db experimentId) :
    ∃ r ∈ db.records, r.recordId = startId ∧ r.experimentId = experimentId := by
  obtain ⟨r, hr, rfl⟩ := List.mem_map.mp h
  obtain ⟨hmem, hfacts⟩ := List.mem_filter.mp hr
  exact ⟨r, hmem, rfl, (of_decide_eq_true hfacts).1⟩

theorem Recorded.read_unique (h : Recorded digests texts db) {r start : Record CostRecord}
    (hr : r ∈ db.records) (hstart : db.read r.recordId = .ok start) : start = r := by
  have hfind := need_ok.mp hstart
  have hsame : start.recordId = r.recordId := by simpa using List.find?_some hfind
  exact List.inj_on_of_nodup_map h.ids (List.mem_of_find?_eq_some hfind) hr hsame

theorem Recorded.startId (h : Recorded digests texts db) {startId : String} {p : Part}
    (hmem : startId ∈ ExperimentCosts.startIds texts db experimentId)
    (hpart : proposalPart host digests texts db experimentId startId = .ok p) :
    ∃ k i, p.executions = [⟨.proposal experimentId k, "proposal", i⟩] ∧
      startId = ProposalCosts.recordId digests experimentId "proposal-cost-start" k := by
  obtain ⟨r, hr, rfl, hexperiment⟩ := mem_startIds hmem
  obtain ⟨start, table, bound, maximum, i, exceeded, hstart, hfact, -, rfl⟩ :=
    proposalPart_cases hpart
  have hsame := h.read_unique hr hstart
  subst hsame
  have hid := h.starts start hr table bound maximum hfact
  rw [hexperiment] at hid
  exact ⟨bound.invocationId, i, rfl, hid⟩

theorem Recorded.origins_nodup (h : Recorded digests texts db) {tests proposals : List Part}
    (htests : gather (testPart host db) (ExperimentCosts.testIds db experimentId) = .ok tests)
    (hproposals : gather (proposalPart host digests texts db experimentId)
      (ExperimentCosts.startIds texts db experimentId) = .ok proposals) :
    (((tests ++ proposals).flatMap Part.executions).map Execution.origin).Nodup := by
  have htestIds : (ExperimentCosts.testIds db experimentId).Nodup :=
    h.ids.sublist (List.filter_sublist.map _)
  have hstartIds : (ExperimentCosts.startIds texts db experimentId).Nodup :=
    h.ids.sublist (List.filter_sublist.map _)
  rw [List.flatMap_append, List.map_append]
  refine List.nodup_append.mpr ⟨?_, ?_, ?_⟩
  · exact Costs.origins_nodup Origin.testId? htests htestIds
      (fun id _ p hp => (testPart_origins hp).1) fun id _ p hp => (testPart_origins hp).2
  · refine Costs.origins_nodup (fun o => match o with
        | .test .. => none
        | .proposal _ k => some (ProposalCosts.recordId digests experimentId
            "proposal-cost-start" k)) hproposals hstartIds (fun id hid p hp => ?_)
      fun id hid p hp x hx => ?_
    · obtain ⟨k, i, hexecutions, -⟩ := h.startId hid hp
      rw [hexecutions]
      exact List.nodup_cons.mpr ⟨nofun, .nil⟩
    · obtain ⟨k, i, hexecutions, rfl⟩ := h.startId hid hp
      rw [hexecutions] at hx
      cases List.mem_singleton.mp hx
      rfl
  · intro a ha b hb heq
    obtain ⟨x, hx, rfl⟩ := List.mem_map.mp ha
    obtain ⟨y, hy, rfl⟩ := List.mem_map.mp hb
    obtain ⟨p, hp, hxp⟩ := List.mem_flatMap.mp hx
    obtain ⟨q, hq, hyq⟩ := List.mem_flatMap.mp hy
    obtain ⟨testId, -, hpart⟩ := gather_from htests hp
    obtain ⟨startId, hstart, hqpart⟩ := gather_from hproposals hq
    have hkey := (testPart_origins hpart).2 x hxp
    obtain ⟨k, i, hexecutions, -⟩ := h.startId hstart hqpart
    rw [hexecutions] at hyq
    cases List.mem_singleton.mp hyq
    rw [heq] at hkey
    cases hkey

/-! ## The law of the overview -/

structure CostLaw (host : CostHost) (digests : Digests) (texts : ProposalText)
    (db : CostDb) (experimentId : String) (report : CostReport)
    (executions : List Execution) : Prop where
  once : (executions.map Execution.origin).Nodup
  counted : ∀ x, x ∈ executions ↔ Physical host digests texts db experimentId x
  total : report.total = tallyFrom .new executions
  purposes : ∀ purpose, report.byPurpose.get? purpose =
    if executions.filter (fun x => x.purpose = purpose) = [] then none
    else some (tallyFrom .new (executions.filter fun x => x.purpose = purpose))
  buckets : ∀ bucket, report.byBucket.get? bucket =
    if executions.filter (fun x => x.bucket = bucket) = [] then none
    else some (tallyFrom .new (executions.filter fun x => x.bucket = bucket))
  over_purposes : report.total.amounts = report.byPurpose.sum fun _ t => t.amounts
  over_buckets : report.total.amounts = report.byBucket.sum fun _ t => t.amounts
  missing : ∀ t, t ∈ report.missingCostTests ↔ MissingCost db experimentId t
  failures : ∀ f, f ∈ report.failures ↔ Failed host digests texts db experimentId f
  valid : report.accountingValid = true ↔
    (∀ t, ¬ MissingCost db experimentId t) ∧
      (∀ x, Physical host digests texts db experimentId x →
        x.invocation.status.pending = false ∧ x.invocation.status ≠ .reserved) ∧
      ∀ f, ¬ Failed host digests texts db experimentId f

/-- What the overview reads can be read. -/
structure Countable (host : CostHost) (digests : Digests) (texts : ProposalText)
    (db : CostDb) (experimentId : String) : Prop where
  known : experimentId ∈ db.experiments
  tests : ∀ t ∈ ExperimentCosts.testIds db experimentId, ∃ p, testPart host db t = .ok p
  proposals : ∀ s ∈ ExperimentCosts.startIds texts db experimentId,
    ∃ p, proposalPart host digests texts db experimentId s = .ok p

theorem nodup_origins (h : (executions.map (Execution.identity digests)).Nodup) :
    (executions.map Execution.origin).Nodup := by
  have hcompose : executions.map (Execution.identity digests) =
      (executions.map Execution.origin).map fun o => digests.identity o.key := by
    rw [List.map_map]
    rfl
  rw [hcompose] at h
  exact h.of_map _

theorem nodup_identities (hdigest : Function.Injective digests.identity)
    (h : (executions.map Execution.origin).Nodup) :
    (executions.map (Execution.identity digests)).Nodup := by
  have hinjective : Function.Injective fun o : Origin => digests.identity o.key :=
    hdigest.comp Origin.key_injective
  have hmapped := h.map hinjective
  rw [List.map_map] at hmapped
  exact hmapped

theorem report_valid (parts : List Part) (tests starts : ℕ) :
    (reportOf digests parts tests starts).accountingValid = true ↔ parts.flatMap Part.missing = [] ∧
        (tallyFrom .new (parts.flatMap Part.executions)).unsettledInvocations = 0 ∧
        (tallyFrom .new (parts.flatMap Part.executions)).reservedInvocations = 0 ∧
        parts.flatMap Part.failures = [] := by
  simp only [reportOf, Bool.and_eq_true, decide_eq_true_eq, not_or, not_not, and_assoc]
  rfl

end Ahunter.Costs
