import Ahunter.Proofs.BudgetMoves
import Ahunter.Proofs.RecordReads

/-!
# Runs of a cost budget

A call that commits has read a budget, made one move from it, and committed
the result expecting the revision it read. The revision is still current
when it commits, so the move is one from the budget the store holds
(`step_cases`), and a run of any number of workers is a sequence of moves.

What the log says of an invocation is then a function of its status
(`InvocationStatus.tally`): one start and no release once it has begun, and
one settlement exactly when it is settled.
-/

namespace Ahunter.Costs

open Ahunter.Lib
open Ahunter.Records

/-! ## Decisions -/

/-- What a decision rests on: the projection it read, at the revision its
commit expects. -/
inductive Basis (testId : String) (db : CostDb) : Option ℕ → Option BudgetValue → Prop
  | none (hread : db.projection testId "cost_budget" = .ok none) :
      Basis testId db none none
  | some {row : Revision Projection} {v : BudgetValue}
      (hread : db.projection testId "cost_budget" = .ok (some row))
      (hvalue : row.value = .data (.budget v)) :
      Basis testId db (some row.sequence) (some v)

namespace CostBudget

variable {b : CostBudget} {host : CostHost} {digests : Digests} {db : CostDb}
  {actionId : String}

variable {invocationId : String}

theorem state_ok {sequence : ℕ} {v : BudgetValue} (h : b.state db = .ok (sequence, v)) :
    Basis b.lease.testId db (some sequence) (some v) := by
  simp only [state, bind_ok, need_ok] at h
  obtain ⟨_, hread, row, rfl, h⟩ := h
  split at h
  · next value hvalue =>
      simp only [bind_ok, pure_ok, Prod.mk.injEq] at h
      obtain ⟨-, -, rfl, rfl⟩ := h
      exact .some hread hvalue
  · cases h

variable {expected : Option ℕ} {v : BudgetValue} {request : BudgetRequest}
  {response : BudgetResponse} {extra : List (ProjectionUpdate Projection)}
  {envelope : ResourceEnvelope} {campaignId resultId : Option String}

theorem allocated_ok {table : PriceTable} {total : Option Decimal} {limits : Limits}
    {allocation : Option Allocation}
    (h : b.allocated host digests table envelope campaignId resultId db
      = .ok (total, limits, allocation)) : limits.AddUp total := by
  unfold allocated at h
  dsimp only at h
  split at h
  · simp only [bind_ok, pure_ok, Prod.mk.injEq] at h
    obtain ⟨-, -, _, -, -, -, reserves, -, rfl, rfl, -⟩ := h
    exact reserves.within_addUp _
  · simp only [bind_ok, pure_ok, Prod.mk.injEq] at h
    obtain ⟨allocation, -, rfl, rfl, -⟩ := h
    exact allocation.addUp

theorem initializeBudget_commit {table : PriceTable}
    (h : b.initializeBudget host digests table envelope actionId campaignId resultId db
      = .ok (.commit expected v request response extra)) :
    ∃ old, Basis b.lease.testId db expected old ∧ Move old request response v := by
  unfold initializeBudget at h
  obtain ⟨prior, -, h⟩ := bind_ok.mp h
  split at h
  · cases pure_ok.mp h
  · simp only [bind_ok, refuse_ok, Bool.not_eq_true, Option.isSome_eq_false_iff,
      Option.isNone_iff_eq_none] at h
    obtain ⟨row, hrow, -, rfl, ⟨total, limits, allocation⟩, hlimits, h⟩ := h
    cases pure_ok.mp h
    exact ⟨none, .none hrow, .opened (allocated_ok hlimits) rfl rfl⟩

variable {bound : CallBound}

theorem admitted_ok {amount : Decimal}
    (h : b.admitted host v bound = .ok amount) : 0 ≤ amount.toRat := by
  simp only [admitted, bind_ok] at h
  obtain ⟨-, -, -, -, -, -, -, -, -, -, -, -, hprice⟩ := h
  exact price_nonneg hprice

theorem grant_move {amount : Decimal}
    (hnew : v.invocations.get? bound.invocationId = none) (hamount : 0 ≤ amount.toRat) :
    Move (some v) (.reserve bound) (grant v bound amount actionId).2
      (grant v bound amount actionId).1 := by
  unfold grant
  split
  · exact .denied (.inl rfl)
  · split
    · next rest hrest =>
        split
        · exact .denied (.inr ⟨rest, amount, rfl⟩)
        · next hfit =>
            refine .reserved hnew hamount fun limit hlimit => ?_
            rw [left, hlimit, Option.map_some, Option.some.injEq] at hrest
            have hle := Decimal.le_of_not_gt hfit
            rw [Decimal.le_def, ← hrest, toRat_remaining] at hle
            rw [← totals_charge]
            simp only [List.map_cons, List.map_nil, List.sum_cons, List.sum_nil] at hle
            linarith
    · next hnone =>
        refine .reserved hnew hamount fun limit hlimit => ?_
        rw [left, hlimit] at hnone
        cases hnone

theorem reserve_commit
    (h : b.reserve host bound actionId db = .ok (.commit expected v request response extra)) :
    ∃ old, Basis b.lease.testId db expected old ∧ Move old request response v := by
  unfold reserve at h
  obtain ⟨prior, -, h⟩ := bind_ok.mp h
  split at h
  · cases pure_ok.mp h
  · obtain ⟨⟨sequence, u⟩, hstate, h⟩ := bind_ok.mp h
    dsimp only at h
    split at h
    · simp only [bind_ok, pure_ok, reduceCtorEq, and_false, exists_false] at h
    · next hnew =>
        obtain ⟨amount, hamount, h⟩ := bind_ok.mp h
        cases pure_ok.mp h
        exact ⟨_, state_ok hstate, grant_move hnew (admitted_ok hamount)⟩

theorem change_commit {operation : ChangeOperation} {updates : List (ProjectionUpdate Projection)}
    (h : b.change operation invocationId actionId updates db
      = .ok (.commit expected v request response extra)) :
    ∃ old, Basis b.lease.testId db expected old ∧ Move old request response v := by
  unfold change at h
  obtain ⟨prior, -, h⟩ := bind_ok.mp h
  split at h
  · cases pure_ok.mp h
  · simp only [bind_ok, need_ok] at h
    obtain ⟨⟨sequence, u⟩, hstate, i, hi, status, hstatus, h⟩ := h
    cases pure_ok.mp h
    exact ⟨_, state_ok hstate, .changed hi hstatus⟩

theorem settle_ok {receipt : UsageReceipt}
    (h : b.settle host invocationId receipt actionId db
      = .ok (.commit expected v request response extra)) :
    ∃ sequence u i amount exceeded, b.state db = .ok (sequence, u) ∧
      u.invocations.get? invocationId = some i ∧
      pricedReceipt host u.table i receipt = .ok (amount, exceeded) ∧ expected = some sequence ∧
      v = settled u invocationId i receipt amount exceeded (.action actionId) ∧
      request = .settle invocationId receipt ∧
      response = .settled invocationId amount exceeded ∧ extra = [] := by
  unfold settle at h
  obtain ⟨prior, -, h⟩ := bind_ok.mp h
  split at h
  · cases pure_ok.mp h
  · simp only [bind_ok, need_ok] at h
    obtain ⟨⟨sequence, u⟩, hstate, i, hi, h⟩ := h
    split at h
    · obtain ⟨-, -, h⟩ := bind_ok.mp h
      split at h
      · simp only [bind_ok, pure_ok, reduceCtorEq, and_false, exists_false] at h
      · cases h
    · obtain ⟨⟨amount, exceeded⟩, hpriced, h⟩ := bind_ok.mp h
      cases pure_ok.mp h
      exact ⟨sequence, u, i, amount, exceeded, hstate, hi, hpriced, rfl, rfl, rfl, rfl,
        rfl⟩

theorem settle_commit {receipt : UsageReceipt}
    (h : b.settle host invocationId receipt actionId db
      = .ok (.commit expected v request response extra)) :
    ∃ old, Basis b.lease.testId db expected old ∧ Move old request response v := by
  obtain ⟨sequence, u, i, amount, exceeded, hstate, hi, hpriced, rfl, rfl, rfl, rfl,
    rfl⟩ := settle_ok h
  obtain ⟨hpending, hamount, hexceeded⟩ := pricedReceipt_ok hpriced
  exact ⟨_, state_ok hstate, .settled hi hpending hamount hexceeded⟩

end CostBudget

variable {digests : Digests} {db : CostDb} {response : BudgetResponse}

theorem BudgetCall.decide_commit {c : BudgetCall} {expected : Option ℕ} {v : BudgetValue}
    {request : BudgetRequest} {extra : List (ProjectionUpdate Projection)}
    (h : c.decide digests db = .ok (.commit expected v request response extra)) :
    ∃ old, Basis c.budget.lease.testId db expected old ∧ Move old request response v := by
  unfold decide at h
  split at h
  · exact CostBudget.initializeBudget_commit h
  · exact CostBudget.reserve_commit h
  · exact CostBudget.change_commit h
  · exact CostBudget.change_commit h
  · exact CostBudget.change_commit h
  · exact CostBudget.settle_commit h

/-! ## Steps -/

variable {testId : String} {db' : CostDb}

structure Unmoved (testId : String) (db db' : CostDb) : Prop where
  row : budgetRow db' testId = budgetRow db testId
  events : ∃ new, db'.events = db.events ++ new ∧ ∀ e ∈ new,
    (e.testId = testId → ¬ BudgetEvent e) ∧ (e.updates.map ProjectionUpdate.name).Nodup

def held (row : Option (Revision Projection)) : Option BudgetValue :=
  row.bind fun r => match r.value with
    | .data (.budget v) => some v
    | _ => none

structure Moved (testId : String) (db db' : CostDb) (event : CostEvent)
    (request : BudgetRequest) (response : BudgetResponse) (v : BudgetValue) : Prop where
  events : db'.events = db.events ++ [event]
  owner : event.testId = testId
  payload : event.content.payload = .data (.budget request response)
  once : (event.updates.map ProjectionUpdate.name).Nodup
  row : budgetRow db' testId = some ⟨event.sequence, .data (.budget v)⟩
  opened : (budgetRow db testId).isSome = (held (budgetRow db testId)).isSome
  move : Move (held (budgetRow db testId)) request response v

theorem Unmoved.refl (testId : String) (db : CostDb) : Unmoved testId db db :=
  ⟨rfl, [], by simp, by simp⟩

def RecordsOperation (guard : CostDb → Attempt CostDb) : Prop :=
  ∀ db g, guard db = .ok g → g.events = db.events ∧ g.projections = db.projections ∧
    ∃ new, g.records = db.records ++ new ∧
      ∀ r ∈ new, ∃ request response, r.value = .data (.operation request response)

theorem RecordsOperation.restrained {guard : CostDb → Attempt CostDb}
    (h : RecordsOperation guard) : Db.Restrained guard := by
  intro db g hg
  obtain ⟨hevents, hprojections, new, hnew, -⟩ := h db g hg
  exact ⟨hevents, hprojections, new, hnew⟩

theorem prepare_ok {host : CostHost} {request prepared : Prepared CostRecord}
    (h : prepare host request = .ok prepared) :
    prepared.experimentId = request.experimentId ∧ prepared.kind = request.kind ∧
      prepared.recordId = request.recordId ∧ prepared.value = request.value ∧
      prepared.links = sortedLinks request.links := by
  simp only [prepare, bind_ok, pure_ok] at h
  obtain ⟨-, -, -, -, -, -, rfl⟩ := h
  exact ⟨rfl, rfl, rfl, rfl, rfl⟩

theorem BudgetCall.run_committed (c : BudgetCall) (digests : Digests) (read db : CostDb) :
    (c.run digests read db).2 = db ∨ ∃ expected v request response extra event guard,
        c.decide digests read = .ok (.commit expected v request response extra) ∧
        RecordsOperation guard ∧
        Db.Committed c.host (c.budget.event c.actionId expected v request response extra)
          guard db (c.run digests read db).2 event := by
  unfold run
  split
  · exact .inl rfl
  · next decision hdecide =>
      cases decision with
      | done event => exact .inl rfl
      | commit expected v request response extra =>
          simp only [CostBudget.commit]
          split
          · exact .inl rfl
          · next prepared hprepared =>
              refine (Db.commit_cases _ _ _ _).imp_right ?_
              rintro ⟨_, _, event, hcommitted⟩
              refine
                ⟨expected, v, request, response, extra, event, _, hdecide, ?_, hcommitted⟩
              intro db g hg
              simp only [bind_ok, pure_ok] at hg
              obtain ⟨-, -, ⟨record, g'⟩, hinsert, rfl⟩ := hg
              obtain ⟨hrecord, ⟨rfl, -⟩ | ⟨rfl, -⟩⟩ := Db.insert_cases hinsert
              · exact ⟨rfl, rfl, [], by simp, by simp⟩
              · refine ⟨rfl, rfl, [record], rfl, fun r hr => ?_⟩
                obtain ⟨-, -, -, hvalue, -⟩ := prepare_ok hprepared
                rw [List.mem_singleton.mp hr]
                exact ⟨request, response, (congrArg Prepared.value hrecord).trans hvalue⟩

theorem Basis.current {read : CostDb} {expected : Option ℕ} {old : Option BudgetValue}
    (h : Basis testId read expected old) (hread : read.events <+: db.events)
    (honce : db.WritesOnce) {current : Option (Revision Projection)}
    (hcurrent : db.projection testId "cost_budget" = .ok current)
    (hsequence : current.map Revision.sequence = expected) :
    budgetRow db testId = current ∧ held current = old ∧
      current.isSome = (held current).isSome := by
  cases h with
  | none =>
      rw [Option.map_eq_none_iff] at hsequence
      subst hsequence
      exact ⟨Db.projection_none hcurrent, rfl, rfl⟩
  | @some row v hrow hvalue =>
      obtain ⟨row', rfl, hsame⟩ := Option.map_eq_some_iff.mp hsequence
      cases Db.projection_stable hread honce hrow hcurrent hsame
      refine ⟨(Db.projection_some hcurrent).1, ?_, ?_⟩ <;> simp [held, hvalue]

theorem step_cases (testId : String) (h : Step digests db db') (honce : db.WritesOnce) :
    Unmoved testId db db' ∨
      ∃ event request response v, Moved testId db db' event request response v := by
  cases h with
  | elsewhere h =>
      obtain ⟨new, hnew, hevents⟩ := h.events
      exact .inl ⟨h.rows testId, new, hnew, fun e he =>
        ⟨fun _ => (hevents e he).1, (hevents e he).2⟩⟩
  | call c read hread =>
      rcases c.run_committed digests read db with
        hsame | ⟨expected, v, request, response, extra, event, guard, hdecide, hguard,
          hcommitted⟩
      · rw [hsame]
        exact .inl (.refl testId db)
      · obtain ⟨old, hbasis, hmove⟩ := c.decide_commit hdecide
        have hupdates := Db.updatesOf_plain rfl hcommitted.updates
        have happended := hcommitted.appended hguard.restrained
        have howner : event.testId = c.budget.lease.testId := hcommitted.identity.1
        have hwritten : (⟨"cost_budget", expected, .data (.budget v)⟩ :
            ProjectionUpdate Projection) ∈ event.updates := by
          rw [hupdates]
          exact List.mem_cons_self
        by_cases ht : c.budget.lease.testId = testId
        · subst ht
          obtain ⟨current, hcurrent, hsequence⟩ :=
            Db.revisionsCurrent_mem hcommitted.current hwritten
          obtain ⟨hrow, hheld, hopened⟩ :=
            hbasis.current hread honce hcurrent hsequence
          refine .inr ⟨event, request, response, v, happended.events, howner, ?_,
            happended.once, ?_, ?_, ?_⟩
          · rw [hcommitted.content]
            rfl
          · rw [budgetRow, happended.projections, ← howner]
            exact Db.get?_writeAll_self happended.once hwritten
          · rw [hrow, hopened]
          · rw [hrow, hheld]
            exact hmove
        · refine .inl ⟨?_, [event], happended.events, fun e he => ?_⟩
          · rw [budgetRow, happended.projections, budgetRow]
            exact Db.get?_writeAll_other (.inl (howner ▸ Ne.symm ht))
          · rw [List.mem_singleton.mp he]
            exact ⟨fun heq => absurd (howner.symm.trans heq) ht, happended.once⟩

/-! ## What a run keeps -/

/-- How often the log says an invocation was started, released and settled. -/
structure Tally where
  starts : ℕ
  releases : ℕ
  settlements : ℕ
deriving DecidableEq

def tally (db : CostDb) (testId k : String) : Tally where
  starts := (requests db testId (BudgetRequest.starts k)).length
  releases := (requests db testId (BudgetRequest.releases k)).length
  settlements := (requests db testId (BudgetRequest.settles k)).length

def InvocationStatus.tally : InvocationStatus → Tally
  | .reserved => ⟨0, 0, 0⟩
  | .started | .unsettled => ⟨1, 0, 0⟩
  | .settled .. => ⟨1, 0, 1⟩
  | .releasedUnstarted => ⟨0, 1, 0⟩

def expectedTally (o : Option Invocation) : Tally :=
  o.elim ⟨0, 0, 0⟩ fun i => i.status.tally

structure Kept (testId : String) (db : CostDb) : Prop where
  once : db.WritesOnce
  row : (budgetRow db testId).isSome = (held (budgetRow db testId)).isSome
  sound : ∀ v, held (budgetRow db testId) = some v → Sound v
  logged : ∀ k, tally db testId k
    = expectedTally ((held (budgetRow db testId)).bind fun v => v.invocations.get? k)

theorem requests_append {p : BudgetRequest → Bool} {new : List CostEvent}
    (h : db'.events = db.events ++ new) :
    requests db' testId p = requests db testId p ++ new.filter fun e =>
      e.testId = testId ∧ (CostBudget.requestOf e).any p = true := by
  rw [requests, h, List.filter_append]
  rfl

theorem filter_requests {events : List CostEvent} {p : BudgetRequest → Bool}
    (h : ∀ e ∈ events, e.testId = testId → ¬ BudgetEvent e) :
    (events.filter fun e => e.testId = testId ∧ (CostBudget.requestOf e).any p = true) = [] := by
  rw [List.filter_eq_nil_iff]
  intro e he
  rw [decide_eq_true_eq]
  rintro ⟨ht, hp⟩
  refine h e he ht (.inr ?_)
  cases hr : CostBudget.requestOf e with
  | none => rw [hr] at hp; cases hp
  | some r => rfl

theorem Unmoved.requests (h : Unmoved testId db db') (p : BudgetRequest → Bool) :
    requests db' testId p = Costs.requests db testId p := by
  obtain ⟨new, hnew, hevents⟩ := h.events
  rw [requests_append hnew, filter_requests fun e he => (hevents e he).1,
    List.append_nil]

theorem Moved.requests {event : CostEvent} {request : BudgetRequest}
    {v : BudgetValue} (h : Moved testId db db' event request response v)
    (p : BudgetRequest → Bool) :
    (requests db' testId p).length
      = (Costs.requests db testId p).length + if p request then 1 else 0 := by
  have hrequest : CostBudget.requestOf event = some request := by
    rw [CostBudget.requestOf, h.payload]
  rw [requests_append h.events, List.length_append]
  congr 1
  cases hp : p request <;>
    simp [h.owner, hrequest, hp]

theorem Moved.tally {event : CostEvent} {request : BudgetRequest}
    {v : BudgetValue} (h : Moved testId db db' event request response v) (k : String) :
    tally db' testId k = ⟨(Costs.tally db testId k).starts + if request.starts k then 1 else 0,
        (Costs.tally db testId k).releases + if request.releases k then 1 else 0,
        (Costs.tally db testId k).settlements + if request.settles k then 1 else 0⟩ := by
  simp only [Costs.tally, h.requests]

theorem Move.tally {old : Option BudgetValue} {request : BudgetRequest}
    {v : BudgetValue} (h : Move old request response v) (k : String) {before : Tally}
    (hbefore : before = expectedTally (old.bind fun u => u.invocations.get? k)) :
    (⟨before.starts + if request.starts k then 1 else 0,
      before.releases + if request.releases k then 1 else 0,
      before.settlements + if request.settles k then 1 else 0⟩ : Tally)
      = expectedTally (v.invocations.get? k) := by
  subst hbefore
  cases h with
  | opened _ hinvocations _ =>
      rw [hinvocations, Dict.get?_empty]
      rfl
  | denied =>
      simp [BudgetRequest.starts, BudgetRequest.releases, BudgetRequest.settles]
  | @reserved u bound amount actionId hnew _ _ =>
      simp only [BudgetRequest.starts, BudgetRequest.releases, BudgetRequest.settles,
        BudgetValue.assign, Dict.get?_set, Option.bind_some]
      by_cases hk : k = bound.invocationId
      · subst hk
        simp [hnew, expectedTally, InvocationStatus.tally]
      · simp [hk]
  | @changed u operation j i status extra hget htarget =>
      simp only [BudgetValue.assign, Dict.get?_set, Option.bind_some]
      by_cases hk : k = j
      · subst hk
        rw [hget, if_pos rfl]
        cases operation <;> cases hs : i.status <;>
          simp_all [ChangeOperation.target] <;> subst htarget <;>
          simp [expectedTally, InvocationStatus.tally, BudgetRequest.starts,
            BudgetRequest.releases, BudgetRequest.settles, hs]
      · rw [if_neg hk]
        cases operation <;>
          simp [BudgetRequest.starts, BudgetRequest.releases, BudgetRequest.settles,
            Ne.symm hk]
  | @settled u j i receipt amount exceeded by_ hget hpending _ _ =>
      simp only [CostBudget.settled, BudgetValue.assign, Dict.get?_set, Option.bind_some]
      by_cases hk : k = j
      · subst hk
        rw [hget, if_pos rfl]
        cases hs : i.status <;>
          simp_all [InvocationStatus.pending, expectedTally, InvocationStatus.tally,
            BudgetRequest.starts, BudgetRequest.releases, BudgetRequest.settles]
      · rw [if_neg hk]
        simp [BudgetRequest.starts, BudgetRequest.releases, BudgetRequest.settles,
          Ne.symm hk]

theorem writesOnce_append {new : List CostEvent} (h : db.WritesOnce)
    (hnew : db'.events = db.events ++ new)
    (hevents : ∀ e ∈ new, (e.updates.map ProjectionUpdate.name).Nodup) : db'.WritesOnce := by
  intro e he
  rw [hnew, List.mem_append] at he
  exact he.elim (h e) (hevents e)

theorem Kept.step (hkept : Kept testId db) (h : Step digests db db') : Kept testId db' := by
  rcases step_cases testId h hkept.once with
    hsame | ⟨event, request, response, v, hmoved⟩
  · obtain ⟨new, hnew, hevents⟩ := hsame.events
    refine ⟨writesOnce_append hkept.once hnew fun e he => (hevents e he).2, ?_, ?_, ?_⟩
    · rw [hsame.row]
      exact hkept.row
    · rw [hsame.row]
      exact hkept.sound
    · intro k
      rw [hsame.row, ← hkept.logged k, tally, tally]
      simp only [hsame.requests]
  · have hheld : held (budgetRow db' testId) = some v := by rw [hmoved.row]; rfl
    refine ⟨writesOnce_append hkept.once hmoved.events fun e he => ?_, ?_, ?_, ?_⟩
    · rw [List.mem_singleton.mp he]
      exact hmoved.once
    · rw [hheld, hmoved.row]
      rfl
    · intro u hu
      rw [hheld] at hu
      cases hu
      exact hmoved.move.sound hkept.sound
    · intro k
      rw [hheld, Option.bind_some, hmoved.tally]
      exact hmoved.move.tally k (hkept.logged k)

theorem Unopened.kept (h : Unopened testId db) : Kept testId db := by
  refine ⟨h.once, by rw [h.row]; rfl, ?_, ?_⟩
  · intro v hv
    rw [h.row] at hv
    cases hv
  · intro k
    have hnone : ∀ p, requests db testId p = [] := fun _ => filter_requests h.events
    rw [tally, h.row]
    simp only [hnone]
    rfl

theorem Run.kept (h : Run digests db db') (hstart : Unopened testId db) : Kept testId db' := by
  induction h with
  | refl => exact hstart.kept
  | tail _ hstep ih => exact ih.step hstep

end Ahunter.Costs
