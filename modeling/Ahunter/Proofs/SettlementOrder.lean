import Ahunter.Proofs.Reconciling

/-!
# The order and the time of settlements

A run settles a set of invocations, each with its own receipt. A worker
settles one while the test is active, by a commit under its lease; a
reconciliation settles one after the test has ended, by a fact of its own.
Between them the status of the test moves, leases are claimed and renewed,
and everybody else writes.

What every such run keeps (`Settleable`) is that the budget can be read and
is the one it started from with some of the set settled. Two runs that
settled the whole set therefore end in the same costs. A worker's settlement
finds no facts, because facts are only recorded of a test whose status is
terminal, which no lease passes and no transition leaves.
-/

namespace Ahunter.Costs

open Ahunter.Lib
open Ahunter.Records

/-! ## Reading the effective budget -/

variable {db : CostDb} {testId : String}

theorem pricedReceipt_reader (host : CostHost) (table : PriceTable) (i : Invocation)
    (receipt : UsageReceipt) :
    pricedReceipt host table i receipt
      = pricedReceipt (readerOf host.artifacts) table i receipt := rfl

theorem effectiveBudget_reader (host : CostHost) (db : CostDb) (testId : String) :
    effectiveBudget host db testId = effectiveBudget (readerOf host.artifacts) db testId := rfl

variable {host : CostHost} {e : Effective}

theorem effectiveBudget_ok :
    effectiveBudget host db testId = .ok e ↔
      ∃ test base, db.test testId = .ok test ∧ storedBudget db testId = .ok base ∧
        walk (overlay host test.experimentId testId) base (reconciliations db testId) = .ok e ∧
        (reconciliations db testId ≠ [] → ∃ s, db.status testId = .ok s ∧ s.terminal = true) := by
  unfold effectiveBudget
  simp only [bind_ok]
  refine exists_congr fun test => ⟨?_, ?_⟩
  · rintro ⟨htest, base, hbase, h⟩
    refine ⟨base, htest, hbase, ?_⟩
    split at h
    · next hnil => rw [hnil]; exact ⟨pure_ok.mp h ▸ rfl, fun hne => absurd rfl hne⟩
    · simp only [bind_ok, refuse_ok, Bool.not_eq_false] at h
      obtain ⟨s, hs, -, hterminal, hwalk⟩ := h
      exact ⟨hwalk, fun _ => ⟨s, hs, hterminal⟩⟩
  · rintro ⟨base, htest, hbase, hwalk, hstatus⟩
    refine ⟨htest, base, hbase, ?_⟩
    split
    · next hnil => rw [hnil] at hwalk; exact hwalk
    · next hne =>
        obtain ⟨s, hs, hterminal⟩ := hstatus hne
        simp only [bind_ok, refuse_ok, Bool.not_eq_false]
        exact ⟨s, hs, (), hterminal, hwalk⟩

/-! ## Steps -/

/-- What anyone may do to the store while a budget is being settled, other
than settle it: nothing the settlements read changes. -/
structure Aside (testId : String) (db db' : CostDb) : Prop where
  once : db.WritesOnce → db'.WritesOnce
  test : ∀ r, db.test testId = .ok r → db'.test testId = .ok r
  projection : db'.projection testId "cost_budget" = db.projection testId "cost_budget"
  facts : reconciliations db' testId = reconciliations db testId
  terminal : ∀ s, db.status testId = .ok s → s.terminal = true →
    db'.status testId = .ok s

inductive Settling (digests : Digests) (artifacts : String → Option Evidence)
    (testId : String) (receipts : Dict String UsageReceipt) (db : CostDb) :
    CostDb → Prop
  | active (c : BudgetCall) (read : CostDb) (k : String) (receipt : UsageReceipt)
      (hread : read.events <+: db.events) (hhost : c.host.artifacts = artifacts)
      (htest : c.budget.lease.testId = testId)
      (hreceipt : receipts.get? k = some receipt)
      (hoperation : c.operation = .settle k receipt) :
      Settling digests artifacts testId receipts db (c.run digests read db).2
  | terminal (host : CostHost) (guard : CostDb → Attempt Unit) (k : String)
      (receipt : UsageReceipt) (hhost : host.artifacts = artifacts)
      (hreceipt : receipts.get? k = some receipt) :
      Settling digests artifacts testId receipts db
        (TerminalCosts.settle host digests testId k receipt guard db).2
  | aside {db' : CostDb} (h : Aside testId db db') :
      Settling digests artifacts testId receipts db db'

structure Settleable (artifacts : String → Option Evidence) (testId : String)
    (receipts : Dict String UsageReceipt) (u : BudgetValue) (db : CostDb) : Prop where
  once : db.WritesOnce
  readable : ∃ e, effectiveBudget (readerOf artifacts) db testId = .ok e ∧
    SettledFrom artifacts receipts u e.value

/-! ## A worker's settlement -/

variable {db' : CostDb} {digests : Digests} {artifacts : String → Option Evidence}
    {receipts : Dict String UsageReceipt}

theorem storedBudget_of_projection {row : Revision Projection} {v : BudgetValue}
    (hrow : db.projection testId "cost_budget" = .ok (some row))
    (hvalue : row.value = .data (.budget v)) :
    storedBudget db testId = .ok ⟨row.sequence, v, []⟩ := by
  simp only [storedBudget, hrow, bind_ok, need_ok, Option.some.injEq,
    Except.ok.injEq, exists_eq_left', hvalue, pure_ok]

theorem storedBudget_ok (h : storedBudget db testId = .ok e) :
    ∃ row v, db.projection testId "cost_budget" = .ok (some row) ∧
      row.value = .data (.budget v) ∧ e = ⟨row.sequence, v, []⟩ := by
  simp only [storedBudget, bind_ok, need_ok] at h
  obtain ⟨_, hrow, row, rfl, h⟩ := h
  split at h
  · next v hvalue => exact ⟨row, v, hrow, hvalue, (pure_ok.mp h).symm⟩
  · cases h

theorem factOf_operation {r : Record CostRecord} {request : BudgetRequest}
    {response : BudgetResponse} (h : r.value = .data (.operation request response)) :
    factOf testId r = none := by
  unfold factOf
  rw [h]
  split <;> simp_all

variable {new : List (Record CostRecord)}

theorem reconciliations_append (h : db'.records = db.records ++ new) :
    reconciliations db' testId = reconciliations db testId ++
      new.filterMap fun r => (factOf testId r).map fun fact => (r, fact) := by
  rw [reconciliations, h, List.filterMap_append]
  rfl

theorem reconciliations_other
    (h : db'.records = db.records ++ new) (hnew : ∀ r ∈ new, factOf testId r = none) :
    reconciliations db' testId = reconciliations db testId := by
  have hnone : (new.filterMap fun r => (factOf testId r).map fun fact => (r, fact)) = [] := by
    rw [List.filterMap_eq_nil_iff]
    intro r hr
    rw [hnew r hr]
    rfl
  rw [reconciliations_append h, hnone, List.append_nil]

variable {u : BudgetValue}

theorem Settleable.active (h : Settleable artifacts testId receipts u db)
    {c : BudgetCall} {read : CostDb} {k : String} {receipt : UsageReceipt}
    (hread : read.events <+: db.events) (hhost : c.host.artifacts = artifacts)
    (htest : c.budget.lease.testId = testId) (hreceipt : receipts.get? k = some receipt)
    (hoperation : c.operation = .settle k receipt) :
    Settleable artifacts testId receipts u (c.run digests read db).2 := by
  rcases c.run_committed digests read db with
    hsame | ⟨expected, v, request, response, extra, event, guard, hdecide, hguard,
      hcommitted⟩
  · rw [hsame]
    exact h
  subst htest
  simp only [BudgetCall.decide, hoperation] at hdecide
  obtain ⟨sequence, w, i, amount, exceeded, hstate, hi, hpriced, rfl, rfl, rfl, rfl,
    rfl⟩ := CostBudget.settle_ok hdecide
  have happended := hcommitted.appended hguard.restrained
  have hupdates := Db.updatesOf_plain rfl hcommitted.updates
  have howner : event.testId = c.budget.lease.testId := hcommitted.identity.1
  obtain ⟨e, he, hsettled⟩ := h.readable
  obtain ⟨test, base, htest, hbase, hwalk, hstatus⟩ := effectiveBudget_ok.mp he
  -- A worker writes under its lease, so the test is live and has no facts.
  have hnil : reconciliations db c.budget.lease.testId = [] := by
    by_contra hne
    obtain ⟨s, hs, hterminal⟩ := hstatus hne
    have hwritable := hcommitted.writable
    simp only [Db.writable, CostBudget.event, bind_ok] at hwritable
    obtain ⟨_, _, hassert⟩ := hwritable
    obtain ⟨s', hs', hlive⟩ := Db.assertLease_live hassert
    rw [hs] at hs'
    cases hs'
    rw [hterminal] at hlive
    cases hlive
  rw [hnil] at hwalk
  cases hwalk
  -- The budget it read is the one the store holds.
  have hwritten : ∃ x ∈ event.updates, x = (⟨"cost_budget", some sequence,
      .data (.budget (CostBudget.settled w k i receipt amount exceeded
        (.action c.actionId)))⟩ : ProjectionUpdate Projection) := by
    rw [hupdates]
    exact ⟨_, List.mem_cons_self, rfl⟩
  obtain ⟨x, hx, rfl⟩ := hwritten
  obtain ⟨current, hcurrent, hsequence⟩ := Db.revisionsCurrent_mem hcommitted.current hx
  obtain ⟨hrow, hheld, -⟩ :=
    (CostBudget.state_ok hstate).current hread h.once hcurrent hsequence
  obtain ⟨row, v, hrow', hvalue, rfl⟩ := storedBudget_ok hbase
  have hcurrent' : db.projection c.budget.lease.testId "cost_budget" = .ok current :=
    hcurrent
  have hvw : v = w := by
    rw [hcurrent'] at hrow'
    cases hrow'
    simpa [held, hvalue] using hheld
  subst hvw
  rw [pricedReceipt_reader, hhost] at hpriced
  have hstored := storedBudget_of_projection
    (howner ▸ happended.projection_new hx) rfl
  obtain ⟨g, hg, -, hdb'⟩ := hcommitted.result
  obtain ⟨-, -, new, hnew, hoperations⟩ := hguard db g hg
  have hrecords : (c.run digests read db).2.records = db.records ++ new := by
    rw [hdb', hnew]
  have hfacts : reconciliations (c.run digests read db).2 c.budget.lease.testId = [] := by
    rw [reconciliations_other hrecords, hnil]
    intro r hr
    obtain ⟨_, _, hvalue⟩ := hoperations r hr
    exact factOf_operation hvalue
  have hafter : SettledFrom artifacts receipts u
      (CostBudget.settled v k i receipt amount exceeded (.action c.actionId)) :=
    hsettled.settle hi hreceipt hpriced
  refine ⟨writesOnce_append h.once happended.events fun e he => ?_,
    ⟨event.sequence, _, []⟩,
    effectiveBudget_ok.mpr ⟨test, _, Db.test_append hrecords htest, hstored, ?_, ?_⟩,
    hafter⟩
  · rw [List.mem_singleton.mp he]
    exact happended.once
  · rw [hfacts]
    rfl
  · exact fun hne => absurd hfacts hne

/-! ## A reconciliation -/

variable {guard : CostDb → Attempt Unit}

theorem terminalBody_cases {k experimentId : String} {request : TerminalRequest}
    {r : Record CostRecord}
    (h : terminalBody host digests testId k request experimentId guard db = .ok (r, db')) :
    db' = db ∨ ∃ s e i v, db.status testId = .ok s ∧ s.terminal = true ∧
        effectiveBudget host db testId = .ok e ∧ e.value.invocations.get? k = some i ∧
        applyFact host e.sequence e.value r.recordId ⟨testId, k, e.sequence, i, request⟩ = .ok v ∧
        db' = { db with records := db.records ++ [r] } ∧
        r.experimentId = experimentId ∧ r.kind = .cost ∧
        r.value = .data (.reconciliation ⟨testId, k, e.sequence, i, request⟩) ∧
        ⟨"test", testId⟩ ∈ r.links := by
  unfold terminalBody at h
  dsimp only at h
  split at h
  · split at h
    · simp only [bind_ok, pure_ok, Prod.mk.injEq] at h
      obtain ⟨-, -, -, rfl⟩ := h
      exact .inl rfl
    · cases h
  · simp only [bind_ok, need_ok, refuse_ok, Bool.not_eq_false] at h
    obtain ⟨s, hs, -, hterminal, e, he, i, hi, v, hv, prepared, hprepared, -, -,
      hinsert⟩ := h
    obtain ⟨hrecord, ⟨rfl, -⟩ | ⟨rfl, -⟩⟩ := Db.insert_cases hinsert
    · exact .inl rfl
    · obtain ⟨hexperiment, hkind, hid, hvalue, hlinks⟩ := prepare_ok hprepared
      rw [← hrecord] at hexperiment hkind hid hvalue hlinks
      refine .inr ⟨s, e, i, v, hs, hterminal, he, hi, ?_, rfl, hexperiment, hkind, hvalue,
        ?_⟩
      · rw [hid]
        exact hv
      · rw [hlinks]
        simp [sortedLinks]

theorem Settleable.terminal (h : Settleable artifacts testId receipts u db)
    {k : String} {receipt : UsageReceipt}
    (hhost : host.artifacts = artifacts) (hreceipt : receipts.get? k = some receipt) :
    Settleable artifacts testId receipts u
      (TerminalCosts.settle host digests testId k receipt guard db).2 := by
  obtain ⟨e, he, hsettled⟩ := h.readable
  obtain ⟨test, base, htest, hbase, hwalk, hstatus⟩ := effectiveBudget_ok.mp he
  simp only [TerminalCosts.settle, terminalWrite, htest]
  rcases transaction_cases host (terminalBody host digests testId k (.settle receipt)
    test.experimentId guard) db with
    hsame | ⟨r, db', hbody, hleft⟩
  · rw [hsame]
    exact h
  rw [hleft]
  rcases terminalBody_cases hbody with rfl | ⟨s, e', i, v, hs, hterminal, he', hi,
    happly, rfl, hexperiment, hkind, hvalue, hlink⟩
  · exact h
  rw [effectiveBudget_reader, hhost, he] at he'
  cases he'
  have hpriced : ∃ amount exceeded, pricedReceipt (readerOf artifacts) e.value.table i
      receipt = .ok (amount, exceeded) ∧ v = CostBudget.settled e.value k i receipt amount
        exceeded (.record r.recordId) := by
    simp only [applyFact, bind_ok, need_ok, pure_ok] at happly
    obtain ⟨-, -, i', hi', -, -, ⟨amount, exceeded⟩, hpriced, rfl⟩ := happly
    rw [hi] at hi'
    cases hi'
    rw [pricedReceipt_reader, hhost] at hpriced
    exact ⟨amount, exceeded, hpriced, rfl⟩
  obtain ⟨amount, exceeded, hpriced, rfl⟩ := hpriced
  have hfact : factOf testId r = some ⟨testId, k, e.sequence, i, .settle receipt⟩ := by
    simp only [factOf, hkind, hvalue, if_true]
  have hrecords : { db with records := db.records ++ [r] }.records = db.records ++ [r] :=
    rfl
  have hfacts : reconciliations { db with records := db.records ++ [r] } testId
      = reconciliations db testId ++ [(r, ⟨testId, k, e.sequence, i, .settle receipt⟩)] := by
    rw [reconciliations_append hrecords]
    simp [hfact]
  have hoverlay : overlay (readerOf artifacts) test.experimentId testId e
      (r, ⟨testId, k, e.sequence, i, .settle receipt⟩)
        = .ok ⟨e.sequence, CostBudget.settled e.value k i receipt amount exceeded
          (.record r.recordId), e.reconciliationIds ++ [r.recordId]⟩ := by
    simp only [overlay, bind_ok, refuse_ok, pure_ok, not_or, not_not]
    exact ⟨(), ⟨hexperiment, hlink⟩, _, by rw [← hhost]; exact happly, rfl⟩
  have hafter : SettledFrom artifacts receipts u
      (CostBudget.settled e.value k i receipt amount exceeded (.record r.recordId)) :=
    hsettled.settle hi hreceipt hpriced
  refine ⟨h.once, ⟨e.sequence, _, e.reconciliationIds ++ [r.recordId]⟩,
    effectiveBudget_ok.mpr ⟨test, base, Db.test_append hrecords htest, ?_, ?_,
      fun _ => ⟨s, ?_, hterminal⟩⟩, hafter⟩
  · have hprojection : ({ db with records := db.records ++ [r] } : CostDb).projection
        testId "cost_budget" = db.projection testId "cost_budget" :=
      Db.projection_congr rfl rfl
    rw [storedBudget, hprojection]
    exact hbase
  · rw [hfacts, walk_append, hwalk]
    exact walk_cons_ok.mpr ⟨_, hoverlay, rfl⟩
  · exact Db.status_append hrecords rfl rfl hs

/-! ## Steps aside -/

theorem Aside.refl (testId : String) (db : CostDb) : Aside testId db db :=
  ⟨id, fun _ => id, rfl, rfl, fun _ hs _ => hs⟩

theorem commitWith_aside {c : Commit CostPayload Projection}
    {guard : CostDb → Attempt CostDb} (hguard : Db.Restrained guard)
    (hfacts : ∀ g, guard db = .ok g → reconciliations g testId = reconciliations db testId)
    (hbudget : "cost_budget" ∉ c.content.updates.map ProjectionUpdate.name)
    (hstatus : "status" ∉ c.content.updates.map ProjectionUpdate.name) :
    Aside testId db (db.commitWith host c guard).2 := by
  rcases Db.commitWith_cases host c guard db with hsame | ⟨event, hcommitted⟩
  · rw [hsame]
    exact .refl testId db
  · have happended := hcommitted.appended hguard
    obtain ⟨new, hnew⟩ := happended.records
    obtain ⟨g, hg, -, hdb'⟩ := hcommitted.result
    refine ⟨fun h => writesOnce_append h happended.events fun e he => ?_,
      fun _ => Db.test_append hnew, happended.projection_other (.inr ?_), ?_,
      fun s hs hterminal => hcommitted.terminal hguard hstatus hs hterminal⟩
    · rw [List.mem_singleton.mp he]
      exact happended.once
    · cases htarget : c.content.transitionTo with
      | none => rwa [Db.updatesOf_plain htarget hcommitted.updates]
      | some target =>
          have hupdates := hcommitted.updates
          simp only [Db.updatesOf, htarget, bind_ok, pure_ok] at hupdates
          obtain ⟨_, _, _, _, _, _, _, _, heq⟩ := hupdates
          rw [← heq]
          simp
    · rw [← hfacts g hg, hdb']
      rfl

theorem transition_aside {t : String} {target : Status} {actionId : String}
    {lease : Option Lease} {reason : Option String} :
    Aside testId db (db.transition host t target actionId lease reason).2 :=
  commitWith_aside Db.restrained_pure (fun g hg => by cases pure_ok.mp hg; rfl)
    (by simp) (by simp)

/-! ## Runs -/

theorem Settleable.aside (h : Settleable artifacts testId receipts u db)
    (haside : Aside testId db db') : Settleable artifacts testId receipts u db' := by
  obtain ⟨e, he, hsettled⟩ := h.readable
  obtain ⟨test, base, htest, hbase, hwalk, hstatus⟩ := effectiveBudget_ok.mp he
  refine ⟨haside.once h.once, e, effectiveBudget_ok.mpr ⟨test, base,
    haside.test test htest, ?_, ?_, ?_⟩, hsettled⟩
  · rw [storedBudget, haside.projection]
    exact hbase
  · rw [haside.facts]
    exact hwalk
  · rw [haside.facts]
    intro hne
    obtain ⟨s, hs, hterminal⟩ := hstatus hne
    exact ⟨s, haside.terminal s hs hterminal, hterminal⟩

theorem Settleable.run (h : Settleable artifacts testId receipts u db)
    (hrun : Relation.ReflTransGen (Settling digests artifacts testId receipts) db db') :
    Settleable artifacts testId receipts u db' := by
  induction hrun with
  | refl => exact h
  | tail _ hstep ih =>
      cases hstep with
      | active c read k receipt hread hhost htest hreceipt hoperation =>
          exact ih.active hread hhost htest hreceipt hoperation
      | terminal host guard k receipt hhost hreceipt => exact ih.terminal hhost hreceipt
      | aside haside => exact ih.aside haside

/-- Settling a set of invocations comes to the same whenever and in
whichever order each of them is settled, and the budget can be read at every
point of every such run. -/
theorem settlement_order_free {digests : Digests}
    {artifacts : String → Option Evidence} {testId : String}
    {receipts : Dict String UsageReceipt} {db db₁ db₂ : CostDb} {e : Effective}
    (honce : db.WritesOnce)
    (hstart : effectiveBudget (readerOf artifacts) db testId = .ok e)
    (h₁ : Relation.ReflTransGen (Settling digests artifacts testId receipts) db db₁)
    (h₂ : Relation.ReflTransGen (Settling digests artifacts testId receipts) db db₂) :
    ∃ e₁ e₂, effectiveBudget (readerOf artifacts) db₁ testId = .ok e₁ ∧
      effectiveBudget (readerOf artifacts) db₂ testId = .ok e₂ ∧
      (AllSettled receipts e₁.value → AllSettled receipts e₂.value →
        SameCosts e₁.value e₂.value) := by
  have hbegin : Settleable artifacts testId receipts e.value db :=
    ⟨honce, e, hstart, .refl _⟩
  obtain ⟨e₁, he₁, hsettled₁⟩ := (hbegin.run h₁).readable
  obtain ⟨e₂, he₂, hsettled₂⟩ := (hbegin.run h₂).readable
  exact ⟨e₁, e₂, he₁, he₂, hsettled₁.same hsettled₂⟩

/-! ## Two runs -/

def settlementBound (k : String) : CallBound :=
  { sampleBound with
    invocationId := k, maximumUnits := sampleUnits 2, proofHash := "proof:" ++ k }

def settlementReceipt (k : String) : UsageReceipt :=
  { sampleReceipt with evidenceHash := "usage:" ++ k }

def settlementArtifacts (h : String) : Option Evidence :=
  if h = "usage:first" then some (.usage "first" sampleReceipt.toUsageClaim)
  else if h = "usage:second" then some (.usage "second" sampleReceipt.toUsageClaim)
  else if h = "proof:first" then some (.bound (settlementBound "first").toBoundClaim)
  else if h = "proof:second" then some (.bound (settlementBound "second").toBoundClaim)
  else sampleHost.artifacts h

def settlementHost : CostHost where
  now := 0
  artifacts := settlementArtifacts
  faults := fun _ => false

def settlementCall (actionId : String) (operation : Operation) : BudgetCall :=
  { sampleCall actionId operation with host := settlementHost }

def settlementStart : CostDb := afterCalls sampleDigests sampleStart [
  settlementCall "open" (.opening sampleTable sampleEnvelope none none),
  settlementCall "reserve:first" (.reserve (settlementBound "first")),
  settlementCall "start:first" (.start "first" []),
  settlementCall "reserve:second" (.reserve (settlementBound "second")),
  settlementCall "start:second" (.start "second" [])]

def settlementReceipts : Dict String UsageReceipt := Dict.ofList [
  ("first", settlementReceipt "first"), ("second", settlementReceipt "second")]

def settleActive (k : String) (db : CostDb) : CostDb :=
  ((settlementCall ("settle:" ++ k) (.settle k (settlementReceipt k))).run sampleDigests
    db db).2

def cancelTest (db : CostDb) : CostDb :=
  (db.transition settlementHost "test" .cancelled "cancel" none none).2

def settleTerminal (k : String) (db : CostDb) : CostDb :=
  (TerminalCosts.settle settlementHost sampleDigests "test" k (settlementReceipt k)
    (fun _ => .ok ()) db).2

def mixedRun : CostDb := settleTerminal "second" (cancelTest (settleActive "first"
  settlementStart))

def lateRun : CostDb := settleTerminal "first" (settleTerminal "second" (cancelTest
  settlementStart))

def readBudget (db : CostDb) : Option BudgetValue :=
  (effectiveBudget (readerOf settlementArtifacts) db "test").toOption.map Effective.value

instance (receipts : Dict String UsageReceipt) (v : BudgetValue) :
    Decidable (AllSettled receipts v) := by
  unfold AllSettled
  infer_instance

theorem mixedRun_run : Relation.ReflTransGen
    (Settling sampleDigests settlementArtifacts "test" settlementReceipts)
    settlementStart mixedRun :=
  .tail (.tail (.tail .refl
    (.active (settlementCall "settle:first" (.settle "first" (settlementReceipt "first")))
      _ "first" _ List.prefix_rfl rfl rfl (by decide +kernel) rfl))
    (.aside transition_aside))
    (.terminal settlementHost (fun _ => .ok ()) "second" _ rfl (by decide +kernel))

theorem lateRun_run : Relation.ReflTransGen
    (Settling sampleDigests settlementArtifacts "test" settlementReceipts)
    settlementStart lateRun :=
  .tail (.tail (.tail .refl (.aside transition_aside))
    (.terminal settlementHost (fun _ => .ok ()) "second" _ rfl (by decide +kernel)))
    (.terminal settlementHost (fun _ => .ok ()) "first" _ rfl (by decide +kernel))

theorem allSettled_of (he : effectiveBudget (readerOf settlementArtifacts) db "test" = .ok e)
    (hread : ∀ v ∈ readBudget db, AllSettled settlementReceipts v) :
    AllSettled settlementReceipts e.value :=
  hread e.value (by rw [readBudget, he]; rfl)

theorem settlement_order_free_sample :
    ∃ e₁ e₂, effectiveBudget (readerOf settlementArtifacts) mixedRun "test" = .ok e₁ ∧
      effectiveBudget (readerOf settlementArtifacts) lateRun "test" = .ok e₂ ∧
      SameCosts e₁.value e₂.value := by
  have honce : settlementStart.WritesOnce := by
    unfold Db.WritesOnce
    decide +kernel
  obtain ⟨e, hstart⟩ : ∃ e,
      effectiveBudget (readerOf settlementArtifacts) settlementStart "test" = .ok e := by
    cases h : effectiveBudget (readerOf settlementArtifacts) settlementStart "test" with
    | ok e => exact ⟨e, rfl⟩
    | error f =>
        have hread : (readBudget settlementStart).isSome = true := by decide +kernel
        rw [readBudget, h] at hread
        cases hread
  obtain ⟨e₁, e₂, h₁, h₂, hsame⟩ :=
    settlement_order_free honce hstart mixedRun_run lateRun_run
  exact ⟨e₁, e₂, h₁, h₂, hsame (allSettled_of h₁ (by decide +kernel))
    (allSettled_of h₂ (by decide +kernel))⟩

end Ahunter.Costs
