import Ahunter.Sim.System

/-!
# What each command did

One inversion lemma for each entry point: a successful call either found its
action committed already and changed nothing, or it went through every check
and published what its stage had become. Later modules read the checks and
the intermediate values off these lemmas and never unfold a command.
-/

namespace Ahunter.Sim

open Ahunter.Lib

variable {spec : AccountSpec}

/-! ## Repetition -/

variable {w : World} {aid : String}

/-- No event of the log has the identity. -/
def World.Unused (w : World) (actionId : String) : Prop :=
  ∀ e ∈ w.events, e.actionId ≠ actionId

theorem World.prior_ok {message : String} {r : Request} {b : Bool}
    (h : w.prior aid r message = .ok b) :
    (b = true ∧ ∃ e ∈ w.events, e.actionId = aid ∧ e.request = r) ∨ (b = false ∧ w.Unused aid) := by
  unfold World.prior at h
  split at h
  · next hnone =>
      cases pure_ok.mp h
      refine Or.inr ⟨rfl, fun e he heq => ?_⟩
      have := List.find?_eq_none.mp hnone e he
      simp [heq] at this
  · next e hsome =>
      simp only [bind_ok, refuse_ok, pure_ok, not_not] at h
      obtain ⟨-, hreq, rfl⟩ := h
      refine Or.inl ⟨rfl, e, List.mem_of_find?_eq_some hsome, ?_, hreq⟩
      simpa using List.find?_some hsome

/-! ## Committing -/

variable {w' : World}

theorem World.commit_ok {request : Request} {operation : Operation} {effects : List Effect}
    {o : Outcome} (h : w.commit spec aid request operation effects o = .ok w') :
    ∃ o', prepareState spec operation o = .ok o' ∧
      w' = { w with
        account := some o'.state
        events := w.events ++
          [⟨aid, request, effects, o'.entries, o'.visibleAt, o'.at_, o'.state⟩] } := by
  simp only [World.commit, bind_ok, pure_ok] at h
  obtain ⟨o', hseal, rfl⟩ := h
  exact ⟨o', hseal, rfl⟩

variable {at_ : Instant}

theorem World.publish_ok {request : Request} {st : Staged} {x : ExecutionState} {p : PlansState}
    (h : w.publish spec aid request st x p at_ = .ok w') :
    ∃ o', prepareState spec .other
        ⟨st.value, at_, max at_ (st.value.visibleAt.getD at_), st.entries⟩ = .ok o' ∧ w' = {
        account := some o'.state
        events := w.events ++ [⟨aid, request, st.effects, o'.entries,
          o'.visibleAt, o'.at_, o'.state⟩]
        execution := x
        plans := p } := by
  simp only [World.publish, bind_ok, pure_ok] at h
  obtain ⟨w1, hcommit, rfl⟩ := h
  obtain ⟨o', hseal, rfl⟩ := World.commit_ok hcommit
  exact ⟨o', hseal, rfl⟩

theorem World.state_ok {s : AccountState} : w.state = .ok s ↔ w.account = some s := by
  simp [World.state]

theorem World.stage_ok {st : Staged} :
    w.stage = .ok st ↔ ∃ s, w.account = some s ∧ st = ⟨s, []⟩ := by
  simp only [World.stage, bind_ok, pure_ok, World.state_ok]
  exact ⟨fun ⟨s, h, e⟩ => ⟨s, h, e.symm⟩, fun ⟨s, h, e⟩ => ⟨s, h, e.symm⟩⟩

/-! ## The ledger's own commands -/

theorem initializeAccount_ok {running : Bool} (h : w.initializeAccount spec aid running = .ok w') :
    w' = w ∨ (w.account = none ∧ w.Unused aid ∧ ∃ o, Sim.initializeAccount spec = .ok o ∧
      w.commit spec aid .opening .opening [] o = .ok w') := by
  simp only [World.initializeAccount, bind_ok] at h
  obtain ⟨prior, hprior, h⟩ := h
  rcases World.prior_ok hprior with ⟨rfl, -⟩ | ⟨rfl, hunused⟩
  · exact Or.inl (pure_ok.mp h).symm
  · simp only [Bool.false_eq_true, if_false, bind_ok, refuse_ok,
      Option.isSome_iff_ne_none, not_not] at h
    obtain ⟨-, hnone, -, -, o, hinit, hcommit⟩ := h
    exact Or.inr ⟨hnone, hunused, o, hinit, hcommit⟩

theorem direct_ok {r : AccountRequest} (h : w.direct spec aid r = .ok w') :
    w' = w ∨ ∃ s o, w.account = some s ∧ w.Unused aid ∧ r.check = .ok () ∧
      perform spec aid r s = .ok o ∧ w.commit spec aid (.account r) r.operation [] o = .ok w' := by
  simp only [World.direct, bind_ok] at h
  obtain ⟨_, hcheck, prior, hprior, h⟩ := h
  rcases World.prior_ok hprior with ⟨rfl, -⟩ | ⟨rfl, hunused⟩
  · exact Or.inl (pure_ok.mp h).symm
  · simp only [Bool.false_eq_true, if_false, bind_ok, World.state_ok] at h
    obtain ⟨s, hs, o, hrun, hcommit⟩ := h
    exact Or.inr ⟨s, o, hs, hunused, hcheck, hrun, hcommit⟩

/-! ## The execution engine -/

variable {proofs : List AcceptanceEvidence}

theorem acceptBatch_ok {orders : List Reservation}
    (h : acceptBatch spec w aid orders proofs at_ = .ok w') :
    w' = w ∨ ∃ s st x, w.account = some s ∧ w.Unused aid ∧ (∀ order ∈ orders,
        w.execution.reservedOrderIds.get? order.orderId = none ∧
          ∃ proof, proofFor proofs order.security = .ok proof ∧
            acceptance spec order proof s at_ true = .ok ()) ∧
      (Staged.mk s []).run spec (aid ++ ":reserve") (.reserveBatch orders at_) = .ok st ∧
      walk (fun x order => do
        let proof ← proofFor proofs order.security
        pure (x.enter order.orderId at_ proof none)) w.execution orders = .ok x ∧
      w.publish spec aid (.executionAccept orders proofs at_) st x w.plans at_ = .ok w' := by
  simp only [acceptBatch, World.enginePrior, bind_ok] at h
  obtain ⟨prior, hprior, h⟩ := h
  rcases World.prior_ok hprior with ⟨rfl, -⟩ | ⟨rfl, hunused⟩
  · exact Or.inl (pure_ok.mp h).symm
  · simp only [Bool.false_eq_true, if_false, bind_ok, refuse_ok, World.stage_ok]
      at h
    obtain ⟨-, -, _, ⟨s, hs, rfl⟩, _, hchecks, st, hst, x, hx, hpublish⟩ := h
    refine Or.inr ⟨s, st, x, hs, hunused, fun order horder => ?_, hst, hx, hpublish⟩
    have := walk_unit.mp hchecks order horder
    simp only [bind_ok, refuse_ok, Dict.contains_iff] at this
    obtain ⟨-, hfree, proof, hproof, haccept⟩ := this
    exact ⟨Option.eq_none_iff_forall_not_mem.mpr fun v hv => hfree ⟨v, hv⟩,
      proof, hproof, haccept⟩

theorem advanceMinute_ok {e : MinuteEvidence} (h : advanceMinute spec w aid e = .ok w') :
    w' = w ∨ ∃ s orders x capacity run record, w.account = some s ∧ w.Unused aid ∧
      minuteProven spec e = .ok () ∧
      w.execution.minutes.get? (minuteKey e.security e.bar.intervalStart) = none ∧
      walk (collectOrder spec e w.execution) [] s.orders.entries = .ok orders ∧
      capacityFor w.execution e.security e.bar.intervalStart e.bar.volume
        e.marketRule spec.execution.participationRate e.sourceHash = .ok (x, capacity) ∧
      (x.routes.get? (minuteKey e.security e.bar.intervalStart)).getD .minute = .minute ∧
      walk (minuteOne spec aid e) ⟨⟨s, []⟩, { x with
          routes := x.routes.set (minuteKey e.security e.bar.intervalStart)
            .minute }, []⟩ (orders.insertionSort acceptedBefore) = .ok run ∧
      record = ⟨e, aid, run.results, false⟩ ∧
      w.publish spec aid (.executionMinute e) run.stage { run.execution with
          minutes := run.execution.minutes.set
            (minuteKey e.security e.bar.intervalStart) record }
        w.plans e.bar.intervalEnd = .ok w' := by
  simp only [advanceMinute, World.enginePrior, bind_ok] at h
  obtain ⟨prior, hprior, h⟩ := h
  rcases World.prior_ok hprior with ⟨rfl, -⟩ | ⟨rfl, hunused⟩
  · exact Or.inl (pure_ok.mp h).symm
  · simp only [Bool.false_eq_true, if_false, bind_ok, refuse_ok, World.stage_ok,
      Dict.contains_iff, not_not] at h
    obtain ⟨_, hproven, _, ⟨s, hs, rfl⟩, -, hfresh, orders, horders, ⟨x, capacity⟩,
      hcapacity, -, hroute, run, hrun, hpublish⟩ := h
    exact Or.inr ⟨s, orders, x, capacity, run, _, hs, hunused, hproven,
      Option.eq_none_iff_forall_not_mem.mpr fun v hv => hfresh ⟨v, hv⟩,
      horders, hcapacity, hroute, hrun, rfl, hpublish⟩

theorem capacityFor_ok {x x' : ExecutionState} {security sourceHash : String}
    {start : Instant} {volume : ℕ} {rule : MarketRule} {rate : ℚ} {c : Capacity}
    (h : capacityFor x security start volume rule rate sourceHash = .ok (x', c)) :
    c = (x.liquidity.get? (minuteKey security start)).getD
        ⟨volume, capacityTotal rule volume rate, 0, rule, sourceHash⟩ ∧
      c.historicalVolume = volume ∧ c.total = capacityTotal rule volume rate ∧ c.marketRule = rule ∧
      x' = { x with
        liquidity := x.liquidity.set (minuteKey security start) c } := by
  simp only [capacityFor, bind_ok, refuse_ok, pure_ok, Prod.mk.injEq] at h
  obtain ⟨-, hsame, rfl, rfl⟩ := h
  push Not at hsame
  exact ⟨rfl, hsame.1, hsame.2.1, hsame.2.2.1, rfl⟩

theorem consume_ok {x x' : ExecutionState} {key : MinuteKey} {quantity : ℤ}
    (h : x.consume key quantity = .ok x') :
    ∃ c, x.liquidity.get? key = some c ∧ x' = { x with
      liquidity := x.liquidity.set key { c with used := c.used + quantity } } := by
  simp only [ExecutionState.consume, bind_ok, need_ok, pure_ok] at h
  obtain ⟨c, hc, rfl⟩ := h
  exact ⟨c, hc, rfl⟩

def replayedTo (e : QueueEvidence) (run : QueueRun) (sequence : ℤ)
    (at_ : Instant) : QueueState where
  market := e.toQueueMarket
  sourceHash := e.sourceHash
  lastSequence := sequence
  processedAt := at_
  book := run.book
  seen := run.seen
  session := e.capture.session
  captureEndSequence := e.capture.endSequence
  captureEndAt := e.capture.endAt

theorem queueAdvance_ok {e : QueueEvidence} {throughAt : Option Instant}
    {throughSequence : Option ℤ}
    (h : queueAdvance spec w aid e throughAt throughSequence = .ok w') :
    w' = w ∨ ∃ s volumes start x1 entrants x2 run results, let at_ := throughAt.getD e.capture.endAt
      let sequence := throughSequence.getD e.capture.endSequence
      let old := w.execution.queues.get? e.streamKey
      let result : QueueResult :=
        ⟨run.fills, results, run.audit, e.toQueueMarket, false⟩
      w.account = some s ∧ w.Unused aid ∧
      validateCapture spec e.toQueueMarket = .ok volumes ∧
      prefixProven spec e.toQueueMarket at_ sequence = .ok () ∧
      replayStart e.toQueueMarket old at_ sequence = .ok start ∧
      captureReplays e.toQueueMarket = .ok () ∧
      positionsProven e old s = .ok () ∧
      walk (pinPosition spec e e.streamKey at_) (w.execution, [])
        (activeOrders s e.security) = .ok (x1, entrants) ∧
      walk (openMinute spec e.toQueueMarket) x1
        (volumes.entries.filter fun v => v.1 ≤ at_) = .ok x2 ∧
      walk (replayTick spec aid e.toQueueMarket entrants)
        ⟨⟨s, []⟩, x2, start.book, start.seen, [], []⟩
        (pendingTicks e.toQueueMarket start.last sequence) = .ok run ∧
      walk (fun acc q => do
        let r ← queueOutcome run.stage.value q
        pure (acc ++ [r])) [] entrants = .ok results ∧
      w.publish spec aid (.executionQueue e at_ sequence) run.stage
        { run.execution with
          queues := run.execution.queues.set e.streamKey
            (replayedTo e run sequence at_)
          queueResults := run.execution.queueResults.set aid result }
        w.plans at_ = .ok w' := by
  simp only [queueAdvance, World.enginePrior, bind_ok] at h
  obtain ⟨volumes, hvolumes, prior, hprior, h⟩ := h
  rcases World.prior_ok hprior with ⟨rfl, -⟩ | ⟨rfl, hunused⟩
  · exact Or.inl (pure_ok.mp h).symm
  · simp only [Bool.false_eq_true, if_false, bind_ok, World.stage_ok] at h
    obtain ⟨_, hprefix, _, ⟨s, hs, rfl⟩, start, hstart, _, hcapture, _, hpositions,
      ⟨x1, entrants⟩, hpin, x2, hopen, run, hrun, results, hresults, hpublish⟩ := h
    exact Or.inr ⟨s, volumes, start, x1, entrants, x2, run, results, hs, hunused,
      hvolumes, hprefix, hstart, hcapture, hpositions, hpin, hopen, hrun, hresults,
      hpublish⟩

/-! ## Phase plans -/

theorem mem_newOrders {instructions : List Instruction} {r : Reservation} :
    r ∈ newOrders instructions ↔ .new r ∈ instructions := by
  rw [newOrders, List.mem_filterMap]
  constructor
  · rintro ⟨i, hi, h⟩
    cases i <;> cases h
    exact hi
  · exact fun h => ⟨_, h, rfl⟩

theorem submit_ok {session : Session} {plan : StagePlan}
    (h : submit spec w aid session plan proofs = .ok w') :
    w' = w ∨ ∃ phase at_ st x plans record, w.Unused aid ∧
      submissionPhase spec session = .ok (phase, at_) ∧ w.plans.plans.get? plan.planId = none ∧
      submitStage spec w aid phase at_ plan proofs = .ok (st, x, plans) ∧ record.plan = plan ∧
      w.publish spec aid (.planSubmit phase.phaseId plan proofs session.actorId) st x
        { plans with plans := plans.plans.set plan.planId record } at_
        = .ok w' := by
  simp only [submit, World.enginePrior, bind_ok] at h
  obtain ⟨_, -, ⟨phase, at_⟩, hphase, prior, hprior, h⟩ := h
  rcases World.prior_ok hprior with ⟨rfl, -⟩ | ⟨rfl, hunused⟩
  · exact Or.inl (pure_ok.mp h).symm
  · simp only [Bool.false_eq_true, if_false] at h
    split at h
    · simp only [bind_ok, pure_ok] at h
      obtain ⟨-, -, -, -, h⟩ := h
      exact Or.inl h.symm
    · next hnew =>
        simp only [bind_ok] at h
        obtain ⟨_, -, ⟨st, x, plans⟩, hstage, hpublish⟩ := h
        exact Or.inr ⟨phase, at_, st, x, plans, _, hunused, hphase, hnew, hstage,
          rfl, hpublish⟩

theorem submitStage_ok {phase : PhaseDefinition} {plan : StagePlan}
    {st : Staged} {x : ExecutionState} {plans : PlansState}
    (h : submitStage spec w aid phase at_ plan proofs = .ok (st, x, plans)) :
    ∃ s day scan prepared st1 workflows, w.account = some s ∧ phase.tradingDate = some day ∧
      walk (scanInstruction w.execution s day) ⟨[], [], [], []⟩ plan.instructions = .ok scan ∧
      (∀ i ∈ scan.references, i ∉ scan.newIds) ∧
      walk (prepareOne spec s proofs phase day at_ plan w.plans.nextPriority) []
        plan.instructions.zipIdx = .ok prepared ∧
      reserveNew spec ⟨s, []⟩ aid (newOrders plan.instructions) at_ = .ok st1 ∧
      walk (enterWorkflow spec at_) (st1, w.plans.workflows) prepared = .ok (st, workflows) ∧
      x = { w.execution with
        reservedOrderIds :=
          reserveIds w.execution.reservedOrderIds plan.planId scan.newIds } ∧
      plans = { w.plans with
        workflows := workflows
        nextPriority := w.plans.nextPriority + prepared.length
        phases := w.plans.phases.set phase.phaseId plan.planId } := by
  simp only [submitStage, bind_ok, World.stage_ok, need_ok, refuse_ok,
    pure_ok, Prod.mk.injEq] at h
  obtain ⟨_, ⟨s, hs, rfl⟩, day, hday, -, -, -, -, scan, hscan, -, hdep, -, -,
    prepared, hprepared, st1, hreserve, ⟨st', workflows⟩, henter, rfl, rfl, rfl⟩ := h
  push Not at hdep
  exact ⟨s, day, scan, prepared, st1, workflows, hs, hday, hscan, hdep.1,
    hprepared, hreserve, henter, rfl, rfl⟩

theorem advance_ok {proofs : List MarketActionEvidence}
    (h : advance spec w aid at_ proofs = .ok w') :
    w' = w ∨ ∃ s run, w.account = some s ∧ w.Unused aid ∧
      (∀ f ∈ w.plans.workflows.values, ∀ t ∈ f.nextAt, at_ ≤ t) ∧
      advanceProven s proofs (dueFlows w.plans.workflows at_) = .ok () ∧
      walk (advanceOne spec proofs at_) ⟨⟨s, []⟩, w.execution, w.plans.workflows, []⟩
        (dueFlows w.plans.workflows at_) = .ok run ∧
      w.publish spec aid (.planAdvance at_ proofs) run.stage run.execution
        { w.plans with
          workflows := run.workflows
          history := w.plans.history.set aid run.history } at_ = .ok w' := by
  simp only [advance, World.enginePrior, bind_ok] at h
  obtain ⟨prior, hprior, h⟩ := h
  rcases World.prior_ok hprior with ⟨rfl, -⟩ | ⟨rfl, hunused⟩
  · exact Or.inl (pure_ok.mp h).symm
  · simp only [Bool.false_eq_true, if_false, bind_ok, refuse_ok, World.stage_ok]
      at h
    obtain ⟨_, ⟨s, hs, rfl⟩, -, hearly, _, hproven, run, hrun, hpublish⟩ := h
    push Not at hearly
    exact Or.inr ⟨s, run, hs, hunused, hearly, hproven, hrun, hpublish⟩

theorem expireDay_ok {day : Date} {cursors : Dict String MarketCursor}
    {rules : List MarketRule} (h : expireDay spec w aid day cursors at_ rules = .ok w') :
    w' = w ∨ ∃ s st, w.account = some s ∧ w.Unused aid ∧ (∀ e ∈ liveOrders s day,
        closingProven spec w.execution day at_ cursors rules e.2 = .ok ()) ∧
      walk (fun (st : Staged) e => st.run spec (aid ++ ":" ++ e.1)
        (.release e.1 .dayExpired at_)) ⟨s, []⟩ (liveOrders s day) = .ok st ∧
      w.publish spec aid (.planDayExpiry day at_ cursors rules) st w.execution
        { w.plans with
          workflows := w.plans.workflows.map fun _ f => f.expire day
          expiredDays := w.plans.expiredDays ++ [day] } at_ = .ok w' := by
  simp only [expireDay, World.enginePrior, bind_ok] at h
  obtain ⟨prior, hprior, h⟩ := h
  rcases World.prior_ok hprior with ⟨rfl, -⟩ | ⟨rfl, hunused⟩
  · exact Or.inl (pure_ok.mp h).symm
  · simp only [Bool.false_eq_true, if_false, bind_ok, refuse_ok, World.stage_ok]
      at h
    obtain ⟨_, ⟨s, hs, rfl⟩, -, -, -, -, _, hclosing, st, hst, hpublish⟩ := h
    exact Or.inr ⟨s, st, hs, hunused, walk_unit.mp hclosing, hst, hpublish⟩

end Ahunter.Sim
