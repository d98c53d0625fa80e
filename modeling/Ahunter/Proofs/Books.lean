import Ahunter.Proofs.Plans

/-!
# What a step does to the market

The execution projection keeps the simulated market: the budgets and routes of
historical minutes, the minutes that have been executed and the streams that
have been replayed. Two commands change it, the execution of a minute and a
replay; every other one leaves it as it was. `step_market` says which, with
what the two have checked, and the invariants of the market are proved on it.
-/

namespace Ahunter.Sim

open Ahunter.Lib

variable {spec : AccountSpec} {at_ : Instant}

variable {x : ExecutionState} {w w' : World} {aid : String}

structure SameMarket (x y : ExecutionState) : Prop where
  liquidity : y.liquidity = x.liquidity
  minutes : y.minutes = x.minutes
  routes : y.routes = x.routes
  queues : y.queues = x.queues
  queueResults : y.queueResults = x.queueResults

theorem SameMarket.refl (x : ExecutionState) : SameMarket x x :=
  ⟨rfl, rfl, rfl, rfl, rfl⟩

theorem SameMarket.trans {y z : ExecutionState} (h : SameMarket x y) (h' : SameMarket y z) :
    SameMarket x z where
  liquidity := h'.liquidity.trans h.liquidity
  minutes := h'.minutes.trans h.minutes
  routes := h'.routes.trans h.routes
  queues := h'.queues.trans h.queues
  queueResults := h'.queueResults.trans h.queueResults

theorem enterWalk_market {proofs : List AcceptanceEvidence} {orders : List Reservation}
    {x' : ExecutionState}
    (h : walk (fun x order => do
      let proof ← proofFor proofs order.security
      pure (x.enter order.orderId at_ proof none)) x orders = .ok x') : SameMarket x x' :=
  walk_induction (P := SameMarket x) h (.refl x) fun _ _ _ _ hc hone => by
    simp only [bind_ok, pure_ok] at hone
    obtain ⟨_, -, rfl⟩ := hone
    exact hc.trans ⟨rfl, rfl, rfl, rfl, rfl⟩

theorem FlowMove.market {order : Order} {run run' : FlowRun}
    (h : FlowMove spec at_ order run run') : SameMarket run.execution run'.execution := by
  cases h <;> exact ⟨rfl, rfl, rfl, rfl, rfl⟩

theorem advanceWalk_market {proofs : List MarketActionEvidence}
    {due : List Workflow} {a b : AdvanceRun} (h : walk (advanceOne spec proofs at_) a due = .ok b) :
    SameMarket a.execution b.execution := by
  refine walk_induction (P := fun c : AdvanceRun => SameMarket a.execution c.execution)
    h (.refl _) fun c flow d _ hc hone => hc.trans ?_
  simp only [advanceOne, bind_ok, pure_ok] at hone
  obtain ⟨⟨run, history⟩, hloop, rfl⟩ := hone
  exact flowLoop_induction (P := fun r => SameMarket c.execution r.execution) hloop
    (.refl _) fun _ _ _ hr _ _ hmove => hr.trans hmove.market

structure MinuteExecuted (spec : AccountSpec) (aid : String) (e : MinuteEvidence)
    (w w' : World) (s : AccountState) (orders : List MinuteOrder)
    (x : ExecutionState) (capacity : Capacity) (run : MinuteRun) : Prop where
  account : w.account = some s
  unused : w.Unused aid
  proven : minuteProven spec e = .ok ()
  fresh : w.execution.minutes.get? (minuteKey e.security e.bar.intervalStart) = none
  collected : walk (collectOrder spec e w.execution) [] s.orders.entries = .ok orders
  opened : capacityFor w.execution e.security e.bar.intervalStart e.bar.volume
    e.marketRule spec.execution.participationRate e.sourceHash = .ok (x, capacity)
  route : (x.routes.get? (minuteKey e.security e.bar.intervalStart)).getD .minute
    = .minute
  filled : walk (minuteOne spec aid e) ⟨⟨s, []⟩, { x with
      routes := x.routes.set (minuteKey e.security e.bar.intervalStart) .minute },
    []⟩ (orders.insertionSort acceptedBefore) = .ok run
  execution : w'.execution = { run.execution with
    minutes := run.execution.minutes.set (minuteKey e.security e.bar.intervalStart)
      ⟨e, aid, run.results, false⟩ }

structure QueueReplayed (spec : AccountSpec) (aid : String) (e : QueueEvidence)
    (at_ : Instant) (sequence : ℤ) (w w' : World) (s : AccountState)
    (volumes : Volumes) (start : ReplayStart) (x1 : ExecutionState)
    (entrants : List QueueEntrant) (x2 : ExecutionState) (run : QueueRun)
    (results : List QueueOutcome) : Prop where
  account : w.account = some s
  unused : w.Unused aid
  valid : validateCapture spec e.toQueueMarket = .ok volumes
  proven : prefixProven spec e.toQueueMarket at_ sequence = .ok ()
  started : replayStart e.toQueueMarket (w.execution.queues.get? e.streamKey) at_
    sequence = .ok start
  replays : captureReplays e.toQueueMarket = .ok ()
  positions : positionsProven e (w.execution.queues.get? e.streamKey) s = .ok ()
  pinned : walk (pinPosition spec e e.streamKey at_) (w.execution, [])
    (activeOrders s e.security) = .ok (x1, entrants)
  opened : walk (openMinute spec e.toQueueMarket) x1
    (volumes.entries.filter fun v => v.1 ≤ at_) = .ok x2
  replayed : walk (replayTick spec aid e.toQueueMarket entrants)
    ⟨⟨s, []⟩, x2, start.book, start.seen, [], []⟩
    (pendingTicks e.toQueueMarket start.last sequence) = .ok run
  outcomes : walk (fun acc q => do
      let r ← queueOutcome run.stage.value q
      pure (acc ++ [r])) [] entrants = .ok results
  execution : w'.execution = { run.execution with
    queues := run.execution.queues.set e.streamKey (replayedTo e run sequence at_)
    queueResults := run.execution.queueResults.set aid
      ⟨run.fills, results, run.audit, e.toQueueMarket, false⟩ }

inductive MarketChange (spec : AccountSpec) (w w' : World) : Command → Prop
  | same {c : Command} (h : SameMarket w.execution w'.execution) :
      MarketChange spec w w' c
  | minute {aid : String} {e : MinuteEvidence} {s : AccountState}
      {orders : List MinuteOrder} {x : ExecutionState} {capacity : Capacity}
      {run : MinuteRun}
      (h : MinuteExecuted spec aid e w w' s orders x capacity run) :
      MarketChange spec w w' (.advanceMinute aid e)
  | queue {aid : String} {e : QueueEvidence} {throughAt : Option Instant}
      {throughSequence : Option ℤ} {s : AccountState} {volumes : Volumes}
      {start : ReplayStart} {x1 : ExecutionState} {entrants : List QueueEntrant}
      {x2 : ExecutionState} {run : QueueRun} {results : List QueueOutcome}
      (h : QueueReplayed spec aid e (throughAt.getD e.capture.endAt)
        (throughSequence.getD e.capture.endSequence) w w' s volumes start x1 entrants
        x2 run results) :
      MarketChange spec w w' (.queueAdvance aid e throughAt throughSequence)

variable {e : MinuteEvidence}

theorem advanceMinute_market (h : advanceMinute spec w aid e = .ok w') :
    w' = w ∨ ∃ s orders x capacity run, MinuteExecuted spec aid e w w' s orders x capacity run := by
  rcases advanceMinute_ok h with rfl | ⟨s, orders, x, capacity, run, record, hs, hunused,
    hproven, hfresh, horders, hcapacity, hroute, hrun, rfl, hpublish⟩
  · exact Or.inl rfl
  · obtain ⟨o', -, rfl⟩ := World.publish_ok hpublish
    exact Or.inr ⟨s, orders, x, capacity, run, hs, hunused, hproven, hfresh, horders,
      hcapacity, hroute, hrun, rfl⟩

theorem queueAdvance_market {e : QueueEvidence} {throughAt : Option Instant}
    {throughSequence : Option ℤ}
    (h : queueAdvance spec w aid e throughAt throughSequence = .ok w') :
    w' = w ∨ ∃ s volumes start x1 entrants x2 run results,
      QueueReplayed spec aid e (throughAt.getD e.capture.endAt)
        (throughSequence.getD e.capture.endSequence) w w' s volumes start x1 entrants
        x2 run results := by
  rcases queueAdvance_ok h with rfl | ⟨s, volumes, start, x1, entrants, x2, run, results,
    hs, hunused, hvolumes, hproven, hstart, hreplays, hpositions, hpin, hopen, hrun,
    hresults, hpublish⟩
  · exact Or.inl rfl
  · obtain ⟨o', -, rfl⟩ := World.publish_ok hpublish
    exact Or.inr ⟨s, volumes, start, x1, entrants, x2, run, results, hs, hunused,
      hvolumes, hproven, hstart, hreplays, hpositions, hpin, hopen, hrun, hresults, rfl⟩

theorem step_market {c : Command} (h : step spec w c = .ok w') : MarketChange spec w w' c := by
  cases c with
  | opening aid running =>
      rcases initializeAccount_ok h with rfl | ⟨-, -, o, -, hcommit⟩
      · exact .same (.refl _)
      · obtain ⟨o', -, rfl⟩ := World.commit_ok hcommit
        exact .same (.refl _)
  | account aid r =>
      rcases direct_ok h with rfl | ⟨s, o, -, -, -, -, hcommit⟩
      · exact .same (.refl _)
      · obtain ⟨o', -, rfl⟩ := World.commit_ok hcommit
        exact .same (.refl _)
  | acceptBatch aid orders proofs at_ =>
      rcases acceptBatch_ok h with rfl | ⟨s, st, x, -, -, -, -, hx, hpublish⟩
      · exact .same (.refl _)
      · obtain ⟨o', -, rfl⟩ := World.publish_ok hpublish
        exact .same (enterWalk_market hx)
  | advanceMinute aid e =>
      rcases advanceMinute_market h with rfl | ⟨s, orders, x, capacity, run, hrun⟩
      · exact .same (.refl _)
      · exact .minute hrun
  | queueAdvance aid e throughAt throughSequence =>
      rcases queueAdvance_market h with rfl | ⟨s, volumes, start, x1, entrants, x2, run,
        results, hrun⟩
      · exact .same (.refl _)
      · exact .queue hrun
  | submit aid session plan proofs =>
      rcases submit_ok h with rfl | ⟨phase, at_, st, x, plans, record, -, hphase, -,
        hstage, -, hpublish⟩
      · exact .same (.refl _)
      · obtain ⟨o', -, rfl⟩ := World.publish_ok hpublish
        obtain ⟨s, day, scan, prepared, st1, workflows, -, -, -, -, -, -, -, rfl, -⟩ :=
          submitStage_ok hstage
        exact .same ⟨rfl, rfl, rfl, rfl, rfl⟩
  | advance aid at_ proofs =>
      rcases advance_ok h with rfl | ⟨s, run, -, -, -, -, hrun, hpublish⟩
      · exact .same (.refl _)
      · obtain ⟨o', -, rfl⟩ := World.publish_ok hpublish
        exact .same (advanceWalk_market hrun)
  | expireDay aid day cursors at_ rules =>
      rcases expireDay_ok h with rfl | ⟨s, st, -, -, -, -, hpublish⟩
      · exact .same (.refl _)
      · obtain ⟨o', -, rfl⟩ := World.publish_ok hpublish
        exact .same (.refl _)

/-! ## Streams -/

structure SameStreams (x y : ExecutionState) : Prop where
  minutes : y.minutes = x.minutes
  queues : y.queues = x.queues
  queueResults : y.queueResults = x.queueResults

theorem SameStreams.trans {y z : ExecutionState} (h : SameStreams x y) (h' : SameStreams y z) :
    SameStreams x z where
  minutes := h'.minutes.trans h.minutes
  queues := h'.queues.trans h.queues
  queueResults := h'.queueResults.trans h.queueResults

theorem Budgeted.streams {y : ExecutionState} (h : Budgeted x y) : SameStreams x y := by
  obtain ⟨_, _, rfl⟩ := h
  exact ⟨rfl, rfl, rfl⟩

theorem pinPosition_market {e : QueueEvidence} {key : String}
    {a b : ExecutionState × List QueueEntrant} {entry : String × Order}
    (h : pinPosition spec e key at_ a entry = .ok b) : SameMarket a.1 b.1 := by
  simp only [pinPosition, bind_ok, pure_ok] at h
  obtain ⟨_, -, _, -, _, -, _, -, _, -, _, -, rfl⟩ := h
  exact ⟨rfl, rfl, rfl, rfl, rfl⟩

variable {s : AccountState}

theorem MinuteExecuted.streams {orders : List MinuteOrder} {capacity : Capacity} {run : MinuteRun}
    (h : MinuteExecuted spec aid e w w' s orders x capacity run) :
    SameStreams w.execution run.execution := by
  obtain ⟨-, -, -, -, hopened⟩ := capacityFor_ok h.opened
  have hfirst : SameStreams w.execution { x with
      routes := x.routes.set (minuteKey e.security e.bar.intervalStart) .minute } := by
    rw [hopened]
    exact ⟨rfl, rfl, rfl⟩
  exact walk_induction (P := fun r : MinuteRun => SameStreams w.execution r.execution)
    h.filled hfirst fun _ _ _ _ hc hone => hc.trans (minuteOne_budgeted hone).streams

theorem MinuteExecuted.queues {orders : List MinuteOrder} {capacity : Capacity} {run : MinuteRun}
    (h : MinuteExecuted spec aid e w w' s orders x capacity run) :
    w'.execution.queues = w.execution.queues := by
  rw [h.execution]
  exact h.streams.queues

theorem QueueReplayed.streams {e : QueueEvidence} {sequence : ℤ}
    {volumes : Volumes} {start : ReplayStart} {x1 x2 : ExecutionState}
    {entrants : List QueueEntrant} {run : QueueRun} {results : List QueueOutcome}
    (h : QueueReplayed spec aid e at_ sequence w w' s volumes start x1 entrants x2 run results) :
    SameStreams w.execution run.execution := by
  have h1 : SameMarket w.execution x1 :=
    walk_induction (P := fun y : ExecutionState × List QueueEntrant =>
      SameMarket w.execution y.1) h.pinned (.refl _)
      fun _ _ _ _ hc hone => hc.trans (pinPosition_market hone)
  have h2 : SameStreams w.execution x2 :=
    walk_induction (P := SameStreams w.execution) h.opened
      ⟨h1.minutes, h1.queues, h1.queueResults⟩
      fun _ _ _ _ hc hone => hc.trans (openMinute_budgeted hone).streams
  exact walk_induction (P := fun r : QueueRun => SameStreams w.execution r.execution)
    h.replayed h2 fun _ _ _ _ hc hone => hc.trans (replayTick_budgeted hone).streams

end Ahunter.Sim
