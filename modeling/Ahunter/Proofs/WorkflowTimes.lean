import Ahunter.Proofs.Hosting
import Ahunter.Proofs.Ingress

/-!
# When a workflow falls due

The instant a workflow falls due next only ever moves forward, and once it is
gone it never comes back. Inside an advance that is so because a receipt and a
replacement's ingress are never before the instant they follow from, whatever
the latencies, zero included; between the calls because nothing but a plan
command touches a workflow, and a submission enters new ones only.

The `while` loop of an advance runs on fuel that is bookkeeping. Stated without
it, an iteration of the loop is a `LoopStep`, and from where an advance enters
the loop no more than four iterations follow one another: the rank of a proper
workflow is four at most and each iteration lowers it. So every fuel from four
on gives the loop the same answer, failures included.
-/

namespace Ahunter.Sim

open Ahunter.Lib

variable {spec : AccountSpec} {at_ : Instant} {ids : Dict String String}
  {flows : Dict FlowKey Workflow} {proofs : List MarketActionEvidence}

/-! ## Never earlier -/

variable {f : Workflow}

def Workflow.Onward (f g : Workflow) : Prop :=
  ∀ t, g.nextAt = some t → ∃ s, f.nextAt = some s ∧ s ≤ t

theorem Workflow.Onward.refl (f : Workflow) : f.Onward f := fun t h => ⟨t, h, le_refl t⟩

theorem Workflow.Onward.trans {g h : Workflow} (hfg : f.Onward g) (hgh : g.Onward h) :
    f.Onward h := by
  intro t ht
  obtain ⟨s, hs, hst⟩ := hgh t ht
  obtain ⟨r, hr, hrs⟩ := hfg s hs
  exact ⟨r, hr, hrs.trans hst⟩

theorem Workflow.Onward.done {g : Workflow} (h : f.Onward g) (hf : f.nextAt = none) :
    g.nextAt = none := by
  cases hg : g.nextAt with
  | none => rfl
  | some t =>
      obtain ⟨s, hs, -⟩ := h t hg
      rw [hf] at hs
      cases hs

def Workflow.From (at_ : Instant) (f : Workflow) : Prop := ∀ t, f.nextAt = some t → at_ ≤ t

theorem Workflow.From.onward {g : Workflow} (hg : g.From at_) (hf : f.nextAt = some at_) :
    f.Onward g := fun t ht => ⟨at_, hf, hg t ht⟩

theorem Workflow.from_none (h : f.nextAt = none) : f.From at_ := by
  intro t ht
  rw [h] at ht
  cases ht

theorem Workflow.from_some {t : Instant} (h : f.nextAt = some t) (ht : at_ ≤ t) : f.From at_ := by
  intro u hu
  rw [h] at hu
  cases hu
  exact ht

theorem le_receiptAt : at_ ≤ receiptAt spec at_ := le_plusMillis _ _

theorem received_le_ingressAt {z : Zone} {day : Date} {received t : Instant} {ms : ℕ}
    {is : List Interval} (h : ingressAt z day received ms is = some t) : received ≤ t := by
  induction is with
  | nil => cases h
  | cons i is ih =>
      rw [ingressAt_cons] at h
      split at h
      · cases h
        exact (le_plusMillis _ _).trans (le_arrival i)
      · exact ih h

theorem timing_received_le {phase : PhaseDefinition} {rule : MarketRule} {ms receiptMs : ℕ}
    {operation : FlowOperation} {t : Timing}
    (h : submissionTiming spec { phase with planReceivedAt := some at_ } rule ms receiptMs
      operation = .timed t) : at_ ≤ t.exchangeReceivedAt := by
  obtain ⟨received, day, hingress, hfound⟩ := submissionTiming_timed h
  cases hingress.received
  exact received_le_ingressAt hfound

/-! ## One iteration -/

variable {run' : FlowRun}

theorem sendReplacement_from {proof : MarketActionEvidence} {new : Reservation} {timing : Timing}
    {run : FlowRun} (htiming : at_ ≤ timing.exchangeReceivedAt) (hrun : run.flow.nextAt = none)
    (h : sendReplacement spec proof at_ new timing run = .ok run') : run'.flow.From at_ := by
  simp only [sendReplacement] at h
  split at h
  · split at h
    · cases pure_ok.mp h
      exact Workflow.from_none hrun
    · cases h
  · simp only [bind_ok, pure_ok] at h
    obtain ⟨stage, -, rfl⟩ := h
    exact Workflow.from_some rfl htiming

theorem replaceConfirmed_from {proof : MarketActionEvidence} {rule : MarketRule} {newId : String}
    {target : ℤ} {price : ℚ} {hp : 0 < price} {run : FlowRun} (hrun : run.flow.nextAt = none)
    (h : replaceConfirmed spec proof rule at_ newId target price hp run = .ok run') :
    run'.flow.From at_ := by
  simp only [replaceConfirmed, bind_ok, need_ok] at h
  obtain ⟨old, -, h⟩ := h
  split at h
  · simp only [bind_ok, need_ok] at h
    obtain ⟨phase, -, h⟩ := h
    split at h
    · next timing htiming =>
        split at h
        · cases pure_ok.mp h
          exact Workflow.from_none hrun
        · refine sendReplacement_from (timing_received_le htiming) ?_ h
          exact hrun
    · cases pure_ok.mp h
      exact Workflow.from_none hrun
  · cases pure_ok.mp h
    exact Workflow.from_none hrun

theorem receive_from {proof : MarketActionEvidence} {rule : MarketRule} {run : FlowRun}
    (h : receive spec proof rule at_ run = .ok run') : run'.flow.From at_ := by
  simp only [receive, bind_ok, need_ok] at h
  obtain ⟨outcome, -, stage, -, h⟩ := h
  split at h
  · exact replaceConfirmed_from rfl h
  · cases pure_ok.mp h
    exact Workflow.from_none rfl

theorem reachNew_from {proof : MarketActionEvidence} {order : Order} {run : FlowRun}
    (h : reachNew spec proof at_ order run = .ok run') : run'.flow.From at_ := by
  simp only [reachNew] at h
  split at h
  · split at h
    · simp only [bind_ok, pure_ok] at h
      obtain ⟨stage, -, rfl⟩ := h
      exact Workflow.from_some rfl le_receiptAt
    · cases h
  · simp only [bind_ok, pure_ok] at h
    obtain ⟨stage, -, rfl⟩ := h
    exact Workflow.from_none rfl

theorem reachCancel_from {order : Order} {run : FlowRun}
    (h : reachCancel spec at_ order run = .ok run') : run'.flow.From at_ := by
  simp only [reachCancel] at h
  split at h
  · cases pure_ok.mp h
    exact Workflow.from_none rfl
  · split at h
    · simp only [bind_ok, pure_ok] at h
      obtain ⟨stage, -, rfl⟩ := h
      exact Workflow.from_none rfl
    · simp only [bind_ok, pure_ok] at h
      obtain ⟨stage, -, rfl⟩ := h
      exact Workflow.from_some rfl le_receiptAt

theorem flowStep_from {run : FlowRun} (h : flowStep spec proofs at_ run = .ok run') :
    run'.flow.From at_ := by
  simp only [flowStep, bind_ok, need_ok] at h
  obtain ⟨order, -, proof, -, _, -, h⟩ := h
  split at h
  · exact reachNew_from h
  · exact reachCancel_from h
  · exact receive_from h

/-- One iteration of the `while` loop of an advance. -/
def LoopStep (spec : AccountSpec) (proofs : List MarketActionEvidence) (at_ : Instant)
    (a b : FlowRun) : Prop :=
  a.flow.nextAt = some at_ ∧ flowStep spec proofs at_ a = .ok b

theorem LoopStep.onward {a b : FlowRun} (h : LoopStep spec proofs at_ a b) :
    a.flow.Onward b.flow := (flowStep_from h.2).onward h.1

theorem LoopStep.moves {a b : FlowRun} (h : LoopStep spec proofs at_ a b)
    (ha : InFlow ids flows a) : InFlow ids flows b ∧ b.flow.rank at_ < a.flow.rank at_ := by
  obtain ⟨order, -, hmove⟩ := flowStep_move h.2
  have hlive : a.flow.live = true := by rw [Workflow.live, h.1]; rfl
  have hmoved := hmove.moved (ha.unreplaced hlive)
  exact ⟨hmoved.inFlow hlive ha, hmove.rank h.1 ha.self⟩

/-! ## The loop -/

theorem loop_bounded {run : FlowRun} {rest : List FlowRun} (hrun : InFlow ids flows run)
    (h : (run :: rest).IsChain (LoopStep spec proofs at_)) : rest.length ≤ run.flow.rank at_ := by
  induction rest generalizing run with
  | nil => exact Nat.zero_le _
  | cons next rest ih =>
      obtain ⟨hstep, hrest⟩ := List.isChain_cons_cons.mp h
      obtain ⟨hnext, hless⟩ := hstep.moves hrun
      have hbound := ih hnext hrest
      rw [List.length_cons]
      omega

theorem flowLoop_fuel {fuel fuel' : ℕ} {run : FlowRun} {history : List FlowHistory}
    (hrun : InFlow ids flows run) (h : run.flow.rank at_ ≤ fuel) (h' : run.flow.rank at_ ≤ fuel') :
    flowLoop spec proofs at_ fuel run history = flowLoop spec proofs at_ fuel' run history := by
  have hover : ∀ n, run.flow.nextAt ≠ some at_ →
      flowLoop spec proofs at_ n run history = .ok (run, history) := by
    intro n hn
    cases n with
    | zero => rfl
    | succ n => rw [flowLoop, if_neg hn]; rfl
  by_cases hdue : run.flow.nextAt = some at_
  · have hpos : 0 < run.flow.rank at_ := by
      unfold Workflow.rank
      rw [if_pos hdue]
      split <;> omega
    obtain ⟨n, rfl⟩ : ∃ n, fuel = n + 1 := ⟨fuel - 1, by omega⟩
    obtain ⟨m, rfl⟩ : ∃ m, fuel' = m + 1 := ⟨fuel' - 1, by omega⟩
    rw [flowLoop, flowLoop, if_pos hdue, if_pos hdue]
    cases hstep : flowStep spec proofs at_ run with
    | error e => rfl
    | ok next =>
        have hloop : LoopStep spec proofs at_ run next := ⟨hdue, hstep⟩
        obtain ⟨hnext, hless⟩ := hloop.moves hrun
        exact flowLoop_fuel hnext (by omega) (by omega)
  · rw [hover fuel hdue, hover fuel' hdue]
termination_by fuel

theorem flowLoop_onward {fuel : ℕ} {run : FlowRun} {history history' : List FlowHistory}
    (h : flowLoop spec proofs at_ fuel run history = .ok (run', history')) :
    run.flow.Onward run'.flow := by
  induction fuel generalizing run history with
  | zero =>
      cases pure_ok.mp h
      exact .refl _
  | succ fuel ih =>
      rw [flowLoop] at h
      split at h
      · next hdue =>
          simp only [bind_ok] at h
          obtain ⟨next, hnext, h⟩ := h
          have hstep : LoopStep spec proofs at_ run next := ⟨hdue, hnext⟩
          exact hstep.onward.trans (ih h)
      · cases pure_ok.mp h
        exact .refl _

/-! ## Calls and runs -/

def FlowsOnward (flows flows' : Dict FlowKey Workflow) : Prop :=
  ∀ k f, flows.get? k = some f → ∃ g, flows'.get? k = some g ∧ f.Onward g

theorem FlowsOnward.refl (flows : Dict FlowKey Workflow) : FlowsOnward flows flows :=
  fun _ f hf => ⟨f, hf, .refl f⟩

theorem FlowsOnward.trans {flows flows' flows'' : Dict FlowKey Workflow}
    (h : FlowsOnward flows flows') (h' : FlowsOnward flows' flows'') :
    FlowsOnward flows flows'' := by
  intro k f hf
  obtain ⟨g, hg, hfg⟩ := h k f hf
  obtain ⟨i, hi, hgi⟩ := h' k g hg
  exact ⟨i, hi, hfg.trans hgi⟩

theorem FlowsOnward.set {g : Workflow} (hf : flows.get? f.key = some f) (h : f.Onward g) :
    FlowsOnward flows (flows.set f.key g) := by
  intro k i hi
  by_cases hk : k = f.key
  · subst hk
    cases hf.symm.trans hi
    exact ⟨g, Dict.get?_set_self _ _ _, h⟩
  · exact ⟨i, by rw [Dict.get?_set_of_ne hk, hi], .refl i⟩

theorem Workflow.onward_expire (f : Workflow) (day : Date) : f.Onward (f.expire day) := by
  unfold Workflow.expire
  split
  · exact nofun
  · exact .refl f

theorem advance_onward {w w' : World} {aid : String} (hw : PlansSound w)
    (h : advance spec w aid at_ proofs = .ok w') :
    FlowsOnward w.plans.workflows w'.plans.workflows := by
  rcases advance_ok h with rfl | ⟨s, run, hs, -, -, -, hrun, hpublish⟩
  · exact .refl _
  obtain ⟨o', -, rfl⟩ := World.publish_ok hpublish
  have hflows := hw.flows s hs
  obtain ⟨hnodup, hdue⟩ := dueFlows_keys hflows at_
  have hstart : AdvanceSound w.execution.reservedOrderIds
      ⟨⟨s, []⟩, w.execution, w.plans.workflows, []⟩ :=
    ⟨hflows, fun e he => absurd he List.not_mem_nil⟩
  obtain ⟨-, hend⟩ := advanceWalk_moves
    (P := fun acc => FlowsOnward w.plans.workflows acc.workflows) hrun hnodup
    (fun f hf => (hdue f hf).1) hstart (.refl _)
    fun acc f run history' _ hP hf hloop => hP.trans (.set hf (flowLoop_onward hloop))
  exact hend

theorem submit_onward {w w' : World} {aid : String} {session : Session} {plan : StagePlan}
    {proofs : List AcceptanceEvidence} (hw : PlansSound w)
    (h : submit spec w aid session plan proofs = .ok w') :
    FlowsOnward w.plans.workflows w'.plans.workflows := by
  rcases submit_ok h with rfl | ⟨phase, t, st, x, plans, record, -, hphase, hnewPlan,
    hstage, -, hpublish⟩
  · exact .refl _
  obtain ⟨o', -, rfl⟩ := World.publish_ok hpublish
  simp only [submissionPhase, bind_ok, need_ok, pure_ok, Prod.mk.injEq] at hphase
  obtain ⟨phase', -, t', ht', rfl, rfl⟩ := hphase
  obtain ⟨s, day, new, hs, hnew, hflows, -, rfl⟩ := submitStage_submission ht' hstage
  intro k f hf
  refine ⟨f, ?_, .refl f⟩
  show plans.workflows.get? k = some f
  rw [hflows, get?_foldl_set hnew.keys]
  refine Or.inr ⟨hf, fun g hg hkey => ?_⟩
  -- The plan is new, so none of its workflows was there.
  obtain ⟨p, hp⟩ := hw.planned k f hf
  have hplanId : f.planId = plan.planId := by
    have hkeys : f.key = g.key := by rw [hkey, (hw.flows s hs).keyed k f hf]
    have hplan : f.planId = g.planId := congrArg (fun k : FlowKey => (ofLex k).1) hkeys
    rw [hplan, (hnew.started g hg).planId]
  rw [hplanId, hnewPlan] at hp
  cases hp

theorem step_onward {w w' : World} {c : Command} (hw : PlansSound w) (h : step spec w c = .ok w') :
    FlowsOnward w.plans.workflows w'.plans.workflows := by
  cases c with
  | submit aid session plan proofs => exact submit_onward hw h
  | advance aid t proofs => exact advance_onward hw h
  | expireDay aid day cursors t rules =>
      rcases expireDay_ok h with rfl | ⟨s, st, -, -, -, -, hpublish⟩
      · exact .refl _
      obtain ⟨o', -, rfl⟩ := World.publish_ok hpublish
      intro k f hf
      exact ⟨f.expire day, by rw [Dict.get?_map, hf]; rfl, f.onward_expire day⟩
  | opening | account | acceptBatch | advanceMinute | queueAdvance =>
      rw [(step_plansKept h rfl).plans]
      exact .refl _

theorem run_onward {w w' : World} (hw : Reachable spec w)
    (h : Relation.ReflTransGen (StepIf spec fun _ _ _ => True) w w') :
    FlowsOnward w.plans.workflows w'.plans.workflows := by
  induction h with
  | refl => exact .refl _
  | tail hrun hlast ih =>
      obtain ⟨c, hc, -⟩ := hlast
      exact ih.trans (step_onward (reachable_plansSound (hw.trans hrun)) hc)

end Ahunter.Sim
