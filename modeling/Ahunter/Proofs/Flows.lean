import Ahunter.Proofs.Commands

/-!
# The moves of a workflow

A workflow that is due makes one of eight moves: its order reaches the
exchange and is accepted or refused, its cancellation comes too late, is
refused or takes effect, or a receipt arrives and the workflow ends or goes
on with a replacement. `flowStep_move` sorts a successful `flowStep` into
them, with everything each has checked, and `flowLoop_moves` chains them.
-/

namespace Ahunter.Sim

open Ahunter.Lib

variable {spec : AccountSpec} {at_ : Instant}

variable {run' : FlowRun}

/-- A workflow has come to its end. -/
def FlowState.final : FlowState → Bool
  | .waitingMarket | .waitingReceipt => false
  | _ => true

theorem FlowOutcome.flowState_final (o : FlowOutcome) : o.flowState.final = true := by
  cases o <;> rfl

def receiptAt (spec : AccountSpec) (at_ : Instant) : Instant :=
  plusMillis at_ spec.execution.receiptLatencyMs

/-- One move of a workflow whose order is `order`. -/
inductive FlowMove (spec : AccountSpec) (at_ : Instant) (order : Order)
    (run : FlowRun) : FlowRun → Prop
  | accepted {stage : Staged} {proof : MarketActionEvidence}
      (hstate : run.flow.state = .waitingMarket)
      (hop : run.flow.operation = .new)
      (hacc : acceptance spec order.toReservation proof.market run.stage.value
        at_ true = .ok ())
      (hset : setOrderState spec run.stage run.flow.orderId .reserved at_
        (receiptAt spec at_) "exchange_accepted" = .ok stage) :
      FlowMove spec at_ order run
        ⟨stage, run.execution.enter run.flow.orderId at_ proof.market
            (some (receiptAt spec at_)),
          { run.flow with
            state := .exchangeAccepted
            nextAt := none }⟩
  | refused {stage : Staged} {message : String}
      (hstate : run.flow.state = .waitingMarket)
      (hop : run.flow.operation = .new)
      (hset : setOrderState spec run.stage run.flow.orderId
        .rejectedPendingReceipt at_ (receiptAt spec at_) message = .ok stage) :
      FlowMove spec at_ order run ⟨stage, run.execution,
        { run.flow with
          state := .waitingReceipt
          outcome := some .rejected
          reason := some message
          nextAt := some (receiptAt spec at_) }⟩
  | tooLate (hstate : run.flow.state = .waitingMarket)
      (hop : run.flow.operation = .cancel) (hfilled : order.status = .filled) :
      FlowMove spec at_ order run ⟨run.stage, run.execution,
        { run.flow with
          state := .cancelTooLate
          nextAt := none
          reason := some "old_order_already_filled" }⟩
  | cancelRefused {stage : Staged}
      (hstate : run.flow.state = .waitingMarket)
      (hop : run.flow.operation = .cancel) (hfilled : order.status ≠ .filled)
      (hset : setOrderState spec run.stage run.flow.orderId
        (if order.filledQuantity ≠ 0 then .partFilled else .reserved) at_
        (receiptAt spec at_) (run.flow.timing.code.getD "") = .ok stage) :
      FlowMove spec at_ order run ⟨stage, run.execution,
        { run.flow with
          state := .cancelRejected
          nextAt := none
          reason := run.flow.timing.code }⟩
  | cancelled {stage : Staged}
      (hstate : run.flow.state = .waitingMarket)
      (hop : run.flow.operation = .cancel) (hfilled : order.status ≠ .filled)
      (hset : setOrderState spec run.stage run.flow.orderId .cancelEffective at_
        (receiptAt spec at_) "cancellation_effective" = .ok stage) :
      FlowMove spec at_ order run ⟨stage, run.execution,
        { run.flow with
          state := .waitingReceipt
          outcome := some .cancelConfirmed
          nextAt := some (receiptAt spec at_) }⟩
  | ended {stage : Staged} {outcome : FlowOutcome} {state : FlowState}
      {reason : Option String} {quantity : Option ℤ}
      (hstate : run.flow.state ≠ .waitingMarket)
      (houtcome : run.flow.outcome = some outcome)
      (hrelease : run.stage.run spec (run.flow.workflowId ++ ":receipt")
        (.release run.flow.orderId outcome.status at_) = .ok stage)
      (hfinal : state.final = true) :
      FlowMove spec at_ order run ⟨stage, run.execution,
        { run.flow with
          state := state
          nextAt := none
          reason := reason
          replacementQuantity := quantity }⟩
  | replaced {released reserved stage : Staged} {old : Order}
      {oldId newId : String} {target remaining : ℤ} {price : ℚ}
      {ht : 0 < target} {hp : 0 < price} {hq : 0 < remaining}
      {proof : MarketActionEvidence} {timing : Timing}
      (hstate : run.flow.state ≠ .waitingMarket)
      (hdate : spec.zone.date at_ = run.flow.tradeDate)
      (houtcome : run.flow.outcome = some .cancelConfirmed)
      (hinstruction : run.flow.instruction
        = .replace oldId newId target price ht hp)
      (hrelease : run.stage.run spec (run.flow.workflowId ++ ":receipt")
        (.release run.flow.orderId .cancelConfirmed at_) = .ok released)
      (hold : released.value.orders.get? run.flow.orderId = some old)
      (hremaining : remaining = max 0 (target - old.filledQuantity))
      (hacc : acceptance spec (replacementOrder old newId remaining price hq hp)
        proof.market released.value at_ false = .ok ())
      (hreserve : released.run spec (run.flow.workflowId ++ ":replacement")
        (.reserveBatch [replacementOrder old newId remaining price hq hp] at_)
        = .ok reserved)
      (hmark : reserved.mark newId (fun o => { o with
        status := .pendingAcceptance }) = .ok stage) :
      FlowMove spec at_ order run ⟨stage, run.execution,
        { run.flow with
          replacementQuantity := some remaining
          state := .waitingMarket
          operation := .new
          orderId := newId
          timing := timing
          nextAt := some timing.exchangeReceivedAt }⟩

variable {proof : MarketActionEvidence} {order : Order} {run : FlowRun}

theorem reachNew_move (hstate : run.flow.state = .waitingMarket) (hop : run.flow.operation = .new)
    (h : reachNew spec proof at_ order run = .ok run') : FlowMove spec at_ order run run' := by
  simp only [reachNew] at h
  split at h
  · split at h
    · simp only [bind_ok, pure_ok] at h
      obtain ⟨stage, hset, rfl⟩ := h
      exact .refused hstate hop hset
    · cases h
  · next hacc =>
      simp only [bind_ok, pure_ok] at h
      obtain ⟨stage, hset, rfl⟩ := h
      exact .accepted hstate hop hacc hset

theorem reachCancel_move
    (hstate : run.flow.state = .waitingMarket) (hop : run.flow.operation = .cancel)
    (h : reachCancel spec at_ order run = .ok run') : FlowMove spec at_ order run run' := by
  simp only [reachCancel] at h
  split at h
  · next hfilled =>
      cases pure_ok.mp h
      exact .tooLate hstate hop hfilled
  · next hfilled =>
      split at h
      · simp only [bind_ok, pure_ok] at h
        obtain ⟨stage, hset, rfl⟩ := h
        exact .cancelRefused hstate hop hfilled hset
      · simp only [bind_ok, pure_ok] at h
        obtain ⟨stage, hset, rfl⟩ := h
        exact .cancelled hstate hop hfilled hset

theorem replaceConfirmed_move {rule : MarketRule}
    {oldId newId : String} {target : ℤ} {price : ℚ} {ht : 0 < target} {hp : 0 < price}
    {released : Staged} (hstate : run.flow.state ≠ .waitingMarket)
    (houtcome : run.flow.outcome = some .cancelConfirmed)
    (hinstruction : run.flow.instruction = .replace oldId newId target price ht hp)
    (hrelease : run.stage.run spec (run.flow.workflowId ++ ":receipt")
      (.release run.flow.orderId .cancelConfirmed at_) = .ok released)
    (h : replaceConfirmed spec proof rule at_ newId target price hp
      { run with
        stage := released
        flow := { run.flow with
          state := .cancelConfirmed
          nextAt := none } } = .ok run') :
    FlowMove spec at_ order run run' := by
  simp only [replaceConfirmed, bind_ok, need_ok] at h
  obtain ⟨old, hold, h⟩ := h
  have hended : ∀ state reason quantity, state.final = true →
      FlowMove spec at_ order run ⟨released, run.execution,
        { run.flow with
          state := state
          nextAt := none
          reason := reason
          replacementQuantity := quantity }⟩ :=
    fun _ _ _ hf => .ended hstate houtcome hrelease hf
  split at h
  · next hq =>
      simp only [bind_ok, need_ok] at h
      obtain ⟨phase, -, h⟩ := h
      split at h
      · next timing =>
          split at h
          · cases pure_ok.mp h
            exact hended _ _ _ rfl
          · next hwindow =>
            push Not at hwindow
            simp only [sendReplacement] at h
            split at h
            · split at h
              · cases pure_ok.mp h
                exact hended _ _ _ rfl
              · cases h
            · next reserved hreserved =>
                simp only [bind_ok, pure_ok] at h hreserved
                obtain ⟨stage, hmark, rfl⟩ := h
                obtain ⟨_, hacc, hreserve⟩ := hreserved
                exact .replaced hstate hwindow.1 houtcome hinstruction hrelease hold rfl hacc
                  hreserve hmark
      · cases pure_ok.mp h
        exact hended _ _ _ rfl
  · cases pure_ok.mp h
    exact hended _ _ _ rfl

theorem receive_move {rule : MarketRule} (hstate : run.flow.state ≠ .waitingMarket)
    (h : receive spec proof rule at_ run = .ok run') : FlowMove spec at_ order run run' := by
  simp only [receive, bind_ok, need_ok] at h
  obtain ⟨outcome, houtcome, released, hrelease, h⟩ := h
  split at h
  · next oldId newId target price ht hp hinstruction =>
      exact replaceConfirmed_move hstate houtcome hinstruction hrelease h
  · cases pure_ok.mp h
    exact .ended hstate houtcome hrelease (FlowOutcome.flowState_final _)

variable {proofs : List MarketActionEvidence}

theorem flowStep_move (h : flowStep spec proofs at_ run = .ok run') :
    ∃ order, run.stage.value.orders.get? run.flow.orderId = some order ∧
      FlowMove spec at_ order run run' := by
  simp only [flowStep, bind_ok, need_ok] at h
  obtain ⟨order, horder, proof, -, _, -, h⟩ := h
  refine ⟨order, horder, ?_⟩
  split at h
  · next hstate hop => exact reachNew_move hstate hop h
  · next hstate hop => exact reachCancel_move hstate hop h
  · next hnew hcancel =>
      refine receive_move (fun hstate => ?_) h
      cases hop : run.flow.operation with
      | new => exact hnew hstate hop
      | cancel => exact hcancel hstate hop

theorem flowLoop_induction {P : FlowRun → Prop} {fuel : ℕ} {history history' : List FlowHistory}
    (h : flowLoop spec proofs at_ fuel run history = .ok (run', history')) (hrun : P run)
    (hstep : ∀ a b order, P a → a.flow.nextAt = some at_ →
      a.stage.value.orders.get? a.flow.orderId = some order →
      FlowMove spec at_ order a b → P b) : P run' := by
  induction fuel generalizing run history with
  | zero =>
      cases pure_ok.mp h
      exact hrun
  | succ fuel ih =>
      rw [flowLoop] at h
      split at h
      · next hdue =>
          simp only [bind_ok] at h
          obtain ⟨next, hnext, h⟩ := h
          obtain ⟨order, horder, hmove⟩ := flowStep_move hnext
          exact ih h (hstep _ _ _ hrun hdue horder hmove)
      · cases pure_ok.mp h
        exact hrun

end Ahunter.Sim
