import Ahunter.Proofs.Submission

/-!
# Plans in every run

`FlowsSound` is kept by every command, so it holds wherever a run leads: an
advance keeps it by its moves, a submission adds workflows that are apart from
the others, a day's expiry ends workflows, and the commands that know nothing
of plans leave the workflows alone and every order they wait for in its status
or released.
-/

namespace Ahunter.Sim

open Ahunter.Lib

variable {spec : AccountSpec} {at_ : Instant} {ids ids' : Dict String String}
  {flows : Dict FlowKey Workflow}

/-! ## What keeps the workflows tied to their orders -/

variable {s : AccountState} {w : World} {act : AccountRequest → Prop}

theorem FlowsSound.evolves {t : AccountState} {as : List Act}
    {es : List Entry} (h : FlowsSound s ids flows) (hrun : LedgerRun spec (.only act) s as es t)
    (hs : Funded spec.zone s) : FlowsSound t ids flows := by
  refine { h with placed := fun k f hf hlive => ?_ }
  obtain ⟨o, ho, hawaits⟩ := h.placed k f hf hlive
  exact hrun.order hs ho hawaits fun p p' hp he => he.awaits f.awaits_settling hp

theorem FlowsSound.orders {t : AccountState} (h : FlowsSound s ids flows)
    (ht : t.orders = s.orders) : FlowsSound t ids flows :=
  { h with placed := ht ▸ h.placed }

theorem FlowsSound.expired (h : FlowsSound s ids flows) (day : Date) :
    FlowsSound s ids (flows.map fun _ f => f.expire day) := by
  have hget : ∀ {k f}, (flows.map fun _ f => f.expire day).get? k = some f →
      ∃ g, flows.get? k = some g ∧ f = g.expire day := by
    intro k f hf
    rw [Dict.get?_map, Option.map_eq_some_iff] at hf
    obtain ⟨g, hg, rfl⟩ := hf
    exact ⟨g, hg, rfl⟩
  have hkey : ∀ g : Workflow, (g.expire day).key = g.key := fun g => by
    unfold Workflow.expire
    split <;> rfl
  have hinstr : ∀ g : Workflow, (g.expire day).instruction = g.instruction := fun g => by
    unfold Workflow.expire
    split <;> rfl
  -- A workflow that is still live is one the expiry passed over.
  have hlive : ∀ g : Workflow, (g.expire day).live = true → g.expire day = g := by
    intro g hg
    unfold Workflow.expire at hg ⊢
    split at hg
    · cases hg
    · next hn => rw [if_neg hn]
  refine ⟨fun k f hf => ?_, fun k f hf => ?_, fun k f hf hl => ?_,
    fun j k f g hf hg hfl hgl heq => ?_, fun k f hf i hi => ?_,
    fun j k f g i hf hg hi hi' => ?_⟩
  · obtain ⟨g, hg, rfl⟩ := hget hf
    rw [hkey, h.keyed k g hg]
  · obtain ⟨g, hg, rfl⟩ := hget hf
    by_cases hl : (g.expire day).live = true
    · rw [hlive g hl]
      exact h.proper k g hg
    · refine ⟨fun h' => absurd h' hl, fun hstate hop => ?_⟩
      unfold Workflow.expire at hstate hop ⊢
      split at hstate
      · cases hstate
      · next hn =>
          rw [if_neg hn] at hop ⊢
          exact (h.proper k g hg).refused hstate hop
  · obtain ⟨g, hg, rfl⟩ := hget hf
    have hsame := hlive g hl
    rw [hsame] at hl ⊢
    exact h.placed k g hg hl
  · obtain ⟨f', hf', rfl⟩ := hget hf
    obtain ⟨g', hg', rfl⟩ := hget hg
    have hsame := hlive f' hfl
    have hsame' := hlive g' hgl
    rw [hsame] at hfl heq
    rw [hsame'] at hgl heq
    exact h.apart j k f' g' hf' hg' hfl hgl heq
  · obtain ⟨g, hg, rfl⟩ := hget hf
    exact h.named k g hg i (hinstr g ▸ hi)
  · obtain ⟨f', hf', rfl⟩ := hget hf
    obtain ⟨g', hg', rfl⟩ := hget hg
    exact h.distinct j k f' g' i hf' hg' (hinstr f' ▸ hi) (hinstr g' ▸ hi')

variable {new : List Workflow}

theorem get?_foldl_set {d : Dict FlowKey Workflow}
    (hnodup : (new.map Workflow.key).Nodup) {k : FlowKey} {f : Workflow} :
    (new.foldl (fun d f => d.set f.key f) d).get? k = some f ↔
      (f ∈ new ∧ f.key = k) ∨ (d.get? k = some f ∧ ∀ g ∈ new, g.key ≠ k) := by
  induction new generalizing d with
  | nil => simp
  | cons n ns ih =>
      rw [List.map_cons, List.nodup_cons] at hnodup
      rw [List.foldl_cons, ih hnodup.2, Dict.get?_set]
      have hn : ∀ g ∈ ns, g.key ≠ n.key := fun g hg heq =>
        hnodup.1 (heq ▸ List.mem_map_of_mem hg)
      by_cases hk : k = n.key
      · subst hk
        simp only [if_true, List.mem_cons, Option.some.injEq, forall_eq_or_imp, ne_eq,
          not_true_eq_false, false_and, and_false, or_false]
        constructor
        · rintro (⟨hf, hkey⟩ | ⟨rfl, -⟩)
          · exact ⟨Or.inr hf, hkey⟩
          · exact ⟨Or.inl rfl, rfl⟩
        · rintro ⟨rfl | hf, hkey⟩
          · exact Or.inr ⟨rfl, hn⟩
          · exact Or.inl ⟨hf, hkey⟩
      · simp only [if_neg hk, List.mem_cons, forall_eq_or_imp]
        constructor
        · rintro (⟨hf, hkey⟩ | ⟨hd, hns⟩)
          · exact Or.inl ⟨Or.inr hf, hkey⟩
          · exact Or.inr ⟨hd, fun h => hk h.symm, hns⟩
        · rintro (⟨rfl | hf, hkey⟩ | ⟨hd, -, hns⟩)
          · exact absurd hkey.symm hk
          · exact Or.inl ⟨hf, hkey⟩
          · exact Or.inr ⟨hd, hns⟩

variable {plan : StagePlan}

theorem FlowsSound.apart_submission {day : Date} {st : Staged}
    (h : FlowsSound s w.execution.reservedOrderIds w.plans.workflows)
    (hnew : Submission spec w s plan day at_ st new) {k : FlowKey} {f : Workflow}
    (hf : w.plans.workflows.get? k = some f) (hlive : f.live = true) :
    ∀ g ∈ new, g.orderId ≠ f.orderId := by
  intro g hg heq
  obtain ⟨o, ho, hawaits⟩ := h.placed k f hf hlive
  rcases hnew.before g hg with ⟨-, hfree, -⟩ | ⟨-, p, hp, hcan, -⟩
  · rw [heq, ho] at hfree
    cases hfree
  · rw [heq, ho] at hp
    cases hp
    have hsettling := f.awaits_settling
    have hheld : o.status.held = true := by
      rcases hcan with hs | hs <;> rw [hs] <;> rfl
    rw [← hawaits hheld] at hsettling
    rcases hcan with hs | hs <;> rw [hs] at hsettling <;> cases hsettling

theorem FlowsSound.submitted {day : Date} {st : Staged}
    (h : FlowsSound s w.execution.reservedOrderIds w.plans.workflows)
    (hnew : Submission spec w s plan day at_ st new) :
    FlowsSound st.value (reserveIds w.execution.reservedOrderIds plan.planId
        (plan.instructions.filterMap Instruction.freshId?))
      (new.foldl (fun d f => d.set f.key f) w.plans.workflows) := by
  have hget : ∀ {k f}, (new.foldl (fun d f => d.set f.key f) w.plans.workflows).get? k
      = some f → (f ∈ new ∧ f.key = k) ∨ w.plans.workflows.get? k = some f :=
    fun hf => ((get?_foldl_set hnew.keys).mp hf).imp_right And.left
  have hapart : ∀ {k f}, w.plans.workflows.get? k = some f → f.live = true →
      ∀ g ∈ new, g.orderId ≠ f.orderId := h.apart_submission hnew
  refine ⟨fun k f hf => ?_, fun k f hf => ?_, fun k f hf hl => ?_,
    fun j k f g hf hg hfl hgl heq => ?_, fun k f hf i hi => ?_,
    fun j k f g i hf hg hi hi' => ?_⟩
  · rcases hget hf with ⟨-, hk⟩ | hf
    · exact hk
    · exact h.keyed k f hf
  · rcases hget hf with ⟨hf, -⟩ | hf
    · have hst := hnew.started f hf
      exact ⟨fun _ => Or.inl hst.state, fun hw => by rw [hst.state] at hw; cases hw⟩
    · exact h.proper k f hf
  · rcases hget hf with ⟨hf, -⟩ | hf
    · obtain ⟨o, ho, hstatus, -⟩ := hnew.placed f hf
      exact ⟨o, ho, fun _ => hstatus⟩
    · obtain ⟨o, ho, hawaits⟩ := h.placed k f hf hl
      exact ⟨o, by rw [hnew.others _ (hapart hf hl), ho], hawaits⟩
  · rcases hget hf with ⟨hf', hj⟩ | hf' <;> rcases hget hg with ⟨hg', hk⟩ | hg'
    · rw [← hj, ← hk, List.inj_on_of_nodup_map hnew.orders hf' hg' heq]
    · exact absurd heq (hapart hg' hgl f hf')
    · exact absurd heq.symm (hapart hf' hfl g hg')
    · exact h.apart j k f g hf' hg' hfl hgl heq
  · refine reserveIds_get ?_
    rcases hget hf with ⟨hf, -⟩ | hf
    · refine Or.inl (List.mem_filterMap.mpr ⟨f.instruction, ?_, ?_⟩)
      · rw [← hnew.instructions]
        exact List.mem_map_of_mem hf
      · rcases f.instruction.start_cases with ⟨-, -, hnone⟩ | ⟨-, -, hsame⟩
        · rw [hnone] at hi
          cases hi
        · rw [← hsame, hi]
    · exact Or.inr (h.named k f hf i hi)
  · rcases hget hf with ⟨hf', hj⟩ | hf' <;> rcases hget hg with ⟨hg', hk⟩ | hg'
    · rw [← hj, ← hk,
        eq_of_pairwise (φ := fun f => f.instruction.newId?) hnew.names hf' hg' hi hi']
    · obtain ⟨p, hp⟩ := h.named k g hg' i hi'
      rw [(hnew.named f hf' i hi).1.2] at hp
      cases hp
    · obtain ⟨p, hp⟩ := h.named j f hf' i hi
      rw [(hnew.named g hg' i hi').1.2] at hp
      cases hp
    · exact h.distinct j k f g i hf' hg' hi hi'

/-! ## Commands that know nothing of plans -/

variable {x : ExecutionState} {aid : String} {w' : World}

/-- The commands of `StagePlans`. -/
def Command.planning : Command → Bool
  | .submit .. | .advance .. | .expireDay .. => true
  | _ => false

structure PlansKept (w w' : World) : Prop where
  plans : w'.plans = w.plans
  ids : w'.execution.reservedOrderIds = w.execution.reservedOrderIds

theorem PlansKept.refl (w : World) : PlansKept w w := ⟨rfl, rfl⟩

variable {proofs : List AcceptanceEvidence} {x' : ExecutionState}

theorem enterWalk_ids {orders : List Reservation}
    (h : walk (fun x order => do
      let proof ← proofFor proofs order.security
      pure (x.enter order.orderId at_ proof none)) x orders = .ok x') :
    x'.reservedOrderIds = x.reservedOrderIds :=
  walk_induction (P := fun y : ExecutionState =>
    y.reservedOrderIds = x.reservedOrderIds) h rfl fun _ _ _ _ hc hone => by
      simp only [bind_ok, pure_ok] at hone
      obtain ⟨_, -, rfl⟩ := hone
      exact hc

def Budgeted (x y : ExecutionState) : Prop :=
  ∃ liquidity routes, y = { x with
    liquidity := liquidity
    routes := routes }

theorem Budgeted.refl (x : ExecutionState) : Budgeted x x := ⟨_, _, rfl⟩

theorem Budgeted.trans {y z : ExecutionState} (h : Budgeted x y) (h' : Budgeted y z) :
    Budgeted x z := by
  obtain ⟨_, _, rfl⟩ := h
  obtain ⟨liquidity, routes, rfl⟩ := h'
  exact ⟨liquidity, routes, rfl⟩

theorem Budgeted.setAside {y : ExecutionState} (h : Budgeted x y) :
    y.reservedOrderIds = x.reservedOrderIds := by
  obtain ⟨_, _, rfl⟩ := h
  rfl

theorem consume_budgeted {key : MinuteKey} {quantity : ℤ}
    (h : x.consume key quantity = .ok x') : Budgeted x x' := by
  obtain ⟨c, -, rfl⟩ := consume_ok h
  exact ⟨_, _, rfl⟩

theorem minuteOne_budgeted {e : MinuteEvidence} {a b : MinuteRun} {o : MinuteOrder}
    (h : minuteOne spec aid e a o = .ok b) : Budgeted a.execution b.execution := by
  simp only [minuteOne, bind_ok, need_ok] at h
  obtain ⟨capacity, -, h⟩ := h
  split at h
  · cases pure_ok.mp h
    exact .refl _
  · simp only [bind_ok, pure_ok] at h
    obtain ⟨st, -, x, hx, rfl⟩ := h
    exact consume_budgeted hx

theorem fillCandidate_budgeted {id : String} {rule : MarketRule} {key : MinuteKey}
    {tick : QueueTick} {a b : TradeRun} (h : fillCandidate spec aid rule key tick a id = .ok b) :
    Budgeted a.execution b.execution := by
  simp only [fillCandidate, bind_ok, need_ok] at h
  obtain ⟨order, -, h⟩ := h
  split at h
  · cases pure_ok.mp h
    exact .refl _
  · simp only [bind_ok, pure_ok] at h
    obtain ⟨st, -, x, hx, rfl⟩ := h
    exact consume_budgeted hx

theorem replayTick_budgeted {e : QueueMarket} {entrants : List QueueEntrant} {a b : QueueRun}
    {tick : QueueTick} (h : replayTick spec aid e entrants a tick = .ok b) :
    Budgeted a.execution b.execution := by
  simp only [replayTick, bind_ok] at h
  obtain ⟨r, -, h⟩ := h
  split at h
  · cases pure_ok.mp h
    exact .refl _
  · simp only [bind_ok, need_ok, pure_ok] at h
    obtain ⟨start, -, capacity, -, reached, -, t, ht, rfl⟩ := h
    exact walk_induction (P := fun t : TradeRun => Budgeted a.execution t.execution) ht
      (.refl _) fun _ _ _ _ hc hone => hc.trans (fillCandidate_budgeted hone)

theorem openMinute_budgeted {e : QueueMarket} {entry : ℤ × QueueVolume}
    (h : openMinute spec e x entry = .ok x') : Budgeted x x' := by
  simp only [openMinute, bind_ok, pure_ok] at h
  obtain ⟨⟨y, c⟩, hc, _, -, rfl⟩ := h
  obtain ⟨-, -, -, -, rfl⟩ := capacityFor_ok hc
  exact ⟨_, _, rfl⟩

theorem pinPosition_ids {e : QueueEvidence} {key : String}
    {a b : ExecutionState × List QueueEntrant} {entry : String × Order}
    (h : pinPosition spec e key at_ a entry = .ok b) :
    b.1.reservedOrderIds = a.1.reservedOrderIds := by
  simp only [pinPosition, bind_ok, pure_ok] at h
  obtain ⟨_, -, _, -, _, -, _, -, _, -, _, -, rfl⟩ := h
  rfl

theorem step_plansKept {c : Command} (h : step spec w c = .ok w') (hc : c.planning = false) :
    PlansKept w w' := by
  cases c with
  | opening aid running =>
      rcases initializeAccount_ok h with rfl | ⟨-, -, o, -, hcommit⟩
      · exact .refl _
      · obtain ⟨o', -, rfl⟩ := World.commit_ok hcommit
        exact ⟨rfl, rfl⟩
  | account aid r =>
      rcases direct_ok h with rfl | ⟨s, o, -, -, -, -, hcommit⟩
      · exact .refl _
      · obtain ⟨o', -, rfl⟩ := World.commit_ok hcommit
        exact ⟨rfl, rfl⟩
  | acceptBatch aid orders proofs at_ =>
      rcases acceptBatch_ok h with rfl | ⟨s, st, x, -, -, -, -, hx, hpublish⟩
      · exact .refl _
      · obtain ⟨o', -, rfl⟩ := World.publish_ok hpublish
        exact ⟨rfl, enterWalk_ids hx⟩
  | advanceMinute aid e =>
      rcases advanceMinute_ok h with rfl | ⟨s, orders, x, capacity, run, record, -, -,
        -, -, -, hcapacity, -, hrun, -, hpublish⟩
      · exact .refl _
      · obtain ⟨o', -, rfl⟩ := World.publish_ok hpublish
        refine ⟨rfl, ?_⟩
        obtain ⟨-, -, -, -, rfl⟩ := capacityFor_ok hcapacity
        exact walk_induction (P := fun r : MinuteRun =>
          r.execution.reservedOrderIds = w.execution.reservedOrderIds) hrun rfl
          fun _ _ _ _ hr hone => (minuteOne_budgeted hone).setAside.trans hr
  | queueAdvance aid e throughAt throughSequence =>
      rcases queueAdvance_ok h with rfl | ⟨s, volumes, start, x1, entrants, x2, run,
        results, -, -, -, -, -, -, -, hpin, hopen, hrun, -, hpublish⟩
      · exact .refl _
      · obtain ⟨o', -, rfl⟩ := World.publish_ok hpublish
        refine ⟨rfl, ?_⟩
        have h1 : x1.reservedOrderIds = w.execution.reservedOrderIds :=
          walk_induction (P := fun y : ExecutionState × List QueueEntrant =>
            y.1.reservedOrderIds = w.execution.reservedOrderIds) hpin rfl
            fun _ _ _ _ hr hone => (pinPosition_ids hone).trans hr
        have h2 : x2.reservedOrderIds = w.execution.reservedOrderIds :=
          walk_induction (P := fun y : ExecutionState =>
            y.reservedOrderIds = w.execution.reservedOrderIds) hopen h1
            fun _ _ _ _ hr hone => (openMinute_budgeted hone).setAside.trans hr
        exact walk_induction (P := fun r : QueueRun =>
          r.execution.reservedOrderIds = w.execution.reservedOrderIds) hrun h2
          fun _ _ _ _ hr hone => (replayTick_budgeted hone).setAside.trans hr
  | submit => cases hc
  | advance => cases hc
  | expireDay => cases hc

/-! ## Every run -/

structure PlansSound (w : World) : Prop where
  closed : w.account = none → ∀ k, w.plans.workflows.get? k = none
  flows : ∀ s, w.account = some s →
    FlowsSound s w.execution.reservedOrderIds w.plans.workflows
  planned : ∀ k f, w.plans.workflows.get? k = some f →
    ∃ p, w.plans.plans.get? f.planId = some p

theorem PlansSound.start : PlansSound World.start :=
  ⟨fun _ _ => rfl, by simp [World.start], fun k f h => by cases h⟩

theorem FlowsSound.none (h : ∀ k, flows.get? k = none) : FlowsSound s ids flows := by
  have habsent : ∀ {k f}, flows.get? k ≠ some f := fun {k f} hf => by
    rw [h k] at hf
    cases hf
  exact ⟨fun _ _ hf => absurd hf habsent, fun _ _ hf => absurd hf habsent,
    fun _ _ hf => absurd hf habsent, fun _ _ _ _ hf => absurd hf habsent,
    fun _ _ hf => absurd hf habsent, fun _ _ _ _ _ hf => absurd hf habsent⟩

theorem PlansSound.kept (hw : PlansSound w)
    (hchange : AccountChange spec (.only act) w w') (hkept : PlansKept w w')
    (hf : ∀ s, w.account = some s → Funded spec.zone s) : PlansSound w' := by
  constructor
  · intro hnone k
    cases hchange with
    | none haccount => rw [hkept.plans]; exact hw.closed (haccount ▸ hnone) k
    | opened hold hinit hseal haccount => rw [haccount] at hnone; cases hnone
    | event hs haccount => rw [haccount] at hnone; cases hnone
  · intro t ht
    rw [hkept.plans, hkept.ids]
    cases hchange with
    | none haccount => exact hw.flows t (haccount ▸ ht)
    | opened hold hinit hseal haccount => exact FlowsSound.none (hw.closed hold)
    | event hs haccount hevents hkeys hrun =>
        have hsame := haccount.symm.trans ht
        cases hsame
        exact (hw.flows _ hs).evolves hrun (hf _ hs)
  · rw [hkept.plans]
    exact hw.planned

theorem PlansSound.advanced {proofs : List MarketActionEvidence} (hw : PlansSound w)
    (h : advance spec w aid at_ proofs = .ok w') : PlansSound w' := by
  rcases advance_ok h with rfl | ⟨s, run, hs, -, -, -, hrun, hpublish⟩
  · exact hw
  obtain ⟨o', hseal, rfl⟩ := World.publish_ok hpublish
  have hflows := hw.flows s hs
  obtain ⟨hnodup, hdue⟩ := dueFlows_keys hflows at_
  have hstart : AdvanceSound w.execution.reservedOrderIds
      ⟨⟨s, []⟩, w.execution, w.plans.workflows, []⟩ :=
    ⟨hflows, fun e he => absurd he List.not_mem_nil⟩
  obtain ⟨hend, hids, hplanned⟩ := advanceWalk_moves (P := fun acc =>
    acc.execution.reservedOrderIds = w.execution.reservedOrderIds ∧
      ∀ k f, acc.workflows.get? k = some f →
        ∃ p, w.plans.plans.get? f.planId = some p)
    hrun hnodup (fun f hf => (hdue f hf).1) hstart ⟨rfl, hw.planned⟩
    fun acc f run history' hacc hP hf hloop => by
      obtain ⟨-, hids, hsame⟩ := flowLoop_moves
        (Q := fun r => r.execution.reservedOrderIds = w.execution.reservedOrderIds) hloop
        (hacc.inFlow hf) hP.1
        fun a b order _ ha _ _ _ hmove _ => by cases hmove <;> exact ha
      refine ⟨hids, fun k g hg => ?_⟩
      rw [Dict.get?_set] at hg
      split at hg
      · cases hg
        have hplan : run.flow.planId = f.planId :=
          congrArg (fun k : FlowKey => (ofLex k).1) hsame.key
        rw [hplan]
        exact hP.2 _ f hf
      · exact hP.2 k g hg
  refine ⟨nofun, fun t ht => ?_, hplanned⟩
  cases ht
  rw [hids]
  exact hend.sound.orders (prepareState_orders hseal)

theorem PlansSound.submitted {session : Session} (hw : PlansSound w)
    (h : submit spec w aid session plan proofs = .ok w') : PlansSound w' := by
  rcases submit_ok h with rfl | ⟨phase, at_, st, x, plans, record, -, hphase, hnewPlan,
    hstage, -, hpublish⟩
  · exact hw
  obtain ⟨o', hseal, rfl⟩ := World.publish_ok hpublish
  simp only [submissionPhase, bind_ok, need_ok, pure_ok, Prod.mk.injEq] at hphase
  obtain ⟨phase', -, t, ht, rfl, rfl⟩ := hphase
  obtain ⟨s, day, flows, hs, hnew, hflows, hplans, rfl⟩ :=
    submitStage_submission ht hstage
  refine ⟨fun h => (by cases h), fun u hu => ?_, fun k f hf => ?_⟩
  · cases hu
    rw [show ({ plans with plans := plans.plans.set plan.planId record } :
      PlansState).workflows = _ from hflows]
    exact ((hw.flows s hs).submitted hnew).orders (prepareState_orders hseal)
  · rw [show ({ plans with plans := plans.plans.set plan.planId record } :
      PlansState).workflows = _ from hflows, get?_foldl_set hnew.keys] at hf
    show ∃ p, (plans.plans.set plan.planId record).get? f.planId = some p
    rw [Dict.get?_set, hplans]
    split
    · exact ⟨record, rfl⟩
    · next hne =>
        rcases hf with ⟨hf, -⟩ | ⟨hf, -⟩
        · exact absurd (hnew.started f hf).planId hne
        · exact hw.planned k f hf

theorem PlansSound.expired {day : Date} {cursors : Dict String MarketCursor}
    {rules : List MarketRule} (hw : PlansSound w)
    (hf : ∀ s, w.account = some s → Funded spec.zone s)
    (h : expireDay spec w aid day cursors at_ rules = .ok w') : PlansSound w' := by
  rcases expireDay_ok h with rfl | ⟨s, st, hs, -, -, hst, hpublish⟩
  · exact hw
  obtain ⟨o', hseal, rfl⟩ := World.publish_ok hpublish
  obtain ⟨effects, -, hrun⟩ := expireWalk_run (d := .still) (fun _ _ => trivial) hst
  refine ⟨nofun, fun t ht => ?_, fun k f hf => ?_⟩
  · cases ht
    exact (((hw.flows s hs).evolves hrun (hf s hs)).expired day).orders
      (prepareState_orders hseal)
  · rw [Dict.get?_map, Option.map_eq_some_iff] at hf
    obtain ⟨g, hg, rfl⟩ := hf
    have hplan : (g.expire day).planId = g.planId := by
      unfold Workflow.expire
      split <;> rfl
    rw [hplan]
    exact hw.planned k g hg

theorem step_plansSound {c : Command} (h : step spec w c = .ok w') (hw : PlansSound w)
    (hf : ∀ s, w.account = some s → Funded spec.zone s) : PlansSound w' := by
  cases hc : c.planning with
  | false =>
      refine hw.kept (step_change h Discipline.still_open ?_) (step_plansKept h hc) hf
      rintro aid t proofs rfl
      cases hc
  | true =>
      cases c with
      | submit aid session plan proofs => exact hw.submitted h
      | advance aid t proofs => exact hw.advanced h
      | expireDay aid day cursors t rules => exact hw.expired hf h
      | _ => cases hc

theorem reachable_plansSound (h : Reachable spec w) : PlansSound w :=
  h.invariant .start fun _ _ _ hr hw hstep _ =>
    step_plansSound hstep hw fun _ => reachable_funded hr

end Ahunter.Sim
