import Ahunter.Proofs.Plans

/-!
# Hosted runs

A host reserves and releases through the engine and the plans, never on the
ledger itself. In such a run the order of a live workflow is exactly where the
workflow expects it: of the workflow's day and in the status it waits in, or
filled before its cancellation came. `FlowsOwned` says so, and every hosted
command keeps it.
-/

namespace Ahunter.Sim

open Ahunter.Lib

variable {spec : AccountSpec} {at_ : Instant} {ids : Dict String String}
  {flows : Dict FlowKey Workflow}

/-! ## Hosted calls -/

def AccountRequest.hosted : AccountRequest → Bool
  | .reserveBatch .. | .release .. => false
  | _ => true

def Command.hosted : Command → Bool
  | .account _ r => r.hosted
  | _ => true

def Hosted (_ : World) (c : Command) (_ : World) : Prop := c.hosted = true

instance (w : World) (c : Command) (w' : World) : Decidable (Hosted w c w') :=
  inferInstanceAs (Decidable (_ = _))

/-- Orders are neither entered nor released nor moved. -/
def Discipline.tending : Discipline := .only fun r => r.hosted = true

theorem AccountRequest.reserves_of_hosted {r : AccountRequest} (h : r.hosted = true) :
    r.reserves = [] := by
  cases r <;> simp_all [hosted, reserves]

variable {w w' : World}

theorem tending_change {c : Command} (h : step spec w c = .ok w')
    (hc : c.hosted = true) (hplanning : c.planning = false)
    (hbatch : ∀ aid orders proofs t, c ≠ .acceptBatch aid orders proofs t) :
    AccountChange spec .tending w w' := by
  cases c with
  | opening aid running =>
      rcases initializeAccount_ok h with rfl | ⟨hnone, -, o, hinit, hcommit⟩
      · exact .none rfl rfl
      · obtain ⟨o', hseal, rfl⟩ := World.commit_ok hcommit
        exact .opened hnone hinit hseal rfl rfl rfl rfl rfl rfl rfl rfl rfl
  | account aid r =>
      rcases direct_ok h with rfl | ⟨s, o, hs, -, hcheck, hrun, hcommit⟩
      · exact .none rfl rfl
      · obtain ⟨o', hseal, rfl⟩ := World.commit_ok hcommit
        refine .event hs rfl rfl ?_
          (LedgerRun.single (LedgerStep.account hcheck hrun hseal hc))
          (.performed rfl hrun hseal) rfl
        simp [AccountEvent.lotKeys, StageRequest.lotKeys]
  | acceptBatch aid orders proofs t => exact absurd rfl (hbatch _ _ _ _)
  | advanceMinute aid e => exact advanceMinute_change (fun _ _ _ _ _ _ _ _ _ => rfl) h
  | queueAdvance aid e throughAt throughSequence =>
      exact queueAdvance_change (fun _ _ _ _ _ _ _ _ _ => rfl) h
  | submit => cases hplanning
  | advance => cases hplanning
  | expireDay => cases hplanning

/-! ## Orders where their workflows expect them -/

variable {s : AccountState}

structure Workflow.Owns (f : Workflow) (o : Order) : Prop where
  tradeDate : o.tradeDate = f.tradeDate
  status : o.status = f.awaits ∨ (f.awaits = .cancelPending ∧ o.status = .filled)

def FlowsOwned (s : AccountState) (flows : Dict FlowKey Workflow) : Prop :=
  ∀ k f, flows.get? k = some f → f.live = true →
    ∃ o, s.orders.get? f.orderId = some o ∧ f.Owns o

variable {t : AccountState}

theorem FlowsOwned.orders (h : FlowsOwned s flows) (ht : t.orders = s.orders) :
    FlowsOwned t flows :=
  fun k f hf hlive => ht ▸ h k f hf hlive

theorem OrderStatus.eq_of_settling {s : OrderStatus} (hsettling : s.settling = true)
    (hexec : s.executable = true) : s = .cancelPending := by
  cases s <;> simp_all [settling, executable]

variable {act : AccountRequest → Prop}

theorem Evolves.owns {id : String} {o o' : Order}
    {f : Workflow} (h : Evolves (.only act) id o o') (ho : f.Owns o)
    (hact : ∀ reason t, ¬ act (.release id reason t)) : f.Owns o' := by
  refine ⟨h.tradeDate.trans ho.tradeDate, ?_⟩
  have hsettling := f.awaits_settling
  cases h.move with
  | kept hstatus hfilled => exact hstatus ▸ ho.status
  | filled hfill hexec hstatus =>
      rcases ho.status with hwas | ⟨-, hwas⟩
      · rw [hwas] at hexec hstatus
        have hpending := OrderStatus.eq_of_settling hsettling hexec
        rcases hstatus with hstatus | ⟨-, hstatus⟩ | ⟨hne, -⟩
        · exact Or.inr ⟨hpending, hstatus⟩
        · exact Or.inl (hstatus.trans hpending.symm)
        · exact absurd hpending hne
      · rw [hwas] at hexec
        cases hexec
  | requested hrequest hopen hstatus hfilled =>
      rcases ho.status with hwas | ⟨-, hwas⟩
      · rw [← hwas] at hsettling
        rcases hopen with h | h <;> rw [h] at hsettling <;> cases hsettling
      · rcases hopen with h | h <;> rw [h] at hwas <;> cases hwas
  | released hrelease => exact absurd hrelease (hact _ _)
  | moved hmove => cases hmove
  | sent hsend hstatus hfilled =>
      have hreserved : o.status = .reserved := hsend
      rcases ho.status with hwas | ⟨-, hwas⟩
      · rw [← hwas, hreserved] at hsettling
        cases hsettling
      · rw [hreserved] at hwas
        cases hwas

theorem FlowsOwned.evolves {as : List Act}
    {es : List Entry} (h : FlowsOwned s flows) (hrun : LedgerRun spec (.only act) s as es t)
    (hs : Funded spec.zone s)
    (hact : ∀ k f, flows.get? k = some f → f.live = true →
      ∀ reason u, ¬ act (.release f.orderId reason u)) : FlowsOwned t flows := by
  intro k f hf hlive
  obtain ⟨o, ho, howns⟩ := h k f hf hlive
  exact hrun.order hs ho howns fun p p' hp he => he.owns hp (hact k f hf hlive)

theorem FlowsOwned.expired {day : Date} {as : List Act} {es : List Entry}
    (h : FlowsOwned s flows) (hs : Funded spec.zone s)
    (hrun : LedgerRun spec (.only fun r => ∃ e ∈ liveOrders s day,
      r = .release e.1 .dayExpired at_) s as es t) :
    FlowsOwned t (flows.map fun _ f => f.expire day) := by
  intro k f hf hlive
  rw [Dict.get?_map, Option.map_eq_some_iff] at hf
  obtain ⟨g, hg, rfl⟩ := hf
  unfold Workflow.expire at hlive ⊢
  split at hlive
  · cases hlive
  · next hother =>
      rw [if_neg hother]
      have hday : g.tradeDate ≠ day := fun heq => hother ⟨heq, hlive⟩
      obtain ⟨o, ho, howns⟩ := h k g hg hlive
      refine hrun.order hs ho howns fun p p' hp he => he.owns hp ?_
      rintro reason u ⟨e, he, hreq⟩
      obtain ⟨hmem, hlive'⟩ := List.mem_filter.mp he
      simp only [Bool.and_eq_true, decide_eq_true_eq] at hlive'
      have hid : g.orderId = e.1 := (AccountRequest.release.inj hreq).1
      have hget : s.orders.get? g.orderId = some e.2 := hid ▸ Dict.mem_entries.mp hmem
      cases ho.symm.trans hget
      exact hday (howns.tradeDate.symm.trans hlive'.1)

theorem FlowsOwned.submitted {w : World} {plan : StagePlan} {day : Date} {st : Staged}
    {new : List Workflow} (h : FlowsOwned s w.plans.workflows)
    (hnew : Submission spec w s plan day at_ st new) :
    FlowsOwned st.value (new.foldl (fun d f => d.set f.key f) w.plans.workflows) := by
  intro k f hf hlive
  rcases (get?_foldl_set hnew.keys).mp hf with ⟨hf, -⟩ | ⟨hf, -⟩
  · obtain ⟨o, ho, hstatus, hdate⟩ := hnew.placed f hf
    exact ⟨o, ho, hdate, Or.inl hstatus⟩
  · obtain ⟨o, ho, howns⟩ := h k f hf hlive
    refine ⟨o, ?_, howns⟩
    rw [hnew.others f.orderId fun g hg heq => ?_, ho]
    -- A plan's order is new, or open and awaited by no workflow.
    rcases hnew.before g hg with ⟨-, hfree, -⟩ | ⟨-, p, hp, hopen, -⟩
    · rw [heq, ho] at hfree
      cases hfree
    · rw [heq, ho] at hp
      cases hp
      have hsettling := f.awaits_settling
      rcases howns.status with hwas | ⟨-, hwas⟩
      · rw [← hwas] at hsettling
        rcases hopen with h | h <;> rw [h] at hsettling <;> cases hsettling
      · rcases hopen with h | h <;> rw [h] at hwas <;> cases hwas

/-! ## Moves -/

theorem FlowMove.dated {order o : Order} {a b : FlowRun} (h : FlowMove spec at_ order a b)
    (horder : a.stage.value.orders.get? a.flow.orderId = some order)
    (hdate : order.tradeDate = a.flow.tradeDate) (hfresh : a.Unreplaced)
    (hlive : b.flow.live = true) (ho : b.stage.value.orders.get? b.flow.orderId = some o) :
    o.tradeDate = b.flow.tradeDate := by
  cases h with
  | accepted => cases hlive
  | tooLate => cases hlive
  | cancelRefused => cases hlive
  | ended => cases hlive
  | refused hstate hop hset =>
      obtain ⟨old, e, hold, horders, -⟩ := setOrderState_ok hset
      cases hold.symm.trans horder
      rw [horders, Dict.get?_set_self] at ho
      cases ho
      exact hdate
  | cancelled hstate hop hfilled hset =>
      obtain ⟨old, e, hold, horders, -⟩ := setOrderState_ok hset
      cases hold.symm.trans horder
      rw [horders, Dict.get?_set_self] at ho
      cases ho
      exact hdate
  | replaced hstate hday houtcome hinstruction hrelease hold hremaining hacc hreserve
      hmark =>
      have hres := Staged.run_reserved_after hrelease
        (fun e he => hfresh hstate houtcome _ _ _ _ _ _ hinstruction e he _ _ rfl)
        hreserve
      obtain ⟨cash, stock, hstored⟩ := hres.stored _ List.mem_cons_self
      obtain ⟨marked, hmarked, rfl⟩ := Staged.mark_ok hmark
      cases hstored.symm.trans hmarked
      rw [AccountState.setOrder_orders, Dict.get?_set_self] at ho
      cases ho
      exact hday

theorem Moved.owned {order : Order} {a b : FlowRun} (h : Moved a b)
    (ha : InFlow ids flows a) (hlive : a.flow.live = true)
    (horder : a.stage.value.orders.get? a.flow.orderId = some order)
    (hmove : FlowMove spec at_ order a b)
    (howned : FlowsOwned a.stage.value (flows.set a.flow.key a.flow)) :
    FlowsOwned b.stage.value (flows.set b.flow.key b.flow) := by
  intro k g hg hglive
  rw [h.same.key, Dict.get?_set] at hg
  split at hg
  · cases hg
    obtain ⟨o, ho, howns⟩ := howned _ _ (Dict.get?_set_self _ _ _) hlive
    cases ho.symm.trans horder
    obtain ⟨p, hp, hstatus⟩ := h.placed hglive
    exact ⟨p, hp, hmove.dated horder howns.tradeDate (ha.unreplaced hlive) hglive hp,
      Or.inl hstatus⟩
  · next hk =>
      have hg' : (flows.set a.flow.key a.flow).get? k = some g := by
        rw [Dict.get?_set_of_ne hk, hg]
      obtain ⟨o, ho, howns⟩ := howned k g hg' hglive
      exact ⟨o, h.others _ _ (ha.other hlive hg' hk hglive) ho, howns⟩

theorem advance_keeps {aid : String} {proofs : List MarketActionEvidence}
    {Q : AccountState → Dict FlowKey Workflow → Prop}
    (h : advance spec w aid at_ proofs = .ok w') (hw : PlansSound w)
    (hQ : ∀ s, w.account = some s → Q s w.plans.workflows)
    (hsame : ∀ s t flows, t.orders = s.orders → Q s flows → Q t flows)
    (hstep : ∀ flows a b order, InFlow w.execution.reservedOrderIds flows a →
      a.flow.live = true → a.stage.value.orders.get? a.flow.orderId = some order →
      FlowMove spec at_ order a b → Moved a b → Q a.stage.value (flows.set a.flow.key a.flow) →
      Q b.stage.value (flows.set b.flow.key b.flow)) :
    ∀ s, w'.account = some s → Q s w'.plans.workflows := by
  rcases advance_ok h with rfl | ⟨s, run, hs, -, -, -, hrun, hpublish⟩
  · exact hQ
  obtain ⟨o', hseal, rfl⟩ := World.publish_ok hpublish
  have hflows := hw.flows s hs
  obtain ⟨hnodup, hdue⟩ := dueFlows_keys hflows at_
  have hstart : AdvanceSound w.execution.reservedOrderIds
      ⟨⟨s, []⟩, w.execution, w.plans.workflows, []⟩ :=
    ⟨hflows, fun e he => absurd he List.not_mem_nil⟩
  obtain ⟨-, hend⟩ := advanceWalk_moves
    (P := fun acc => Q acc.stage.value acc.workflows) hrun hnodup
    (fun f hf => (hdue f hf).1) hstart (hQ s hs)
    fun acc f run history' hacc hP hf hloop => by
      have hset : acc.workflows.set f.key f = acc.workflows := Dict.set_get?_self hf
      obtain ⟨-, hend, hsame⟩ := flowLoop_moves
        (Q := fun r => Q r.stage.value (acc.workflows.set r.flow.key r.flow))
        hloop (hacc.inFlow hf) (by rwa [hset])
        fun a b order ha hQa hlive _ horder hmove hmoved =>
          hstep acc.workflows a b order ha hlive horder hmove hmoved hQa
      have hkey : run.flow.key = f.key := hsame.key
      exact hkey ▸ hend
  intro t ht
  cases ht
  exact hsame _ _ _ (prepareState_orders hseal) hend

/-! ## Every hosted run -/

theorem step_owned {c : Command} (hr : Reachable spec w)
    (h : step spec w c = .ok w') (hc : c.hosted = true)
    (hw : ∀ s, w.account = some s → FlowsOwned s w.plans.workflows) :
    ∀ s, w'.account = some s → FlowsOwned s w'.plans.workflows := by
  have hsound := reachable_plansSound hr
  have hkept : ∀ {C : AccountRequest → Prop}, (∀ id reason u,
      ¬ C (.release id reason u)) → AccountChange spec (.only C) w w' →
      PlansKept w w' → ∀ s, w'.account = some s → FlowsOwned s w'.plans.workflows := by
    intro C hact hchange hplans t ht
    rw [hplans.plans]
    cases hchange with
    | none haccount => exact hw t (haccount ▸ ht)
    | opened hnone =>
        intro k f hf
        rw [hsound.closed hnone k] at hf
        cases hf
    | event hs haccount hevents hkeys hrun =>
        cases haccount.symm.trans ht
        exact (hw _ hs).evolves hrun (reachable_funded hr hs) fun _ _ _ _ => hact _
  cases c with
  | submit aid session plan proofs =>
      rcases submit_ok h with rfl | ⟨phase, t, st, x, plans, record, -, hphase, -,
        hstage, -, hpublish⟩
      · exact hw
      obtain ⟨o', hseal, rfl⟩ := World.publish_ok hpublish
      simp only [submissionPhase, bind_ok, need_ok, pure_ok, Prod.mk.injEq] at hphase
      obtain ⟨phase', -, t', ht', rfl, rfl⟩ := hphase
      obtain ⟨s, day, new, hs, hnew, hflows, -, rfl⟩ := submitStage_submission ht' hstage
      intro u hu
      cases hu
      show FlowsOwned o'.state plans.workflows
      rw [hflows]
      exact ((hw s hs).submitted hnew).orders (prepareState_orders hseal)
  | advance aid t proofs =>
      exact advance_keeps h hsound hw (fun _ _ _ ht ho => ho.orders ht)
        fun flows a b order ha hlive horder hmove hmoved howned =>
          hmoved.owned ha hlive horder hmove howned
  | expireDay aid day cursors t rules =>
      rcases expireDay_ok h with rfl | ⟨s, st, hs, -, -, hst, hpublish⟩
      · exact hw
      obtain ⟨o', hseal, rfl⟩ := World.publish_ok hpublish
      obtain ⟨effects, -, hrun⟩ := expireWalk_run (d := .only fun r =>
        ∃ e ∈ liveOrders s day, r = .release e.1 .dayExpired t)
        (fun e he => ⟨e, he, rfl⟩) hst
      intro u hu
      cases hu
      exact ((hw s hs).expired (reachable_funded hr hs) hrun).orders
        (prepareState_orders hseal)
  | acceptBatch aid orders proofs t =>
      exact hkept (C := fun r => r = .reserveBatch orders t) (by simp)
        (acceptBatch_change rfl h) (step_plansKept h rfl)
  | opening | account | advanceMinute | queueAdvance =>
      exact hkept (C := fun r => r.hosted = true) (by simp [AccountRequest.hosted])
        (tending_change h hc rfl (by simp)) (step_plansKept h rfl)

theorem hosted_owned {w : World} (h : ReachableIf spec Hosted w) (hs : w.account = some s) :
    FlowsOwned s w.plans.workflows :=
  h.invariant (P := fun w => ∀ s, w.account = some s → FlowsOwned s w.plans.workflows)
    (by simp [World.start]) (fun _ _ _ hr hw hstep hc =>
      step_owned hr.reachable hstep hc hw) s hs

end Ahunter.Sim
