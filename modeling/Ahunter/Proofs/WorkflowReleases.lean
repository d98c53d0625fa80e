import Ahunter.Proofs.Retirement
import Ahunter.Proofs.WorkflowTimes

/-!
# One release for each order

A workflow releases its order's resources when its receipt arrives, and a day's
expiry releases what is still live. Neither ever takes up an order the other
has released: a release leaves an order that holds nothing, on which only the
exchange could act again, and the exchange acts on orders of live workflows
alone. What carries the argument over a run is that an order released once is
over and awaited by no workflow, and that a workflow and its order are of one
day, so that the expiry of the day ends both.

The ledger's own release is not a plan's. It may come before a plan's, behind
the workflow's back, and is not counted here.
-/

namespace Ahunter.Sim

open Ahunter.Lib

variable {spec : AccountSpec} {at_ : Instant} {ids : Dict String String}
  {flows : Dict FlowKey Workflow} {proofs : List MarketActionEvidence}

/-! ## Counting -/

variable {w w' : World} {st st' : Staged} {id : String}

def Effect.releases (id : String) (e : Effect) : Bool :=
  match e.request with
  | .account (.release orderId _ _) => orderId = id
  | _ => false

def Staged.releases (st : Staged) (id : String) : ℕ := st.effects.countP (Effect.releases id)

def AccountEvent.releases (id : String) (e : AccountEvent) : ℕ :=
  match e.request with
  | .planAdvance .. | .planDayExpiry .. => e.effects.countP (Effect.releases id)
  | _ => 0

def World.releases (w : World) (id : String) : ℕ :=
  (w.events.map (AccountEvent.releases id)).sum

theorem World.releases_append {e : AccountEvent} (h : w'.events = w.events ++ [e]) (id : String) :
    w'.releases id = w.releases id + e.releases id := by
  rw [World.releases, h, List.map_append, List.sum_append]
  simp [World.releases]

theorem Staged.releases_append {es : List Effect} (h : st'.effects = st.effects ++ es)
    (id : String) : st'.releases id = st.releases id + es.countP (Effect.releases id) := by
  rw [Staged.releases, h, List.countP_append]
  rfl

variable {e : Effect} {reason : OrderStatus}

theorem Effect.releases_release {t : Instant}
    (h : e.request = .account (.release id reason t)) (j : String) :
    e.releases j = decide (id = j) := by
  rw [Effect.releases, h]

theorem Staged.releases_release {t : Instant}
    (h : st'.effects = st.effects ++ [e]) (hreq : e.request = .account (.release id reason t))
    (j : String) : st'.releases j = st.releases j + if j = id then 1 else 0 := by
  rw [Staged.releases_append h, List.countP_singleton, Effect.releases_release hreq]
  by_cases hj : j = id
  · subst hj
    simp
  · rw [if_neg hj, if_neg (by simpa using Ne.symm hj)]

theorem Effect.releases_other
    (h : ∀ id reason t, e.request ≠ .account (.release id reason t)) (j : String) :
    e.releases j = false := by
  unfold Effect.releases
  split
  · next id reason t heq => exact absurd heq (h _ _ _)
  · rfl

/-! ## Orders that were released -/

structure Freed (s : AccountState) (flows : Dict FlowKey Workflow) (id : String) : Prop where
  order : ∃ o, s.orders.get? id = some o ∧ o.status.held = false
  alone : ∀ k f, flows.get? k = some f → f.live = true → f.orderId ≠ id

def ReleasedOnce (n : String → ℕ) (s : AccountState) (flows : Dict FlowKey Workflow) : Prop :=
  ∀ id, n id = 0 ∨ n id = 1 ∧ Freed s flows id

variable {n : String → ℕ} {s t : AccountState}

theorem ReleasedOnce.awaited (h : ReleasedOnce n s flows) {k : FlowKey} {f : Workflow}
    (hf : flows.get? k = some f) (hlive : f.live = true) : n f.orderId = 0 := by
  rcases h f.orderId with hnone | ⟨-, -, halone⟩
  · exact hnone
  · exact absurd rfl (halone k f hf hlive)

theorem ReleasedOnce.orders (h : ReleasedOnce n s flows) (ht : t.orders = s.orders) :
    ReleasedOnce n t flows :=
  fun id => (h id).imp_right fun ⟨hone, horder, halone⟩ => ⟨hone, ht ▸ horder, halone⟩

/-! ## One move -/

def Released (a b : Staged) (id : String) : Prop :=
  (∀ j, b.releases j = a.releases j) ∨
    ((∀ j, b.releases j = a.releases j + if j = id then 1 else 0) ∧
      ∃ o, b.value.orders.get? id = some o ∧ o.status.held = false)

theorem Released.same {a b : Staged} (h : b.effects = a.effects) :
    Released a b id := Or.inl fun j => by rw [Staged.releases, Staged.releases, h]

theorem Released.append {a b : Staged} (h : b.effects = a.effects ++ [e])
    (he : ∀ i reason t, e.request ≠ .account (.release i reason t)) : Released a b id := by
  refine Or.inl fun j => ?_
  rw [Staged.releases_append h, List.countP_singleton, Effect.releases_other he]
  simp

theorem Released.then {a b c : Staged} (h : Released a b id)
    (hsame : ∀ j, c.releases j = b.releases j)
    (hkept : ∀ o, b.value.orders.get? id = some o → c.value.orders.get? id = some o) :
    Released a c id := by
  rcases h with hnone | ⟨hone, o, ho, hover⟩
  · exact Or.inl fun j => (hsame j).trans (hnone j)
  · exact Or.inr ⟨fun j => (hsame j).trans (hone j), o, hkept o ho, hover⟩

theorem released_of_setOrderState {reason : String} {status : OrderStatus} {vis : Instant}
    (h : setOrderState spec st id status at_ vis reason = .ok st') : Released st st' id := by
  obtain ⟨order, e, -, -, heffects, hreq⟩ := setOrderState_ok h
  exact .append heffects fun i reason t heq => by rw [hreq] at heq; cases heq

variable {aid : String}

theorem released_of_run {t : Instant}
    (hreason : reason.held = false) (h : st.run spec aid (.release id reason t) = .ok st') :
    Released st st' id := by
  rcases Staged.run_release h with ⟨rfl, -⟩ | ⟨order, e, -, -, horders, heffects, hreq⟩
  · exact .same rfl
  · exact Or.inr ⟨Staged.releases_release heffects hreq, _,
      by rw [horders, Dict.get?_set_self], hreason⟩

theorem FlowOutcome.status_over (o : FlowOutcome) : o.status.held = false := by
  cases o <;> rfl

variable {order : Order} {a b : FlowRun}

theorem FlowMove.released (h : FlowMove spec at_ order a b) (hfresh : a.Unreplaced) :
    Released a.stage b.stage a.flow.orderId := by
  cases h with
  | accepted hstate hop hacc hset => exact released_of_setOrderState hset
  | refused hstate hop hset => exact released_of_setOrderState hset
  | tooLate => exact .same rfl
  | cancelRefused hstate hop hfilled hset => exact released_of_setOrderState hset
  | cancelled hstate hop hfilled hset => exact released_of_setOrderState hset
  | ended hstate houtcome hrelease => exact released_of_run (FlowOutcome.status_over _) hrelease
  | @replaced released reserved stage old oldId newId target remaining price ht hp
      hq proof timing hstate hdate houtcome hinstruction hrelease hold hremaining hacc
      hreserve hmark =>
      have hres := Staged.run_reserved_after hrelease
        (fun e he => hfresh hstate houtcome _ _ _ _ _ _ hinstruction e he _ _ rfl)
        hreserve
      have hfree := hres.new _ List.mem_cons_self
      obtain ⟨marked, -, rfl⟩ := Staged.mark_ok hmark
      refine (released_of_run (by rfl) hrelease).then (fun j => ?_) fun o ho => ?_
      · obtain ⟨-, ⟨rfl, -⟩ | ⟨out, out', -, -, rfl⟩⟩ := Staged.run_ok hreserve
        · rfl
        · refine (Staged.releases_append rfl j).trans ?_
          rw [List.countP_singleton, Effect.releases_other (by simp)]
          rfl
      · have hid : a.flow.orderId ≠ newId := fun heq => by
          rw [heq, show released.value.orders.get? newId = none from hfree] at ho
          cases ho
        rw [AccountState.setOrder_orders, Dict.get?_set_of_ne hid,
          hres.others _ fun r hr heq => hid (by rw [← heq, List.mem_singleton.mp hr]; rfl), ho]

theorem Moved.releasedOnce (h : Moved a b) (ha : InFlow ids flows a) (hlive : a.flow.live = true)
    (hmove : FlowMove spec at_ order a b)
    (honce : ReleasedOnce (fun id => n id + a.stage.releases id) a.stage.value
      (flows.set a.flow.key a.flow)) :
    ReleasedOnce (fun id => n id + b.stage.releases id) b.stage.value
      (flows.set b.flow.key b.flow) := by
  have hself : (flows.set a.flow.key a.flow).get? a.flow.key = some a.flow :=
    Dict.get?_set_self _ _ _
  have hnone : n a.flow.orderId + a.stage.releases a.flow.orderId = 0 :=
    honce.awaited hself hlive
  have hreleased := hmove.released (ha.unreplaced hlive)
  -- Another workflow's order is not the one that moved.
  have hothers : ∀ k g, k ≠ a.flow.key → (flows.set b.flow.key b.flow).get? k = some g →
      g.live = true → (flows.set a.flow.key a.flow).get? k = some g ∧
        g.orderId ≠ a.flow.orderId := by
    intro k g hk hg hglive
    rw [h.same.key, Dict.get?_set_of_ne hk] at hg
    have hg' : (flows.set a.flow.key a.flow).get? k = some g := by
      rw [Dict.get?_set_of_ne hk, hg]
    exact ⟨hg', ha.other hlive hg' hk hglive⟩
  intro id
  dsimp only
  by_cases hid : id = a.flow.orderId
  · subst hid
    rcases hreleased with hsame | ⟨hone, o, ho, hover⟩
    · left
      rw [hsame]
      exact hnone
    · right
      refine ⟨by rw [hone, if_pos rfl]; omega, ⟨o, ho, hover⟩, fun k g hg hglive => ?_⟩
      by_cases hk : k = a.flow.key
      · subst hk
        rw [h.same.key, Dict.get?_set_self] at hg
        cases hg
        intro heq
        obtain ⟨p, hp, hstatus⟩ := h.placed hglive
        rw [heq, ho] at hp
        cases hp
        rw [hstatus, OrderStatus.held_of_settling b.flow.awaits_settling] at hover
        cases hover
      · exact (hothers k g hk hg hglive).2
  · have hcount : b.stage.releases id = a.stage.releases id := by
      rcases hreleased with hsame | ⟨hone, -⟩
      · exact hsame id
      · rw [hone, if_neg hid, Nat.add_zero]
    rw [hcount]
    refine (honce id).imp_right fun ⟨hone, ⟨o, ho, hover⟩, halone⟩ =>
      ⟨hone, ⟨o, h.others id o hid ho, hover⟩, fun k g hg hglive heq => ?_⟩
    by_cases hk : k = a.flow.key
    · subst hk
      rw [h.same.key, Dict.get?_set_self] at hg
      cases hg
      rcases h.order with hkept | hnew
      · exact hid (heq.symm.trans hkept)
      · rw [heq, ho] at hnew
        cases hnew
    · exact halone k g (hothers k g hk hg hglive).1 hglive heq

/-! ## Workflows and orders of one day -/

variable {c : Command}

def FlowsDated (s : AccountState) (flows : Dict FlowKey Workflow) : Prop :=
  ∀ k f, flows.get? k = some f → f.live = true →
    ∃ o, s.orders.get? f.orderId = some o ∧ o.tradeDate = f.tradeDate

theorem FlowsDated.orders (h : FlowsDated s flows) (ht : t.orders = s.orders) :
    FlowsDated t flows :=
  fun k f hf hlive => ht ▸ h k f hf hlive

theorem FlowsDated.evolves {d : Discipline} {as : List Act} {es : List Entry}
    (h : FlowsDated s flows) (hrun : LedgerRun spec d s as es t)
    (hs : Funded spec.zone s) : FlowsDated t flows := by
  intro k f hf hlive
  obtain ⟨o, ho, hdate⟩ := h k f hf hlive
  exact hrun.order (P := fun o => o.tradeDate = f.tradeDate) hs ho hdate
    fun p p' hp he => he.tradeDate.trans hp

theorem FlowsDated.expired (h : FlowsDated s flows) (day : Date) :
    FlowsDated s (flows.map fun _ f => f.expire day) := by
  intro k f hf hlive
  rw [Dict.get?_map, Option.map_eq_some_iff] at hf
  obtain ⟨g, hg, rfl⟩ := hf
  unfold Workflow.expire at hlive ⊢
  split at hlive
  · cases hlive
  · next hother =>
      rw [if_neg hother]
      exact h k g hg hlive

theorem FlowsDated.submitted {plan : StagePlan} {day : Date} {new : List Workflow}
    (h : FlowsDated s w.plans.workflows)
    (hflows : FlowsSound s w.execution.reservedOrderIds w.plans.workflows)
    (hnew : Submission spec w s plan day at_ st new) :
    FlowsDated st.value (new.foldl (fun d f => d.set f.key f) w.plans.workflows) := by
  intro k f hf hlive
  rcases (get?_foldl_set hnew.keys).mp hf with ⟨hf, -⟩ | ⟨hf, -⟩
  · obtain ⟨o, ho, -, hdate⟩ := hnew.placed f hf
    exact ⟨o, ho, hdate⟩
  · obtain ⟨o, ho, hdate⟩ := h k f hf hlive
    refine ⟨o, ?_, hdate⟩
    rw [hnew.others f.orderId (hflows.apart_submission hnew hf hlive), ho]

theorem Moved.dated (h : Moved a b) (ha : InFlow ids flows a) (hlive : a.flow.live = true)
    (horder : a.stage.value.orders.get? a.flow.orderId = some order)
    (hmove : FlowMove spec at_ order a b)
    (hdated : FlowsDated a.stage.value (flows.set a.flow.key a.flow)) :
    FlowsDated b.stage.value (flows.set b.flow.key b.flow) := by
  intro k g hg hglive
  rw [h.same.key, Dict.get?_set] at hg
  split at hg
  · cases hg
    obtain ⟨o, ho, hdate⟩ := hdated _ _ (Dict.get?_set_self _ _ _) hlive
    cases ho.symm.trans horder
    obtain ⟨p, hp, -⟩ := h.placed hglive
    exact ⟨p, hp, hmove.dated horder hdate (ha.unreplaced hlive) hglive hp⟩
  · next hk =>
      have hg' : (flows.set a.flow.key a.flow).get? k = some g := by
        rw [Dict.get?_set_of_ne hk, hg]
      obtain ⟨o, ho, hdate⟩ := hdated k g hg' hglive
      exact ⟨o, h.others _ _ (ha.other hlive hg' hk hglive) ho, hdate⟩

theorem step_dated (hr : Reachable spec w) (h : step spec w c = .ok w')
    (hw : ∀ s, w.account = some s → FlowsDated s w.plans.workflows) :
    ∀ s, w'.account = some s → FlowsDated s w'.plans.workflows := by
  have hsound := reachable_plansSound hr
  have hevolves : ∀ flows, (w.account = none → ∀ k, flows.get? k = none) →
      (∀ s, w.account = some s → FlowsDated s flows) →
      ∀ t, w'.account = some t → FlowsDated t flows := by
    intro flows hclosed hflows t ht
    cases step_account h with
    | none haccount => exact hflows t (haccount ▸ ht)
    | opened hnone =>
        intro k f hf
        rw [hclosed hnone k] at hf
        cases hf
    | event hs haccount hevents hkeys hrun =>
        cases haccount.symm.trans ht
        exact (hflows _ hs).evolves hrun (reachable_funded hr hs)
  cases c with
  | submit aid session plan proofs =>
      rcases submit_ok h with rfl | ⟨phase, u, st, x, plans, record, -, hphase, -,
        hstage, -, hpublish⟩
      · exact hw
      obtain ⟨o', hseal, rfl⟩ := World.publish_ok hpublish
      simp only [submissionPhase, bind_ok, need_ok, pure_ok, Prod.mk.injEq] at hphase
      obtain ⟨phase', -, u', hu', rfl, rfl⟩ := hphase
      obtain ⟨s, day, new, hs, hnew, hflows, -, rfl⟩ := submitStage_submission hu' hstage
      intro t ht
      cases ht
      show FlowsDated o'.state plans.workflows
      rw [hflows]
      exact ((hw s hs).submitted (hsound.flows s hs) hnew).orders (prepareState_orders hseal)
  | advance aid u proofs =>
      exact advance_keeps h hsound hw (fun _ _ _ ht ho => ho.orders ht)
        fun flows a b order ha hlive horder hmove hmoved hdated =>
          hmoved.dated ha hlive horder hmove hdated
  | expireDay aid day cursors u rules =>
      have hplans : w'.plans.workflows = w.plans.workflows ∨
          w'.plans.workflows = w.plans.workflows.map fun _ f => f.expire day := by
        rcases expireDay_ok h with rfl | ⟨s, st, -, -, -, -, hpublish⟩
        · exact Or.inl rfl
        · obtain ⟨o', -, rfl⟩ := World.publish_ok hpublish
          exact Or.inr rfl
      intro t ht
      have hold := hevolves w.plans.workflows hsound.closed hw t ht
      rcases hplans with hsame | hexpired
      · rw [hsame]
        exact hold
      · rw [hexpired]
        exact hold.expired day
  | opening | account | acceptBatch | advanceMinute | queueAdvance =>
      rw [(step_plansKept h rfl).plans]
      exact hevolves _ hsound.closed hw

theorem reachable_dated (h : Reachable spec w) :
    ∀ s, w.account = some s → FlowsDated s w.plans.workflows :=
  h.invariant (P := fun w => ∀ s, w.account = some s → FlowsDated s w.plans.workflows)
    (by simp [World.start]) fun _ _ _ hr hw hstep _ => step_dated hr hstep hw

/-! ## Calls -/

def World.ReleasedOnce (w : World) : Prop :=
  ∀ id, w.releases id = 0 ∨
    w.releases id = 1 ∧ ∃ s, w.account = some s ∧ Freed s w.plans.workflows id

theorem World.ReleasedOnce.state (h : w.ReleasedOnce) (hs : w.account = some s) :
    Sim.ReleasedOnce w.releases s w.plans.workflows :=
  fun id => (h id).imp_right fun ⟨hone, s', hs', hfreed⟩ => by
    cases hs.symm.trans hs'
    exact ⟨hone, hfreed⟩

theorem World.ReleasedOnce.of_state (hs : w.account = some s)
    (h : Sim.ReleasedOnce w.releases s w.plans.workflows) : w.ReleasedOnce :=
  fun id => (h id).imp_right fun ⟨hone, hfreed⟩ => ⟨hone, s, hs, hfreed⟩

def Command.releasing : Command → Bool
  | .advance .. | .expireDay .. => true
  | _ => false

theorem step_event (h : step spec w c = .ok w') :
    w' = w ∨ ∃ e, w'.events = w.events ++ [e] ∧
      (c.releasing = false → ∀ id, e.releases id = 0) := by
  cases c with
  | opening aid running =>
      rcases initializeAccount_ok h with rfl | ⟨-, -, o, -, hcommit⟩
      · exact Or.inl rfl
      · obtain ⟨o', -, rfl⟩ := World.commit_ok hcommit
        exact Or.inr ⟨_, rfl, fun _ _ => rfl⟩
  | account aid r =>
      rcases direct_ok h with rfl | ⟨s, o, -, -, -, -, hcommit⟩
      · exact Or.inl rfl
      · obtain ⟨o', -, rfl⟩ := World.commit_ok hcommit
        exact Or.inr ⟨_, rfl, fun _ _ => rfl⟩
  | acceptBatch aid orders proofs t =>
      rcases acceptBatch_ok h with rfl | ⟨s, st, x, -, -, -, -, -, hpublish⟩
      · exact Or.inl rfl
      · obtain ⟨o', -, rfl⟩ := World.publish_ok hpublish
        exact Or.inr ⟨_, rfl, fun _ _ => rfl⟩
  | advanceMinute aid e =>
      rcases advanceMinute_ok h with rfl | ⟨s, orders, x, capacity, run, record, -, -, -,
        -, -, -, -, -, -, hpublish⟩
      · exact Or.inl rfl
      · obtain ⟨o', -, rfl⟩ := World.publish_ok hpublish
        exact Or.inr ⟨_, rfl, fun _ _ => rfl⟩
  | queueAdvance aid e throughAt throughSequence =>
      rcases queueAdvance_ok h with rfl | ⟨s, volumes, start, x1, entrants, x2, run,
        results, -, -, -, -, -, -, -, -, -, -, -, hpublish⟩
      · exact Or.inl rfl
      · obtain ⟨o', -, rfl⟩ := World.publish_ok hpublish
        exact Or.inr ⟨_, rfl, fun _ _ => rfl⟩
  | submit aid session plan proofs =>
      rcases submit_ok h with rfl | ⟨phase, u, st, x, plans, record, -, -, -, -, -, hpublish⟩
      · exact Or.inl rfl
      · obtain ⟨o', -, rfl⟩ := World.publish_ok hpublish
        exact Or.inr ⟨_, rfl, fun _ _ => rfl⟩
  | advance aid t proofs =>
      rcases advance_ok h with rfl | ⟨s, run, -, -, -, -, -, hpublish⟩
      · exact Or.inl rfl
      · obtain ⟨o', -, rfl⟩ := World.publish_ok hpublish
        exact Or.inr ⟨_, rfl, nofun⟩
  | expireDay aid day cursors t rules =>
      rcases expireDay_ok h with rfl | ⟨s, st, -, -, -, -, hpublish⟩
      · exact Or.inl rfl
      · obtain ⟨o', -, rfl⟩ := World.publish_ok hpublish
        exact Or.inr ⟨_, rfl, nofun⟩

theorem step_releases (h : step spec w c = .ok w') (hc : c.releasing = false) (id : String) :
    w'.releases id = w.releases id := by
  rcases step_event h with rfl | ⟨e, hevents, hnone⟩
  · rfl
  · rw [World.releases_append hevents, hnone hc, Nat.add_zero]

theorem Freed.order_evolves {as : List Act} {es : List Entry} (h : Freed s flows id)
    (hrun : LedgerRun spec .careful s as es t) (hs : Funded spec.zone s) :
    ∃ o, t.orders.get? id = some o ∧ o.status.held = false := by
  obtain ⟨o, ho, hover⟩ := h.order
  exact hrun.order (P := fun o => o.status.held = false) hs ho hover
    fun p p' hp he => he.unheld hp

theorem step_releasedOnce_of_other (hr : Reachable spec w) (h : step spec w c = .ok w')
    (hc : c.releasing = false) (hw : w.ReleasedOnce) : w'.ReleasedOnce := by
  have hsound := reachable_plansSound hr
  have hcount := step_releases h hc
  intro id
  rw [hcount]
  refine (hw id).imp_right fun ⟨hone, s, hs, hfreed⟩ => ⟨hone, ?_⟩
  have hchange : AccountChange spec .careful w w' :=
    step_change h Discipline.careful_open fun aid t proofs heq => by rw [heq] at hc; cases hc
  -- The order is still over.
  have hover : ∃ t, w'.account = some t ∧
      ∃ o, t.orders.get? id = some o ∧ o.status.held = false := by
    cases hchange with
    | none haccount => exact ⟨s, haccount.trans hs, hfreed.order⟩
    | opened hnone =>
        rw [hs] at hnone
        cases hnone
    | event hs' haccount hevents hkeys hrun =>
        cases hs.symm.trans hs'
        exact ⟨_, haccount, hfreed.order_evolves hrun (reachable_funded hr hs)⟩
  obtain ⟨t, ht, horder⟩ := hover
  refine ⟨t, ht, horder, ?_⟩
  cases c with
  | submit aid session plan proofs =>
      rcases submit_ok h with rfl | ⟨phase, u, st, x, plans, record, -, hphase, -,
        hstage, -, hpublish⟩
      · exact hfreed.alone
      obtain ⟨o', hseal, rfl⟩ := World.publish_ok hpublish
      simp only [submissionPhase, bind_ok, need_ok, pure_ok, Prod.mk.injEq] at hphase
      obtain ⟨phase', -, u', hu', rfl, rfl⟩ := hphase
      obtain ⟨s', day, new, hs', hnew, hflows, -, rfl⟩ := submitStage_submission hu' hstage
      cases hs.symm.trans hs'
      intro k f hf hlive heq
      rw [show ({ plans with plans := plans.plans.set plan.planId record } :
        PlansState).workflows = _ from hflows] at hf
      rcases (get?_foldl_set hnew.keys).mp hf with ⟨hf, -⟩ | ⟨hf, -⟩
      · -- A plan cancels live orders and reserves new ones.
        obtain ⟨o, ho, hover⟩ := hfreed.order
        rcases hnew.before f hf with ⟨-, hfree, -⟩ | ⟨-, p, hp, hopen, -⟩
        · rw [heq, ho] at hfree
          cases hfree
        · rw [heq, ho] at hp
          cases hp
          rcases hopen with h | h <;> rw [h] at hover <;> cases hover
      · exact hfreed.alone k f hf hlive heq
  | advance => cases hc
  | expireDay => cases hc
  | opening | account | acceptBatch | advanceMinute | queueAdvance =>
      rw [(step_plansKept h rfl).plans]
      exact hfreed.alone

theorem advance_releasedOnce (hsound : PlansSound w)
    (h : advance spec w aid at_ proofs = .ok w') (hw : w.ReleasedOnce) : w'.ReleasedOnce := by
  rcases advance_ok h with rfl | ⟨s, run, hs, -, -, -, hrun, hpublish⟩
  · exact hw
  obtain ⟨o', hseal, rfl⟩ := World.publish_ok hpublish
  have hflows := hsound.flows s hs
  obtain ⟨hnodup, hdue⟩ := dueFlows_keys hflows at_
  have hstart : AdvanceSound w.execution.reservedOrderIds
      ⟨⟨s, []⟩, w.execution, w.plans.workflows, []⟩ :=
    ⟨hflows, fun e he => absurd he List.not_mem_nil⟩
  obtain ⟨-, hend⟩ := advanceWalk_moves (P := fun acc =>
      ReleasedOnce (fun id => w.releases id + acc.stage.releases id) acc.stage.value
        acc.workflows) hrun hnodup (fun f hf => (hdue f hf).1) hstart (hw.state hs)
    fun acc f run history' hacc hP hf hloop => by
      have hset : acc.workflows.set f.key f = acc.workflows := Dict.set_get?_self hf
      obtain ⟨-, hend, hsame⟩ := flowLoop_moves (Q := fun r =>
          ReleasedOnce (fun id => w.releases id + r.stage.releases id) r.stage.value
            (acc.workflows.set r.flow.key r.flow))
        hloop (hacc.inFlow hf) (by rwa [hset])
        fun a b order ha hQ hlive _ _ hmove hmoved => hmoved.releasedOnce ha hlive hmove hQ
      have hkey : run.flow.key = f.key := hsame.key
      exact hkey ▸ hend
  refine .of_state rfl fun id => ?_
  rw [World.releases_append rfl]
  exact (hend.orders (prepareState_orders hseal)) id

def ExpiredOnce (n : String → ℕ) (live : List (String × Order)) (st : Staged) : Prop :=
  ∀ id, n id + st.releases id = 0 ∨
    n id + st.releases id = 1 ∧ (id ∈ live.map Prod.fst ∨ n id = 1) ∧
      ∃ o, st.value.orders.get? id = some o ∧ o.status.held = false

theorem ExpiredOnce.release {live : List (String × Order)} {e : String × Order}
    (he : e ∈ live) (hrun : st.run spec aid (.release e.1 .dayExpired at_) = .ok st')
    (h : ExpiredOnce n live st) : ExpiredOnce n live st' := by
  rcases Staged.run_release hrun with ⟨rfl, -⟩ |
    ⟨order, f, horder, hheld, horders, heffects, hreq⟩
  · exact h
  intro id
  rw [Staged.releases_release heffects hreq]
  by_cases hid : id = e.1
  · subst hid
    right
    have hzero : n e.1 + st.releases e.1 = 0 := by
      rcases h e.1 with hzero | ⟨-, -, o, ho, hover⟩
      · exact hzero
      · cases horder.symm.trans ho
        rw [hheld] at hover
        cases hover
    refine ⟨by rw [if_pos rfl]; omega, Or.inl (List.mem_map_of_mem he), ?_⟩
    exact ⟨_, by rw [horders, Dict.get?_set_self], rfl⟩
  · rw [if_neg hid, Nat.add_zero, horders, Dict.get?_set_of_ne hid]
    exact h id

theorem expireDay_releasedOnce {day : Date} {cursors : Dict String MarketCursor}
    {rules : List MarketRule} (hr : Reachable spec w)
    (h : expireDay spec w aid day cursors at_ rules = .ok w') (hw : w.ReleasedOnce) :
    w'.ReleasedOnce := by
  rcases expireDay_ok h with rfl | ⟨s, st, hs, -, -, hst, hpublish⟩
  · exact hw
  obtain ⟨o', hseal, rfl⟩ := World.publish_ok hpublish
  have hstart : ExpiredOnce w.releases (liveOrders s day) ⟨s, []⟩ := fun id =>
    (hw.state hs id).imp_right fun ⟨hone, hfreed⟩ => ⟨hone, Or.inr hone, hfreed.order⟩
  have hend : ExpiredOnce w.releases (liveOrders s day) st :=
    walk_induction hst hstart fun _ _ _ he hc hone => hc.release he hone
  refine .of_state rfl fun id => ?_
  rw [World.releases_append rfl]
  rcases hend id with hzero | ⟨hone, hwhich, horder⟩
  · exact Or.inl hzero
  refine Or.inr ⟨hone, (prepareState_orders hseal).symm ▸ horder, ?_⟩
  intro k f hf hlive heq
  rw [Dict.get?_map, Option.map_eq_some_iff] at hf
  obtain ⟨g, hg, rfl⟩ := hf
  unfold Workflow.expire at hlive heq
  split at hlive
  · cases hlive
  · next hother =>
      rw [if_neg hother] at heq
      rcases hwhich with hlisted | hbefore
      · -- A workflow of another day has an order of another day.
        obtain ⟨e, he, rfl⟩ := List.mem_map.mp hlisted
        obtain ⟨hmem, hday⟩ := List.mem_filter.mp he
        simp only [Bool.and_eq_true, decide_eq_true_eq] at hday
        obtain ⟨o, ho, hdate⟩ := reachable_dated hr s hs k g hg hlive
        have hget : s.orders.get? g.orderId = some e.2 := heq ▸ Dict.mem_entries.mp hmem
        cases ho.symm.trans hget
        exact hother ⟨hdate.symm.trans hday.1, hlive⟩
      · rw [← heq, (hw.state hs).awaited hg hlive] at hbefore
        cases hbefore

/-! ## Every run -/

def World.call (spec : AccountSpec) (w : World) (c : Command) : World × Option Failure :=
  match step spec w c with
  | .ok w' => (w', none)
  | .error f => (w, some f)

theorem World.call_raised {f : Failure} (h : (w.call spec c).2 = some f) :
    (w.call spec c).1 = w := by
  unfold World.call at h ⊢
  split at h
  · cases h
  · rfl

theorem World.call_events :
    (w.call spec c).1 = w ∨ ∃ e, (w.call spec c).1.events = w.events ++ [e] := by
  unfold World.call
  split
  · next hstep => exact (step_event hstep).imp_right fun ⟨e, he, _⟩ => ⟨e, he⟩
  · exact Or.inl rfl

theorem reachable_releasedOnce (h : Reachable spec w) : w.ReleasedOnce := by
  refine h.invariant (P := World.ReleasedOnce) (fun id => Or.inl rfl)
    fun w c w' hr hw hstep _ => ?_
  cases c with
  | advance aid t proofs => exact advance_releasedOnce (reachable_plansSound hr) hstep hw
  | expireDay aid day cursors t rules => exact expireDay_releasedOnce hr hstep hw
  | opening | account | acceptBatch | advanceMinute | queueAdvance | submit =>
      exact step_releasedOnce_of_other hr hstep rfl hw

theorem advance_enters (hw : Reachable spec w) (hs : w.account = some s)
    {seen rest : List Workflow} {f : Workflow} {acc : AdvanceRun}
    (hdue : dueFlows w.plans.workflows at_ = seen ++ f :: rest)
    (h : walk (advanceOne spec proofs at_) ⟨⟨s, []⟩, w.execution, w.plans.workflows, []⟩ seen
      = .ok acc) :
    InFlow w.execution.reservedOrderIds acc.workflows ⟨acc.stage, acc.execution, f⟩ := by
  have hflows := (reachable_plansSound hw).flows s hs
  obtain ⟨hnodup, hkeys⟩ := dueFlows_keys hflows at_
  rw [hdue] at hnodup hkeys
  rw [List.map_append, List.map_cons] at hnodup
  have hstart : AdvanceSound w.execution.reservedOrderIds
      ⟨⟨s, []⟩, w.execution, w.plans.workflows, []⟩ :=
    ⟨hflows, fun e he => absurd he List.not_mem_nil⟩
  have hf := (hkeys f (List.mem_append_right _ List.mem_cons_self)).1
  have hnew : ∀ g ∈ seen, g.key ≠ f.key := by
    intro g hg heq
    exact (List.nodup_append.mp hnodup).2.2 _ (List.mem_map_of_mem hg) _ List.mem_cons_self heq
  -- The workflows before it leave it as it was.
  have hkept : acc.workflows.get? f.key = some f :=
    walk_induction (P := fun a : AdvanceRun => a.workflows.get? f.key = some f) h hf
      fun a g b hg ha hone => by
        simp only [advanceOne, bind_ok, pure_ok] at hone
        obtain ⟨⟨run, history⟩, -, rfl⟩ := hone
        rw [Dict.get?_set_of_ne (hnew g hg).symm]
        exact ha
  obtain ⟨hsound, -⟩ := advanceWalk_moves (P := fun _ => True) h
    (List.nodup_append.mp hnodup).1
    (fun g hg => (hkeys g (List.mem_append_left _ hg)).1) hstart trivial
    fun _ _ _ _ _ _ _ _ => trivial
  exact hsound.inFlow hkept

structure WorkflowLaws (spec : AccountSpec) (w : World) : Prop where
  /-- Where an advance enters its `while` loop, four iterations follow one
  another at most, and the loop's answer does not depend on more fuel. -/
  ends : ∀ s at_ proofs seen f rest acc, w.account = some s →
    dueFlows w.plans.workflows at_ = seen ++ f :: rest →
    walk (advanceOne spec proofs at_) ⟨⟨s, []⟩, w.execution, w.plans.workflows, []⟩ seen
      = .ok acc →
    (∀ runs, (⟨acc.stage, acc.execution, f⟩ :: runs).IsChain (LoopStep spec proofs at_) →
      runs.length ≤ 4) ∧
    ∀ fuel history, 4 ≤ fuel →
      flowLoop spec proofs at_ fuel ⟨acc.stage, acc.execution, f⟩ history
        = flowLoop spec proofs at_ 4 ⟨acc.stage, acc.execution, f⟩ history
  /-- Inside the loop a workflow falls due no earlier. -/
  inside : ∀ proofs at_ a b, LoopStep spec proofs at_ a b → a.flow.Onward b.flow
  /-- However the run goes on, no workflow falls due earlier, and one that is
  over stays over. -/
  onward : ∀ w', Relation.ReflTransGen (StepIf spec fun _ _ _ => True) w w' →
    ∀ k f, w.plans.workflows.get? k = some f → ∃ g, w'.plans.workflows.get? k = some g ∧
      f.Onward g ∧ (f.nextAt = none → g.nextAt = none)
  /-- Workflows and expiries have released each order once at most. -/
  released : ∀ id, w.releases id ≤ 1
  /-- A call that raises changes nothing, and any other changes the account, the
  execution and the plans together with one event. -/
  unchanged : ∀ c, (∀ f, (w.call spec c).2 = some f → (w.call spec c).1 = w) ∧
    ((w.call spec c).1 = w ∨ ∃ e, (w.call spec c).1.events = w.events ++ [e])

/-- The workflow machine is well behaved wherever a run leads, whatever the
latencies. -/
theorem workflow_machine_sound {w : World} (hw : Reachable spec w) : WorkflowLaws spec w where
  ends s at_ proofs seen f rest acc hs hdue hwalk := by
    have henter := advance_enters hw hs hdue hwalk
    have hrank : f.rank at_ ≤ 4 := f.rank_le at_
    refine ⟨fun runs hruns => (loop_bounded henter hruns).trans hrank, fun fuel history hfuel => ?_⟩
    exact flowLoop_fuel henter (hrank.trans hfuel) hrank
  inside _ _ _ _ hstep := hstep.onward
  onward w' hrun k f hf := by
    obtain ⟨g, hg, hfg⟩ := run_onward hw hrun k f hf
    exact ⟨g, hg, hfg, hfg.done⟩
  released id := by
    rcases reachable_releasedOnce hw id with hzero | ⟨hone, -⟩
    · omega
    · omega
  unchanged c := ⟨fun _ => World.call_raised, World.call_events⟩

/-- A plan's sale of an odd remainder, refused by the exchange and released at
the same instant: without latency one advance takes it through both. -/
theorem workflow_machine_sound_sample : ∃ w, w.releases "sale" = 1 ∧
    WorkflowLaws sampleSpec w := by
  obtain ⟨w, hw, htest⟩ := ReachableIf.of_check sampleSpec (fun _ _ _ => True)
    [.opening "open" true,
      .submit "submit" earlySession (earlyPlan 150)
        [earlyProof (sampleAt 0 500)],
      .advance "advance" (sampleAt 0 550) [⟨earlyProof (sampleAt 0 550), none⟩]]
    (fun w => w.releases "sale" = 1) (by decide +kernel)
  exact ⟨w, of_decide_eq_true htest, workflow_machine_sound hw⟩

end Ahunter.Sim
