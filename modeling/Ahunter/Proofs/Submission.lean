import Ahunter.Proofs.Workflows

/-!
# What a submission enters

A plan is checked in one loop, prepared in a second and entered in a third.
Each loop gets one specification: the first finds the identities a plan names
distinct and free, the second makes one waiting workflow of each instruction,
the third requests the cancellations. `Submission` is what they come to.
-/

namespace Ahunter.Sim

open Ahunter.Lib

variable {spec : AccountSpec} {at_ : Instant}

/-! ## Identities -/

variable {s : AccountState} {day : Date} {scan : PlanScan}

def Instruction.oldId? : Instruction → Option String
  | .new _ => none
  | .cancel old => some old
  | .replace old _ _ _ _ _ => some old

def Instruction.freshId? : Instruction → Option String
  | .new order => some order.orderId
  | .cancel _ => none
  | .replace _ newId _ _ _ _ => some newId

def Instruction.startId : Instruction → String
  | .new order => order.orderId
  | .cancel old => old
  | .replace old _ _ _ _ _ => old

def Instruction.startOperation : Instruction → FlowOperation
  | .new _ => .new
  | _ => .cancel

theorem Instruction.start_cases (i : Instruction) :
    (i.startOperation = .new ∧ i.freshId? = some i.startId ∧ i.newId? = none) ∨
      (i.startOperation = .cancel ∧ i.oldId? = some i.startId ∧ i.newId? = i.freshId?) := by
  cases i <;> simp [startOperation, freshId?, startId, oldId?, newId?]

def Order.cancellable (o : Order) (day : Date) : Prop :=
  (o.status = .reserved ∨ o.status = .partFilled) ∧ o.tradeDate = day

theorem oldOrder_ok {id : String} {o : Order} (h : oldOrder s day scan id = .ok o) :
    id ∉ scan.references ∧ s.orders.get? id = some o ∧ o.cancellable day := by
  simp only [oldOrder, bind_ok, refuse_ok, need_ok, pure_ok] at h
  obtain ⟨-, hnew, o', ho, -, hlive, rfl⟩ := h
  push Not at hlive
  refine ⟨hnew, ho, ?_, hlive.2⟩
  by_cases hstatus : o'.status = .reserved
  · exact Or.inl hstatus
  · exact Or.inr (hlive.1 hstatus)

/-- An identity no order has and no plan has set aside. -/
def FreeId (x : ExecutionState) (s : AccountState) (id : String) : Prop :=
  s.orders.get? id = none ∧ x.reservedOrderIds.get? id = none

variable {x : ExecutionState}

theorem freshIdentity_ok {id : String} {u : Unit} (h : freshIdentity x s scan id = .ok u) :
    id ∉ scan.newIds ∧ FreeId x s id := by
  simp only [freshIdentity, refuse_ok, not_or, Dict.contains_iff] at h
  exact ⟨h.1, Option.eq_none_iff_forall_ne_some.mpr fun v hv => h.2.1 ⟨v, hv⟩,
    Option.eq_none_iff_forall_ne_some.mpr fun v hv => h.2.2 ⟨v, hv⟩⟩

structure Scanned (x : ExecutionState) (s : AccountState) (day : Date)
    (scan scan' : PlanScan) (i : Instruction) : Prop where
  references : scan'.references = scan.references ++ i.oldId?.toList
  newIds : scan'.newIds = scan.newIds ++ i.freshId?.toList
  old : ∀ id, i.oldId? = some id → id ∉ scan.references ∧
    ∃ o, s.orders.get? id = some o ∧ o.cancellable day
  fresh : ∀ id, i.freshId? = some id → id ∉ scan.newIds ∧ FreeId x s id

variable {i : Instruction}

theorem scanInstruction_ok {scan' : PlanScan} (h : scanInstruction x s day scan i = .ok scan') :
    Scanned x s day scan scan' i := by
  cases i with
  | new order =>
      simp only [scanInstruction, bind_ok, pure_ok] at h
      obtain ⟨_, hfresh, rfl⟩ := h
      refine ⟨by simp [Instruction.oldId?], rfl, fun _ h => (by cases h), fun id hid => ?_⟩
      cases hid
      exact freshIdentity_ok hfresh
  | cancel old =>
      simp only [scanInstruction, bind_ok, pure_ok] at h
      obtain ⟨o, hold, rfl⟩ := h
      obtain ⟨hnew, ho⟩ := oldOrder_ok hold
      refine ⟨rfl, by simp [Instruction.freshId?], fun id hid => ?_, fun _ h => by cases h⟩
      cases hid
      exact ⟨hnew, o, ho⟩
  | replace old newId target price ht hp =>
      simp only [scanInstruction, bind_ok, pure_ok] at h
      obtain ⟨o, hold, -, -, _, hfresh, rfl⟩ := h
      obtain ⟨hnew, ho⟩ := oldOrder_ok hold
      refine ⟨rfl, rfl, fun id hid => ?_, fun id hid => ?_⟩
      · cases hid
        exact ⟨hnew, o, ho⟩
      · cases hid
        exact freshIdentity_ok hfresh

theorem nodup_append_toList {l : List String} {o : Option String} (h : l.Nodup)
    (ho : ∀ id, o = some id → id ∉ l) : (l ++ o.toList).Nodup := by
  cases o with
  | none => simpa using h
  | some id =>
      rw [Option.toList_some, List.nodup_append]
      refine ⟨h, by simp, fun a ha b hb heq => ?_⟩
      rw [List.mem_singleton] at hb
      exact ho id rfl (by rwa [← hb, ← heq])

variable {instructions : List Instruction}

theorem scanWalk_ok {scan' : PlanScan}
    (h : walk (scanInstruction x s day) scan instructions = .ok scan')
    (hrefs : scan.references.Nodup) (hnew : scan.newIds.Nodup) :
    scan'.references = scan.references ++ instructions.filterMap Instruction.oldId? ∧
      scan'.newIds = scan.newIds ++ instructions.filterMap Instruction.freshId? ∧
      scan'.references.Nodup ∧ scan'.newIds.Nodup ∧ ∀ i ∈ instructions, (∀ id, i.oldId? = some id →
          ∃ o, s.orders.get? id = some o ∧ o.cancellable day) ∧
        ∀ id, i.freshId? = some id → FreeId x s id := by
  induction instructions generalizing scan with
  | nil =>
      cases h
      exact ⟨by simp, by simp, hrefs, hnew, by simp⟩
  | cons i is ih =>
      obtain ⟨mid, hone, hrest⟩ := walk_cons_ok.mp h
      have hi := scanInstruction_ok hone
      obtain ⟨h1, h2, h3, h4, h5⟩ := ih hrest
        (hi.references ▸ nodup_append_toList hrefs fun id hid => (hi.old id hid).1)
        (hi.newIds ▸ nodup_append_toList hnew fun id hid => (hi.fresh id hid).1)
      refine ⟨?_, ?_, h3, h4, fun j hj => ?_⟩
      · rw [h1, hi.references, List.append_assoc]
        cases hold : i.oldId? <;> simp [hold]
      · rw [h2, hi.newIds, List.append_assoc]
        cases hfresh : i.freshId? <;> simp [hfresh]
      · rcases List.mem_cons.mp hj with rfl | hj
        · exact ⟨fun id hid => (hi.old id hid).2, fun id hid => (hi.fresh id hid).2⟩
        · exact h5 j hj

theorem pairwise_of_filterMap {l : List Instruction}
    {f : Instruction → Option String} (h : (l.filterMap f).Nodup) :
    l.Pairwise fun a b => ∀ i, f a = some i → f b ≠ some i := by
  have hp : (l.filterMap f).Pairwise (· ≠ ·) := h
  rw [List.pairwise_filterMap] at hp
  refine hp.imp fun {a b} hab i ha hb => ?_
  exact hab i ha i hb rfl

theorem eq_of_pairwise {l : List Workflow} {φ : Workflow → Option String}
    (h : l.Pairwise fun f g => ∀ i, φ f = some i → φ g ≠ some i) {f g : Workflow}
    (hf : f ∈ l) (hg : g ∈ l) {i : String} (hfi : φ f = some i) (hgi : φ g = some i) : f = g := by
  induction h with
  | nil => cases hf
  | cons hfirst _ ih =>
      rcases List.mem_cons.mp hf with rfl | hf' <;>
        rcases List.mem_cons.mp hg with rfl | hg'
      · rfl
      · exact absurd hgi (hfirst g hg' i hfi)
      · exact absurd hfi (hfirst f hf' i hgi)
      · exact ih hf' hg'

theorem startIds_nodup (hrefs : (instructions.filterMap Instruction.oldId?).Nodup)
    (hnew : (instructions.filterMap Instruction.freshId?).Nodup)
    (hapart : ∀ i ∈ instructions.filterMap Instruction.oldId?,
      i ∉ instructions.filterMap Instruction.freshId?) :
    (instructions.map Instruction.startId).Nodup := by
  have hmem : ∀ {f : Instruction → Option String} {a : Instruction} {i : String},
      a ∈ instructions → f a = some i → i ∈ instructions.filterMap f :=
    fun ha hi => List.mem_filterMap.mpr ⟨_, ha, hi⟩
  have hpair := (pairwise_of_filterMap hrefs).and (pairwise_of_filterMap hnew)
  rw [List.Nodup, List.pairwise_map]
  refine hpair.imp_of_mem fun {a b} ha hb ⟨hold, hfresh⟩ heq => ?_
  rcases a.start_cases with ⟨-, ha', -⟩ | ⟨-, ha', -⟩ <;>
    rcases b.start_cases with ⟨-, hb', -⟩ | ⟨-, hb', -⟩
  · exact hfresh _ ha' (heq ▸ hb')
  · exact hapart _ (hmem hb hb') (heq ▸ hmem ha ha')
  · exact hapart _ (hmem ha ha') (heq ▸ hmem hb hb')
  · exact hold _ ha' (heq ▸ hb')

/-! ## Preparation -/

variable {phase : PhaseDefinition} {proofs : List AcceptanceEvidence} {plan : StagePlan}

structure Started (spec : AccountSpec) (plan : StagePlan) (day : Date)
    (at_ : Instant) (f : Workflow) : Prop where
  planId : f.planId = plan.planId
  orderId : f.orderId = f.instruction.startId
  operation : f.operation = f.instruction.startOperation
  state : f.state = .waitingMarket
  live : f.live = true
  tradeDate : f.tradeDate = day
  received : spec.zone.date at_ = day

theorem submissionTiming_received {rule : MarketRule} {orderMs receiptMs : ℕ}
    {operation : FlowOperation} {timing : Timing} (hreceived : phase.planReceivedAt = some at_)
    (hday : phase.tradingDate = some day)
    (h : submissionTiming spec phase rule orderMs receiptMs operation = .timed timing) :
    spec.zone.date at_ = day := by
  simp only [submissionTiming, hreceived, hday] at h
  split at h
  · cases h
  · split at h
    · cases h
    · split at h
      · cases h
      · next hwindow =>
          push Not at hwindow
          exact hwindow.1

theorem planned_ok {p : Planned} (h : planned s i = .ok p) :
    p.operation = i.startOperation ∧ p.orderId = i.startId := by
  cases i with
  | new order =>
      cases pure_ok.mp h
      exact ⟨rfl, rfl⟩
  | cancel old =>
      simp only [planned, bind_ok, pure_ok] at h
      obtain ⟨o, -, rfl⟩ := h
      exact ⟨rfl, rfl⟩
  | replace old newId target price ht hp =>
      simp only [planned, bind_ok, pure_ok] at h
      obtain ⟨o, -, rfl⟩ := h
      exact ⟨rfl, rfl⟩

theorem prepareInstruction_ok {p : Planned} {timing : Timing}
    (h : prepareInstruction spec s proofs phase at_ p i = .ok timing) :
    submissionTiming spec phase p.rule (latencyMs spec p.operation)
      spec.execution.receiptLatencyMs p.operation = .timed timing := by
  simp only [prepareInstruction, bind_ok] at h
  obtain ⟨proof, -, _, -, h⟩ := h
  cases i with
  | new order =>
      simp only [bind_ok] at h
      obtain ⟨_, -, h⟩ := h
      split at h
      · cases h
      · cases h
      · next htimed => exact htimed.trans (congrArg _ (pure_ok.mp h))
  | cancel old =>
      dsimp only at h
      split at h
      · cases h
      · cases h
      · next htimed => exact htimed.trans (congrArg _ (pure_ok.mp h))
  | replace =>
      dsimp only at h
      split at h
      · cases h
      · cases h
      · next htimed => exact htimed.trans (congrArg _ (pure_ok.mp h))

theorem prepareOne_ok {next : ℕ} {acc acc' : List Workflow} {e : Instruction × ℕ}
    (hreceived : phase.planReceivedAt = some at_) (hday : phase.tradingDate = some day)
    (h : prepareOne spec s proofs phase day at_ plan next acc e = .ok acc') :
    ∃ f, acc' = acc ++ [f] ∧ Started spec plan day at_ f ∧ (f.instruction, f.index) = e := by
  simp only [prepareOne, bind_ok, pure_ok] at h
  obtain ⟨p, hp, timing, htiming, rfl⟩ := h
  obtain ⟨hop, hid⟩ := planned_ok hp
  exact ⟨_, rfl, ⟨rfl, hid, hop, rfl, rfl, rfl,
    submissionTiming_received hreceived hday (prepareInstruction_ok htiming)⟩, rfl⟩

theorem prepareWalk_ok {next : ℕ} {entries : List (Instruction × ℕ)} {acc acc' : List Workflow}
    (hreceived : phase.planReceivedAt = some at_) (hday : phase.tradingDate = some day)
    (h : walk (prepareOne spec s proofs phase day at_ plan next) acc entries = .ok acc') :
    ∃ flows, acc' = acc ++ flows ∧ (∀ f ∈ flows, Started spec plan day at_ f) ∧
      (flows.map fun f => (f.instruction, f.index)) = entries := by
  induction entries generalizing acc with
  | nil =>
      cases h
      exact ⟨[], by simp, by simp, rfl⟩
  | cons e es ih =>
      obtain ⟨mid, hone, hrest⟩ := walk_cons_ok.mp h
      obtain ⟨f, rfl, hf, he⟩ := prepareOne_ok hreceived hday hone
      obtain ⟨flows, rfl, hflows, hes⟩ := ih hrest
      refine ⟨f :: flows, by simp, fun g hg => ?_, by rw [List.map_cons, he, hes]⟩
      rcases List.mem_cons.mp hg with rfl | hg
      · exact hf
      · exact hflows g hg

/-! ## Entry -/

theorem markPending_ok {orders : List Reservation} {st st' : Staged}
    (hnodup : (orders.map Reservation.orderId).Nodup)
    (h : walk (fun (st : Staged) (order : Reservation) =>
      st.mark order.orderId fun o => { o with status := .pendingAcceptance }) st
        orders = .ok st') :
    st'.effects = st.effects ∧
      (∀ id, (∀ r ∈ orders, r.orderId ≠ id) →
        st'.value.orders.get? id = st.value.orders.get? id) ∧
      ∀ r ∈ orders, ∃ o, st.value.orders.get? r.orderId = some o ∧
        st'.value.orders.get? r.orderId
          = some { o with status := .pendingAcceptance } := by
  induction orders generalizing st with
  | nil =>
      cases h
      exact ⟨rfl, fun _ _ => rfl, by simp⟩
  | cons r rs ih =>
      obtain ⟨mid, hmark, hrest⟩ := walk_cons_ok.mp h
      rw [List.map_cons, List.nodup_cons] at hnodup
      obtain ⟨heffects, hothers, hmarked⟩ := ih hnodup.2 hrest
      obtain ⟨order, horder, rfl⟩ := Staged.mark_ok hmark
      refine ⟨heffects, fun id hid => ?_, fun q hq => ?_⟩
      · rw [hothers id fun q hq => hid q (List.mem_cons_of_mem _ hq),
          AccountState.setOrder_orders,
          Dict.get?_set_of_ne (hid r List.mem_cons_self).symm]
      · rcases List.mem_cons.mp hq with rfl | hq
        · refine ⟨order, horder, ?_⟩
          rw [hothers q.orderId fun p hp heq =>
            hnodup.1 (heq ▸ List.mem_map_of_mem hp), AccountState.setOrder_orders,
            Dict.get?_set_self]
        · have hne : q.orderId ≠ r.orderId := fun heq =>
            hnodup.1 (heq ▸ List.mem_map_of_mem hq)
          obtain ⟨o, ho, ho'⟩ := hmarked q hq
          rw [AccountState.setOrder_orders, Dict.get?_set_of_ne hne] at ho
          exact ⟨o, ho, ho'⟩

theorem reserveNew_ok {st : Staged} {aid : String} {orders : List Reservation}
    (h : reserveNew spec ⟨s, []⟩ aid orders at_ = .ok st) :
    (∀ e ∈ st.effects, ∀ id t, e.request ≠ .account (.cancelRequest id t)) ∧
      (∀ id, (∀ r ∈ orders, r.orderId ≠ id) → st.value.orders.get? id = s.orders.get? id) ∧
      ∀ r ∈ orders, ∃ o, st.value.orders.get? r.orderId = some o ∧
        o.status = .pendingAcceptance ∧ o.tradeDate = spec.zone.date at_ := by
  simp only [reserveNew] at h
  split at h
  · next hnil =>
      cases pure_ok.mp h
      exact ⟨by simp, fun _ _ => rfl, by simp [hnil]⟩
  · simp only [bind_ok] at h
    obtain ⟨mid, hrun, hmarks⟩ := h
    obtain ⟨hnodup, hres⟩ := Staged.run_reserved (by simp) hrun
    obtain ⟨heffects, hothers, hmarked⟩ := markPending_ok hnodup hmarks
    refine ⟨fun e he id t hreq => ?_, fun id hid => ?_, fun r hr => ?_⟩
    · rw [heffects] at he
      obtain ⟨-, ⟨rfl, -⟩ | ⟨o, o', -, -, rfl⟩⟩ := Staged.run_ok hrun
      · cases he
      · rw [List.nil_append, List.mem_singleton] at he
        rw [he] at hreq
        cases hreq
    · rw [hothers id hid, hres.others id hid]
    · obtain ⟨o, ho, ho'⟩ := hmarked r hr
      obtain ⟨cash, stock, hstored⟩ := hres.stored r hr
      cases ho.symm.trans hstored
      exact ⟨_, ho', rfl, rfl⟩

variable {a b : Staged × Dict FlowKey Workflow}

theorem enterWorkflow_cancel {f : Workflow} (hop : f.operation = .cancel)
    (hnew : ∀ e ∈ a.1.effects, ∀ t, e.request ≠ .account (.cancelRequest f.orderId t))
    (h : enterWorkflow spec at_ a f = .ok b) :
    ∃ o e, a.1.value.orders.get? f.orderId = some o ∧
      b.1.value.orders = a.1.value.orders.set f.orderId { o with
        status := .cancelPending
        cancelEffectiveAt := f.nextAt } ∧
      b.1.effects = a.1.effects ++ [e] ∧
      e.request = .account (.cancelRequest f.orderId at_) ∧
      b.2 = a.2.set f.key f := by
  simp only [enterWorkflow, hop, bind_ok, pure_ok] at h
  obtain ⟨mid, hrun, _, hmark, rfl⟩ := h
  obtain ⟨order, horder, rfl⟩ := Staged.mark_ok hmark
  obtain ⟨-, ⟨rfl, e, he, -, hreq⟩ | ⟨o, o', hperform, hseal, rfl⟩⟩ :=
    Staged.run_ok hrun
  · exact absurd hreq (hnew e he _)
  · obtain ⟨old, hold, -, rfl⟩ := cancelRequest_ok hperform
    have horders := prepareState_orders hseal
    have hcancelled : order = { old with status := .cancelPending } := by
      have := (congrArg (fun d => d.get? f.orderId) horders).symm.trans horder
      rw [show (_ : Dict String Order) = _ from AccountState.setOrder_orders _ _ _,
        Dict.get?_set_self] at this
      exact (Option.some.inj this).symm
    subst hcancelled
    refine ⟨old, _, hold, ?_, rfl, rfl, rfl⟩
    rw [AccountState.setOrder_orders, horders, AccountState.setOrder_orders,
      Dict.set_set]

structure Entered (flows : List Workflow) (a b : Staged × Dict FlowKey Workflow) :
    Prop where
  workflows : b.2 = flows.foldl (fun d f => d.set f.key f) a.2
  others : ∀ id, (∀ f ∈ flows, f.operation = .cancel → f.orderId ≠ id) →
    b.1.value.orders.get? id = a.1.value.orders.get? id
  cancelled : ∀ f ∈ flows, f.operation = .cancel → ∃ o o',
    a.1.value.orders.get? f.orderId = some o ∧
      b.1.value.orders.get? f.orderId = some o' ∧
      o'.status = .cancelPending ∧ o'.tradeDate = o.tradeDate

theorem enterWalk_ok {flows : List Workflow} (hnodup : (flows.map Workflow.orderId).Nodup)
    (hnew : ∀ e ∈ a.1.effects, ∀ f ∈ flows, ∀ t, e.request ≠ .account (.cancelRequest f.orderId t))
    (h : walk (enterWorkflow spec at_) a flows = .ok b) : Entered flows a b := by
  induction flows generalizing a with
  | nil =>
      cases h
      exact ⟨rfl, fun _ _ => rfl, by simp⟩
  | cons f fs ih =>
      obtain ⟨mid, hone, hrest⟩ := walk_cons_ok.mp h
      rw [List.map_cons, List.nodup_cons] at hnodup
      have hapart : ∀ g ∈ fs, g.orderId ≠ f.orderId := fun g hg heq =>
        hnodup.1 (heq ▸ List.mem_map_of_mem hg)
      cases hop : f.operation with
      | new =>
          simp only [enterWorkflow, hop, bind_ok, pure_ok] at hone
          obtain ⟨st, rfl, rfl⟩ := hone
          have hfs := @ih (a.1, a.2.set f.key f) hnodup.2
            (fun e he g hg => hnew e he g (List.mem_cons_of_mem _ hg)) hrest
          refine ⟨?_, fun id hid => ?_, fun g hg hgop => ?_⟩
          · rw [hfs.workflows, List.foldl_cons]
          · exact hfs.others id fun g hg => hid g (List.mem_cons_of_mem _ hg)
          · rcases List.mem_cons.mp hg with rfl | hg
            · rw [hop] at hgop
              cases hgop
            · exact hfs.cancelled g hg hgop
      | cancel =>
          obtain ⟨o, e, ho, horders, heffects, hreq, hflows⟩ :=
            enterWorkflow_cancel hop (fun e he => hnew e he f List.mem_cons_self) hone
          have hfs := ih hnodup.2 (fun e' he' g hg t hreq' => by
            rw [heffects] at he'
            rcases List.mem_append.mp he' with he' | he'
            · exact hnew e' he' g (List.mem_cons_of_mem _ hg) t hreq'
            · rw [List.mem_singleton.mp he', hreq] at hreq'
              simp only [StageRequest.account.injEq,
                AccountRequest.cancelRequest.injEq] at hreq'
              exact hapart g hg hreq'.1.symm) hrest
          refine ⟨?_, fun id hid => ?_, fun g hg hgop => ?_⟩
          · rw [hfs.workflows, hflows, List.foldl_cons]
          · rw [hfs.others id fun g hg => hid g (List.mem_cons_of_mem _ hg), horders,
              Dict.get?_set_of_ne (hid f List.mem_cons_self hop).symm]
          · rcases List.mem_cons.mp hg with rfl | hg
            · have hself : b.1.value.orders.get? g.orderId = some { o with
                  status := .cancelPending
                  cancelEffectiveAt := g.nextAt } := by
                rw [hfs.others g.orderId fun p hp _ => hapart p hp, horders,
                  Dict.get?_set_self]
              exact ⟨o, _, ho, hself, rfl, rfl⟩
            · obtain ⟨p, p', hp, hp', hstatus, hdate⟩ := hfs.cancelled g hg hgop
              rw [horders, Dict.get?_set_of_ne (hapart g hg)] at hp
              exact ⟨p, p', hp, hp', hstatus, hdate⟩

/-! ## The whole of a submission -/

/-- What a submission enters into a world whose account is `s`. -/
structure Submission (spec : AccountSpec) (w : World) (s : AccountState)
    (plan : StagePlan) (day : Date) (at_ : Instant) (st : Staged)
    (flows : List Workflow) : Prop where
  instructions : flows.map Workflow.instruction = plan.instructions
  started : ∀ f ∈ flows, Started spec plan day at_ f
  keys : (flows.map Workflow.key).Nodup
  orders : (flows.map Workflow.orderId).Nodup
  names : flows.Pairwise fun f g => ∀ i, f.instruction.newId? = some i →
    g.instruction.newId? ≠ some i
  placed : ∀ f ∈ flows, ∃ o, st.value.orders.get? f.orderId = some o ∧
    o.status = f.awaits ∧ o.tradeDate = f.tradeDate
  before : ∀ f ∈ flows, (f.operation = .new ∧ FreeId w.execution s f.orderId) ∨
    (f.operation = .cancel ∧
      ∃ o, s.orders.get? f.orderId = some o ∧ o.cancellable day)
  others : ∀ id, (∀ f ∈ flows, f.orderId ≠ id) →
    st.value.orders.get? id = s.orders.get? id
  named : ∀ f ∈ flows, ∀ i, f.instruction.newId? = some i →
    FreeId w.execution s i ∧ ∀ g ∈ flows, g.orderId ≠ i

theorem Workflow.awaits_started {f : Workflow} (h : Started spec plan day at_ f) : f.awaits
      = match f.operation with
        | .new => .pendingAcceptance
        | .cancel => .cancelPending := by
  rw [Workflow.awaits, h.state]
  cases f.operation <;> rfl

theorem zipIdx_snd_nodup {α : Type} (l : List α) : (l.zipIdx.map Prod.snd).Nodup := by
  rw [List.zipIdx_map_snd]
  exact List.nodup_range'

theorem submitStage_submission {w : World} {aid : String} {st : Staged}
    {plans : PlansState} (hreceived : phase.planReceivedAt = some at_)
    (h : submitStage spec w aid phase at_ plan proofs = .ok (st, x, plans)) :
    ∃ s day flows, w.account = some s ∧ Submission spec w s plan day at_ st flows ∧ plans.workflows
        = flows.foldl (fun d f => d.set f.key f) w.plans.workflows ∧ plans.plans = w.plans.plans ∧
      x = { w.execution with
        reservedOrderIds := reserveIds w.execution.reservedOrderIds plan.planId
          (plan.instructions.filterMap Instruction.freshId?) } := by
  obtain ⟨s, day, scan, prepared, st1, workflows, hs, hday, hscan, hapart, hprepare,
    hreserve, henter, rfl, rfl⟩ := submitStage_ok h
  obtain ⟨hrefs, hnew, hrefs', hnew', hids⟩ := scanWalk_ok hscan List.nodup_nil
    List.nodup_nil
  rw [List.nil_append] at hrefs hnew
  obtain ⟨flows, hprepared, hstarted, hentries⟩ := prepareWalk_ok hreceived hday hprepare
  rw [List.nil_append] at hprepared
  subst hprepared
  have hinstr : prepared.map Workflow.instruction = plan.instructions := by
    rw [← List.zipIdx_map_fst 0 plan.instructions, ← hentries, List.map_map]
    rfl
  have hmem : ∀ f ∈ prepared, f.instruction ∈ plan.instructions := fun f hf =>
    hinstr ▸ List.mem_map_of_mem hf
  have horders : (prepared.map Workflow.orderId).Nodup := by
    have hstart := startIds_nodup (hrefs ▸ hrefs') (hnew ▸ hnew')
      (hrefs ▸ hnew ▸ hapart)
    rw [← hinstr, List.map_map] at hstart
    rwa [List.map_congr_left fun f hf => (hstarted f hf).orderId]
  have hkeys : (prepared.map Workflow.key).Nodup := by
    have hidx : (prepared.map Workflow.index).Nodup := by
      have := zipIdx_snd_nodup plan.instructions
      rwa [← hentries, List.map_map] at this
    rw [List.Nodup, List.pairwise_map] at hidx ⊢
    refine hidx.imp fun {a b} hne heq => hne ?_
    exact congrArg (fun k : FlowKey => (ofLex k).2) heq
  have hnames : prepared.Pairwise fun f g => ∀ i, f.instruction.freshId? = some i →
      g.instruction.freshId? ≠ some i := by
    have := pairwise_of_filterMap (hnew ▸ hnew')
    rwa [← hinstr, List.pairwise_map] at this
  have hnewId : ∀ (i : Instruction) id, i.newId? = some id → i.freshId? = some id :=
    fun i id hid => by
      rcases i.start_cases with ⟨-, -, hnone⟩ | ⟨-, -, hsame⟩
      · rw [hnone] at hid
        cases hid
      · rw [← hsame, hid]
  obtain ⟨heffects, hothers, hpending⟩ := reserveNew_ok hreserve
  have hentered := enterWalk_ok horders
    (fun e he f _ t => heffects e he f.orderId t) henter
  -- An order of the plan is new and was reserved, or old and is cancelled.
  have hbefore : ∀ f ∈ prepared,
      (f.operation = .new ∧ FreeId w.execution s f.orderId ∧
        ∃ r ∈ newOrders plan.instructions, r.orderId = f.orderId) ∨
      (f.operation = .cancel ∧
        ∃ o, s.orders.get? f.orderId = some o ∧ o.cancellable day) := by
    intro f hf
    have hst := hstarted f hf
    obtain ⟨hold, hfresh⟩ := hids _ (hmem f hf)
    rw [hst.operation, hst.orderId]
    rcases f.instruction.start_cases with ⟨hop, hid, -⟩ | ⟨hop, hid, -⟩
    · refine Or.inl ⟨hop, hfresh _ hid, ?_⟩
      have hi := hmem f hf
      cases hinst : f.instruction with
      | new r => exact ⟨r, mem_newOrders.mpr (hinst ▸ hi), rfl⟩
      | cancel old => rw [hinst] at hop; cases hop
      | replace => rw [hinst] at hop; cases hop
    · exact Or.inr ⟨hop, hold _ hid⟩
  have hnewOrders : ∀ r ∈ newOrders plan.instructions, ∃ f ∈ prepared,
      f.operation = .new ∧ f.orderId = r.orderId := by
    intro r hr
    have hi := mem_newOrders.mp hr
    rw [← hinstr] at hi
    obtain ⟨f, hf, hinst⟩ := List.mem_map.mp hi
    have hst := hstarted f hf
    refine ⟨f, hf, ?_, ?_⟩
    · rw [hst.operation, hinst]
      rfl
    · rw [hst.orderId, hinst]
      rfl
  have hsame : ∀ f ∈ prepared, ∀ g ∈ prepared, f.orderId = g.orderId → f = g :=
    fun f hf g hg heq => List.inj_on_of_nodup_map horders hf hg heq
  refine ⟨s, day, prepared, hs, ?_, hentered.workflows, rfl, by rw [hnew]⟩
  refine ⟨hinstr, hstarted, hkeys, horders, ?_, fun f hf => ?_, fun f hf => ?_,
    fun id hid => ?_, fun f hf i hi => ?_⟩
  · exact hnames.imp fun {f g} hfg i hi hi' => hfg i (hnewId _ _ hi) (hnewId _ _ hi')
  · have hst := hstarted f hf
    rw [Workflow.awaits_started hst, hst.tradeDate]
    rcases hbefore f hf with ⟨hop, -, r, hr, hid⟩ | ⟨hop, o, ho, hcan⟩
    · obtain ⟨o, ho, hstatus, hdate⟩ := hpending r hr
      refine ⟨o, ?_, by rw [hop]; exact hstatus, hdate.trans hst.received⟩
      rw [hentered.others f.orderId fun g hg hgop heq => ?_, ← hid, ho]
      rw [hsame g hg f hf heq, hop] at hgop
      cases hgop
    · obtain ⟨p, p', hp, hp', hstatus, hdate⟩ := hentered.cancelled f hf hop
      rw [hothers f.orderId fun r hr heq => ?_, ho] at hp
      · cases hp
        exact ⟨p', hp', by rw [hop]; exact hstatus, hdate.trans hcan.2⟩
      · obtain ⟨g, hg, hgop, hgid⟩ := hnewOrders r hr
        rw [hsame g hg f hf (hgid.trans heq), hop] at hgop
        cases hgop
  · rcases hbefore f hf with ⟨hop, hfree, -⟩ | hold
    · exact Or.inl ⟨hop, hfree⟩
    · exact Or.inr hold
  · rw [hentered.others id fun f hf _ => hid f hf, hothers id fun r hr heq => ?_]
    obtain ⟨g, hg, -, hgid⟩ := hnewOrders r hr
    exact hid g hg (hgid.trans heq)
  · have hfresh := hnewId _ _ hi
    refine ⟨(hids _ (hmem f hf)).2 i hfresh, fun g hg heq => ?_⟩
    have hgst := hstarted g hg
    rcases g.instruction.start_cases with ⟨-, hgid, hgnone⟩ | ⟨-, hgid, -⟩
    · rw [← hgst.orderId, heq] at hgid
      have hfg := eq_of_pairwise (φ := fun f => f.instruction.freshId?) hnames hf hg hfresh hgid
      rw [hfg, hgnone] at hi
      cases hi
    · rw [← hgst.orderId, heq] at hgid
      refine hapart i ?_ ?_
      · rw [hrefs]
        exact List.mem_filterMap.mpr ⟨_, hmem g hg, hgid⟩
      · rw [hnew]
        exact List.mem_filterMap.mpr ⟨_, hmem f hf, hfresh⟩

theorem reserveIds_get {planId i : String} {newIds : List String}
    {ids : Dict String String} (h : i ∈ newIds ∨ ∃ p, ids.get? i = some p) :
    ∃ p, (reserveIds ids planId newIds).get? i = some p := by
  induction newIds generalizing ids with
  | nil => exact h.resolve_left (by simp)
  | cons n ns ih =>
      refine ih ?_
      by_cases hi : i = n
      · exact Or.inr ⟨planId, by rw [hi, Dict.get?_set_self]⟩
      · rw [List.mem_cons, or_iff_right hi] at h
        rwa [Dict.get?_set_of_ne hi]

end Ahunter.Sim
