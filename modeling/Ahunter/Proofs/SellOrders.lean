import Ahunter.Proofs.Plans
import Ahunter.Proofs.Disposal

/-!
# Sell orders in every run

The state of the claims that `ShareSound` describes holds wherever a run
leads whose steps are orderly: no step writes a lot under a key that is taken,
and no advance takes up a sale that was released behind its workflow's back.
From such a state the reassignment of a fill succeeds, and what fills consume
is the first-in-first-out prefix of the eligible lots, however the shares sold
are divided among orders and fills.
-/

namespace Ahunter.Sim

open Ahunter.Lib

variable {spec : AccountSpec} {at_ : Instant}

/-! ## Orderly runs -/

/-- The sales an advance takes up still hold their shares. A cancellation
whose order is filled takes up nothing. -/
def SalesHeld (w : World) (at_ : Instant) : Prop :=
  ∀ s, w.account = some s → ∀ f ∈ dueFlows w.plans.workflows at_,
    f.state = .waitingMarket → ∀ o, s.orders.get? f.orderId = some o →
      (f.operation = .cancel ∧ o.status = .filled) ∨
        (o.side = .sell → o.status.held = true)

instance (w : World) (at_ : Instant) : Decidable (SalesHeld w at_) :=
  inferInstanceAs (Decidable (∀ s ∈ w.account,
    ∀ f ∈ dueFlows w.plans.workflows at_, f.state = .waitingMarket →
      ∀ o ∈ s.orders.get? f.orderId, _))

/-- What a step must meet for the claims to stay in order. -/
def Orderly (w : World) (c : Command) (w' : World) : Prop :=
  FreshLots w c w' ∧
    match c with
    | .advance _ at_ _ => SalesHeld w at_
    | _ => True

instance (w : World) (c : Command) (w' : World) : Decidable (Orderly w c w') := by
  unfold Orderly
  cases c <;> infer_instance

def HeldFor (C : Order → Prop) (orders : Dict String Order) (at_ : Instant)
    (f : Workflow) : Prop :=
  f.nextAt = some at_ → f.state = .waitingMarket →
    ∀ o, orders.get? f.orderId = some o →
      (f.operation = .cancel ∧ o.status = .filled) ∨ (C o → o.status.held = true)

theorem Moved.heldFor {C : Order → Prop} {ids : Dict String String}
    {flows : Dict FlowKey Workflow} {a b : FlowRun} (h : Moved a b)
    (ha : InFlow ids flows a) (hlive : a.flow.live = true)
    (hheld : ∀ k g, (flows.set a.flow.key a.flow).get? k = some g →
      HeldFor C a.stage.value.orders at_ g) {k : FlowKey} {g : Workflow}
    (hg : (flows.set b.flow.key b.flow).get? k = some g) :
    HeldFor C b.stage.value.orders at_ g := by
  intro hdue hstate o ho
  have hglive : g.live = true := by rw [Workflow.live, hdue]; rfl
  rw [h.same.key, Dict.get?_set] at hg
  split at hg
  · cases hg
    obtain ⟨p, hp, hstatus⟩ := h.placed hglive
    cases hp.symm.trans ho
    refine Or.inr fun _ => ?_
    rw [hstatus]
    exact OrderStatus.held_of_settling (Workflow.awaits_settling _)
  · next hk =>
      have hg' : (flows.set a.flow.key a.flow).get? k = some g := by
        rw [Dict.get?_set_of_ne hk, hg]
      obtain ⟨p, hp, -⟩ := ha.sound.placed k g hg' hglive
      have hkept := h.others g.orderId p (ha.other hlive hg' hk hglive) hp
      cases hkept.symm.trans ho
      exact hheld k g hg' hdue hstate o hp

variable {proofs : List MarketActionEvidence}

theorem advanceRuns_of_held {w : World}
    {C : Order → Prop} {d : Discipline} (hw : PlansSound w) (hd : d.Open)
    (hmove : ∀ o status, (C o → o.status.held = true) → d.move o status)
    (hheld : ∀ s, w.account = some s → ∀ f ∈ dueFlows w.plans.workflows at_,
      HeldFor C s.orders at_ f) : AdvanceRuns spec d w at_ proofs := by
  intro s run hs hrun
  have hflows := hw.flows s hs
  obtain ⟨hnodup, hdue⟩ := dueFlows_keys hflows at_
  have hstart : AdvanceSound w.execution.reservedOrderIds
      ⟨⟨s, []⟩, w.execution, w.plans.workflows, []⟩ :=
    ⟨hflows, fun e he => absurd he List.not_mem_nil⟩
  have hall : ∀ k f, w.plans.workflows.get? k = some f →
      HeldFor C s.orders at_ f := fun k f hf hnext =>
    hheld s hs f (mem_dueFlows.mpr ⟨Dict.mem_values.mpr ⟨k, hf⟩, hnext⟩) hnext
  refine (advanceWalk_moves (P := fun acc =>
    StageRun spec d ⟨s, []⟩ acc.stage ∧
      ∀ k f, acc.workflows.get? k = some f →
        HeldFor C acc.stage.value.orders at_ f) hrun hnodup
    (fun f hf => (hdue f hf).1) hstart ⟨StageRun.refl _, hall⟩
    fun acc f run history' hacc hP hf hloop => ?_).2.1
  have hin := hacc.inFlow hf
  have hset : acc.workflows.set f.key f = acc.workflows := Dict.set_get?_self hf
  obtain ⟨-, hQ, hsame⟩ := flowLoop_moves (Q := fun r : FlowRun =>
    StageRun spec d ⟨s, []⟩ r.stage ∧
      ∀ k g, (acc.workflows.set r.flow.key r.flow).get? k = some g →
        HeldFor C r.stage.value.orders at_ g) hloop hin
    ⟨hP.1, fun k g hg => hP.2 k g (hset ▸ hg)⟩
    fun a b order ha hQ hlive hnext horder hmove' hmoved => by
      refine ⟨hQ.1.trans (hmove'.run horder ?_),
        fun k g hg => hmoved.heldFor ha hlive hQ.2 hg⟩
      refine ⟨hd.acts, fun hstate hfilled status => hmove order status ?_,
        Or.inr ⟨hd.sends, ha.unreplaced hlive⟩⟩
      rcases hQ.2 _ _ (Dict.get?_set_self _ _ _) hnext hstate order horder with
        ⟨hop, hstatus⟩ | hclass
      · exact absurd hstatus (hfilled hop)
      · exact hclass
  have hkey : run.flow.key = f.key := hsame.key
  exact hkey ▸ hQ

theorem SalesHeld.advanceRuns {w : World} (hheld : SalesHeld w at_) (hw : PlansSound w) :
    AdvanceRuns spec .strict w at_ proofs :=
  advanceRuns_of_held (C := fun o => o.side = .sell) hw Discipline.strict_open
    (fun _ _ h => h) fun s hs f hf _ => hheld s hs f hf

theorem step_shareSound {w w' : World} {c : Command} (hr : Reachable spec w)
    (h : step spec w c = .ok w') (hok : Orderly w c w')
    (hw : ∀ s, w.account = some s → ShareSound spec s) :
    ∀ s, w'.account = some s → ShareSound spec s := by
  intro t ht
  have hchange := step_change h Discipline.strict_open fun aid at_ proofs hc => by
    subst hc
    exact SalesHeld.advanceRuns hok.2 (reachable_plansSound hr)
  cases hchange with
  | none haccount => exact hw t (haccount ▸ ht)
  | opened hnone hinit hseal haccount hevents hstate =>
      have hsame := haccount.symm.trans ht
      cases hsame
      rw [hstate]
      exact opening_shareSound hinit hseal
  | @event s ev acts hs haccount hevents hkeys hrun =>
      have hsame := haccount.symm.trans ht
      cases hsame
      refine hrun.shareSound ?_ (hw s hs)
      rw [← hkeys]
      refine hok.1 s hs ev ?_
      rw [hevents, List.drop_left]
      exact List.mem_singleton.mpr rfl

theorem reachable_shareSound {w : World} (h : ReachableIf spec Orderly w)
    {s : AccountState} (hs : w.account = some s) : ShareSound spec s :=
  ReachableIf.invariant (P := fun w => ∀ s, w.account = some s → ShareSound spec s)
    h (by simp [World.start])
    (fun _ _ _ hr hw hstep hok => step_shareSound hr.reachable hstep hok hw) s hs

def OrderlyState (spec : AccountSpec) (t : AccountState) : Prop :=
  ∃ w s acts es, ReachableIf spec Orderly w ∧ w.account = some s ∧
    LedgerRun spec .strict s acts es t ∧
    FreshKeys s (acts.flatMap fun a => a.2.lotKeys a.1 t)

theorem OrderlyState.shareSound {t : AccountState} (h : OrderlyState spec t) :
    ShareSound spec t := by
  obtain ⟨w, s, acts, es, hw, hs, hrun, hfresh⟩ := h
  exact hrun.shareSound hfresh (reachable_shareSound hw hs)

/-! ## What fills consume -/

theorem fifoPrefix_exhausts {s : AccountState} (hs : ShareSound spec s) {security : String}
    {quantity : ℤ} (hq : 0 ≤ quantity)
    (henough : quantity ≤ (eligibleShares spec.zone at_ security s.stockLots).sum) :
    ExhaustsPrefix (eligibleShares spec.zone at_ security s.stockLots)
        ((fifoPrefix spec.zone at_ security quantity s.stockLots).map Prod.snd) ∧
      ((fifoPrefix spec.zone at_ security quantity s.stockLots).map Prod.snd).sum = quantity := by
  have hnonneg := eligibleShares_nonneg hs.funded.sound hs.funded.valid spec.zone at_
    security
  have htaken : (fifoPrefix spec.zone at_ security quantity s.stockLots).map Prod.snd
      = allot quantity (eligibleShares spec.zone at_ security s.stockLots) := by
    rw [fifoPrefix, List.map_snd_zip]
    rw [allot_length, eligibleShares, List.length_map, List.length_map]
  rw [htaken]
  refine ⟨?_, by rw [allot_sum hq hnonneg, min_eq_left henough]⟩
  exact allot_prefix hq hnonneg

structure SalesOrdered (spec : AccountSpec) (t : AccountState) : Prop where
  /-- The shares frozen on a lot are within its quantity. -/
  within : ∀ k l, t.stockLots.get? k = some l → stockFrozen t.orders k ≤ l.quantity
  /-- A live sell order has frozen what remains of it, on its own lots. -/
  frozen : ∀ id o, t.orders.get? id = some o → o.side = .sell →
    o.status.held = true →
      claimed o.stockReserved = o.quantity - o.filledQuantity ∧
        ∀ e ∈ o.stockReserved, ∃ l, t.stockLots.get? e.1 = some l ∧
          l.security = o.security
  /-- Reassignment succeeds and changes no order's total. -/
  reassigned : ∀ at_, (∀ last ∈ t.lastEventAt, last ≤ at_) → ∀ id o,
    t.orders.get? id = some o → o.side = .sell → o.status.held = true →
      ∃ t', reallocateSellFifo spec.zone t id at_ = .ok t' ∧
        ∀ j p, t.orders.get? j = some p → ∃ p', t'.orders.get? j = some p' ∧
          claimed p'.stockReserved = claimed p.stockReserved
  /-- A fill takes the first-in-first-out prefix of the lots eligible then. -/
  consumed : ∀ at_, (∀ last ∈ t.lastEventAt, last ≤ at_) →
    ∀ aid id q price out o, 0 < q → t.orders.get? id = some o → o.side = .sell →
      fill spec aid id q price at_ t = .ok out →
        let taken := fifoPrefix spec.zone at_ o.security q t.stockLots
        out.state.stockLots = lotsLess t.stockLots taken ∧
          (∀ e ∈ taken, ∃ l, t.stockLots.get? e.1 = some l ∧
            l.security = o.security ∧ l.availableAt ≤ at_ ∧
            l.sellableOn ≤ spec.zone.date at_) ∧
          ExhaustsPrefix (eligibleShares spec.zone at_ o.security t.stockLots)
            (taken.map Prod.snd) ∧ (taken.map Prod.snd).sum = q
  /-- Fills one after the other, of whatever orders and in whatever parts,
  take the prefix of what they sell together. -/
  together : ∀ at_ security q u, SaleRun spec at_ security t q u →
    u.stockLots = lotsLess t.stockLots
      (fifoPrefix spec.zone at_ security q t.stockLots)

/-- Every state of an orderly run has its sales in order. -/
theorem sell_reservations_hold {t : AccountState} (h : OrderlyState spec t) :
    SalesOrdered spec t := by
  have hs := h.shareSound
  obtain ⟨last, hlast, hbound⟩ := hs.bound
  refine ⟨fun k l hl => ?_, fun id o ho hside hheld => ?_, fun at_ hat id o ho hside hheld => ?_,
    fun at_ hat aid id q price out o hq ho hside hfill => ?_,
    fun at_ security q u hrun => (hrun.sold hs).2.2⟩
  · exact hs.funded.valid.within k l hl
  · have hsale := (hbound id o ho).sale (Order.selling_iff.mpr ⟨hside, hheld⟩)
    refine ⟨hsale.total, fun e he => ?_⟩
    obtain ⟨l, hl, hd⟩ := hsale.lots e he
    simp only [disposable, Bool.and_eq_true, decide_eq_true_eq] at hd
    exact ⟨l, hl, hd.1⟩
  · have hselling := Order.selling_iff.mpr ⟨hside, hheld⟩
    obtain ⟨t', ht'⟩ := reallocateSellFifo_isOk hs.funded.sound hs.funded.valid
      (hs.boundAt hat) ho hselling
    refine ⟨t', ht', fun j p hp => ?_⟩
    obtain ⟨p', hp', -, htotal⟩ :=
      reallocateSellFifo_totals ht' ho hselling (hs.boundAt hat) hp
    exact ⟨p', hp', htotal⟩
  · obtain ⟨henough, hlots⟩ := fill_sold hfill hq.le hs.funded.sound hs.funded.valid
      (hs.boundAt hat) ho hside
    obtain ⟨hfirst, hsum⟩ := fifoPrefix_exhausts hs hq.le henough
    exact ⟨hlots, fifoPrefix_eligible, hfirst, hsum⟩

theorem sell_reservations_hold_sample : ∃ t o,
    t.orders.get? "sale" = some o ∧ o.side = .sell ∧ o.status.held = true ∧
    o.quantity - o.filledQuantity = 60 ∧ SalesOrdered sampleSpec t := by
  obtain ⟨w, hw, htest⟩ := ReachableIf.of_check sampleSpec Orderly partSale
    (fun w => w.account.any fun s => (s.orders.get? "sale").any fun o =>
      o.side = .sell ∧ o.status.held = true ∧ o.quantity - o.filledQuantity = 60)
    (by decide +kernel)
  obtain ⟨s, hs, htest⟩ := (Option.any_eq_true _ _).mp htest
  obtain ⟨o, ho, htest⟩ := (Option.any_eq_true _ _).mp htest
  obtain ⟨hside, hheld, hremaining⟩ := of_decide_eq_true htest
  exact ⟨s, o, ho, hside, hheld, hremaining, sell_reservations_hold
    ⟨w, s, [], [], hw, hs, LedgerRun.refl, List.nodup_nil, by simp⟩⟩

/-! ## Runs that are not orderly -/

def releasedSale : List Command := [
  .opening "open" true,
  .submit "submit" earlySession (earlyPlan 100)
    [earlyProof (sampleAt 0 500)],
  .account "release" (.release "sale" .rejected (sampleAt 0 510)),
  .advance "advance" (sampleAt 0 550) [⟨earlyProof (sampleAt 0 550), none⟩]]

def takenKey : List Command := [
  .opening "open" true,
  .account "offer" (.reserveBatch
    [sampleOrder "sale" .sell 100 10,
      { sampleOrder "buy" .buy 100 10 with
        security := "SH600001" }] (sampleAt 0 600)),
  .account "initial:SH600000" (.fill "buy" 100 10 (sampleAt 0 601))]

/-- After the first run a sell order is live and has nothing frozen; after the
second one a sell order has frozen shares of another security. -/
theorem sell_reservations_broken :
    (∃ (w : World) (s : AccountState) (o : Order), Reachable sampleSpec w ∧
      w.account = some s ∧ s.orders.get? "sale" = some o ∧ o.side = .sell ∧
      o.status.held = true ∧ claimed o.stockReserved = 0 ∧
      o.quantity - o.filledQuantity = 100) ∧
    (∃ (w : World) (s : AccountState) (o : Order), Reachable sampleSpec w ∧
      w.account = some s ∧ s.orders.get? "sale" = some o ∧ o.side = .sell ∧
      o.status.held = true ∧ ∃ e ∈ o.stockReserved, 0 < e.2 ∧
        ∀ l ∈ s.stockLots.get? e.1, l.security ≠ o.security) := by
  constructor
  · obtain ⟨w, hw, htest⟩ := ReachableIf.of_check sampleSpec (fun _ _ _ => True)
      releasedSale (fun w => w.account.any fun s => (s.orders.get? "sale").any
        fun o => o.side = .sell ∧ o.status.held = true ∧
          claimed o.stockReserved = 0 ∧ o.quantity - o.filledQuantity = 100)
      (by decide +kernel)
    obtain ⟨s, hs, htest⟩ := (Option.any_eq_true _ _).mp htest
    obtain ⟨o, ho, htest⟩ := (Option.any_eq_true _ _).mp htest
    exact ⟨w, s, o, hw, hs, ho, of_decide_eq_true htest⟩
  · obtain ⟨w, hw, htest⟩ := ReachableIf.of_check sampleSpec (fun _ _ _ => True)
      takenKey (fun w => w.account.any fun s => (s.orders.get? "sale").any
        fun o => o.side = .sell ∧ o.status.held = true ∧
          ∃ e ∈ o.stockReserved, 0 < e.2 ∧
            ∀ l ∈ s.stockLots.get? e.1, l.security ≠ o.security)
      (by decide +kernel)
    obtain ⟨s, hs, htest⟩ := (Option.any_eq_true _ _).mp htest
    obtain ⟨o, ho, htest⟩ := (Option.any_eq_true _ _).mp htest
    exact ⟨w, s, o, hw, hs, ho, of_decide_eq_true htest⟩

end Ahunter.Sim
