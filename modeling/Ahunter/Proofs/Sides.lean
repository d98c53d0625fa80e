import Ahunter.Proofs.Acceptance
import Ahunter.Proofs.Hosting

/-!
# Live orders of a security are on one side

Orders enter by three routes: a batch at the exchange, a plan's new orders and
a replacement. Each is checked against the live orders of the other side when
it is reserved, and orders reserved together against each other. After that an
order only ever leaves the live statuses, with one exception: a refused
cancellation puts its order back. In a hosted run that order was waiting for
its cancellation, so it had been live all along.
-/

namespace Ahunter.Sim

open Ahunter.Lib

variable {spec : AccountSpec} {at_ : Instant} {ids : Dict String String}
  {flows : Dict FlowKey Workflow}

/-! ## One side -/

variable {a : Dict String Order}

theorem OrderStatus.held_of_opposing {s : OrderStatus} (h : s.opposing = true) : s.held = true := by
  cases s <;> simp_all [opposing, held]

theorem OrderStatus.opposing_of_executable {s : OrderStatus}
    (h : s.executable = true) : s.opposing = true := by
  cases s <;> simp_all [opposing, executable]

def OneSided (orders : Dict String Order) : Prop :=
  ∀ i j o p, orders.get? i = some o → orders.get? j = some p →
    o.security = p.security → o.status.opposing = true → p.status.opposing = true →
    o.side = p.side

/-- Every live order of `b` was the same live order in `a`. -/
def Narrows (a b : Dict String Order) : Prop :=
  ∀ j o, b.get? j = some o → o.status.opposing = true →
    ∃ p, a.get? j = some p ∧ o.toReservation = p.toReservation ∧
      p.status.opposing = true

theorem Narrows.refl (a : Dict String Order) : Narrows a a :=
  fun _ o ho hlive => ⟨o, ho, rfl, hlive⟩

theorem Narrows.trans {b c : Dict String Order} (h : Narrows a b) (h' : Narrows b c) :
    Narrows a c := by
  intro j o ho hlive
  obtain ⟨p, hp, hres, hplive⟩ := h' j o ho hlive
  obtain ⟨q, hq, hres', hqlive⟩ := h j p hp hplive
  exact ⟨q, hq, hres.trans hres', hqlive⟩

theorem OneSided.narrows {b : Dict String Order} (ha : OneSided a) (h : Narrows a b) :
    OneSided b := by
  intro i j o p ho hp hsec holive hplive
  obtain ⟨o', ho', hres, holive'⟩ := h i o ho holive
  obtain ⟨p', hp', hres', hplive'⟩ := h j p hp hplive
  rw [hres, hres'] at hsec ⊢
  exact ha i j o' p' ho' hp' hsec holive' hplive'

theorem Narrows.set {id : String} {o o' : Order} (ho : a.get? id = some o)
    (hres : o'.toReservation = o.toReservation)
    (hlive : o'.status.opposing = true → o.status.opposing = true) : Narrows a (a.set id o') := by
  intro j p hp hplive
  rw [Dict.get?_set] at hp
  split at hp
  · next hj =>
      cases hp
      exact ⟨o, hj ▸ ho, hres, hlive hplive⟩
  · exact ⟨p, hp, rfl, hplive⟩

/-! ## Operations -/

variable {act : AccountRequest → Prop}

theorem Evolves.opposing {id : String} {o o' : Order}
    (h : Evolves (.only act) id o o') (hlive : o'.status.opposing = true) :
    o.status.opposing = true := by
  cases h.move with
  | kept hstatus hfilled => rwa [← hstatus]
  | filled hact hexec hstatus => exact OrderStatus.opposing_of_executable hexec
  | requested hact hopen hstatus hfilled => rcases hopen with h | h <;> rw [h] <;> rfl
  | released hact hheld hreason hstatus hfilled =>
      rw [← hstatus, OrderStatus.held_of_opposing hlive] at hreason
      cases hreason
  | moved hmove => cases hmove
  | sent hsend hstatus hfilled =>
      have hreserved : o.status = .reserved := hsend
      rw [hreserved]
      rfl

theorem LedgerRun.narrows {s t : AccountState}
    {as : List Act} {es : List Entry} (h : LedgerRun spec (.only act) s as es t)
    (hs : Funded spec.zone s) (hact : ∀ r, act r → r.reserves = []) :
    Narrows s.orders t.orders := by
  intro j o' ho' hlive
  cases ho : s.orders.get? j with
  | none =>
      rw [h.absent hs ho fun r hr => by rw [hact r hr]; exact List.not_mem_nil] at ho'
      cases ho'
  | some o =>
      obtain ⟨p, hp, hres, hopp⟩ := h.order hs ho
        (P := fun p => p.toReservation = o.toReservation ∧
          (p.status.opposing = true → o.status.opposing = true))
        ⟨rfl, id⟩ fun p p' hp he =>
          ⟨he.reservation.trans hp.1, fun hlive => hp.2 (he.opposing hlive)⟩
      cases hp.symm.trans ho'
      exact ⟨o, rfl, hres, hopp hlive⟩

variable {rs : List Reservation}

theorem Reserved.oneSided {b : Dict String Order}
    (h : Reserved spec at_ a rs b) (ha : OneSided a) (hopp : ∀ r ∈ rs, Unopposed r a)
    (hsides : ∀ r ∈ rs, SameSides r rs) : OneSided b := by
  -- An order is one of the batch, or it was there before.
  have hcases : ∀ {id o}, b.get? id = some o →
      o.toReservation ∈ rs ∨ a.get? id = some o := by
    intro id o ho
    by_cases hid : ∃ q ∈ rs, q.orderId = id
    · obtain ⟨q, hq, rfl⟩ := hid
      obtain ⟨cash, stock, hget⟩ := h.stored q hq
      cases hget.symm.trans ho
      exact Or.inl hq
    · push Not at hid
      exact Or.inr (h.others id hid ▸ ho)
  have hnew : ∀ {r : Reservation} {j p}, r ∈ rs → a.get? j = some p →
      p.security = r.security → p.status.opposing = true → p.side = r.side := by
    intro r j p hr hp hsec hlive
    by_contra hside
    rw [hopp r hr j p hp hsec hside] at hlive
    cases hlive
  intro i j o p ho hp hsec holive hplive
  rcases hcases ho with ho | ho <;> rcases hcases hp with hp | hp
  · exact hsides _ hp _ ho hsec
  · exact (hnew ho hp hsec.symm hplive).symm
  · exact hnew hp ho hsec holive
  · exact ha i j o p ho hp hsec holive hplive

variable {st st' : Staged}

theorem Staged.run_oneSided {aid : String} (h : st.run spec aid (.reserveBatch rs at_) = .ok st')
    (hst : OneSided st.value.orders)
    (hopp : ∀ r ∈ rs, Unopposed r st.value.orders) : OneSided st'.value.orders := by
  obtain ⟨hcheck, ⟨rfl, -⟩ | ⟨o, o', hperform, hseal, rfl⟩⟩ := Staged.run_ok h
  · exact hst
  · simp only [AccountRequest.check, batchAdmissible, bind_ok, refuse_ok] at hcheck
    obtain ⟨-, -, hconflict⟩ := hcheck
    push Not at hconflict
    rw [prepareState_orders hseal]
    exact (reserveBatch_ok hperform).1.oneSided hst hopp
      fun r hr q hq hsec => hconflict q hq r hr hsec

variable {s : AccountState}

theorem reserveNew_oneSided {st : Staged} {aid : String}
    (h : reserveNew spec ⟨s, []⟩ aid rs at_ = .ok st)
    (hs : OneSided s.orders) (hopp : ∀ r ∈ rs, Unopposed r s.orders) :
    OneSided st.value.orders := by
  simp only [reserveNew] at h
  split at h
  · cases pure_ok.mp h
    exact hs
  · simp only [bind_ok] at h
    obtain ⟨mid, hrun, hmarks⟩ := h
    obtain ⟨hnodup, hres⟩ := Staged.run_reserved (by simp) hrun
    obtain ⟨-, hothers, hmarked⟩ := markPending_ok hnodup hmarks
    refine (Staged.run_oneSided hrun hs hopp).narrows fun j o ho hlive => ?_
    by_cases hj : ∃ r ∈ rs, r.orderId = j
    · obtain ⟨r, hr, rfl⟩ := hj
      obtain ⟨p, hp, hp'⟩ := hmarked r hr
      obtain ⟨cash, stock, hstored⟩ := hres.stored r hr
      cases hp'.symm.trans ho
      cases hp.symm.trans hstored
      exact ⟨_, hstored, rfl, rfl⟩
    · push Not at hj
      exact ⟨o, hothers j hj ▸ ho, rfl, hlive⟩

theorem enterWorkflow_narrows {a b : Staged × Dict FlowKey Workflow} {f : Workflow}
    (h : enterWorkflow spec at_ a f = .ok b) : Narrows a.1.value.orders b.1.value.orders := by
  simp only [enterWorkflow] at h
  split at h
  · cases pure_ok.mp h
    exact Narrows.refl _
  · simp only [bind_ok, pure_ok] at h
    obtain ⟨st, hrun, st', hmark, rfl⟩ := h
    have hrequest : Narrows a.1.value.orders st.value.orders := by
      obtain ⟨-, ⟨rfl, -⟩ | ⟨o, o', hperform, hseal, rfl⟩⟩ := Staged.run_ok hrun
      · exact Narrows.refl _
      · obtain ⟨order, horder, hopen, rfl⟩ := cancelRequest_ok hperform
        rw [prepareState_orders hseal]
        refine Narrows.set horder rfl fun _ => ?_
        rcases hopen with hopen | hopen <;> rw [hopen] <;> rfl
    obtain ⟨order, horder, rfl⟩ := Staged.mark_ok hmark
    exact hrequest.trans (Narrows.set horder rfl id)

theorem acceptance_unopposed {r : Reservation} {proof : AcceptanceEvidence} {exchange : Bool}
    (h : acceptance spec r proof s at_ exchange = .ok ()) : Unopposed r s.orders := by
  simp only [acceptance, bind_ok, refuse_ok] at h
  obtain ⟨_, hopp, -⟩ := h
  push Not at hopp
  intro id o ho hsec hside
  simpa using hopp o (Dict.mem_values.mpr ⟨id, ho⟩) hsec hside

/-! ## Moves -/

theorem setOrderState_narrows {id reason : String}
    {status : OrderStatus} {vis : Instant} {order : Order}
    (h : setOrderState spec st id status at_ vis reason = .ok st')
    (horder : st.value.orders.get? id = some order)
    (hlive : status.opposing = true → order.status.opposing = true) :
    Narrows st.value.orders st'.value.orders := by
  obtain ⟨o, e, ho, horders, -⟩ := setOrderState_ok h
  cases ho.symm.trans horder
  rw [horders]
  exact Narrows.set horder rfl hlive

theorem Staged.run_release_narrows {aid id : String} {reason : OrderStatus} {t : Instant}
    (h : st.run spec aid (.release id reason t) = .ok st') (hreason : reason.opposing = false) :
    Narrows st.value.orders st'.value.orders := by
  rcases Staged.run_release h with ⟨rfl, -⟩ | ⟨order, e, horder, -, horders, -⟩
  · exact Narrows.refl _
  · rw [horders]
    refine Narrows.set horder rfl fun hlive => ?_
    rw [show reason.opposing = true from hlive] at hreason
    cases hreason

theorem FlowMove.oneSided {order : Order} {a b : FlowRun} (h : FlowMove spec at_ order a b)
    (horder : a.stage.value.orders.get? a.flow.orderId = some order)
    (howns : a.flow.Owns order) (hfresh : a.Unreplaced)
    (ha : OneSided a.stage.value.orders) : OneSided b.stage.value.orders := by
  cases h with
  | accepted hstate hop hacc hset =>
      refine ha.narrows (setOrderState_narrows hset horder fun _ => ?_)
      rcases howns.status with hwas | ⟨hwas, -⟩
      · rw [hwas, Workflow.awaits, hstate, hop]
        rfl
      · rw [Workflow.awaits, hstate, hop] at hwas
        cases hwas
  | refused hstate hop hset => exact ha.narrows (setOrderState_narrows hset horder fun h => by cases h)
  | tooLate => exact ha
  | cancelRefused hstate hop hfilled hset =>
      refine ha.narrows (setOrderState_narrows hset horder fun _ => ?_)
      -- The order was waiting for its cancellation.
      rcases howns.status with hwas | ⟨-, hwas⟩
      · rw [hwas, Workflow.awaits, hstate, hop]
        rfl
      · exact absurd hwas hfilled
  | cancelled hstate hop hfilled hset =>
      exact ha.narrows (setOrderState_narrows hset horder fun h => by cases h)
  | @ended stage outcome state reason quantity hstate houtcome hrelease hfinal =>
      exact ha.narrows (Staged.run_release_narrows hrelease (by cases outcome <;> rfl))
  | @replaced released reserved stage old oldId newId target remaining price ht hp hq
      proof timing hstate hday houtcome hinstruction hrelease hold hremaining hacc
      hreserve hmark =>
      have hreleased := ha.narrows (Staged.run_release_narrows hrelease rfl)
      have hreserved := Staged.run_oneSided hreserve hreleased fun r hr => by
        rw [List.mem_singleton.mp hr]
        exact acceptance_unopposed hacc
      have hres := Staged.run_reserved_after hrelease
        (fun e he => hfresh hstate houtcome _ _ _ _ _ _ hinstruction e he _ _ rfl)
        hreserve
      obtain ⟨cash, stock, hstored⟩ := hres.stored _ List.mem_cons_self
      obtain ⟨marked, hmarked, rfl⟩ := Staged.mark_ok hmark
      cases hstored.symm.trans hmarked
      exact hreserved.narrows (Narrows.set hmarked rfl fun _ => rfl)

/-! ## Every hosted run -/

theorem AccountChange.oneSided {w w' : World}
    (h : AccountChange spec (.only act) w w') (hr : Reachable spec w)
    (hact : ∀ r, act r → r.reserves = [])
    (hw : ∀ s, w.account = some s → OneSided s.orders) {t : AccountState}
    (ht : w'.account = some t) : OneSided t.orders := by
  cases h with
  | none haccount => exact hw t (haccount ▸ ht)
  | opened hnone hinit hseal haccount hevents hstate =>
      cases haccount.symm.trans ht
      rw [hstate, prepareState_orders hseal]
      simp only [initializeAccount, bind_ok, refuse_ok, pure_ok] at hinit
      obtain ⟨-, -, rfl⟩ := hinit
      intro i j o p ho
      simp [initialState] at ho
  | event hs haccount hevents hkeys hrun =>
      cases haccount.symm.trans ht
      exact (hw _ hs).narrows (hrun.narrows (reachable_funded hr hs) hact)

theorem step_oneSided {w w' : World} {c : Command} (hr : Reachable spec w)
    (h : step spec w c = .ok w') (hc : c.hosted = true)
    (howned : ∀ s, w.account = some s → FlowsOwned s w.plans.workflows)
    (hw : ∀ s, w.account = some s → OneSided s.orders) :
    ∀ s, w'.account = some s → OneSided s.orders := by
  cases c with
  | submit aid session plan proofs =>
      rcases submit_ok h with rfl | ⟨phase, t, st, x, plans, record, -, -, -, hstage,
        -, hpublish⟩
      · exact hw
      obtain ⟨o', hseal, rfl⟩ := World.publish_ok hpublish
      obtain ⟨s, day, scan, prepared, st1, workflows, hs, -, -, -, hprepared, hreserve,
        henter, -⟩ := submitStage_ok hstage
      intro u hu
      cases hu
      rw [prepareState_orders hseal]
      refine OneSided.narrows (a := st1.value.orders) ?_ ?_
      · refine reserveNew_oneSided hreserve (hw s hs) fun r hr => ?_
        obtain ⟨i, hi⟩ := List.mem_iff_getElem?.mp (mem_newOrders.mp hr)
        obtain ⟨c, c', hone⟩ := walk_mem hprepared (List.mk_mem_zipIdx_iff_getElem?.mpr hi)
        obtain ⟨proof, hacc⟩ := prepareOne_accepted hone
        exact acceptance_unopposed hacc
      · exact walk_induction (P := fun a : Staged × Dict FlowKey Workflow =>
          Narrows st1.value.orders a.1.value.orders) henter (Narrows.refl _)
          fun _ _ _ _ ha hone => ha.trans (enterWorkflow_narrows hone)
  | advance aid t proofs =>
      exact fun s hs => (advance_keeps (Q := fun s flows => FlowsOwned s flows ∧
        OneSided s.orders) h (reachable_plansSound hr) (fun s hs => ⟨howned s hs, hw s hs⟩)
        (fun _ _ _ ht hQ => ⟨hQ.1.orders ht, ht ▸ hQ.2⟩)
        (fun flows a b order ha hlive horder hmove hmoved hQ => by
          obtain ⟨o, ho, howns⟩ := hQ.1 _ _ (Dict.get?_set_self _ _ _) hlive
          cases ho.symm.trans horder
          exact ⟨hmoved.owned ha hlive horder hmove hQ.1,
            hmove.oneSided horder howns (ha.unreplaced hlive) hQ.2⟩) s hs).2
  | expireDay aid day cursors t rules =>
      intro u hu
      have hchange := expireDay_change (d := .only fun r => r.reserves = [])
        (fun _ _ _ _ => rfl) h
      exact hchange.oneSided hr (fun r hr => hr) hw hu
  | acceptBatch aid orders proofs t =>
      rcases acceptBatch_ok h with rfl | ⟨s, st, x, hs, -, haccepted, hst, -, hpublish⟩
      · exact hw
      obtain ⟨o', hseal, rfl⟩ := World.publish_ok hpublish
      intro u hu
      cases hu
      rw [prepareState_orders hseal]
      refine Staged.run_oneSided hst (hw s hs) fun r hr => ?_
      obtain ⟨-, proof, -, hacc⟩ := haccepted r hr
      exact acceptance_unopposed hacc
  | opening | account | advanceMinute | queueAdvance =>
      intro u hu
      exact (tending_change h hc rfl (by simp)).oneSided hr
        (fun r hr => AccountRequest.reserves_of_hosted hr) hw hu

theorem hosted_oneSided {w : World} (h : ReachableIf spec Hosted w)
    (hs : w.account = some s) : OneSided s.orders :=
  h.invariant (P := fun w => ∀ s, w.account = some s → OneSided s.orders)
    (by simp [World.start]) (fun _ _ _ hr hw hstep hc =>
      step_oneSided hr.reachable hstep hc (fun _ => hosted_owned hr) hw) s hs

/-- In every state of a hosted run no security has a live buy order and a live
sell order, however the two were entered or came back. -/
theorem no_opposing_live_orders {w : World} {s : AccountState}
    (h : ReachableIf spec Hosted w) (hs : w.account = some s) :
    ¬ ∃ i j buy sell, s.orders.get? i = some buy ∧ s.orders.get? j = some sell ∧
      buy.security = sell.security ∧ buy.side = .buy ∧ sell.side = .sell ∧
      buy.status.opposing = true ∧ sell.status.opposing = true := by
  rintro ⟨i, j, buy, sell, hbuy, hsell, hsec, hb, hsl, hblive, hslive⟩
  have hside := hosted_oneSided h hs i j buy sell hbuy hsell hsec hblive hslive
  rw [hb, hsl] at hside
  cases hside

theorem no_opposing_live_orders_sample : ∃ (w : World) (s : AccountState),
    w.account = some s ∧
    (∃ o, s.orders.get? "sale" = some o ∧ o.status = .partFilled) ∧
    ¬ ∃ i j buy sell, s.orders.get? i = some buy ∧ s.orders.get? j = some sell ∧
      buy.security = sell.security ∧ buy.side = .buy ∧ sell.side = .sell ∧
      buy.status.opposing = true ∧ sell.status.opposing = true := by
  obtain ⟨w, hw, htest⟩ := ReachableIf.of_check sampleSpec Hosted partSale
    (fun w => w.account.any fun s => (s.orders.get? "sale").any fun o =>
      o.status = .partFilled) (by decide +kernel)
  obtain ⟨s, hs, htest⟩ := (Option.any_eq_true _ _).mp htest
  obtain ⟨o, ho, hstatus⟩ := (Option.any_eq_true _ _).mp htest
  exact ⟨w, s, hs, ⟨o, ho, of_decide_eq_true hstatus⟩, no_opposing_live_orders hw hs⟩

end Ahunter.Sim
