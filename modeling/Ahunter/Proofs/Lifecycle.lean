import Ahunter.Proofs.CashBacking

/-!
# The life of an order

What one ledger step can do to an order that exists, said once: fill it,
request its cancellation, release it, have the exchange move it or take it in,
or leave it alone (`LedgerStep.evolves`). An order that does not exist comes
into being by a reservation only (`LedgerStep.absent`). Invariants of orders
over runs are proved from these two and look at no operation again.
-/

namespace Ahunter.Sim

open Ahunter.Lib

variable {spec : AccountSpec} {d : Discipline} {at_ : Instant}

/-! ## One order -/

variable {o : Order} {id : String}

structure Unmoved (o o' : Order) : Prop where
  reservation : o'.toReservation = o.toReservation
  tradeDate : o'.tradeDate = o.tradeDate
  status : o'.status = o.status
  filled : o'.filledQuantity = o.filledQuantity

theorem Unmoved.refl (o : Order) : Unmoved o o := ⟨rfl, rfl, rfl, rfl⟩

theorem Unmoved.trans {p q : Order} (h : Unmoved o p) (h' : Unmoved p q) :
    Unmoved o q where
  reservation := h'.reservation.trans h.reservation
  tradeDate := h'.tradeDate.trans h.tradeDate
  status := h'.status.trans h.status
  filled := h'.filled.trans h.filled

theorem Unmoved.of_core {p : Order} (h : p.core = o.core) : Unmoved o p := by
  obtain ⟨hres, hstatus, hfilled, hdate, -⟩ := Order.core_eq h
  exact ⟨hres, hdate, hstatus, hfilled⟩

inductive StatusMove (d : Discipline) (id : String) (o : Order) : Order → Prop
  | kept {o' : Order} (hstatus : o'.status = o.status)
      (hfilled : o'.filledQuantity = o.filledQuantity) : StatusMove d id o o'
  | filled {o' : Order} {q : ℤ} {p : ℚ} {t : Instant}
      (hact : d.act (.fill id q p t)) (hexec : o.status.executable = true)
      (hstatus : o'.status = .filled ∨
        (o.status = .cancelPending ∧ o'.status = .cancelPending) ∨
        (o.status ≠ .cancelPending ∧ o'.status = .partFilled)) :
      StatusMove d id o o'
  | requested {o' : Order} {t : Instant} (hact : d.act (.cancelRequest id t))
      (hopen : o.status = .reserved ∨ o.status = .partFilled)
      (hstatus : o'.status = .cancelPending)
      (hfilled : o'.filledQuantity = o.filledQuantity) : StatusMove d id o o'
  | released {o' : Order} {reason : OrderStatus} {t : Instant}
      (hact : d.act (.release id reason t)) (hheld : o.status.held = true)
      (hreason : reason.held = false) (hstatus : o'.status = reason)
      (hfilled : o'.filledQuantity = o.filledQuantity) : StatusMove d id o o'
  | moved {o' : Order} (hmove : d.move o o'.status) (hheld : o'.status.held = true)
      (hfilled : o'.filledQuantity = o.filledQuantity) : StatusMove d id o o'
  | sent {o' : Order} (hsend : d.send o) (hstatus : o'.status = .pendingAcceptance)
      (hfilled : o'.filledQuantity = o.filledQuantity) : StatusMove d id o o'

structure Evolves (d : Discipline) (id : String) (o o' : Order) : Prop where
  reservation : o'.toReservation = o.toReservation
  tradeDate : o'.tradeDate = o.tradeDate
  move : StatusMove d id o o'

theorem Unmoved.evolves {o' : Order} (h : Unmoved o o') :
    Evolves d id o o' := ⟨h.reservation, h.tradeDate, .kept h.status h.filled⟩

def Order.awaits (o : Order) (status : OrderStatus) : Prop :=
  o.status.held = true → o.status = status

def OrderStatus.settling : OrderStatus → Bool
  | .pendingAcceptance | .cancelPending | .cancelEffective
  | .rejectedPendingReceipt => true
  | _ => false

theorem OrderStatus.held_of_settling {s : OrderStatus} (h : s.settling = true) : s.held = true := by
  cases s <;> simp_all [settling, held]

theorem Evolves.awaits {act : AccountRequest → Prop} {o' : Order}
    (h : Evolves (.only act) id o o') {status : OrderStatus} (hsettling : status.settling = true)
    (ho : o.awaits status) : o'.awaits status := by
  intro hheld
  cases h.move with
  | kept hstatus hfilled => rw [hstatus] at hheld ⊢; exact ho hheld
  | filled hact hexec hstatus =>
      have hwas := ho (OrderStatus.held_of_executable hexec)
      rcases hstatus with hstatus | ⟨hpending, hstatus⟩ | ⟨hpending, hstatus⟩
      · rw [hstatus] at hheld
        cases hheld
      · rw [hstatus, ← hwas, hpending]
      · rw [hwas] at hexec hpending
        cases status <;> simp_all [OrderStatus.executable, OrderStatus.settling]
  | requested hact hopen hstatus hfilled =>
      have hwas : o.status = status :=
        ho (by rcases hopen with h | h <;> rw [h] <;> rfl)
      rcases hopen with h | h <;> rw [h] at hwas <;> rw [← hwas] at hsettling <;>
        cases hsettling
  | released hact hwas hreason hstatus hfilled =>
      rw [hstatus, hreason] at hheld
      cases hheld
  | moved hmove hheld hfilled => cases hmove
  | sent hsend hstatus hfilled =>
      have hreserved : o.status = .reserved := hsend
      have hwas : o.status = status := ho (by rw [hreserved]; rfl)
      rw [hreserved] at hwas
      rw [← hwas] at hsettling
      cases hsettling

/-! ## Operations -/

variable {s t : AccountState} {es : List Entry} {j : String}

theorem fillSide_orders {t : FillTerms} {s' : AccountState} (h : fillSide spec t s = .ok (s', es))
    (horder : s.orders.get? t.orderId = some t.order) :
    ∃ orders order, s'.orders = orders.set t.orderId order ∧ SameCore s.orders orders ∧
      Unmoved t.order order ∧ order.turnover = t.order.turnover ∧
      (t.order.side = .buy → order.cashReserved = t.newReserve) := by
  simp only [fillSide] at h
  split at h
  · simp only [fillBuy, bind_ok, refuse_ok, pure_ok, Prod.mk.injEq] at h
    obtain ⟨-, -, lots, -, sellable, -, rfl, -⟩ := h
    exact ⟨s.orders, _, rfl, fun _ => rfl, ⟨rfl, rfl, rfl, rfl⟩, rfl, fun _ => rfl⟩
  · next hside =>
      obtain ⟨s1, order, dis, es2, hrealloc, hget, hdispose, -, hsettle, -⟩ :=
        fillSell_ok h
      obtain ⟨hcore, -⟩ := reallocateSellFifo_core hrealloc
      have hdisposed : dis.state.orders = s1.orders := disposeLots_orders hdispose
      have horders : s'.orders = s1.orders.set t.orderId
          { order with stockReserved := dis.stockReserved } := by
        rcases settleProceeds_ok hsettle with ⟨-, paid, lots, -, -, rfl, -⟩ |
          ⟨-, rfl, -⟩ | ⟨-, lot, -, rfl, -⟩ <;>
        simp only [AccountState.setOrder_orders, hdisposed]
      obtain ⟨o', ho', hc⟩ := hcore.get horder
      cases hget.symm.trans ho'
      obtain ⟨-, -, -, -, -, hturnover⟩ := Order.core_eq hc
      refine ⟨s1.orders, _, horders, hcore,
        (Unmoved.of_core hc).trans ⟨rfl, rfl, rfl, rfl⟩, hturnover, ?_⟩
      rw [hside]
      intro h
      cases h

theorem fillSide_unmoved {t : FillTerms} {s' : AccountState}
    (h : fillSide spec t s = .ok (s', es)) (horder : s.orders.get? t.orderId = some t.order)
    (j : String) :
    (∀ o, s.orders.get? j = some o → ∃ o', s'.orders.get? j = some o' ∧ Unmoved o o') ∧
      (s.orders.get? j = none → s'.orders.get? j = none) := by
  obtain ⟨orders, order, horders, hcore, hunmoved, -⟩ := fillSide_orders h horder
  rw [horders, Dict.get?_set]
  refine ⟨fun o ho => ?_, fun hnone => ?_⟩
  · obtain ⟨o', ho', hc⟩ := hcore.get ho
    split
    · next hj =>
        subst hj
        cases horder.symm.trans ho
        exact ⟨order, rfl, hunmoved⟩
    · exact ⟨o', ho', Unmoved.of_core hc⟩
  · split
    · next hj =>
        rw [hj, horder] at hnone
        cases hnone
    · have := hcore j
      rwa [hnone, Option.map_none, Option.map_eq_none_iff] at this

variable {aid : String}

theorem fill_orders {quantity : ℤ} {price : ℚ} {o : Outcome}
    (h : fill spec aid id quantity price at_ s = .ok o) (j : String) :
    (∀ p, s.orders.get? j = some p → ∃ p', o.state.orders.get? j = some p' ∧
        p'.toReservation = p.toReservation ∧ p'.tradeDate = p.tradeDate ∧ if j = id then
          p.status.executable = true ∧ p'.filledQuantity = p.filledQuantity + quantity ∧
            (p'.status = .filled ∨ (p.status = .cancelPending ∧ p'.status = .cancelPending) ∨
              (p.status ≠ .cancelPending ∧ p'.status = .partFilled)) else Unmoved p p') ∧
      (s.orders.get? j = none → o.state.orders.get? j = none) := by
  obtain ⟨t, s1, es, order, hterms, hbranch, hget, rfl⟩ := fill_ok h
  obtain ⟨horder, hexec, -, -, -, -, hid, hquantity, -⟩ := fillTerms_ok hterms
  have hsame := fillSide_unmoved hbranch (hid ▸ horder)
  simp only [bookFill, hid, Dict.get?_set]
  refine ⟨fun p hp => ?_, fun hnone => ?_⟩
  · obtain ⟨p', hp', hun⟩ := (hsame j).1 p hp
    by_cases hj : j = id
    · subst hj
      cases horder.symm.trans hp
      cases hget.symm.trans hp'
      simp only [if_true]
      refine ⟨_, rfl, hun.reservation, hun.tradeDate, hexec, ?_, ?_⟩
      · show order.filledQuantity + t.quantity = _
        rw [hun.filled, hquantity]
      · show (if t.remaining = 0 then OrderStatus.filled
          else if order.status = .cancelPending then .cancelPending
          else .partFilled) = _ ∨ _
        rw [hun.status]
        by_cases h0 : t.remaining = 0
        · exact Or.inl (if_pos h0)
        · right
          by_cases hc : t.order.status = .cancelPending
          · exact Or.inl ⟨hc, by simp [h0, hc]⟩
          · exact Or.inr ⟨hc, by simp [h0, hc]⟩
    · simp only [if_neg hj]
      exact ⟨p', hp', hun.reservation, hun.tradeDate, hun⟩
  · have hj : j ≠ id := fun hj => by
      rw [hj, horder] at hnone
      cases hnone
    rw [if_neg hj]
    exact (hsame j).2 hnone

def AccountRequest.ordering : AccountRequest → Bool
  | .reserveBatch .. | .fill .. | .cancelRequest .. | .release .. => true
  | _ => false

variable {r : AccountRequest} {out : Outcome}

theorem perform_orders
    (hr : r.ordering = false) (h : perform spec aid r s = .ok out) (hs : Sound s) :
    out.state.orders = s.orders := by
  cases r with
  | reserveBatch | fill | cancelRequest | release => cases hr
  | checkpoint at_ =>
      cases h
      rfl
  | settlePayables at_ =>
      obtain ⟨lots, -, rfl⟩ := settlePayables_ok h
      rfl
  | corporateRegister terms at_ =>
      simp only [perform, bind_ok] at h
      obtain ⟨_, -, h⟩ := h
      obtain ⟨-, item, receivables, obligations, entries, rfl, -⟩ :=
        corporateRegister_ok h
      rfl
  | corporateApply id at_ => exact (corporateApply_sound h hs).2.orders
  | corporatePay id at_ =>
      obtain ⟨item, receivable, item', receivable', rfl, -⟩ := corporatePay_ok h
      rfl
  | specialSettlement terms at_ =>
      simp only [perform, bind_ok] at h
      obtain ⟨_, -, h⟩ := h
      exact (specialSettlement_sound h hs).2.orders
  | specialSettlementPay id at_ =>
      obtain ⟨item, rid, receivable, receivable', item', rfl, -⟩ :=
        specialSettlementPay_ok h
      rfl

theorem evolves_same (h : t.orders = s.orders) (ho : s.orders.get? j = some o) :
    ∃ o', t.orders.get? j = some o' ∧ Evolves d j o o' :=
  ⟨o, h ▸ ho, (Unmoved.refl o).evolves⟩

theorem evolves_set {p p' : Order} (hp : s.orders.get? id = some p) (he : Evolves d id p p')
    (ho : s.orders.get? j = some o) :
    ∃ o', (s.setOrder id p').orders.get? j = some o' ∧ Evolves d j o o' := by
  rw [AccountState.setOrder_orders, Dict.get?_set]
  split
  · next hj =>
      subst hj
      cases hp.symm.trans ho
      exact ⟨p', rfl, he⟩
  · exact ⟨o, ho, (Unmoved.refl o).evolves⟩

theorem perform_evolves
    (hcheck : r.check = .ok ()) (hact : d.act r) (h : perform spec aid r s = .ok out)
    (hs : Sound s) (ho : s.orders.get? j = some o) :
    ∃ o', out.state.orders.get? j = some o' ∧ Evolves d j o o' := by
  cases r with
  | reserveBatch orders at_ =>
      obtain ⟨hres, -⟩ := reserveBatch_ok h
      refine ⟨o, ?_, (Unmoved.refl o).evolves⟩
      rw [hres.others j fun r hr heq => ?_, ho]
      rw [← heq, hres.new r hr] at ho
      cases ho
  | fill id quantity price at_ =>
      obtain ⟨p', hp', hres, hdate, hmove⟩ := (fill_orders h j).1 o ho
      refine ⟨p', hp', hres, hdate, ?_⟩
      split at hmove
      · next hj =>
          subst hj
          exact .filled hact hmove.1 hmove.2.2
      · exact .kept hmove.status hmove.filled
  | cancelRequest id at_ =>
      obtain ⟨order, horder, hstatus, rfl⟩ := cancelRequest_ok h
      exact evolves_set horder ⟨rfl, rfl, .requested hact hstatus rfl rfl⟩ ho
  | release id reason at_ =>
      obtain ⟨order, horder, hheld, -, rfl⟩ := release_ok h
      have hterminal : reason.held = false := by
        simp only [AccountRequest.check, releasable, refuse_ok] at hcheck
        cases reason <;> simp_all [OrderStatus.held]
      exact evolves_set horder ⟨rfl, rfl, .released hact hheld hterminal rfl rfl⟩ ho
  | _ => exact evolves_same (perform_orders rfl h hs) ho

def AccountRequest.reserves : AccountRequest → List String
  | .reserveBatch orders _ => orders.map Reservation.orderId
  | _ => []

theorem absent_set {p p' : Order} (hp : s.orders.get? id = some p) (hj : s.orders.get? j = none) :
    (s.setOrder id p').orders.get? j = none := by
  rw [AccountState.setOrder_orders, Dict.get?_set_of_ne, hj]
  rintro rfl
  rw [hp] at hj
  cases hj

theorem perform_absent
    (h : perform spec aid r s = .ok out) (hs : Sound s) (hj : s.orders.get? j = none)
    (hr : j ∉ r.reserves) : out.state.orders.get? j = none := by
  cases r with
  | reserveBatch orders at_ =>
      obtain ⟨hres, -⟩ := reserveBatch_ok h
      rw [hres.others j fun q hq heq => hr (heq ▸ List.mem_map_of_mem hq), hj]
  | fill id quantity price at_ => exact (fill_orders h j).2 hj
  | cancelRequest id at_ =>
      obtain ⟨order, horder, -, rfl⟩ := cancelRequest_ok h
      exact absent_set horder hj
  | release id reason at_ =>
      obtain ⟨order, horder, -, -, rfl⟩ := release_ok h
      exact absent_set horder hj
  | _ => rwa [perform_orders rfl h hs]

/-! ## Steps and runs -/

variable {as : List Act}

theorem LedgerStep.evolves (h : LedgerStep spec d s as es t) (hs : Sound s)
    (ho : s.orders.get? j = some o) : ∃ o', t.orders.get? j = some o' ∧ Evolves d j o o' := by
  cases h with
  | account hcheck hrun hseal hact =>
      rw [prepareState_orders hseal]
      exact perform_evolves hcheck hact hrun hs ho
  | moved horder hheld hmove hrun hseal =>
      obtain ⟨order, horder', rfl⟩ := orderMarketState_ok hrun
      cases horder.symm.trans horder'
      rw [prepareState_orders hseal]
      exact evolves_set horder ⟨rfl, rfl, .moved hmove hheld rfl⟩ ho
  | marked horder hstatus =>
      refine evolves_set horder ⟨rfl, rfl, ?_⟩ ho
      rcases hstatus with hsame | ⟨hpending, hsend⟩
      · exact .kept hsame rfl
      · exact .sent hsend hpending rfl
  | resealed hseal =>
      rw [prepareState_orders hseal]
      exact ⟨o, ho, (Unmoved.refl o).evolves⟩

theorem LedgerStep.absent (h : LedgerStep spec d s as es t) (hs : Sound s)
    (hj : s.orders.get? j = none) (hd : ∀ r, d.act r → j ∉ r.reserves) :
    t.orders.get? j = none := by
  cases h with
  | account hcheck hrun hseal hact =>
      rw [prepareState_orders hseal]
      exact perform_absent hrun hs hj (hd _ hact)
  | moved horder hheld hmove hrun hseal =>
      obtain ⟨order, horder', rfl⟩ := orderMarketState_ok hrun
      rw [prepareState_orders hseal]
      exact absent_set horder' hj
  | marked horder hstatus => exact absent_set horder hj
  | resealed hseal =>
      rw [prepareState_orders hseal]
      exact hj

theorem LedgerRun.order {P : Order → Prop} (h : LedgerRun spec d s as es t)
    (hs : Funded spec.zone s) (ho : s.orders.get? j = some o) (hP : P o)
    (hstep : ∀ p p', P p → Evolves d j p p' → P p') : ∃ o', t.orders.get? j = some o' ∧ P o' := by
  have hinv := h.invariant (P := fun u => Funded spec.zone u ∧
    ∃ o', u.orders.get? j = some o' ∧ P o') ⟨hs, o, ho, hP⟩
    fun a b acts entries ⟨ha, p, hp, hPp⟩ hone => by
      obtain ⟨p', hp', he⟩ := hone.evolves ha.sound hp
      exact ⟨hone.funded ha, p', hp', hstep p p' hPp he⟩
  exact hinv.2

theorem LedgerRun.absent (h : LedgerRun spec d s as es t)
    (hs : Funded spec.zone s) (hj : s.orders.get? j = none) (hd : ∀ r, d.act r → j ∉ r.reserves) :
    t.orders.get? j = none :=
  (h.invariant (P := fun u => Funded spec.zone u ∧ u.orders.get? j = none)
    ⟨hs, hj⟩ fun _ _ _ _ ha hone =>
      ⟨hone.funded ha.1, hone.absent ha.1.sound ha.2 hd⟩).2

end Ahunter.Sim
