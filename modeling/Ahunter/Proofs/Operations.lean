import Ahunter.Proofs.Fifo
import Ahunter.Proofs.Sealing

/-!
# The ledger's own operations

Reservations, fills, cancellations, releases and the payment of debts: for
each an inversion lemma that says what a successful call checked and left
behind, and from it that its entries account for what it did.
-/

namespace Ahunter.Sim

open Ahunter.Lib

variable {spec : AccountSpec} {z : Zone}

/-! ## Reservations -/

variable {s s' : AccountState} {es : List Entry} {o : Outcome} {at_ : Instant}

theorem reserveOne_ok {es' : List Entry} {r : Reservation}
    (h : reserveOne spec at_ (s, es) r = .ok (s', es')) :
    ∃ fees, reservable spec at_ s r = .ok fees ∧ s.orders.get? r.orderId = none ∧
      ((r.side = .buy ∧ buyReserve fees r ≤ availableCash spec.zone s at_ ∧
          s' = s.setOrder r.orderId { storedOrder spec r at_ with
            cashReserved := buyReserve fees r } ∧
          es' = es ++ [.cashFrozen (buyReserve fees r) r.orderId]) ∨
        (r.side = .sell ∧
          (takeFifo (disposable spec.zone at_ r.security) (stockFrozen s.orders)
            r.quantity (fifoLots s.stockLots)).2 = 0 ∧
          s' = s.setOrder r.orderId { storedOrder spec r at_ with
            stockReserved :=
              (takeFifo (disposable spec.zone at_ r.security)
                (stockFrozen s.orders) r.quantity (fifoLots s.stockLots)).1 } ∧
          es' = es ++ [.sharesFrozen r.quantity r.security r.orderId])) := by
  simp only [reserveOne, bind_ok] at h
  obtain ⟨fees, hfees, h⟩ := h
  have hnew : s.orders.get? r.orderId = none := by
    have hf := hfees
    simp only [reservable, bind_ok, refuse_ok] at hf
    obtain ⟨-, -, -, hnew, -⟩ := hf
    rw [Dict.contains_iff] at hnew
    exact Option.eq_none_iff_forall_not_mem.mpr fun o ho => hnew ⟨o, ho⟩
  refine ⟨fees, hfees, hnew, ?_⟩
  split at h
  · next hside =>
      simp only [bind_ok, refuse_ok, pure_ok, Prod.mk.injEq] at h
      obtain ⟨-, hle, rfl, rfl⟩ := h
      exact Or.inl ⟨hside, not_lt.mp hle, rfl, rfl⟩
  · next hside =>
      simp only [bind_ok, refuse_ok, pure_ok, Prod.mk.injEq, not_not] at h
      obtain ⟨-, hleft, rfl, rfl⟩ := h
      exact Or.inr ⟨hside, hleft, rfl, rfl⟩

structure Reserved (spec : AccountSpec) (at_ : Instant) (a : Dict String Order)
    (rs : List Reservation) (b : Dict String Order) : Prop where
  others : ∀ id, (∀ r ∈ rs, r.orderId ≠ id) → b.get? id = a.get? id
  new : ∀ r ∈ rs, a.get? r.orderId = none
  stored : ∀ r ∈ rs, ∃ cash stock, b.get? r.orderId
    = some { storedOrder spec r at_ with
        cashReserved := cash
        stockReserved := stock }

theorem reserveOne_reserved {es' : List Entry} {r : Reservation}
    (h : reserveOne spec at_ (s, es) r = .ok (s', es')) :
    s.orders.get? r.orderId = none ∧ ∃ cash stock,
      s' = s.setOrder r.orderId { storedOrder spec r at_ with
        cashReserved := cash
        stockReserved := stock } := by
  obtain ⟨fees, -, hnew, ⟨-, -, hs, -⟩ | ⟨-, -, hs, -⟩⟩ := reserveOne_ok h
  · exact ⟨hnew, _, _, hs⟩
  · exact ⟨hnew, _, _, hs⟩

theorem reserveWalk_reserved {rs : List Reservation} {acc acc' : AccountState × List Entry}
    (h : walk (reserveOne spec at_) acc rs = .ok acc') :
    Reserved spec at_ acc.1.orders rs acc'.1.orders ∧
      acc'.1 = { acc.1 with orders := acc'.1.orders } := by
  induction rs generalizing acc with
  | nil =>
      cases h
      exact ⟨⟨fun _ _ => rfl, by simp, by simp⟩, rfl⟩
  | cons r rs ih =>
      obtain ⟨mid, hone, hrest⟩ := walk_cons_ok.mp h
      obtain ⟨hnew, cash, stock, hmid⟩ := reserveOne_reserved hone
      obtain ⟨hres, hsame⟩ := ih hrest
      rw [hmid, AccountState.setOrder_orders] at hres
      -- The rest of the batch is new to a state that has this order.
      have hne : ∀ q ∈ rs, q.orderId ≠ r.orderId := fun q hq heq => by
        have := hres.new q hq
        rw [heq, Dict.get?_set_self] at this
        cases this
      refine ⟨⟨fun id hid => ?_, fun q hq => ?_, fun q hq => ?_⟩, ?_⟩
      · rw [hres.others id fun q hq => hid q (List.mem_cons_of_mem _ hq)]
        exact Dict.get?_set_of_ne (hid r List.mem_cons_self).symm
      · rcases List.mem_cons.mp hq with rfl | hq
        · exact hnew
        · have := hres.new q hq
          rwa [Dict.get?_set_of_ne (hne q hq)] at this
      · rcases List.mem_cons.mp hq with rfl | hq
        · exact ⟨cash, stock, by rw [hres.others _ hne, Dict.get?_set_self]⟩
        · exact hres.stored q hq
      · rw [hsame, hmid]
        rfl

theorem reserveBatch_ok {orders : List Reservation} (h : reserveBatch spec orders at_ s = .ok o) :
    Reserved spec at_ s.orders orders o.state.orders ∧
      o.state = { s with orders := o.state.orders } ∧ o.at_ = at_ ∧
      o.visibleAt = at_ := by
  simp only [reserveBatch, bind_ok] at h
  obtain ⟨acc, hwalk, h⟩ := h
  cases pure_ok.mp h
  obtain ⟨hres, hsame⟩ := reserveWalk_reserved hwalk
  exact ⟨hres, hsame, rfl, rfl⟩

theorem reserveBatch_writes {orders : List Reservation}
    (h : reserveBatch spec orders at_ s = .ok o) : Writes s [] o.entries o.state := by
  simp only [reserveBatch, bind_ok] at h
  obtain ⟨⟨s', es⟩, hwalk, h⟩ := h
  cases pure_ok.mp h
  refine walk_induction (P := fun acc : AccountState × List Entry =>
    Writes s [] acc.2 acc.1) hwalk (Writes.refl s) fun acc r acc' _ hw hone => ?_
  obtain ⟨fees, -, hnew, ⟨-, -, hs, hes⟩ | ⟨-, -, hs, hes⟩⟩ := reserveOne_ok hone
  all_goals
    rw [hs, hes]
    refine Writes.trans hw (Writes.quiet (OrdersKept.set_new hnew)
      (ActionsSame.refl _) rfl rfl rfl rfl rfl ?_)
    simp [Entry.silent]

/-! ## Fills -/

variable {id : String} {t : FillTerms} {aid : String} {quantity : ℤ}

theorem fillTerms_ok {price : ℚ} (h : fillTerms spec aid id quantity price at_ s = .ok t) :
    s.orders.get? id = some t.order ∧ t.order.status.executable = true ∧
      spec.zone.date at_ = t.order.tradeDate ∧ quantity ≤ t.order.remaining ∧
      (t.order.side = .buy → price ≤ t.order.limitPrice) ∧
      t.actionId = aid ∧ t.orderId = id ∧ t.quantity = quantity ∧ t.at_ = at_ ∧
      t.gross = rounded (price * quantity) ∧
      t.charges = t.fees.incremental t.order.side t.order.turnover (t.order.turnover + t.gross) ∧
      t.receipt = plusMillis at_ spec.execution.receiptLatencyMs := by
  simp only [fillTerms, bind_ok, need_ok, refuse_ok, pure_ok, not_or,
    Bool.not_eq_false, not_and, not_lt, ne_eq, not_not] at h
  obtain ⟨order, horder, -, hexec, -, ⟨hdate, hqty⟩, -, ⟨hlimit, -⟩, fees, -,
    rfl⟩ := h
  exact ⟨horder, hexec, hdate, hqty, hlimit, rfl, rfl, rfl, rfl, rfl, rfl, rfl⟩

theorem fillBuy_writes (horder : s.orders.get? t.orderId = some t.order)
    (h : fillBuy spec t s = .ok (s', es)) : Writes s [t.actionId] es s' := by
  simp only [fillBuy, bind_ok, refuse_ok, pure_ok, Prod.mk.injEq] at h
  obtain ⟨-, -, lots, hspend, sellable, -, rfl, rfl⟩ := h
  have htotal := spendCash_total hspend
  have hcash : Writes s [] [.cash (-t.gross - t.charge) none]
      { s with cashLots := lots } :=
    Writes.money (OrdersKept.refl _) (ActionsSame.refl _) rfl rfl rfl
      (by simp [cashTotal, htotal, Entry.toCash]; ring)
      (by simp [Entry.toPayables]) (by simp [Entry.toReserve, Entry.toShares])
  refine (hcash.trans (Writes.stock_new _ t.actionId {
    security := t.order.security
    quantity := t.quantity
    acquiredOn := spec.zone.date t.at_
    sellableOn := sellable
    availableAt := t.receipt
    costBasis := (t.gross + t.charge) / t.quantity
    acquiredSequence := s.nextLotSequence } none)).trans
    (show Writes _ [] [] _ from Writes.quiet (OrdersKept.set horder rfl)
      (ActionsSame.refl _) rfl rfl rfl rfl rfl (by simp))

variable {claims : List (String × ℤ)}

theorem disposeLots_orders {pending : ℤ}
    {d : Disposal} (h : disposeLots z at_ pending claims s = .ok d) :
    d.state.orders = s.orders := by
  induction claims generalizing pending s d with
  | nil =>
      cases pure_ok.mp h
      rfl
  | cons x rest ih =>
      obtain ⟨k, reserved⟩ := x
      simp only [disposeLots, bind_ok, need_ok] at h
      obtain ⟨⟨s1, tax, es⟩, hassess, lot, hlot, h⟩ := h
      obtain ⟨-, horders, -⟩ := assessDisposal_writes hassess
      split at h
      · cases pure_ok.mp h
        exact horders
      · simp only [bind_ok, pure_ok] at h
        obtain ⟨d', hrest, rfl⟩ := h
        exact (ih hrest).trans horders

theorem disposeLots_writes {sec : String} {pending : ℤ} {d : Disposal}
    (hclaims : ∀ e ∈ claims, ∃ lot, s.stockLots.get? e.1 = some lot ∧ lot.security = sec)
    (h : disposeLots z at_ pending claims s = .ok d) :
    Writes s [] (d.entries ++ [.shares sec (-(pending - d.pending)) none])
      d.state := by
  induction claims generalizing pending s d with
  | nil =>
      cases pure_ok.mp h
      refine (Writes.refl s).regroup ?_
      constructor <;> simp [Entry.toCash, Entry.toPayables, Entry.toReserve,
        Entry.toShares]
  | cons x rest ih =>
      obtain ⟨k, reserved⟩ := x
      simp only [disposeLots, bind_ok, need_ok] at h
      obtain ⟨⟨s1, tax, es⟩, hassess, lot, hlot, h⟩ := h
      obtain ⟨hw, -, hlots⟩ := assessDisposal_writes hassess
      obtain ⟨lot', hlot', hsec⟩ := hclaims (k, reserved) List.mem_cons_self
      have hsame : lot' = lot := by
        simp only [hlots] at hlot
        exact Option.some.inj (hlot'.symm.trans hlot)
      subst hsame
      set used := min pending reserved with hused
      have hcut := Writes.stock hlot hsec
        { lot' with quantity := lot'.quantity - used } hsec none
      have hw1 := hw.trans hcut
      split at h
      · next hdone =>
          cases pure_ok.mp h
          refine hw1.regroup ?_
          constructor <;> simp [Entry.toCash, Entry.toPayables, Entry.toReserve,
            Entry.toShares]
          intro sec'
          split <;> omega
      · simp only [bind_ok, pure_ok] at h
        obtain ⟨d', hrest, rfl⟩ := h
        have hclaims' : ∀ e ∈ rest, ∃ lot,
            (s1.stockLots.set k { lot' with quantity := lot'.quantity - used
              }).get? e.1 = some lot ∧ lot.security = sec := by
          intro e he
          obtain ⟨l, hl, hls⟩ := hclaims e (List.mem_cons_of_mem _ he)
          rw [Dict.get?_set]
          split
          · exact ⟨_, rfl, hsec⟩
          · exact ⟨l, by simpa only [hlots] using hl, hls⟩
        have hw' := ih hclaims' hrest
        refine (hw1.trans hw').regroup ?_
        constructor <;> simp [Entry.toCash, Entry.toPayables, Entry.toReserve,
          Entry.toShares]
        intro sec'
        split <;> omega

theorem settleProceeds_ok {net : ℚ} (h : settleProceeds spec t net s = .ok (s', es)) :
    (net < 0 ∧ ∃ paid lots, paid = min (-net) (availableCash spec.zone s t.at_) ∧
        spendCash spec.zone s.cashLots paid t.at_ = .ok lots ∧
        s' = { s with
          cashLots := lots
          payables := s.payables + -net - paid } ∧
        es = [.payables (-net - paid) none, .cash (-paid) none]) ∨
      (net = 0 ∧ s' = s ∧ es = [.cash net none]) ∨
      (0 < net ∧ ∃ lot : CashLot, lot.amount = net ∧
        s' = { s with cashLots := s.cashLots ++ [lot] } ∧
        es = [.cash net none]) := by
  simp only [settleProceeds] at h
  split at h
  · next hneg =>
      simp only [bind_ok, pure_ok, Prod.mk.injEq] at h
      obtain ⟨lots, hspend, rfl, rfl⟩ := h
      exact Or.inl ⟨hneg, _, lots, rfl, hspend, rfl, rfl⟩
  · next hnonneg =>
      split at h
      · next h0 =>
          cases pure_ok.mp h
          exact Or.inr (Or.inl ⟨h0, rfl, rfl⟩)
      · next h0 =>
          simp only [bind_ok, pure_ok, Prod.mk.injEq] at h
          obtain ⟨reusable, -, withdrawable, -, rfl, rfl⟩ := h
          exact Or.inr (Or.inr ⟨lt_of_le_of_ne (not_lt.mp hnonneg) (Ne.symm h0),
            _, rfl, rfl, rfl⟩)

theorem settleProceeds_writes {net : ℚ} (h : settleProceeds spec t net s = .ok (s', es)) :
    Writes s [] es s' := by
  rcases settleProceeds_ok h with ⟨-, paid, lots, -, hspend, rfl, rfl⟩ |
    ⟨h0, rfl, rfl⟩ | ⟨-, lot, hlot, rfl, rfl⟩
  · have htotal := spendCash_total hspend
    refine Writes.money (OrdersKept.refl _) (ActionsSame.refl _) rfl rfl rfl ?_ ?_
      (by simp [Entry.toReserve, Entry.toShares])
    · simp [cashTotal, htotal, Entry.toCash]
      ring
    · simp [Entry.toPayables]
      ring
  · refine (Writes.refl s').regroup ?_
    constructor <;> simp [Entry.toCash, Entry.toPayables, Entry.toReserve,
      Entry.toShares, h0]
  · exact Writes.money (OrdersKept.refl _) (ActionsSame.refl _) rfl rfl rfl
      (by simp [cashTotal, Entry.toCash, hlot]) (by simp [Entry.toPayables])
      (by simp [Entry.toReserve, Entry.toShares])

theorem SameCore.kept {a b : Dict String Order} (h : SameCore a b) :
    OrdersKept a b := fun id o ho => by
  obtain ⟨o', ho', hc⟩ := h.get ho
  exact ⟨o', ho', (Order.core_eq hc).1⟩

theorem reallocateSellFifo_writes (h : reallocateSellFifo z s id at_ = .ok s') :
    Writes s [] [] s' := by
  obtain ⟨hcore, heq⟩ := reallocateSellFifo_core h
  rw [heq]
  exact Writes.quiet hcore.kept (ActionsSame.refl _) rfl rfl rfl rfl rfl (by simp)

theorem fillSell_ok (h : fillSell spec t s = .ok (s', es)) :
    ∃ s1 order d es2, reallocateSellFifo spec.zone s t.orderId t.at_ = .ok s1 ∧
      s1.orders.get? t.orderId = some order ∧
      disposeLots spec.zone t.at_ t.quantity order.stockReserved s1 = .ok d ∧ d.pending = 0 ∧
      settleProceeds spec t (t.gross - t.charge - d.tax) (d.state.setOrder t.orderId
          { order with stockReserved := d.stockReserved }) = .ok (s', es2) ∧
      es = d.entries ++ es2 ++ [.shares t.order.security (-t.quantity) none] := by
  simp only [fillSell, bind_ok, need_ok, refuse_ok, pure_ok, not_not,
    Prod.mk.injEq] at h
  obtain ⟨s1, hrealloc, order, hget, d, hdispose, -, hpending, ⟨s2, es2⟩,
    hsettle, rfl, rfl⟩ := h
  exact ⟨s1, order, d, es2, hrealloc, hget, hdispose, hpending, hsettle, rfl⟩

theorem fillSell_writes (horder : s.orders.get? t.orderId = some t.order)
    (h : fillSell spec t s = .ok (s', es)) : Writes s [] es s' := by
  obtain ⟨s1, order, d, es2, hrealloc, hget, hdispose, hpending, hsettle, rfl⟩ :=
    fillSell_ok h
  obtain ⟨hcore, heq⟩ := reallocateSellFifo_core hrealloc
  obtain ⟨order', hget', hoc⟩ := hcore.get horder
  cases hget.symm.trans hget'
  have hsec : order.security = t.order.security :=
    congrArg Reservation.security (Order.core_eq hoc).1
  have hclaims : ∀ e ∈ order.stockReserved, ∃ lot,
      s1.stockLots.get? e.1 = some lot ∧ lot.security = t.order.security := by
    intro e he
    obtain ⟨lot, hlot, hd⟩ := reallocateSellFifo_claims hrealloc hget e he
    simp only [disposable, Bool.and_eq_true, decide_eq_true_eq] at hd
    rw [heq]
    exact ⟨lot, hlot, hd.1.trans hsec⟩
  have hw := disposeLots_writes hclaims hdispose
  have horders := disposeLots_orders hdispose
  have hbook : Writes d.state [] [] (d.state.setOrder t.orderId
      { order with stockReserved := d.stockReserved }) :=
    Writes.order (o := order) (by rw [horders, hget]) rfl (by simp)
  have hall := ((((reallocateSellFifo_writes hrealloc).trans hw).trans hbook).trans
    (settleProceeds_writes hsettle))
  refine hall.regroup ?_
  rw [hpending]
  constructor <;> simp [Entry.toCash, Entry.toPayables, Entry.toReserve,
    Entry.toShares, add_comm]

theorem bookFill_writes {order : Order} (h : s.orders.get? t.orderId = some order) :
    Writes s [] [] (bookFill t s order) :=
  Writes.quiet (OrdersKept.set h rfl) (ActionsSame.refl _) rfl rfl rfl rfl rfl
    (by simp)

theorem fill_ok {price : ℚ} (h : fill spec aid id quantity price at_ s = .ok o) :
    ∃ t s1 es order, fillTerms spec aid id quantity price at_ s = .ok t ∧
      fillSide spec t s = .ok (s1, es) ∧ s1.orders.get? id = some order ∧
      o = ⟨bookFill t s1 order, at_, t.receipt,
        es ++ t.charges.entries.map fun e => .feeExpense e.1 e.2 id⟩ := by
  simp only [fill, bind_ok] at h
  obtain ⟨t, hterms, ⟨s1, es⟩, hbranch, h⟩ := h
  simp only [need_ok, pure_ok] at h
  obtain ⟨order, horder, rfl⟩ := h
  exact ⟨t, s1, es, order, hterms, hbranch, horder, rfl⟩

theorem fill_writes {price : ℚ} (h : fill spec aid id quantity price at_ s = .ok o) :
    ∃ order, s.orders.get? id = some order ∧
      Writes s (if order.side = .buy then [aid] else []) o.entries o.state := by
  obtain ⟨t, s1, es, order, hterms, hbranch, horder, rfl⟩ := fill_ok h
  obtain ⟨hget, -, -, -, -, haid, hid, -⟩ := fillTerms_ok hterms
  refine ⟨t.order, hget, ?_⟩
  rw [← hid] at hget horder
  have hw : Writes s (if t.order.side = .buy then [aid] else []) es s1 := by
    simp only [fillSide] at hbranch
    split at hbranch
    · next hside =>
        rw [if_pos hside, ← haid]
        exact fillBuy_writes hget hbranch
    · next hside =>
        rw [if_neg (by rw [hside]; decide)]
        exact fillSell_writes hget hbranch
  have hbooked := hw.trans (bookFill_writes horder)
  simp only [List.append_nil] at hbooked
  refine Writes.append hbooked fun e he => ?_
  obtain ⟨charge, -, rfl⟩ := List.mem_map.mp he
  rfl

/-! ## Orders and housekeeping -/

theorem cancelRequest_ok (h : cancelRequest id at_ s = .ok o) :
    ∃ order, s.orders.get? id = some order ∧
      (order.status = .reserved ∨ order.status = .partFilled) ∧
      o = ⟨s.setOrder id { order with status := .cancelPending }, at_, at_, []⟩ := by
  simp only [cancelRequest, bind_ok, need_ok, refuse_ok, pure_ok] at h
  obtain ⟨order, horder, -, hstatus, rfl⟩ := h
  exact ⟨order, horder, by tauto, rfl⟩

theorem release_ok {reason : OrderStatus} (h : release id at_ reason s = .ok o) :
    ∃ order, s.orders.get? id = some order ∧ order.status.held = true ∧
      (reason = .cancelConfirmed → order.status = .cancelPending ∨
        order.status = .cancelEffective) ∧
      o = ⟨s.setOrder id { order with
          cashReserved := 0
          stockReserved := []
          status := reason }, at_, at_, [.resourcesReleased id reason]⟩ := by
  simp only [release, bind_ok, need_ok, refuse_ok, pure_ok,
    Bool.not_eq_false] at h
  obtain ⟨order, horder, -, hheld, -, hreason, rfl⟩ := h
  exact ⟨order, horder, hheld, by tauto, rfl⟩

theorem orderMarketState_ok {status : OrderStatus} {at_ vis : Instant}
    (h : orderMarketState id status at_ vis s = .ok o) :
    ∃ order, s.orders.get? id = some order ∧
      o = ⟨s.setOrder id { order with status := status }, at_, vis, []⟩ := by
  simp only [orderMarketState, bind_ok, need_ok, pure_ok] at h
  obtain ⟨order, horder, rfl⟩ := h
  exact ⟨order, horder, rfl⟩

theorem settlePayables_ok (h : settlePayables spec at_ s = .ok o) :
    ∃ lots, spendCash spec.zone s.cashLots (settleable spec.zone s at_) at_ = .ok lots ∧
      o = ⟨{ s with
          cashLots := lots
          payables := s.payables - settleable spec.zone s at_ }, at_, at_,
        [.cash (-settleable spec.zone s at_) none,
          .payables (-settleable spec.zone s at_) none]⟩ := by
  simp only [settlePayables, bind_ok, pure_ok] at h
  obtain ⟨lots, hspend, rfl⟩ := h
  exact ⟨lots, hspend, rfl⟩

theorem settlePayables_writes (h : settlePayables spec at_ s = .ok o) :
    Writes s [] o.entries o.state := by
  obtain ⟨lots, hspend, rfl⟩ := settlePayables_ok h
  have htotal := spendCash_total hspend
  refine Writes.money (OrdersKept.refl _) (ActionsSame.refl _) rfl rfl rfl ?_ ?_
    (by simp [Entry.toReserve, Entry.toShares])
  · simp [cashTotal, htotal, Entry.toCash]
    ring
  · simp [Entry.toPayables]
    ring

end Ahunter.Sim
