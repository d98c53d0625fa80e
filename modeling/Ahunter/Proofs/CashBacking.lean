import Ahunter.Proofs.Journal
import Ahunter.Proofs.Soundness

/-!
# Frozen cash is backed

From the account's last event on, the cash in spendable lots covers the
reserves of all orders and the holds that have not run out. Time only helps:
lots become spendable and holds run out, never the other way round. So it is
enough that no operation takes more out of the spendable lots than it frees or
than was available, and then a purchase, a payment of debts or the shortfall of
a sale always finds its cash.
-/

namespace Ahunter.Sim

open Ahunter.Lib

variable {spec : AccountSpec} {z : Zone} {at_ : Instant}

/-! ## Time -/

variable {t : Instant} {s s' : AccountState}

def reservedCash (orders : Dict String Order) : ℚ :=
  orders.sum fun _ o => o.cashReserved

theorem frozenCash_eq (s : AccountState) (t : Instant) :
    frozenCash s t = reservedCash s.orders + heldCash s.cashHolds t := rfl

def Backed (z : Zone) (s : AccountState) (at_ : Instant) : Prop :=
  ∀ t, at_ ≤ t → frozenCash s t ≤ liquidCash z s t

theorem heldCash_nonneg {holds : List CashHold} (h : ∀ x ∈ holds, 0 ≤ x.amount)
    (t : Instant) : 0 ≤ heldCash holds t := by
  refine List.sum_nonneg fun a ha => ?_
  obtain ⟨x, hx, rfl⟩ := List.mem_map.mp ha
  exact h x (List.mem_filter.mp hx).1

theorem heldCash_antitone {holds : List CashHold} (h : ∀ x ∈ holds, 0 ≤ x.amount) {u : Instant}
    (htu : t ≤ u) : heldCash holds u ≤ heldCash holds t := by
  have hsub : (holds.filter fun x => x.heldUntil > u).Sublist
      (holds.filter fun x => x.heldUntil > t) := by
    refine List.monotone_filter_right holds fun x hx => ?_
    have hlate : u < x.heldUntil := of_decide_eq_true hx
    exact decide_eq_true (lt_of_le_of_lt htu hlate)
  refine (hsub.map _).sum_le_sum fun a ha => ?_
  obtain ⟨x, hx, rfl⟩ := List.mem_map.mp ha
  exact h x (List.mem_filter.mp hx).1

theorem eligibleCash_later {u : Instant} (htu : t ≤ u) {l : CashLot}
    (h : eligibleCash z t l = true) : eligibleCash z u l = true := by
  simp only [eligibleCash, Bool.and_eq_true, decide_eq_true_eq] at h ⊢
  exact ⟨h.1.trans htu, h.2.trans (z.date_mono htu)⟩

theorem liquidCash_mono (h : ∀ l ∈ s.cashLots, 0 ≤ l.amount) {u : Instant} (htu : t ≤ u) :
    liquidCash z s t ≤ liquidCash z s u :=
  cashIn_mono h fun _ _ => eligibleCash_later htu

theorem Backed.later {u : Instant} (h : Backed z s t) (htu : t ≤ u) :
    Backed z s u := fun v hv => h v (htu.trans hv)

theorem Backed.of_free (h : Backed z s at_)
    (hle : ∀ t, at_ ≤ t → liquidCash z s t - frozenCash s t ≤ liquidCash z s' t - frozenCash s' t) :
    Backed z s' at_ := by
  intro t ht
  have hold := h t ht
  have hfree := hle t ht
  linarith

theorem Backed.of_same (h : Backed z s at_) (hlots : s'.cashLots = s.cashLots)
    (hholds : s'.cashHolds = s.cashHolds)
    (horders : reservedCash s'.orders = reservedCash s.orders) : Backed z s' at_ := by
  refine h.of_free fun t _ => ?_
  rw [frozenCash_eq, frozenCash_eq, hholds, horders, liquidCash, liquidCash, hlots]

theorem Backed.free (h : Backed z s at_) (hlots : ∀ l ∈ s.cashLots, 0 ≤ l.amount)
    (hholds : ∀ x ∈ s.cashHolds, 0 ≤ x.amount) {x debts : ℚ} (hd : 0 ≤ debts)
    (hx : x ≤ max 0 (liquidCash z s at_ - frozenCash s at_ - debts)) (ht : at_ ≤ t) :
    x ≤ liquidCash z s t - frozenCash s t := by
  have hback := h t ht
  have hliquid : liquidCash z s at_ ≤ liquidCash z s t := liquidCash_mono hlots ht
  have hheld := heldCash_antitone hholds ht
  rcases le_max_iff.mp hx with hzero | hfree
  · linarith
  · simp only [frozenCash_eq] at hfree hback ⊢
    linarith

theorem Backed.available (h : Backed z s at_) (hlots : ∀ l ∈ s.cashLots, 0 ≤ l.amount)
    (hholds : ∀ x ∈ s.cashHolds, 0 ≤ x.amount) (hdebts : 0 ≤ s.payables + s.liabilities) {x : ℚ}
    (hx : x ≤ availableCash z s at_) (ht : at_ ≤ t) : x ≤ liquidCash z s t - frozenCash s t := by
  refine h.free hlots hholds hdebts ?_ ht
  rwa [← sub_sub]

/-! ## Spending and receiving -/

variable {id : String} {lots : List CashLot} {amount : ℚ}

theorem spendCash_liquid (h : spendCash z s.cashLots amount at_ = .ok lots) (ht : at_ ≤ t) :
    cashIn (eligibleCash z t) lots = liquidCash z s t - amount :=
  spendCash_cashIn h (eligibleCash_blind z t) fun _ => eligibleCash_later ht

theorem Backed.of_spend (hspend : spendCash z s.cashLots amount at_ = .ok lots)
    (hfree : ∀ t, at_ ≤ t → amount ≤ liquidCash z s t - frozenCash s t)
    (hlots : s'.cashLots = lots) (hholds : s'.cashHolds = s.cashHolds)
    (horders : reservedCash s'.orders = reservedCash s.orders) : Backed z s' at_ := by
  intro t ht
  have hleft := spendCash_liquid hspend ht
  have hamount := hfree t ht
  rw [frozenCash_eq] at hamount
  rw [frozenCash_eq, hholds, horders, liquidCash, hlots, hleft]
  linarith

theorem Backed.receive {lot : CashLot} (h : Backed z s at_) (hlot : 0 ≤ lot.amount)
    (hlots : s'.cashLots = s.cashLots ++ [lot]) (hholds : s'.cashHolds = s.cashHolds)
    (horders : reservedCash s'.orders = reservedCash s.orders) : Backed z s' at_ := by
  refine h.of_free fun t _ => ?_
  have hnew : 0 ≤ cashIn (eligibleCash z t) [lot] :=
    cashIn_nonneg fun l hl => by
      rw [List.mem_singleton.mp hl]
      exact hlot
  rw [frozenCash_eq, frozenCash_eq, hholds, horders, liquidCash, liquidCash,
    hlots, cashIn_append]
  linarith

variable {orders : Dict String Order}

theorem reservedCash_set {o o' : Order} (h : orders.get? id = some o) :
    reservedCash (orders.set id o') = reservedCash orders + (o'.cashReserved - o.cashReserved) :=
  Dict.sum_set_old h

theorem reservedCash_set_new {o : Order} (h : orders.get? id = none) :
    reservedCash (orders.set id o) = reservedCash orders + o.cashReserved :=
  Dict.sum_set_new h

theorem reservedCash_set_same {o o' : Order}
    (h : orders.get? id = some o) (hsame : o'.cashReserved = o.cashReserved) :
    reservedCash (orders.set id o') = reservedCash orders := by
  rw [reservedCash_set h, hsame, sub_self, add_zero]

theorem SameCore.reservedCash {a b : Dict String Order} (h : SameCore a b) :
    Sim.reservedCash b = Sim.reservedCash a := by
  have hcore : b.map (fun _ => Order.core) = a.map (fun _ => Order.core) :=
    Dict.ext_get? fun k => by
      rw [Dict.get?_map, Dict.get?_map]
      exact h k
  have hsum := congrArg (fun d => d.sum fun _ (o : Order) => o.cashReserved) hcore
  simp only [Dict.sum_map] at hsum
  exact hsum

/-! ## Operations -/

variable {o : Outcome}

theorem reserveOne_backed {acc acc' : AccountState × List Entry}
    {r : Reservation} (h : reserveOne spec at_ acc r = .ok acc')
    (hb : Backed spec.zone acc.1 at_) (hlots : ∀ l ∈ acc.1.cashLots, 0 ≤ l.amount)
    (hholds : ∀ x ∈ acc.1.cashHolds, 0 ≤ x.amount)
    (hdebts : 0 ≤ acc.1.payables + acc.1.liabilities) : Backed spec.zone acc'.1 at_ := by
  obtain ⟨s, es⟩ := acc
  obtain ⟨s', es'⟩ := acc'
  obtain ⟨fees, -, hnew, ⟨-, hle, rfl, -⟩ | ⟨-, -, rfl, -⟩⟩ := reserveOne_ok h
  · intro t ht
    have hfree := hb.available hlots hholds hdebts hle ht
    rw [frozenCash_eq, AccountState.setOrder_orders, reservedCash_set_new hnew]
    rw [frozenCash_eq] at hfree
    show reservedCash s.orders + buyReserve fees r + heldCash s.cashHolds t
      ≤ liquidCash spec.zone s t
    linarith
  · refine hb.of_same rfl rfl ?_
    rw [AccountState.setOrder_orders, reservedCash_set_new hnew]
    exact add_zero _

theorem reserveBatch_backed {orders : List Reservation}
    (h : reserveBatch spec orders at_ s = .ok o) (hs : Sound s) (hv : Valid s)
    (hb : Backed spec.zone s at_) : Backed spec.zone o.state at_ := by
  simp only [reserveBatch, bind_ok] at h
  obtain ⟨acc, hwalk, h⟩ := h
  cases pure_ok.mp h
  refine (walk_induction (P := fun acc : AccountState × List Entry =>
    Backed spec.zone acc.1 at_ ∧ acc.1 = { s with orders := acc.1.orders }) hwalk
    ⟨hb, rfl⟩ fun a r b _ ha hone => ?_).1
  obtain ⟨hback, hsame⟩ := ha
  have hlots : a.1.cashLots = s.cashLots := by rw [hsame]
  have hholds : a.1.cashHolds = s.cashHolds := by rw [hsame]
  have hpay : a.1.payables = s.payables := by rw [hsame]
  have hliab : a.1.liabilities = s.liabilities := by rw [hsame]
  refine ⟨reserveOne_backed hone hback (hlots ▸ hv.lots) (hholds ▸ hs.holds) ?_, ?_⟩
  · rw [hpay, hliab]
    exact add_nonneg hv.payables hv.liabilities
  · obtain ⟨-, cash, stock, hset⟩ := reserveOne_reserved hone
    rw [hset, hsame]
    rfl

variable {es : List Entry}

theorem fillBuy_backed {t : FillTerms}
    (horder : s.orders.get? t.orderId = some t.order) (h : fillBuy spec t s = .ok (s', es))
    (hb : Backed spec.zone s t.at_) :
    Backed spec.zone s' t.at_ ∧ ∃ order, s'.orders.get? t.orderId = some order := by
  simp only [fillBuy, bind_ok, refuse_ok, pure_ok, Prod.mk.injEq, not_lt] at h
  obtain ⟨-, hreleased, lots, hspend, sellable, -, rfl, -⟩ := h
  refine ⟨fun u hu => ?_, _, Dict.get?_set_self _ _ _⟩
  have hback := hb u hu
  have hliquid := spendCash_liquid hspend hu
  have hheld : heldCash (s.cashHolds ++
      [⟨t.order.cashReserved - t.newReserve - t.gross - t.charge, t.receipt,
        "unconfirmed_price_improvement"⟩]) u
      ≤ heldCash s.cashHolds u
        + (t.order.cashReserved - t.newReserve - t.gross - t.charge) := by
    simp only [heldCash, List.filter_append, List.map_append, List.sum_append]
    refine add_le_add_right ?_ _
    by_cases hlate : t.receipt > u
    · simp [hlate]
    · simpa [hlate] using hreleased
  rw [frozenCash_eq] at hback
  rw [frozenCash_eq, reservedCash_set horder]
  show _ ≤ cashIn (eligibleCash spec.zone u) lots
  rw [hliquid]
  simp only
  linarith

theorem settleProceeds_backed {t : FillTerms} {net : ℚ}
    (h : settleProceeds spec t net s = .ok (s', es)) (hs : Sound s)
    (hlots : ∀ l ∈ s.cashLots, 0 ≤ l.amount) (hdebts : 0 ≤ s.payables + s.liabilities)
    (hb : Backed spec.zone s t.at_) : Backed spec.zone s' t.at_ := by
  rcases settleProceeds_ok h with ⟨-, paid, lots, hpaid, hspend, rfl, -⟩ |
    ⟨-, rfl, -⟩ | ⟨hnet, lot, hlot, rfl, -⟩
  · have hle : paid ≤ availableCash spec.zone s t.at_ := hpaid ▸ min_le_right _ _
    exact Backed.of_spend hspend (fun u hu => hb.available hlots hs.holds hdebts hle hu)
      rfl rfl rfl
  · exact hb
  · exact hb.receive (hlot ▸ hnet.le) rfl rfl rfl

structure BeforeProceeds (spec : AccountSpec) (t : FillTerms) (s s1 : AccountState) :
    Prop where
  sound : Sound s1
  backed : Backed spec.zone s t.at_ → Backed spec.zone s1 t.at_
  cashLots : s1.cashLots = s.cashLots
  lastEventAt : s1.lastEventAt = s.lastEventAt
  liabilities : s1.liabilities = s.liabilities
  payables : s.payables ≤ s1.payables
  reserves : reservedCash s1.orders = reservedCash s.orders
  order : ∃ order, s1.orders.get? t.orderId = some order

theorem beforeProceeds {t : FillTerms} {s1 : AccountState} {order : Order} {d : Disposal}
    (hrealloc : reallocateSellFifo spec.zone s t.orderId t.at_ = .ok s1)
    (hget : s1.orders.get? t.orderId = some order)
    (hdispose : disposeLots spec.zone t.at_ t.quantity order.stockReserved s1 = .ok d)
    (ht : FillSound t) (hs : Sound s) (hv : Valid s) :
    BeforeProceeds spec t s (d.state.setOrder t.orderId
      { order with stockReserved := d.stockReserved }) := by
  obtain ⟨hcore, heq⟩ := reallocateSellFifo_core hrealloc
  have hwithin := reallocateSellFifo_within hrealloc ⟨hs.orders, hv.within⟩
  have hs1 : Sound s1 := by
    rw [heq]
    exact hs.of_same hwithin.sound rfl rfl rfl rfl hs.deferred_le
  have hsound := hwithin.sound _ _ hget
  obtain ⟨hsd, hassd, hclaims⟩ :=
    disposeLots_sound hdispose ht.quantity.le hsound.claims hs1
  have hgetd : d.state.orders.get? t.orderId = some order := by
    rw [hassd.orders]
    exact hget
  have hlots : s1.cashLots = s.cashLots := by rw [heq]
  have hholds : s1.cashHolds = s.cashHolds := by rw [heq]
  have hliab : s1.liabilities = s.liabilities := by rw [heq]
  have hpay : s1.payables = s.payables := by rw [heq]
  have hlast : s1.lastEventAt = s.lastEventAt := by rw [heq]
  have hset : ∀ o : Order, o.cashReserved = order.cashReserved →
      reservedCash (d.state.setOrder t.orderId o).orders = reservedCash s.orders := by
    intro o ho
    rw [AccountState.setOrder_orders, reservedCash_set_same hgetd ho, hassd.orders]
    exact hcore.reservedCash
  exact {
    sound := hsd.setOrder
      ⟨hsound.turnover, hsound.filled, hsound.within, hclaims⟩
    backed := fun hb => hb.of_same (hassd.cashLots.trans hlots)
      (hassd.cashHolds.trans hholds) (hset _ rfl)
    cashLots := hassd.cashLots.trans hlots
    lastEventAt := hassd.lastEventAt.trans hlast
    liabilities := hassd.liabilities.trans hliab
    payables := hpay ▸ hassd.payables
    reserves := hset _ rfl
    order := ⟨_, Dict.get?_set_self _ _ _⟩ }

theorem BeforeProceeds.debts {t : FillTerms} {s1 : AccountState} (h : BeforeProceeds spec t s s1)
    (hv : Valid s) : 0 ≤ s1.payables + s1.liabilities := by
  rw [h.liabilities]
  exact add_nonneg (hv.payables.trans h.payables) hv.liabilities

theorem fillSell_backed {t : FillTerms} (h : fillSell spec t s = .ok (s', es))
    (ht : FillSound t) (hs : Sound s) (hv : Valid s) (hb : Backed spec.zone s t.at_) :
    Backed spec.zone s' t.at_ ∧ ∃ order, s'.orders.get? t.orderId = some order := by
  obtain ⟨s1, order, d, es2, hrealloc, hget, hdispose, -, hsettle, -⟩ :=
    fillSell_ok h
  have hbefore := beforeProceeds hrealloc hget hdispose ht hs hv
  refine ⟨settleProceeds_backed hsettle hbefore.sound
    (hbefore.cashLots ▸ hv.lots) (hbefore.debts hv) (hbefore.backed hb), ?_⟩
  rw [(settleProceeds_sound hsettle hbefore.sound).2]
  exact hbefore.order

variable {aid : String}

theorem fill_backed {quantity : ℤ} {price : ℚ}
    (h : fill spec aid id quantity price at_ s = .ok o) (hq : 0 < quantity) (hp : 0 < price)
    (hs : Sound s) (hv : Valid s) (hb : Backed spec.zone s at_) : Backed spec.zone o.state at_ := by
  obtain ⟨t, s1, es, order, hterms, hbranch, hget, rfl⟩ := fill_ok h
  have ht := fillTerms_sound hterms hq hp hs
  obtain ⟨horder, -, -, -, -, -, hid, -, hat, -⟩ := fillTerms_ok hterms
  rw [← hid] at horder hget
  rw [← hat] at hb ⊢
  have hbranched : Backed spec.zone s1 t.at_ := by
    simp only [fillSide] at hbranch
    split at hbranch
    · exact (fillBuy_backed horder hbranch hb).1
    · exact (fillSell_backed hbranch ht hs hv hb).1
  exact hbranched.of_same rfl rfl (reservedCash_set_same hget rfl)

/-! ## Every operation -/

theorem settleable_free (hv : Valid s) (hs : Sound s) (hb : Backed z s at_) (ht : at_ ≤ t) :
    settleable z s at_ ≤ liquidCash z s t - frozenCash s t :=
  hb.free hv.lots hs.holds hv.liabilities (min_le_right _ _) ht

theorem Assessed.backed (h : Assessed s s') (hb : Backed z s at_) : Backed z s' at_ :=
  hb.of_same h.cashLots h.cashHolds (congrArg reservedCash h.orders)

theorem perform_backed {r : AccountRequest} (hcheck : r.check = .ok ())
    (h : perform spec aid r s = .ok o) (hs : Sound s) (hv : Valid s)
    (hlots : ∀ l ∈ o.state.cashLots, 0 ≤ l.amount) (hb : Backed spec.zone s o.at_) :
    Backed spec.zone o.state o.at_ := by
  cases r with
  | reserveBatch orders at_ =>
      obtain ⟨-, -, hat, -⟩ := reserveBatch_ok h
      rw [hat] at hb ⊢
      exact reserveBatch_backed h hs hv hb
  | fill id quantity price at_ =>
      simp only [AccountRequest.check, refuse_ok, not_or, not_le] at hcheck
      obtain ⟨t, s1, es, order, -, -, -, ho⟩ := fill_ok h
      have hat : o.at_ = at_ := congrArg Outcome.at_ ho
      rw [hat] at hb ⊢
      exact fill_backed h hcheck.1 hcheck.2 hs hv hb
  | cancelRequest id at_ =>
      obtain ⟨order, horder, -, rfl⟩ := cancelRequest_ok h
      exact hb.of_same rfl rfl (reservedCash_set_same horder rfl)
  | release id reason at_ =>
      obtain ⟨order, horder, -, -, rfl⟩ := release_ok h
      refine hb.of_free fun t _ => ?_
      have hreserve := hv.reserves id order horder
      rw [frozenCash_eq, frozenCash_eq, AccountState.setOrder_orders,
        reservedCash_set horder]
      show _ ≤ liquidCash spec.zone s t - _
      simp only [AccountState.setOrder_cashHolds]
      linarith
  | checkpoint at_ =>
      cases h
      exact hb
  | settlePayables at_ =>
      obtain ⟨lots, hspend, rfl⟩ := settlePayables_ok h
      exact Backed.of_spend hspend (fun t ht => settleable_free hv hs hb ht) rfl rfl rfl
  | corporateRegister terms at_ =>
      simp only [perform, bind_ok] at h
      obtain ⟨_, hr, h⟩ := h
      obtain ⟨-, item, receivables, obligations, entries, rfl, -⟩ :=
        corporateRegister_ok h
      exact hb.of_same rfl rfl rfl
  | corporateApply id at_ => exact (corporateApply_sound h hs).2.backed hb
  | corporatePay id at_ =>
      obtain ⟨item, receivable, item', receivable', rfl, -, -, -, htax, -⟩ :=
        corporatePay_ok h
      exact hb.receive (sub_nonneg.mpr htax) rfl rfl rfl
  | specialSettlement terms at_ =>
      simp only [perform, bind_ok] at h
      obtain ⟨_, -, h⟩ := h
      exact (specialSettlement_sound h hs).2.backed hb
  | specialSettlementPay id at_ =>
      obtain ⟨item, rid, receivable, receivable', item', rfl, -⟩ :=
        specialSettlementPay_ok h
      exact hb.receive (hlots _ (List.mem_append_right _ List.mem_cons_self))
        rfl rfl rfl

theorem fill_lastEventAt {quantity : ℤ} {price : ℚ}
    (h : fill spec aid id quantity price at_ s = .ok o) (hq : 0 < quantity) (hp : 0 < price)
    (hs : Sound s) (hv : Valid s) : o.state.lastEventAt = s.lastEventAt := by
  obtain ⟨t, s1, es, order, hterms, hbranch, -, rfl⟩ := fill_ok h
  have ht := fillTerms_sound hterms hq hp hs
  show s1.lastEventAt = s.lastEventAt
  simp only [fillSide] at hbranch
  split at hbranch
  · simp only [fillBuy, bind_ok, refuse_ok, pure_ok, Prod.mk.injEq] at hbranch
    obtain ⟨-, -, lots, -, sellable, -, rfl, -⟩ := hbranch
    rfl
  · obtain ⟨s2, order, d, es2, hrealloc, hget, hdispose, -, hsettle, -⟩ :=
      fillSell_ok hbranch
    have hlast := (beforeProceeds hrealloc hget hdispose ht hs hv).lastEventAt
    rcases settleProceeds_ok hsettle with ⟨-, paid, lots, -, -, rfl, -⟩ |
      ⟨-, rfl, -⟩ | ⟨-, lot, -, rfl, -⟩
    · exact hlast
    · exact hlast
    · exact hlast

theorem perform_lastEventAt {r : AccountRequest} (hcheck : r.check = .ok ())
    (h : perform spec aid r s = .ok o) (hs : Sound s) (hv : Valid s) :
    o.state.lastEventAt = s.lastEventAt := by
  cases r with
  | reserveBatch orders at_ =>
      obtain ⟨-, hsame, -⟩ := reserveBatch_ok h
      rw [hsame]
  | fill id quantity price at_ =>
      simp only [AccountRequest.check, refuse_ok, not_or, not_le] at hcheck
      exact fill_lastEventAt h hcheck.1 hcheck.2 hs hv
  | cancelRequest id at_ =>
      obtain ⟨order, -, -, rfl⟩ := cancelRequest_ok h
      rfl
  | release id reason at_ =>
      obtain ⟨order, -, -, -, rfl⟩ := release_ok h
      rfl
  | checkpoint at_ =>
      cases h
      rfl
  | settlePayables at_ =>
      obtain ⟨lots, -, rfl⟩ := settlePayables_ok h
      rfl
  | corporateRegister terms at_ =>
      simp only [perform, bind_ok] at h
      obtain ⟨_, -, h⟩ := h
      obtain ⟨-, item, receivables, obligations, entries, rfl, -⟩ :=
        corporateRegister_ok h
      rfl
  | corporateApply id at_ => exact (corporateApply_sound h hs).2.lastEventAt
  | corporatePay id at_ =>
      obtain ⟨item, receivable, item', receivable', rfl, -⟩ := corporatePay_ok h
      rfl
  | specialSettlement terms at_ =>
      simp only [perform, bind_ok] at h
      obtain ⟨_, -, h⟩ := h
      exact (specialSettlement_sound h hs).2.lastEventAt
  | specialSettlementPay id at_ =>
      obtain ⟨item, rid, receivable, receivable', item', rfl, -⟩ :=
        specialSettlementPay_ok h
      rfl

/-! ## Runs -/

structure Funded (z : Zone) (s : AccountState) : Prop where
  sound : Sound s
  valid : Valid s
  backed : ∃ last, s.lastEventAt = some last ∧ Backed z s last

theorem Funded.backedAt (h : Funded z s) (hat : ∀ last ∈ s.lastEventAt, last ≤ at_) :
    Backed z s at_ := by
  obtain ⟨last, hlast, hb⟩ := h.backed
  exact hb.later (hat last hlast)

theorem SealedAs.cash {operation : Operation} {o' : Outcome} (h : SealedAs operation o o') :
    o'.state.cashLots = o.state.cashLots ∧ o'.state.cashHolds = o.state.cashHolds ∧
      o'.state.orders = o.state.orders ∧ o'.state.lastEventAt = some o.at_ := by
  obtain ⟨_, _, -, -, hstate⟩ := h.state
  rw [hstate]
  exact ⟨rfl, rfl, rfl, rfl⟩

theorem SealedAs.funded {operation : Operation} {o' : Outcome} (h : SealedAs operation o o')
    (hs : Sound o.state) (hb : Backed z o.state o.at_) : Funded z o'.state := by
  obtain ⟨hlots, hholds, horders, hlast⟩ := h.cash
  obtain ⟨hsound, hvalid⟩ := h.sound hs
  exact ⟨hsound, hvalid, o.at_, hlast,
    hb.of_same hlots hholds (congrArg reservedCash horders)⟩

theorem Valid.setOrder (h : Valid s) {o o' : Order} (ho : s.orders.get? id = some o)
    (hcash : o'.cashReserved = o.cashReserved) (hstock : o'.stockReserved = o.stockReserved) :
    Valid (s.setOrder id o') where
  lots := h.lots
  payables := h.payables
  liabilities := h.liabilities
  within := fun k l hl => by
    rw [AccountState.setOrder_orders, stockFrozen_set ho, Order.frozenOn_eq,
      Order.frozenOn_eq, hstock, sub_self, add_zero]
    exact h.within k l hl
  reserves := fun j p hp => by
    rw [AccountState.setOrder_orders, Dict.get?_set] at hp
    split at hp
    · cases hp
      rw [hcash]
      exact h.reserves id o ho
    · exact h.reserves j p hp

theorem Funded.setStatus (h : Funded z s) {o : Order} (ho : s.orders.get? id = some o)
    (status : OrderStatus) (t : Option Instant) : Funded z
      (s.setOrder id { o with status := status, cancelEffectiveAt := t }) := by
  have hsound := h.sound.orders id o ho
  obtain ⟨last, hlast, hb⟩ := h.backed
  exact ⟨h.sound.setOrder
      ⟨hsound.turnover, hsound.filled, hsound.within, hsound.claims⟩,
    h.valid.setOrder ho rfl rfl, last, hlast,
    hb.of_same rfl rfl (reservedCash_set_same ho rfl)⟩

theorem LedgerStep.funded {d : Discipline} {t : AccountState} {as : List Act}
    (h : LedgerStep spec d s as es t) (hs : Funded spec.zone s) : Funded spec.zone t := by
  cases h with
  | @account aid r s o o' hcheck hrun hseal =>
      have hsealed := prepareState_ok hseal
      have hlast := perform_lastEventAt hcheck hrun hs.sound hs.valid
      have hsound := perform_sound hcheck hrun hs.sound hs.valid
      refine hsealed.funded hsound (perform_backed hcheck hrun hs.sound hs.valid ?_
        (hs.backedAt ?_))
      · rw [← hsealed.cash.1]
        exact (hsealed.sound hsound).2.lots
      · rw [← hlast]
        exact hsealed.ordered
  | @moved aid id reason status at_ vis s order o o' horder hheld hmove hrun hseal =>
      obtain ⟨order', horder', rfl⟩ := orderMarketState_ok hrun
      have hsealed := prepareState_ok hseal
      have hmoved := hs.setStatus horder' status order'.cancelEffectiveAt
      exact hsealed.funded hmoved.sound (hmoved.backedAt hsealed.ordered)
  | marked horder hstatus => exact hs.setStatus horder _ _
  | resealed hseal =>
      have hsealed := prepareState_ok hseal
      exact hsealed.funded hs.sound (hs.backedAt hsealed.ordered)

theorem opening_funded {o' : Outcome} (hinit : initializeAccount spec = .ok o)
    (hseal : prepareState spec .opening o = .ok o') : Funded spec.zone o'.state := by
  simp only [initializeAccount, bind_ok, refuse_ok, pure_ok] at hinit
  obtain ⟨-, -, rfl⟩ := hinit
  refine (prepareState_ok hseal).funded ?_ fun t ht => ?_
  · exact {
      orders := fun id o ho => by simp [initialState] at ho
      obligations := fun k o ho => by simp [initialState] at ho
      items := fun id i hi => by simp [initialState] at hi
      holds := fun x hx => by simp [initialState] at hx
      deferred := rfl
      deferred_le := le_rfl }
  · show (0 : ℚ) + 0 ≤ _
    rw [add_zero]
    refine cashIn_nonneg fun l hl => ?_
    rw [List.mem_singleton.mp hl]
    exact spec.initialCash_nonneg

theorem opening_orders (hinit : initializeAccount spec = .ok o) : o.state.orders = Dict.empty := by
  simp only [initializeAccount, bind_ok, refuse_ok, pure_ok] at hinit
  obtain ⟨-, -, rfl⟩ := hinit
  rfl

theorem reachable_account {P : AccountState → Prop}
    (hopen : ∀ o o', initializeAccount spec = .ok o →
      prepareState spec .opening o = .ok o' → P o'.state)
    (hstep : ∀ s t as es, P s → LedgerStep spec .any s as es t → P t) {w : World}
    (h : Reachable spec w) (hs : w.account = some s) : P s := by
  refine h.invariant (P := fun w => ∀ s, w.account = some s → P s) (fun s hs => by cases hs)
    (fun w c w' _ hw hstep' _ s' hs' => ?_) s hs
  cases step_account hstep' with
  | none haccount hevents => exact hw s' (haccount ▸ hs')
  | opened hnone hinit hseal haccount hevents hstate hentries hkeys =>
      cases haccount.symm.trans hs'
      rw [hstate]
      exact hopen _ _ hinit hseal
  | event hs haccount hevents hkeys hrun =>
      cases haccount.symm.trans hs'
      exact hrun.invariant (hw _ hs) fun a b as es ha hone => hstep a b as es ha hone

theorem reachable_funded {w : World} (h : Reachable spec w) (hs : w.account = some s) :
    Funded spec.zone s :=
  reachable_account (fun _ _ => opening_funded) (fun _ _ _ _ ha hone => hone.funded ha) h hs

def AccountReachable (spec : AccountSpec) (t : AccountState) : Prop :=
  ∃ w s acts es, Reachable spec w ∧ w.account = some s ∧
    LedgerRun spec .any s acts es t

theorem AccountReachable.invariant {P : AccountState → Prop} {t : AccountState}
    (h : AccountReachable spec t)
    (hopen : ∀ o o', initializeAccount spec = .ok o →
      prepareState spec .opening o = .ok o' → P o'.state)
    (hstep : ∀ s t as es, P s → LedgerStep spec .any s as es t → P t) : P t := by
  obtain ⟨w, s, acts, es, hw, hs, hrun⟩ := h
  exact hrun.invariant (reachable_account hopen hstep hw hs) fun a b as es ha hone =>
    hstep a b as es ha hone

theorem AccountReachable.funded {t : AccountState}
    (h : AccountReachable spec t) : Funded spec.zone t :=
  h.invariant (fun _ _ => opening_funded) fun _ _ _ _ ha hone => hone.funded ha

/-! ## Executions find their cash -/

theorem other_kind {e : Failure} (h : e.kind ≠ .accountUnavailable) :
    e ≠ cannotFund := fun he => h (congrArg Failure.kind he)

theorem other_text {m : String}
    (h : m ≠ "confirmed reusable cash cannot fund the accepted execution") :
    accountUnavailable m ≠ cannotFund := fun he => h (congrArg Failure.message he)

theorem spendCash_avoids (hamount : 0 ≤ amount) (hlots : ∀ l ∈ lots, 0 ≤ l.amount)
    (henough : amount ≤ cashIn (eligibleCash z at_) lots) :
    Avoids cannotFund (spendCash z lots amount at_) := by
  obtain ⟨lots', hspend⟩ := spendCash_isOk hamount hlots henough
  rw [hspend]
  exact nofun

theorem laggedDay_avoids (day : Date) (lag : ℕ) (sessions : List Date) :
    Avoids cannotFund (laggedDay day lag sessions) :=
  Avoids.bind (Avoids.refuse (other_text (by simp))) fun _ _ =>
    Avoids.need (other_text (by simp))

theorem orderFees_avoids (x : ExecutionSettings) (f : FeeSchedule) (day : Date)
    (exchange : String) : Avoids cannotFund (OrderFees.of x f day exchange) :=
  have hrefuse : ∀ (p : Prop) [Decidable p] (m : String),
      Avoids cannotFund (refuse p (feeUnavailable m)) := fun _ _ _ =>
    Avoids.refuse (other_kind (by simp [feeUnavailable]))
  Avoids.bind (hrefuse _ _) fun _ _ => Avoids.bind (hrefuse _ _) fun _ _ =>
    Avoids.bind (hrefuse _ _) fun _ _ => Avoids.bind (hrefuse _ _) fun _ _ =>
    Avoids.bind (hrefuse _ _) fun _ _ => Avoids.bind (hrefuse _ _) fun _ _ =>
    Avoids.pure _

theorem missingKey_avoids {α : Type} (o : Option α) (k : String) :
    Avoids cannotFund (need o (missingKey k)) :=
  Avoids.need (other_kind (by simp [missingKey]))

theorem fillTerms_avoids (aid id : String) (quantity : ℤ) (price : ℚ) (s : AccountState) :
    Avoids cannotFund (fillTerms spec aid id quantity price at_ s) :=
  Avoids.bind (Avoids.need (other_text (by simp))) fun _ _ =>
    Avoids.bind (Avoids.refuse (other_text (by simp))) fun _ _ =>
    Avoids.bind (Avoids.refuse (other_text (by simp))) fun _ _ =>
    Avoids.bind (Avoids.refuse (other_text (by simp))) fun _ _ =>
    Avoids.bind (orderFees_avoids _ _ _ _) fun _ _ => Avoids.pure _

theorem taxRate_avoids (p : DividendTaxPolicy) (a d : Date) : Avoids cannotFund (p.rate a d) :=
  Avoids.bind (Avoids.bind (Avoids.refuse (other_kind (by simp [corporateUnsupported])))
    fun _ _ => Avoids.pure _) fun _ _ =>
    Avoids.bind (missingKey_avoids _ _) fun _ _ => Avoids.pure _

theorem assessOne_avoids (lotId : String) (quantity : ℤ) (acc : Assessment)
    (e : String × Obligation) : Avoids cannotFund (assessOne z lotId quantity at_ acc e) := by
  unfold assessOne
  simp only []
  split
  · exact Avoids.pure _
  · refine Avoids.bind (Avoids.refuse (other_kind (by simp [corporateUnsupported])))
      fun _ _ => Avoids.bind (Avoids.refuse
        (other_kind (by simp [taxPolicyNotCovering, corporateUnsupported]))) fun _ _ =>
      Avoids.bind (taxRate_avoids _ _ _) fun _ _ =>
      Avoids.bind (missingKey_avoids _ _) fun action _ => ?_
    split
    · exact Avoids.pure _
    · exact Avoids.pure _

theorem assessDisposal_avoids (s : AccountState) (lotId : String) (quantity : ℤ) :
    Avoids cannotFund (assessDisposal z s lotId quantity at_) :=
  Avoids.bind (Avoids.walk fun _ _ _ => assessOne_avoids _ _ _ _) fun _ _ =>
    Avoids.pure _

theorem disposeLots_avoids (pending : ℤ) (claims : List (String × ℤ))
    (s : AccountState) : Avoids cannotFund (disposeLots z at_ pending claims s) := by
  induction claims generalizing pending s with
  | nil => exact Avoids.pure _
  | cons x rest ih =>
      refine Avoids.bind (assessDisposal_avoids _ _ _) fun a _ =>
        Avoids.bind (missingKey_avoids _ _) fun lot _ => ?_
      split
      · exact Avoids.pure _
      · exact Avoids.bind (ih _ _) fun _ _ => Avoids.pure _

theorem reallocateSellFifo_avoids (s : AccountState) (id : String) :
    Avoids cannotFund (reallocateSellFifo z s id at_) := by
  refine Avoids.bind (missingKey_avoids _ _) fun _ _ =>
    Avoids.bind (Avoids.walk fun _ _ _ => ?_) fun _ _ => Avoids.pure _
  exact Avoids.bind (missingKey_avoids _ _) fun _ _ =>
    Avoids.bind (Avoids.refuse (other_text (by simp))) fun _ _ => Avoids.pure _

theorem fillBuy_avoids {t : FillTerms} (horder : s.orders.get? t.orderId = some t.order)
    (ht : FillSound t) (hs : Sound s) (hv : Valid s) (hb : Backed spec.zone s t.at_) :
    Avoids cannotFund (fillBuy spec t s) := by
  refine Avoids.bind (Avoids.refuse (other_kind (by simp [conflict])))
    fun _ hreleased => Avoids.bind (spendCash_avoids ?_ hv.lots ?_) fun _ _ =>
      Avoids.bind (laggedDay_avoids _ _ _) fun _ _ => Avoids.pure _
  · exact add_nonneg ht.gross ht.charge
  · have hwithin := not_lt.mp (refuse_ok.mp hreleased)
    have hreserve := ht.reserve
    have hback := hb t.at_ le_rfl
    have hheld := heldCash_nonneg hs.holds t.at_
    have hone : t.order.cashReserved ≤ reservedCash s.orders :=
      Dict.le_sum (f := fun _ o => o.cashReserved) hv.reserves horder
    rw [frozenCash_eq] at hback
    show t.gross + t.charge ≤ liquidCash spec.zone s t.at_
    linarith

theorem settleProceeds_avoids {t : FillTerms} {net : ℚ} (hs : Sound s)
    (hlots : ∀ l ∈ s.cashLots, 0 ≤ l.amount) (hdebts : 0 ≤ s.payables + s.liabilities)
    (hreserves : 0 ≤ reservedCash s.orders) (hb : Backed spec.zone s t.at_) :
    Avoids cannotFund (settleProceeds spec t net s) := by
  unfold settleProceeds
  simp only []
  split
  · next hnet =>
      refine Avoids.bind (spendCash_avoids ?_ hlots ?_) fun _ _ => Avoids.pure _
      · exact le_min (neg_nonneg.mpr hnet.le) (le_max_left _ _)
      · have hfree := hb.available hlots hs.holds hdebts
          (min_le_right (-net) (availableCash spec.zone s t.at_)) le_rfl
        have hheld := heldCash_nonneg hs.holds t.at_
        rw [frozenCash_eq] at hfree
        show _ ≤ liquidCash spec.zone s t.at_
        linarith
  · split
    · exact Avoids.pure _
    · exact Avoids.bind (laggedDay_avoids _ _ _) fun _ _ =>
        Avoids.bind (laggedDay_avoids _ _ _) fun _ _ => Avoids.pure _

theorem fillSell_avoids {t : FillTerms} (ht : FillSound t) (hs : Sound s) (hv : Valid s)
    (hb : Backed spec.zone s t.at_) : Avoids cannotFund (fillSell spec t s) := by
  refine Avoids.bind (reallocateSellFifo_avoids _ _) fun s1 hrealloc =>
    Avoids.bind (missingKey_avoids _ _) fun order hget =>
    Avoids.bind (disposeLots_avoids _ _ _) fun d hdispose =>
    Avoids.bind (Avoids.refuse (other_kind (by simp [conflict]))) fun _ _ =>
    Avoids.bind ?_ fun _ _ => Avoids.pure _
  have hbefore := beforeProceeds hrealloc (need_ok.mp hget) hdispose ht hs hv
  refine settleProceeds_avoids hbefore.sound (hbefore.cashLots ▸ hv.lots)
    (hbefore.debts hv) ?_ (hbefore.backed hb)
  rw [hbefore.reserves]
  exact Dict.sum_nonneg hv.reserves

theorem fill_avoids (h : Funded spec.zone s) (hat : ∀ last ∈ s.lastEventAt, last ≤ at_)
    (aid id : String) {quantity : ℤ} {price : ℚ} (hq : 0 < quantity) (hp : 0 < price) :
    Avoids cannotFund (fill spec aid id quantity price at_ s) := by
  refine Avoids.bind (fillTerms_avoids _ _ _ _ _) fun t hterms =>
    Avoids.bind ?_ fun _ _ => Avoids.bind (missingKey_avoids _ _) fun _ _ =>
      Avoids.pure _
  have ht := fillTerms_sound hterms hq hp h.sound
  obtain ⟨horder, -, -, -, -, -, hid, -, htat, -⟩ := fillTerms_ok hterms
  have hb : Backed spec.zone s t.at_ := htat ▸ h.backedAt hat
  unfold fillSide
  split
  · exact fillBuy_avoids (hid ▸ horder) ht h.sound h.valid hb
  · exact fillSell_avoids ht h.sound h.valid hb

theorem settlePayables_avoids (h : Funded spec.zone s) (hat : ∀ last ∈ s.lastEventAt, last ≤ at_) :
    Avoids cannotFund (settlePayables spec at_ s) := by
  have hheld := heldCash_nonneg h.sound.holds at_
  have hreserves : 0 ≤ reservedCash s.orders := Dict.sum_nonneg h.valid.reserves
  have hfree := settleable_free h.valid h.sound (h.backedAt hat) (le_refl at_)
  rw [frozenCash_eq] at hfree
  refine Avoids.bind (spendCash_avoids ?_ h.valid.lots ?_) fun _ _ => Avoids.pure _
  · exact le_min (sub_nonneg.mpr h.sound.deferred_le) (le_max_left _ _)
  · show _ ≤ liquidCash spec.zone s at_
    linarith

end Ahunter.Sim
