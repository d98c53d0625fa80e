import Ahunter.Proofs.Precision
import Ahunter.Proofs.Retirement

/-!
# The reserve of a buy order

A buy order reserves its limit turnover, rounded once, and the fees on it. Every
fill rounds its own gross amount, is charged the difference of two fee totals, and
leaves the reserve that is due for the rest. So the amounts telescope: whatever the
partition, an order has been charged its gross amounts and the fees on their sum, and
what a fill gives back is what two roundings and two fee totals differ by.

Where the gross amount is at most the unrounded piece of the limit turnover, neither
difference is negative. That is so at every limit price in whole cents. At others a
piece that is rounded up can cost more than was reserved for it, and `LimitFits` says
exactly when.
-/

namespace Ahunter.Sim

open Ahunter.Lib

variable {spec : AccountSpec} {z : Zone} {at_ : Instant}

/-! ## Amounts in cents -/

theorem rounded_add_le {x y g : ℚ} (hx : 0 ≤ x) (hg : 0 ≤ g) (hcents : Whole cent g)
    (hle : g ≤ y) : rounded x + g ≤ rounded (x + y) := by
  rw [rounded, ← roundTo_add cent_pos hx hg hcents]
  exact rounded_mono (add_le_add_right hle x)

theorem le_rounded_add {x y g : ℚ} (hx : 0 ≤ x) (hg : 0 ≤ g) (hcents : Whole cent g)
    (hle : y ≤ g) : rounded (x + y) ≤ rounded x + g := by
  rw [rounded, rounded, ← roundTo_add cent_pos hx hg hcents]
  exact rounded_mono (add_le_add_right hle x)

theorem OrderFees.total_zero (f : OrderFees) (side : Side) : f.total side 0 = 0 := by
  rw [total, cumulative_eq, Dict.sum_map]
  exact Dict.sum_zero fun k r _ => by rw [row, if_pos rfl]

/-! ## What a fill gives back -/

def reserveFor (f : OrderFees) (limit turnover : ℚ) (rest : ℤ) : ℚ :=
  rounded (limit * rest) + f.total .buy (turnover + limit * rest) - f.total .buy turnover

theorem reserveFor_zero (f : OrderFees) (limit turnover : ℚ) :
    reserveFor f limit turnover 0 = 0 := by
  simp [reserveFor]

theorem reserveFor_start (f : OrderFees) (r : Reservation) :
    reserveFor f r.limitPrice 0 r.quantity = buyReserve f r := by
  rw [reserveFor, buyReserve, f.total_zero, zero_add, sub_zero]

theorem FillTerms.newReserve_eq (t : FillTerms) :
    t.newReserve = reserveFor t.fees t.order.limitPrice t.after t.remaining := by
  unfold newReserve
  split
  · next hdone => rw [hdone, reserveFor_zero]
  · rfl

def FillTerms.released (t : FillTerms) : ℚ :=
  t.order.cashReserved - t.newReserve - t.gross - t.charge

structure FillTerms.Due (t : FillTerms) : Prop where
  sound : FillSound t
  reserved : t.order.cashReserved
    = reserveFor t.fees t.order.limitPrice t.order.turnover t.order.remaining
  charges : t.charges = t.fees.incremental .buy t.order.turnover t.after

section Due

variable {t : FillTerms}

theorem FillTerms.Due.charge (h : t.Due) :
    t.charge = t.fees.total .buy t.after - t.fees.total .buy t.order.turnover := by
  rw [FillTerms.charge, h.charges, OrderFees.incremental_sum]

theorem FillTerms.Due.rest_nonneg (h : t.Due) : 0 ≤ t.order.limitPrice * (t.remaining : ℚ) :=
  mul_nonneg t.order.limitPrice_pos.le (by exact_mod_cast h.sound.remaining)

theorem FillTerms.Due.released_eq (h : t.Due) :
    t.released = (rounded (t.order.limitPrice * t.remaining + t.order.limitPrice * t.quantity)
        - (rounded (t.order.limitPrice * t.remaining) + t.gross))
      + (t.fees.total .buy (t.order.turnover
          + (t.order.limitPrice * t.remaining + t.order.limitPrice * t.quantity))
        - t.fees.total .buy (t.order.turnover + (t.order.limitPrice * t.remaining + t.gross))) := by
  have hrest : (t.order.remaining : ℚ) = t.remaining + t.quantity := by
    rw [remaining, Order.remaining]
    push_cast
    ring
  have hpieces : t.order.limitPrice * (t.order.remaining : ℚ)
      = t.order.limitPrice * t.remaining + t.order.limitPrice * t.quantity := by
    rw [hrest, mul_add]
  have hafter : t.after + t.order.limitPrice * (t.remaining : ℚ)
      = t.order.turnover + (t.order.limitPrice * t.remaining + t.gross) := by
    rw [after]
    ring
  rw [released, h.charge, h.reserved, newReserve_eq, reserveFor, reserveFor, hpieces,
    hafter]
  ring

theorem FillTerms.Due.released_nonneg (h : t.Due) (hcents : Whole cent t.gross)
    (hle : t.gross ≤ t.order.limitPrice * t.quantity) : 0 ≤ t.released := by
  have hround := rounded_add_le h.rest_nonneg h.sound.gross hcents hle
  have hfees : t.fees.total .buy (t.order.turnover
      + (t.order.limitPrice * t.remaining + t.gross))
      ≤ t.fees.total .buy (t.order.turnover
        + (t.order.limitPrice * t.remaining + t.order.limitPrice * t.quantity)) :=
    t.fees.total_mono .buy
      (add_nonneg h.sound.order.turnover (add_nonneg h.rest_nonneg h.sound.gross))
      (add_le_add_right (add_le_add_right hle _) _)
  rw [h.released_eq]
  exact add_nonneg (sub_nonneg.mpr hround) (sub_nonneg.mpr hfees)

def LimitFits (f : OrderFees) (limit turnover : ℚ) (rest piece : ℤ) : Prop :=
  rounded (limit * (rest - piece : ℤ)) + rounded (limit * piece)
      ≤ rounded (limit * rest) ∧
    f.total .buy (turnover + (limit * (rest - piece : ℤ) + rounded (limit * piece)))
      ≤ f.total .buy (turnover + limit * rest)
instance (f : OrderFees) (limit turnover : ℚ) (rest piece : ℤ) :
    Decidable (LimitFits f limit turnover rest piece) :=
  inferInstanceAs (Decidable (_ ∧ _))

theorem FillTerms.Due.released_neg_iff (h : t.Due)
    (hgross : t.gross = rounded (t.order.limitPrice * t.quantity)) :
    t.released < 0 ↔ ¬ LimitFits t.fees t.order.limitPrice t.order.turnover
      t.order.remaining t.quantity := by
  have hcents : Whole cent t.gross := hgross ▸ roundTo_whole _ _
  have hrest : t.order.remaining - t.quantity = t.remaining := rfl
  have hpieces : t.order.limitPrice * (t.order.remaining : ℚ)
      = t.order.limitPrice * t.remaining + t.order.limitPrice * t.quantity := by
    rw [← hrest]
    push_cast
    ring
  have hfits : LimitFits t.fees t.order.limitPrice t.order.turnover t.order.remaining
      t.quantity ↔
      rounded (t.order.limitPrice * t.remaining) + t.gross
        ≤ rounded (t.order.limitPrice * t.remaining + t.order.limitPrice * t.quantity) ∧
      t.fees.total .buy (t.order.turnover + (t.order.limitPrice * t.remaining + t.gross))
        ≤ t.fees.total .buy (t.order.turnover
          + (t.order.limitPrice * t.remaining + t.order.limitPrice * t.quantity)) := by
    rw [LimitFits, hrest, hpieces, hgross]
  rw [hfits, not_and_or, not_le, not_le]
  rcases le_total t.gross (t.order.limitPrice * t.quantity) with hle | hle
  · have hround := rounded_add_le h.rest_nonneg h.sound.gross hcents hle
    have hfees := t.fees.total_mono .buy
      (add_nonneg h.sound.order.turnover (add_nonneg h.rest_nonneg h.sound.gross))
      (add_le_add_right (add_le_add_right hle (t.order.limitPrice * t.remaining))
        t.order.turnover)
    have hback := h.released_nonneg hcents hle
    constructor
    · exact fun hneg => absurd hneg hback.not_gt
    · rintro (hover | hover)
      · exact absurd hover hround.not_gt
      · exact absurd hover hfees.not_gt
  · have hround := le_rounded_add h.rest_nonneg h.sound.gross hcents hle
    have hturnover : 0 ≤ t.order.limitPrice * (t.quantity : ℚ) :=
      mul_nonneg t.order.limitPrice_pos.le (by exact_mod_cast h.sound.quantity.le)
    have hfees := t.fees.total_mono .buy
      (add_nonneg h.sound.order.turnover (add_nonneg h.rest_nonneg hturnover))
      (add_le_add_right (add_le_add_right hle (t.order.limitPrice * t.remaining))
        t.order.turnover)
    rw [h.released_eq]
    constructor
    · intro hneg
      by_contra hnone
      rw [not_or, not_lt, not_lt] at hnone
      linarith
    · rintro (hover | hover)
      · linarith
      · linarith

end Due

/-! ## The tax reserve of a day -/

variable {s : AccountState}

def taxDue (day : Date) (o : Obligation) : Attempt ℚ := do
  refuse (¬ o.policy.covers day) taxPolicyNotCovering
  let rate ← o.policy.reserveRate o.acquiredOn day
  pure (rounded (o.basisRemaining * rate))

/-- What is due, where something is. -/
def taxOf (day : Date) (o : Obligation) : ℚ := ((taxDue day o).toOption).getD 0

def renewed (day : Date) (o : Obligation) : Obligation := { o with reserved := taxOf day o }

variable {day : Date} {acc acc' : Dict String Obligation × ℚ}

theorem refreshOne_eq (hday : z.date at_ = day) {e : String × Obligation} :
    refreshOne z at_ acc e = .ok acc' ↔ (∃ r, taxDue day e.2 = .ok r) ∧
      acc' = (acc.1.set e.1 (renewed day e.2), acc.2 + taxOf day e.2) := by
  subst hday
  have hsplit : refreshOne z at_ acc e = taxDue (z.date at_) e.2 >>= fun r =>
      pure (acc.1.set e.1 { e.2 with reserved := r }, acc.2 + r) := by
    simp only [refreshOne, taxDue, bind_assoc, pure_bind]
  rw [hsplit, bind_ok]
  constructor
  · rintro ⟨r, hr, hset⟩
    have hof : taxOf (z.date at_) e.2 = r := by rw [taxOf, hr]; rfl
    refine ⟨⟨r, hr⟩, ?_⟩
    rw [← pure_ok.mp hset, renewed, hof]
  · rintro ⟨⟨r, hr⟩, rfl⟩
    have hof : taxOf (z.date at_) e.2 = r := by rw [taxOf, hr]; rfl
    exact ⟨r, hr, by rw [renewed, hof]; rfl⟩

theorem refreshWalk_iff (hday : z.date at_ = day) {es : List (String × Obligation)} :
    walk (refreshOne z at_) acc es = .ok acc' ↔ (∀ e ∈ es, ∃ r, taxDue day e.2 = .ok r) ∧
      acc' = (es.foldl (fun d e => d.set e.1 (renewed day e.2)) acc.1,
        acc.2 + (es.map fun e => taxOf day e.2).sum) := by
  induction es generalizing acc with
  | nil =>
      simp only [walk_nil, List.not_mem_nil, false_imp_iff, implies_true, true_and,
        List.foldl_nil, List.map_nil, List.sum_nil, add_zero]
      exact ⟨fun h => (Except.ok.inj h).symm, fun h => by rw [h]⟩
  | cons e es ih =>
      rw [walk_cons_ok]
      constructor
      · rintro ⟨mid, hone, hrest⟩
        obtain ⟨hdue, rfl⟩ := (refreshOne_eq hday).mp hone
        obtain ⟨hall, rfl⟩ := ih.mp hrest
        refine ⟨fun x hx => ?_, ?_⟩
        · rcases List.mem_cons.mp hx with rfl | hx
          · exact hdue
          · exact hall x hx
        · rw [List.foldl_cons, List.map_cons, List.sum_cons, add_assoc]
      · rintro ⟨hall, rfl⟩
        refine ⟨_, (refreshOne_eq hday).mpr ⟨hall e List.mem_cons_self, rfl⟩, ih.mpr
          ⟨fun x hx => hall x (List.mem_cons_of_mem e hx), ?_⟩⟩
        rw [List.foldl_cons, List.map_cons, List.sum_cons, add_assoc]

theorem refreshTaxReserves_iff (hday : z.date at_ = day) {s' : AccountState} {c : ℚ} :
    refreshTaxReserves z s at_ = .ok (s', c) ↔
      (∀ k o, s.dividendObligations.get? k = some o → ∃ r, taxDue day o = .ok r) ∧
      c = s.dividendObligations.sum (fun _ => taxOf day) - s.dividendTaxReserve ∧
      s' = { s with
        dividendObligations := s.dividendObligations.map fun _ => renewed day
        liabilities := s.liabilities + s.dividendObligations.sum (fun _ => taxOf day)
          - s.dividendTaxReserve
        dividendTaxReserve := s.dividendObligations.sum fun _ => taxOf day } := by
  simp only [refreshTaxReserves, bind_ok, refreshWalk_iff hday, pure_ok, Prod.mk.injEq]
  have hset := s.dividendObligations.foldl_set_entries (renewed day)
  have hsum : (s.dividendObligations.entries.map fun e => taxOf day e.2).sum
      = s.dividendObligations.sum fun _ => taxOf day := rfl
  constructor
  · rintro ⟨acc, ⟨hall, rfl⟩, rfl, rfl⟩
    refine ⟨fun k o ho => hall (k, o) (Dict.mem_entries.mpr ho), ?_, ?_⟩
    · rw [hsum, zero_add]
    · rw [hsum, hset, zero_add]
  · rintro ⟨hall, rfl, rfl⟩
    refine ⟨_, ⟨fun e he => hall e.1 e.2 (Dict.mem_entries.mp he), rfl⟩, ?_, ?_⟩
    · rw [hsum, hset, zero_add]
    · rw [hsum, zero_add]

def TaxSettled (s : AccountState) (day : Date) : Prop :=
  (∀ k o, s.dividendObligations.get? k = some o → ∃ r, taxDue day o = .ok r) ∧
    s.dividendObligations.map (fun _ => renewed day) = s.dividendObligations ∧
    s.dividendObligations.sum (fun _ => taxOf day) = s.dividendTaxReserve

theorem TaxSettled.of_same {t : AccountState} (h : TaxSettled s day)
    (hobligations : t.dividendObligations = s.dividendObligations)
    (hreserve : t.dividendTaxReserve = s.dividendTaxReserve) : TaxSettled t day := by
  rw [TaxSettled, hobligations, hreserve]
  exact h

theorem prepareState_settled {operation : Operation} {o o' : Outcome}
    (h : prepareState spec operation o = .ok o') : TaxSettled o'.state (spec.zone.date o.at_) := by
  simp only [prepareState, bind_ok, refuse_ok, pure_ok] at h
  obtain ⟨-, -, -, -, -, -, ⟨s', c⟩, hrefresh, -, -, rfl⟩ := h
  obtain ⟨hall, -, rfl⟩ := (refreshTaxReserves_iff rfl).mp hrefresh
  refine ⟨fun k o ho => ?_, ?_, ?_⟩
  · rw [Dict.get?_map, Option.map_eq_some_iff] at ho
    obtain ⟨p, hp, rfl⟩ := ho
    exact hall k p hp
  · refine Dict.ext_get? fun k => ?_
    simp only [Dict.get?_map, Option.map_map]
    rfl
  · rw [Dict.sum_map]
    rfl

theorem TaxSettled.sealed {operation : Operation} {o o' : Outcome}
    (h : TaxSettled o.state (spec.zone.date o.at_))
    (hseal : prepareState spec operation o = .ok o') :
    o'.state.cashLots = o.state.cashLots ∧ o'.state.cashHolds = o.state.cashHolds ∧
      o'.state.orders = o.state.orders ∧ o'.state.payables = o.state.payables ∧
      o'.state.liabilities = o.state.liabilities := by
  simp only [prepareState, bind_ok, refuse_ok, pure_ok] at hseal
  obtain ⟨-, -, -, -, -, -, ⟨s', c⟩, hrefresh, -, -, rfl⟩ := hseal
  obtain ⟨-, -, rfl⟩ := (refreshTaxReserves_iff rfl).mp hrefresh
  obtain ⟨-, -, hsum⟩ := h
  refine ⟨rfl, rfl, rfl, rfl, ?_⟩
  show o.state.liabilities + _ - o.state.dividendTaxReserve = _
  rw [hsum, add_sub_cancel_right]

/-! ## An order between its fills -/

variable {o : Order} {id j aid : String} {out : Outcome} {q : ℤ} {p : ℚ} {t : FillTerms}

def Order.feesAre (spec : AccountSpec) (o : Order) (f : OrderFees) : Prop :=
  OrderFees.of spec.execution o.feeSchedule o.tradeDate o.marketRule.exchange = .ok f

structure Order.Fresh (spec : AccountSpec) (o : Order) : Prop where
  fees : ∃ f, o.feesAre spec f ∧
    (o.side = .buy → o.cashReserved = buyReserve f o.toReservation)
  filled : o.filledQuantity = 0
  turnover : o.turnover = 0

structure Waits (o o' : Order) : Prop where
  reservation : o'.toReservation = o.toReservation
  tradeDate : o'.tradeDate = o.tradeDate
  filled : o'.filledQuantity = o.filledQuantity
  turnover : o'.turnover = o.turnover
  cash : o'.cashReserved = o.cashReserved ∨
    (o'.cashReserved = 0 ∧ o'.status.held = false)

theorem Waits.refl (o : Order) : Waits o o := ⟨rfl, rfl, rfl, rfl, Or.inl rfl⟩

theorem Waits.of_core {o' : Order} (h : o'.core = o.core) : Waits o o' := by
  obtain ⟨hres, -, hfilled, hdate, hcash, hturnover⟩ := Order.core_eq h
  exact ⟨hres, hdate, hfilled, hturnover, Or.inl hcash⟩

theorem waits_set {p p' : Order} (hp : s.orders.get? id = some p) (hw : Waits p p')
    (ho : s.orders.get? j = some o) :
    ∃ o', (s.setOrder id p').orders.get? j = some o' ∧ Waits o o' := by
  rw [AccountState.setOrder_orders, Dict.get?_set]
  split
  · next hj =>
      subst hj
      cases hp.symm.trans ho
      exact ⟨p', rfl, hw⟩
  · exact ⟨o, ho, Waits.refl o⟩

theorem reserveOne_fresh {acc acc' : AccountState × List Entry} {r : Reservation}
    (h : reserveOne spec at_ acc r = .ok acc') (ho : acc'.1.orders.get? r.orderId = some o) :
    o.Fresh spec ∧ o.tradeDate = spec.zone.date at_ := by
  obtain ⟨s, es⟩ := acc
  obtain ⟨s', es'⟩ := acc'
  obtain ⟨f, hf, -, hcases⟩ := reserveOne_ok h
  have hfees : OrderFees.of spec.execution r.feeSchedule (spec.zone.date at_)
      r.marketRule.exchange = .ok f := by
    simp only [reservable, bind_ok, refuse_ok] at hf
    obtain ⟨-, -, -, -, -, -, -, -, -, -, hfees⟩ := hf
    exact hfees
  rcases hcases with ⟨-, -, rfl, -⟩ | ⟨hside, -, rfl, -⟩
  · rw [AccountState.setOrder_orders, Dict.get?_set_self] at ho
    cases ho
    exact ⟨⟨⟨f, hfees, fun _ => rfl⟩, rfl, rfl⟩, rfl⟩
  · rw [AccountState.setOrder_orders, Dict.get?_set_self] at ho
    cases ho
    refine ⟨⟨⟨f, hfees, fun hbuy => ?_⟩, rfl, rfl⟩, rfl⟩
    cases hside.symm.trans hbuy

theorem reserveBatch_fresh {rs : List Reservation} (h : reserveBatch spec rs at_ s = .ok out)
    (hj : s.orders.get? j = none) (ho : out.state.orders.get? j = some o) :
    o.Fresh spec ∧ o.tradeDate = spec.zone.date at_ := by
  simp only [reserveBatch, bind_ok] at h
  obtain ⟨acc, hwalk, h⟩ := h
  cases pure_ok.mp h
  refine walk_induction (P := fun acc : AccountState × List Entry =>
    ∀ o, acc.1.orders.get? j = some o → o.Fresh spec ∧ o.tradeDate = spec.zone.date at_)
    hwalk (fun o ho => ?_) (fun acc r acc' _ hacc hone o ho => ?_) o ho
  · rw [hj] at ho
    cases ho
  · by_cases hr : r.orderId = j
    · subst hr
      exact reserveOne_fresh hone ho
    · obtain ⟨s1, es⟩ := acc
      obtain ⟨s2, es'⟩ := acc'
      obtain ⟨-, cash, stock, rfl⟩ := reserveOne_reserved hone
      rw [AccountState.setOrder_orders, Dict.get?_set_of_ne (Ne.symm hr)] at ho
      exact hacc o ho

theorem fillTerms_fees (h : fillTerms spec aid id q p at_ s = .ok t) :
    t.order.feesAre spec t.fees := by
  have hdate := (fillTerms_ok h).2.2.1
  simp only [fillTerms, bind_ok, need_ok, refuse_ok, pure_ok] at h
  obtain ⟨order, -, -, -, -, -, -, -, f, hf, rfl⟩ := h
  rw [hdate] at hf
  exact hf

theorem fill_target (hterms : fillTerms spec aid id q p at_ s = .ok t)
    (h : fill spec aid id q p at_ s = .ok out) :
    ∃ o', out.state.orders.get? id = some o' ∧
      o'.toReservation = t.order.toReservation ∧ o'.tradeDate = t.order.tradeDate ∧
      o'.filledQuantity = t.order.filledQuantity + t.quantity ∧ o'.turnover = t.after ∧
      (t.order.side = .buy → o'.cashReserved = t.newReserve) := by
  obtain ⟨t', s1, es, order, hterms', hbranch, hget, rfl⟩ := fill_ok h
  cases hterms.symm.trans hterms'
  obtain ⟨horder, -, -, -, -, -, hid, -⟩ := fillTerms_ok hterms
  obtain ⟨orders, o, horders, -, hunmoved, -, hcash⟩ := fillSide_orders hbranch (hid ▸ horder)
  rw [horders, hid, Dict.get?_set_self] at hget
  cases hget
  have hbooked : (bookFill t s1 order).orders.get? id = some { order with
      filledQuantity := order.filledQuantity + t.quantity
      turnover := t.after
      fees := t.fees.cumulative t.order.side t.after
      status := if t.remaining = 0 then .filled
        else if order.status = .cancelPending then .cancelPending else .partFilled } := by
    rw [bookFill, hid, Dict.get?_set_self]
  exact ⟨_, hbooked, hunmoved.reservation, hunmoved.tradeDate,
    congrArg (· + t.quantity) hunmoved.filled, rfl, hcash⟩

theorem fill_others (h : fill spec aid id q p at_ s = .ok out) (hj : j ≠ id)
    (ho : s.orders.get? j = some o) : ∃ o', out.state.orders.get? j = some o' ∧ Waits o o' := by
  obtain ⟨t, s1, es, order, hterms, hbranch, hget, rfl⟩ := fill_ok h
  obtain ⟨horder, -, -, -, -, -, hid, -⟩ := fillTerms_ok hterms
  obtain ⟨orders, o1, horders, hcore, -⟩ := fillSide_orders hbranch (hid ▸ horder)
  obtain ⟨o', ho', hc⟩ := hcore.get ho
  refine ⟨o', ?_, Waits.of_core hc⟩
  rw [bookFill, hid, Dict.get?_set_of_ne hj, horders, hid, Dict.get?_set_of_ne hj]
  exact ho'

theorem perform_waits {r : AccountRequest} (hcheck : r.check = .ok ())
    (h : perform spec aid r s = .ok out) (hs : Sound s) (hr : ∀ q p t, r ≠ .fill j q p t)
    (ho : s.orders.get? j = some o) : ∃ o', out.state.orders.get? j = some o' ∧ Waits o o' := by
  cases r with
  | reserveBatch rs t =>
      obtain ⟨hres, -⟩ := reserveBatch_ok h
      refine ⟨o, ?_, Waits.refl o⟩
      rw [hres.others j fun q hq heq => ?_, ho]
      have hnew := hres.new q hq
      rw [heq, ho] at hnew
      cases hnew
  | fill id q p t =>
      refine fill_others h (fun hj => ?_) ho
      subst hj
      exact hr q p t rfl
  | cancelRequest id t =>
      obtain ⟨order, horder, -, rfl⟩ := cancelRequest_ok h
      exact waits_set horder ⟨rfl, rfl, rfl, rfl, Or.inl rfl⟩ ho
  | release id reason t =>
      obtain ⟨order, horder, -, -, rfl⟩ := release_ok h
      have hterminal : reason.held = false := by
        simp only [AccountRequest.check, releasable, refuse_ok] at hcheck
        cases reason <;> simp_all [OrderStatus.held]
      exact waits_set horder ⟨rfl, rfl, rfl, rfl, Or.inr ⟨rfl, hterminal⟩⟩ ho
  | _ => exact ⟨o, by rw [perform_orders rfl h hs, ho], Waits.refl o⟩

def fillsOrder (id : String) (a : Act) : Prop := ∃ q p t, a.2 = .account (.fill id q p t)

variable {as : List Act} {es : List Entry}

theorem LedgerStep.waits {t : AccountState}
    (h : LedgerStep spec .any s as es t) (hs : Sound s) (has : ∀ a ∈ as, ¬ fillsOrder j a)
    (ho : s.orders.get? j = some o) : ∃ o', t.orders.get? j = some o' ∧ Waits o o' := by
  cases h with
  | account hcheck hrun hseal hact =>
      rw [prepareState_orders hseal]
      refine perform_waits hcheck hrun hs (fun q p t hr => ?_) ho
      exact has _ (List.mem_singleton.mpr rfl) ⟨q, p, t, by rw [hr]⟩
  | moved horder hheld hmove hrun hseal =>
      obtain ⟨order, horder', rfl⟩ := orderMarketState_ok hrun
      rw [prepareState_orders hseal]
      exact waits_set horder' ⟨rfl, rfl, rfl, rfl, Or.inl rfl⟩ ho
  | marked horder hstatus => exact waits_set horder ⟨rfl, rfl, rfl, rfl, Or.inl rfl⟩ ho
  | resealed hseal =>
      rw [prepareState_orders hseal]
      exact ⟨o, ho, Waits.refl o⟩

theorem LedgerStep.fresh {t : AccountState}
    (h : LedgerStep spec .any s as es t) (hs : Sound s) (hj : s.orders.get? j = none)
    (ho : t.orders.get? j = some o) :
    o.Fresh spec ∧ ∀ last ∈ t.lastEventAt, o.tradeDate ≤ spec.zone.date last := by
  have hgone : ∀ u : AccountState, u.orders.get? j = none → u.orders = t.orders → False :=
    fun u hu heq => by
      rw [heq, ho] at hu
      cases hu
  cases h with
  | @account aid r _ out out' hcheck hrun hseal hact =>
      have horders := prepareState_orders hseal
      by_cases hr : j ∈ r.reserves
      · cases r with
        | reserveBatch rs at' =>
            rw [horders] at ho
            obtain ⟨hfresh, hdate⟩ := reserveBatch_fresh hrun hj ho
            obtain ⟨-, -, hat, -⟩ := reserveBatch_ok hrun
            refine ⟨hfresh, fun last hlast => ?_⟩
            obtain ⟨-, -, -, hlastEvent⟩ := (prepareState_ok hseal).cash
            rw [hlastEvent, hat] at hlast
            cases hlast
            exact hdate.le
        | _ => cases hr
      · exact absurd (perform_absent hrun hs hj hr) (hgone _ · horders.symm)
  | moved horder hheld hmove hrun hseal =>
      obtain ⟨order, horder', rfl⟩ := orderMarketState_ok hrun
      exact absurd (absent_set horder' hj) (hgone _ · (prepareState_orders hseal).symm)
  | marked horder hstatus => exact absurd (absent_set horder hj) (hgone _ · rfl)
  | resealed hseal => exact absurd hj (hgone _ · (prepareState_orders hseal).symm)

/-! ## The fills of an order -/

structure PricedFill where
  price : ℚ
  terms : FillTerms

inductive FillRun (spec : AccountSpec) (id : String) (s : AccountState) :
    List PricedFill → AccountState → Prop
  | refl : FillRun spec id s [] s
  | filled {xs : List PricedFill} {t : AccountState} {aid : String} {q : ℤ} {p : ℚ}
      {at_ : Instant} {terms : FillTerms} {out out' : Outcome}
      (h : FillRun spec id s xs t)
      (hcheck : (AccountRequest.fill id q p at_).check = .ok ())
      (hterms : fillTerms spec aid id q p at_ t = .ok terms)
      (hrun : fill spec aid id q p at_ t = .ok out)
      (hseal : prepareState spec .other out = .ok out') :
      FillRun spec id s (xs ++ [⟨p, terms⟩]) out'.state
  | between {xs : List PricedFill} {t u : AccountState} {as : List Act} {es : List Entry}
      (h : FillRun spec id s xs t) (hstep : LedgerStep spec .any t as es u)
      (hothers : ∀ a ∈ as, ¬ fillsOrder id a)
      (hreleased : ∀ o o', t.orders.get? id = some o → u.orders.get? id = some o' →
        o.status.held = false → o'.status.held = false) : FillRun spec id s xs u

/-! ## What an order has been charged -/

variable {xs : List PricedFill} {f : OrderFees}

structure Charged (spec : AccountSpec) (xs : List PricedFill) (o : Order) (f : OrderFees) :
    Prop where
  fees : o.feesAre spec f
  charged : (xs.map fun x => x.terms.charge).sum = f.total o.side o.turnover
  turnover : o.turnover = (xs.map fun x => x.terms.gross).sum
  filled : o.filledQuantity = (xs.map fun x => x.terms.quantity).sum
  reserve : o.side = .buy → o.cashReserved = 0 ∨
    o.cashReserved = reserveFor f o.limitPrice o.turnover o.remaining
  held : o.side = .buy → o.status.held = true →
    o.cashReserved = reserveFor f o.limitPrice o.turnover o.remaining

theorem Order.Fresh.charged (h : o.Fresh spec) : ∃ f, Charged spec [] o f := by
  obtain ⟨f, hf, hcash⟩ := h.fees
  have hrest : o.remaining = o.quantity := by
    rw [Order.remaining, h.filled, sub_zero]
  have hdue : o.side = .buy →
      o.cashReserved = reserveFor f o.limitPrice o.turnover o.remaining := fun hbuy => by
    rw [hcash hbuy, h.turnover, hrest, reserveFor_start]
  refine ⟨f, hf, ?_, h.turnover, h.filled, fun hbuy => Or.inr (hdue hbuy),
    fun hbuy _ => hdue hbuy⟩
  rw [h.turnover, f.total_zero]
  rfl

theorem Charged.waits {o' : Order} (h : Charged spec xs o f) (hw : Waits o o')
    (hreleased : o.status.held = false → o'.status.held = false) : Charged spec xs o' f := by
  have hrest : o'.remaining = o.remaining := by
    rw [Order.remaining, Order.remaining, hw.reservation, hw.filled]
  refine ⟨?_, ?_, hw.turnover.trans h.turnover, hw.filled.trans h.filled, ?_, ?_⟩
  · have hfees : OrderFees.of _ _ _ _ = _ := h.fees
    rw [Order.feesAre, hw.reservation, hw.tradeDate, hfees]
  · rw [hw.reservation, hw.turnover, h.charged]
  · rw [hw.reservation, hw.turnover, hrest]
    intro hbuy
    rcases hw.cash with hcash | ⟨hcash, -⟩
    · rw [hcash]
      exact h.reserve hbuy
    · exact Or.inl hcash
  · rw [hw.reservation, hw.turnover, hrest]
    intro hbuy hheld
    rcases hw.cash with hcash | ⟨-, hgone⟩
    · rw [hcash]
      refine h.held hbuy ?_
      rw [← Bool.not_eq_false]
      intro hgone
      rw [hreleased hgone] at hheld
      cases hheld
    · rw [hgone] at hheld
      cases hheld

theorem Charged.due (h : Charged spec xs t.order f)
    (hterms : fillTerms spec aid id q p at_ s = .ok t) (hsound : FillSound t)
    (hbuy : t.order.side = .buy) : t.fees = f ∧ t.Due := by
  have hfees : t.fees = f := Except.ok.inj ((fillTerms_fees hterms).symm.trans h.fees)
  obtain ⟨-, hexec, -, -, -, -, -, -, -, -, hcharges, -⟩ := fillTerms_ok hterms
  refine ⟨hfees, hsound, ?_, ?_⟩
  · rw [hfees]
    exact h.held hbuy (OrderStatus.held_of_executable hexec)
  · rw [hcharges, hbuy, FillTerms.after]

theorem Charged.more (h : Charged spec xs t.order f)
    (hterms : fillTerms spec aid id q p at_ s = .ok t)
    (hrun : fill spec aid id q p at_ s = .ok out) :
    ∃ o', out.state.orders.get? id = some o' ∧ o'.tradeDate = t.order.tradeDate ∧
      Charged spec (xs ++ [⟨p, t⟩]) o' f := by
  obtain ⟨o', ho', hres, hdate, hfilled, hturnover, hcash⟩ := fill_target hterms hrun
  have hfees : t.fees = f := Except.ok.inj ((fillTerms_fees hterms).symm.trans h.fees)
  obtain ⟨-, -, -, -, -, -, -, -, -, -, hcharges, -⟩ := fillTerms_ok hterms
  have hcharge : t.charge = f.total t.order.side t.after
      - f.total t.order.side t.order.turnover := by
    rw [FillTerms.charge, hcharges, OrderFees.incremental_sum, hfees, FillTerms.after]
  have hrest : o'.remaining = t.remaining := by
    rw [Order.remaining, FillTerms.remaining, hres, hfilled]
    omega
  have hdue : o'.side = .buy →
      o'.cashReserved = reserveFor f o'.limitPrice o'.turnover o'.remaining := by
    rw [hres, hturnover, hrest]
    intro hbuy
    rw [hcash hbuy, t.newReserve_eq, hfees]
  refine ⟨o', ho', hdate, ?_, ?_, ?_, ?_, fun hbuy => Or.inr (hdue hbuy),
    fun hbuy _ => hdue hbuy⟩
  · have hold : OrderFees.of _ _ _ _ = _ := h.fees
    rw [Order.feesAre, hres, hdate, hold]
  · rw [List.map_append, List.sum_append, h.charged, hres, hturnover]
    simp only [List.map_cons, List.map_nil, List.sum_cons, List.sum_nil, add_zero, hcharge]
    ring
  · rw [List.map_append, List.sum_append, ← h.turnover, hturnover]
    simp [FillTerms.after]
  · rw [List.map_append, List.sum_append, ← h.filled, hfilled]
    simp

/-! ## Runs -/

/-- What holds after every step of such a run. -/
structure FilledSo (spec : AccountSpec) (id : String) (xs : List PricedFill)
    (t : AccountState) : Prop where
  funded : Funded spec.zone t
  settled : ∀ last ∈ t.lastEventAt, TaxSettled t (spec.zone.date last)
  before : t.orders.get? id = none → xs = []
  charged : ∀ o, t.orders.get? id = some o → (∃ f, Charged spec xs o f) ∧
    ∀ last ∈ t.lastEventAt, o.tradeDate ≤ spec.zone.date last
  priced : ∀ x ∈ xs, x.terms.gross = rounded (x.price * x.terms.quantity)

theorem LedgerStep.settled {t : AccountState} (h : LedgerStep spec .any s as es t)
    (hs : ∀ last ∈ s.lastEventAt, TaxSettled s (spec.zone.date last)) :
    ∀ last ∈ t.lastEventAt, TaxSettled t (spec.zone.date last) := by
  have hseal : ∀ {operation : Operation} {o o' : Outcome},
      prepareState spec operation o = .ok o' →
      ∀ last ∈ o'.state.lastEventAt, TaxSettled o'.state (spec.zone.date last) := by
    intro operation o o' hseal last hlast
    obtain ⟨-, -, -, hat⟩ := (prepareState_ok hseal).cash
    rw [hat] at hlast
    cases hlast
    exact prepareState_settled hseal
  cases h with
  | account hcheck hrun hprep hact => exact hseal hprep
  | moved horder hheld hmove hrun hprep => exact hseal hprep
  | marked horder hstatus => exact fun last hlast => (hs last hlast).of_same rfl rfl
  | resealed hprep => exact hseal hprep

theorem AccountReachable.settled {t : AccountState} (h : AccountReachable spec t) :
    ∀ last ∈ t.lastEventAt, TaxSettled t (spec.zone.date last) := by
  refine h.invariant (P := fun t => ∀ last ∈ t.lastEventAt, TaxSettled t (spec.zone.date last))
    (fun o o' _ hseal last hlast => ?_) fun _ _ _ _ hs hone => hone.settled hs
  obtain ⟨-, -, -, hat⟩ := (prepareState_ok hseal).cash
  rw [hat] at hlast
  cases hlast
  exact prepareState_settled hseal

theorem FillRun.sound {t : AccountState} (h : FillRun spec id s xs t)
    (hs : AccountReachable spec s) (hnew : s.orders.get? id = none) : FilledSo spec id xs t := by
  induction h with
  | refl =>
      refine ⟨hs.funded, hs.settled, fun _ => rfl, fun o ho => ?_,
        fun x hx => absurd hx List.not_mem_nil⟩
      rw [hnew] at ho
      cases ho
  | @between xs t u as es _ hstep hothers hreleased ih =>
      have hfunded := hstep.funded ih.funded
      refine ⟨hfunded, hstep.settled ih.settled, fun hnone => ?_, fun o' ho' => ?_, ih.priced⟩
      · refine ih.before ?_
        rw [Option.eq_none_iff_forall_ne_some]
        intro o ho
        obtain ⟨o', ho', -⟩ := hstep.waits ih.funded.sound hothers ho
        rw [hnone] at ho'
        cases ho'
      · cases ho : t.orders.get? id with
        | none =>
            obtain ⟨hfresh, hdate⟩ := hstep.fresh ih.funded.sound ho ho'
            rw [ih.before ho]
            exact ⟨hfresh.charged, hdate⟩
        | some o =>
            obtain ⟨p, hp, hw⟩ := hstep.waits ih.funded.sound hothers ho
            cases hp.symm.trans ho'
            obtain ⟨⟨f, hf⟩, hdate⟩ := ih.charged o ho
            refine ⟨⟨f, hf.waits hw (hreleased o _ ho ho')⟩, fun last hlast => ?_⟩
            obtain ⟨old, hold, -⟩ := ih.funded.backed
            obtain ⟨last', hlast', hle⟩ := hstep.clock.last old hold
            cases hlast.symm.trans hlast'
            rw [hw.tradeDate]
            exact (hdate old hold).trans (spec.zone.date_mono hle)
  | @filled xs t aid q p at' terms out out' _ hcheck hterms hrun hseal ih =>
      have hstep : LedgerStep spec .any t [(aid, .account (.fill id q p at'))] out'.entries
          out'.state := .account hcheck hrun hseal trivial
      obtain ⟨horder, -, -, -, -, -, -, hquantity, -, hgross, -⟩ := fillTerms_ok hterms
      obtain ⟨⟨f, hf⟩, hdate⟩ := ih.charged _ horder
      obtain ⟨o', ho', hsame, hcharged⟩ := hf.more hterms hrun
      rw [← prepareState_orders hseal] at ho'
      refine ⟨hstep.funded ih.funded, hstep.settled ih.settled, fun hnone => ?_,
        fun o ho => ?_, fun x hx => ?_⟩
      · rw [hnone] at ho'
        cases ho'
      · cases ho.symm.trans ho'
        refine ⟨⟨f, hcharged⟩, fun last hlast => ?_⟩
        obtain ⟨old, hold, -⟩ := ih.funded.backed
        obtain ⟨last', hlast', hle⟩ := hstep.clock.last old hold
        cases hlast.symm.trans hlast'
        rw [hsame]
        exact (hdate old hold).trans (spec.zone.date_mono hle)
      · rcases List.mem_append.mp hx with hx | hx
        · exact ih.priced x hx
        · obtain rfl := List.mem_singleton.mp hx
          rw [hgross, hquantity]

/-! ## The check of a purchase -/

def exceedsReserve : Failure := conflict "fill exceeds its maximum reserved cost"

theorem not_conflict {e : Failure} (h : e.kind ≠ .conflict) : e ≠ exceedsReserve :=
  fun he => h (congrArg Failure.kind he)

theorem orderFees_within (x : ExecutionSettings) (f : FeeSchedule) (day : Date)
    (exchange : String) : Avoids exceedsReserve (OrderFees.of x f day exchange) :=
  have hrefuse : ∀ (p : Prop) [Decidable p] (m : String),
      Avoids exceedsReserve (refuse p (feeUnavailable m)) := fun _ _ _ =>
    Avoids.refuse (not_conflict (by simp [feeUnavailable]))
  Avoids.bind (hrefuse _ _) fun _ _ => Avoids.bind (hrefuse _ _) fun _ _ =>
    Avoids.bind (hrefuse _ _) fun _ _ => Avoids.bind (hrefuse _ _) fun _ _ =>
    Avoids.bind (hrefuse _ _) fun _ _ => Avoids.bind (hrefuse _ _) fun _ _ =>
    Avoids.pure _

theorem fillTerms_within (aid id : String) (q : ℤ) (p : ℚ) (s : AccountState) :
    Avoids exceedsReserve (fillTerms spec aid id q p at_ s) := by
  have hunavailable : ∀ m, accountUnavailable m ≠ exceedsReserve := fun m =>
    not_conflict (by simp [accountUnavailable])
  exact Avoids.bind (Avoids.need (hunavailable _)) fun _ _ =>
    Avoids.bind (Avoids.refuse (hunavailable _)) fun _ _ =>
    Avoids.bind (Avoids.refuse (hunavailable _)) fun _ _ =>
    Avoids.bind (Avoids.refuse (hunavailable _)) fun _ _ =>
    Avoids.bind (orderFees_within _ _ _ _) fun _ _ => Avoids.pure _

theorem fillBuy_exceeds_iff : fillBuy spec t s = .error exceedsReserve ↔ t.released < 0 := by
  have hunavailable : ∀ m, accountUnavailable m ≠ exceedsReserve := fun m =>
    not_conflict (by simp [accountUnavailable])
  constructor
  · intro h
    by_contra hback
    refine Avoids.bind ?_ (fun _ _ => ?_) h
    · exact fun hrefused => hback (refuse_error.mp hrefused).1
    · exact Avoids.bind (Avoids.bind (Avoids.refuse (hunavailable _)) fun _ _ =>
        Avoids.pure _) fun _ _ => Avoids.bind (Avoids.bind (Avoids.refuse (hunavailable _))
          fun _ _ => Avoids.need (hunavailable _)) fun _ _ => Avoids.pure _
  · intro hneg
    have hrefused : refuse (t.released < 0) exceedsReserve = .error exceedsReserve :=
      refuse_error.mpr ⟨hneg, rfl⟩
    exact bind_error.mpr (Or.inl hrefused)

theorem fill_exceeds_iff (hterms : fillTerms spec aid id q p at_ s = .ok t)
    (hbuy : t.order.side = .buy) :
    fill spec aid id q p at_ s = .error exceedsReserve ↔ t.released < 0 := by
  have hside : fillSide spec t s = fillBuy spec t s := by rw [fillSide, hbuy]
  have hexceeds : fillBuy spec t s = .error exceedsReserve ↔ t.released < 0 :=
    fillBuy_exceeds_iff
  rw [← hexceeds, ← hside]
  constructor
  · intro h
    rw [fill, hterms] at h
    rcases bind_error.mp h with hnone | ⟨t', ht', h⟩
    · cases hnone
    · cases ht'
      rcases bind_error.mp h with hbranch | ⟨⟨s1, es⟩, -, h⟩
      · exact hbranch
      · refine absurd h (Avoids.bind (Avoids.need ?_) fun _ _ => Avoids.pure _)
        exact not_conflict (by simp [missingKey])
  · intro h
    rw [fill, hterms]
    exact bind_error.mpr (Or.inr ⟨t, rfl, bind_error.mpr (Or.inl h)⟩)

/-! ## Cash until the receipt -/

structure Purchased (spec : AccountSpec) (t : FillTerms) (s s' : AccountState) : Prop where
  lots : spendCash spec.zone s.cashLots (t.gross + t.charge) t.at_ = .ok s'.cashLots
  holds : s'.cashHolds
    = s.cashHolds ++ [⟨t.released, t.receipt, "unconfirmed_price_improvement"⟩]
  reserves : reservedCash s'.orders
    = reservedCash s.orders + (t.newReserve - t.order.cashReserved)
  payables : s'.payables = s.payables
  liabilities : s'.liabilities = s.liabilities

theorem fill_purchased (hterms : fillTerms spec aid id q p at_ s = .ok t)
    (hbuy : t.order.side = .buy) (h : fill spec aid id q p at_ s = .ok out) :
    Purchased spec t s out.state ∧ out.state.dividendObligations = s.dividendObligations ∧
      out.state.dividendTaxReserve = s.dividendTaxReserve ∧
      out.state.lastEventAt = s.lastEventAt ∧ out.at_ = at_ := by
  obtain ⟨t', s1, es, order, hterms', hbranch, hget, rfl⟩ := fill_ok h
  cases hterms.symm.trans hterms'
  obtain ⟨horder, -, -, -, -, -, hid, -⟩ := fillTerms_ok hterms
  rw [fillSide, hbuy] at hbranch
  simp only [fillBuy, bind_ok, refuse_ok, pure_ok, Prod.mk.injEq] at hbranch
  obtain ⟨-, -, lots, hspend, sellable, -, rfl, -⟩ := hbranch
  rw [hid] at hget
  simp only [Dict.get?_set_self, Option.some.injEq] at hget
  subst hget
  refine ⟨⟨hspend, rfl, ?_, rfl, rfl⟩, rfl, rfl, rfl, rfl⟩
  show reservedCash ((s.orders.set t.orderId _).set t.orderId _) = _
  rw [Dict.set_set, hid, reservedCash_set horder]

theorem heldCash_append (holds : List CashHold) (x : CashHold) (u : Instant) :
    heldCash (holds ++ [x]) u = heldCash holds u + if x.heldUntil > u then x.amount else 0 := by
  simp only [heldCash, List.filter_append, List.map_append, List.sum_append]
  by_cases hlate : x.heldUntil > u
  · simp [hlate]
  · simp [hlate]

theorem Purchased.available {s' : AccountState} (h : Purchased spec t s s') {u : Instant}
    (hu : t.at_ ≤ u) (hreceipt : u < t.receipt) :
    availableCash spec.zone s' u = availableCash spec.zone s u := by
  have hliquid : liquidCash spec.zone s' u
      = liquidCash spec.zone s u - (t.gross + t.charge) := spendCash_liquid h.lots hu
  have hheld : heldCash s'.cashHolds u = heldCash s.cashHolds u + t.released := by
    rw [h.holds, heldCash_append, if_pos hreceipt]
  have hfree : liquidCash spec.zone s' u - frozenCash s' u
      = liquidCash spec.zone s u - frozenCash s u := by
    rw [frozenCash_eq, frozenCash_eq, hliquid, hheld, h.reserves, FillTerms.released]
    ring
  rw [availableCash, availableCash, hfree, h.payables, h.liabilities]

theorem FilledSo.available (h : FilledSo spec id xs s) {out' : Outcome}
    (hterms : fillTerms spec aid id q p at_ s = .ok t) (hbuy : t.order.side = .buy)
    (hrun : fill spec aid id q p at_ s = .ok out)
    (hseal : prepareState spec .other out = .ok out') :
    cashTotal out'.state = cashTotal s - (t.gross + t.charge) ∧ ∀ u, at_ ≤ u → u < t.receipt →
      availableCash spec.zone out'.state u = availableCash spec.zone s u := by
  obtain ⟨hpurchased, hobligations, htax, hlast, hat⟩ := fill_purchased hterms hbuy hrun
  obtain ⟨horder, -, hdate, -, -, -, -, -, htat, -⟩ := fillTerms_ok hterms
  obtain ⟨last, hlastEvent, -⟩ := h.funded.backed
  have hsealed := prepareState_ok hseal
  -- The order's day is the day of the account's last event.
  have hday : spec.zone.date last = spec.zone.date at_ := by
    refine le_antisymm (spec.zone.date_mono ?_) ?_
    · rw [← hat]
      exact hsealed.ordered last (by rw [hlast]; exact hlastEvent)
    · rw [hdate]
      exact (h.charged _ horder).2 last hlastEvent
  have htaxed : TaxSettled out.state (spec.zone.date out.at_) := by
    rw [hat, ← hday]
    exact (h.settled last hlastEvent).of_same hobligations htax
  obtain ⟨hlots, hholds, horders, hpay, hliab⟩ := htaxed.sealed hseal
  have hall : Purchased spec t s out'.state := ⟨hlots ▸ hpurchased.lots,
    hholds.trans hpurchased.holds, by rw [horders, hpurchased.reserves],
    hpay.trans hpurchased.payables, hliab.trans hpurchased.liabilities⟩
  refine ⟨?_, fun u hu hreceipt => hall.available (htat ▸ hu) hreceipt⟩
  rw [cashTotal, cashTotal, spendCash_total hall.lots]

/-! ## The reserve covers the cost -/

theorem charges_nonneg {side : Side} {before after : ℚ} (hbefore : 0 ≤ before)
    (hle : before ≤ after) {key : String} {c : ℚ}
    (hc : (f.incremental side before after).get? key = some c) : 0 ≤ c := by
  simp only [OrderFees.incremental, f.cumulative_eq, Dict.get?_map, Option.map_eq_some_iff]
    at hc
  obtain ⟨v, ⟨r, hr, rfl⟩, rfl⟩ := hc
  rw [hr, Option.map_some, Option.getD_some]
  exact sub_nonneg.mpr (f.row_mono side hbefore hle r)

theorem Charged.within (h : Charged spec xs o f) (hs : Sound s) (ho : s.orders.get? id = some o)
    (hbuy : o.side = .buy) (hlimit : Whole cent o.limitPrice) (aid : String) (hq : 0 < q)
    (hp : 0 < p) : fill spec aid id q p at_ s ≠ .error exceedsReserve := by
  intro hfill
  cases hterms : fillTerms spec aid id q p at_ s with
  | error e =>
      rw [fill, hterms] at hfill
      rcases bind_error.mp hfill with hnone | ⟨t, ht, -⟩
      · exact fillTerms_within aid id q p s (hterms.trans hnone)
      · cases ht
  | ok t =>
      obtain ⟨horder, -, -, -, hbelow, -, -, hquantity, -, hgross, -⟩ := fillTerms_ok hterms
      cases ho.symm.trans horder
      have hsound := fillTerms_sound hterms hq hp hs
      obtain ⟨-, hdue⟩ := h.due hterms hsound hbuy
      have hqQ : (0 : ℚ) ≤ q := by exact_mod_cast hq.le
      have hpiece : Whole cent (t.order.limitPrice * q) := hlimit.mul_int q
      have hle : t.gross ≤ t.order.limitPrice * t.quantity := by
        rw [hgross, hquantity]
        calc rounded (p * q)
            ≤ rounded (t.order.limitPrice * q) :=
              rounded_mono (mul_le_mul_of_nonneg_right (hbelow hbuy) hqQ)
          _ = t.order.limitPrice * q :=
              hpiece.roundTo cent_pos (mul_nonneg t.order.limitPrice_pos.le hqQ)
      have hcents : Whole cent t.gross := hgross ▸ roundTo_whole _ _
      exact ((fill_exceeds_iff hterms hbuy).mp hfill).not_ge (hdue.released_nonneg hcents hle)

def sampleReserve (r : Reservation) (s : AccountState) : Attempt AccountState := do
  batchAdmissible [r]
  let out ← reserveBatch sampleSpec [r] (sampleAt 0 600) s
  let out' ← prepareState sampleSpec .other out
  pure out'.state

theorem sampleReserve_run {r : Reservation} {t : AccountState} (h : sampleReserve r s = .ok t)
    (hnew : s.orders.get? r.orderId = none) : FillRun sampleSpec r.orderId s [] t := by
  simp only [sampleReserve, bind_ok, pure_ok] at h
  obtain ⟨_, hcheck, out, hrun, out', hseal, rfl⟩ := h
  have hstep : LedgerStep sampleSpec .any s
      [("reserve", .account (.reserveBatch [r] (sampleAt 0 600)))] out'.entries out'.state :=
    .account hcheck hrun hseal trivial
  refine FillRun.refl.between hstep (fun a ha => ?_) fun o o' ho => ?_
  · obtain rfl := List.mem_singleton.mp ha
    rintro ⟨q, p, at', hfill⟩
    cases hfill
  · rw [hnew] at ho
    cases ho

def sampleOpened (test : AccountState → Bool) : Bool :=
  (runs sampleSpec (fun _ _ _ => True) World.start [.opening "open" true]).any
    fun w => w.account.any test

theorem sampleOpened_run (test : AccountState → Bool) (h : sampleOpened test = true) :
    ∃ s, AccountReachable sampleSpec s ∧ test s = true := by
  obtain ⟨w, hw, htest⟩ := ReachableIf.of_check sampleSpec (fun _ _ _ => True) _ _ h
  obtain ⟨s, hs, htest⟩ := (Option.any_eq_true _ _).mp htest
  exact ⟨s, ⟨w, s, [], [], hw, hs, LedgerRun.refl⟩, htest⟩

end Ahunter.Sim
