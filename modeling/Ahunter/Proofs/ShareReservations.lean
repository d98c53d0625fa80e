import Ahunter.Proofs.Acceptance
import Ahunter.Proofs.CashBacking

/-!
# What sell orders have reserved

A sell order that holds its resources has claims for exactly what remains of
it, on lots of its own security that could be sold at the account's last event;
every other order has none. Operations keep that: a reservation takes what it
needs or fails, a sale lowers its claims and its lots alike, and whatever
changes lots otherwise either leaves their eligibility alone or happens while
no order of their security is held. What is needed besides is that no lot key
is used twice and that the exchange moves only orders that still hold their
resources.
-/

namespace Ahunter.Sim

open Ahunter.Lib

variable {spec : AccountSpec} {z : Zone} {at_ : Instant}

/-! ## The invariant -/

variable {o : Order} {lots : Dict String StockLot} {id : String}

def claimed (claims : List (String × ℤ)) : ℤ := (claims.map Prod.snd).sum

theorem claimed_filter (claims : List (String × ℤ)) :
    claimed (claims.filter fun e => e.2 ≠ 0) = claimed claims := by
  induction claims with
  | nil => rfl
  | cons e claims ih =>
      by_cases h : e.2 = 0
      · rw [List.filter_cons_of_neg (by simp [h]), ih, claimed, claimed, List.map_cons,
          List.sum_cons, h, zero_add]
      · rw [List.filter_cons_of_pos (by simp [h])]
        simp only [claimed, List.map_cons, List.sum_cons] at ih ⊢
        rw [ih]

structure SaleBound (z : Zone) (at_ : Instant) (lots : Dict String StockLot)
    (o : Order) : Prop where
  total : claimed o.stockReserved = o.remaining
  lots : ∀ e ∈ o.stockReserved, ∃ l, lots.get? e.1 = some l ∧
    disposable z at_ o.security l = true

/-- A live sale. -/
def Order.selling (o : Order) : Bool := o.side = .sell && o.status.held

theorem Order.selling_iff : o.selling = true ↔ o.side = .sell ∧ o.status.held = true := by
  simp [Order.selling]

def ClaimBound (z : Zone) (at_ : Instant) (lots : Dict String StockLot)
    (o : Order) : Prop :=
  if o.selling then SaleBound z at_ lots o else claimed o.stockReserved = 0

def Bound (z : Zone) (at_ : Instant) (lots : Dict String StockLot)
    (orders : Dict String Order) : Prop :=
  ∀ id o, orders.get? id = some o → ClaimBound z at_ lots o

theorem ClaimBound.sale (h : ClaimBound z at_ lots o) (ho : o.selling = true) :
    SaleBound z at_ lots o := by
  rwa [ClaimBound, if_pos ho] at h

theorem ClaimBound.of_sale (h : SaleBound z at_ lots o) (ho : o.selling = true) :
    ClaimBound z at_ lots o := by
  rwa [ClaimBound, if_pos ho]

theorem ClaimBound.of_none (h : claimed o.stockReserved = 0) (ho : o.selling = false) :
    ClaimBound z at_ lots o := by
  rwa [ClaimBound, if_neg (by rw [ho]; simp)]

theorem ClaimBound.later {t u : Instant} (h : ClaimBound z t lots o) (htu : t ≤ u) :
    ClaimBound z u lots o := by
  unfold ClaimBound at h ⊢
  split
  · next ho =>
      rw [if_pos ho] at h
      refine ⟨h.total, fun e he => ?_⟩
      obtain ⟨l, hl, hd⟩ := h.lots e he
      exact ⟨l, hl, disposable_later htu hd⟩
  · next ho => rwa [if_neg ho] at h

variable {orders : Dict String Order}

theorem Bound.later {t u : Instant} (h : Bound z t lots orders) (htu : t ≤ u) :
    Bound z u lots orders := fun id o ho => (h id o ho).later htu

theorem Bound.set (h : Bound z at_ lots orders)
    (ho : ClaimBound z at_ lots o) : Bound z at_ lots (orders.set id o) := by
  intro j p hp
  rw [Dict.get?_set] at hp
  split at hp
  · cases hp
    exact ho
  · exact h j p hp

theorem ClaimBound.same {o' : Order} (h : ClaimBound z at_ lots o)
    (hres : o'.toReservation = o.toReservation) (hfilled : o'.filledQuantity = o.filledQuantity)
    (hstock : o'.stockReserved = o.stockReserved) (hheld : o'.status.held = o.status.held) :
    ClaimBound z at_ lots o' := by
  have hselling : o'.selling = o.selling := by
    rw [Order.selling, Order.selling, hres, hheld]
  unfold ClaimBound at h ⊢
  rw [hselling]
  split
  · next ho =>
      rw [if_pos ho] at h
      refine ⟨?_, ?_⟩
      · rw [hstock, h.total, Order.remaining, Order.remaining, hres, hfilled]
      · rw [hstock, hres]
        exact h.lots
  · next ho =>
      rw [if_neg ho] at h
      rw [hstock, h]

theorem ClaimBound.moved (h : ClaimBound z at_ lots o) (status : OrderStatus) (t : Option Instant)
    (hheld : o.side = .sell → status.held = o.status.held) :
    ClaimBound z at_ lots { o with status := status, cancelEffectiveAt := t } := by
  by_cases hside : o.side = .sell
  · exact h.same rfl rfl rfl (hheld hside)
  · have hnone : ∀ s, Order.selling { o with status := s, cancelEffectiveAt := t }
        = false := fun s => by simp [Order.selling, hside]
    refine ClaimBound.of_none ?_ (hnone status)
    have hold : o.selling = false := by simp [Order.selling, hside]
    rw [ClaimBound, if_neg (by rw [hold]; simp)] at h
    exact h

/-! ## Lots -/

variable {a : Dict String StockLot}

def LotsSteady (keep : String → Prop) (a b : Dict String StockLot) : Prop :=
  ∀ k l, a.get? k = some l → keep l.security → ∃ l', b.get? k = some l' ∧
    l'.security = l.security ∧ ∀ z t sec, disposable z t sec l' = disposable z t sec l

theorem LotsSteady.refl (keep : String → Prop) (a : Dict String StockLot) :
    LotsSteady keep a a := fun _ l hl _ => ⟨l, hl, rfl, fun _ _ _ => rfl⟩

variable {keep : String → Prop}

theorem LotsSteady.trans {b c : Dict String StockLot}
    (h : LotsSteady keep a b) (h' : LotsSteady keep b c) : LotsSteady keep a c := by
  intro k l hl hk
  obtain ⟨m, hm, hsec, hd⟩ := h k l hl hk
  obtain ⟨n, hn, hsec', hd'⟩ := h' k m hm (hsec ▸ hk)
  exact ⟨n, hn, hsec'.trans hsec, fun z t sec => (hd' z t sec).trans (hd z t sec)⟩

theorem LotsSteady.set_new {k : String} {l : StockLot} (h : a.get? k = none) :
    LotsSteady keep a (a.set k l) := fun j m hm _ => by
  have hj : j ≠ k := fun hj => by rw [hj, h] at hm; cases hm
  exact ⟨m, by rw [Dict.get?_set_of_ne hj, hm], rfl, fun _ _ _ => rfl⟩

theorem LotsSteady.set_old {k : String} {l l' : StockLot}
    (h : a.get? k = some l) (hsec : l'.security = l.security)
    (havail : l'.availableAt = l.availableAt) (hsell : l'.sellableOn = l.sellableOn) :
    LotsSteady keep a (a.set k l') := by
  intro j m hm _
  by_cases hj : j = k
  · subst hj
    cases h.symm.trans hm
    refine ⟨l', Dict.get?_set_self _ _ _, hsec, fun z t sec => ?_⟩
    simp only [disposable, stockEligible, hsec, havail, hsell]
  · exact ⟨m, by rw [Dict.get?_set_of_ne hj, hm], rfl, fun _ _ _ => rfl⟩

theorem LotsSteady.set_other {k : String} {l l' : StockLot}
    (h : a.get? k = some l) (hother : ¬ keep l.security) : LotsSteady keep a (a.set k l') := by
  intro j m hm hk
  have hj : j ≠ k := fun hj => by
    rw [hj, h] at hm
    cases hm
    exact hother hk
  exact ⟨m, by rw [Dict.get?_set_of_ne hj, hm], rfl, fun _ _ _ => rfl⟩

theorem Bound.steady {b : Dict String StockLot} (h : Bound z at_ a orders) (keep : String → Prop)
    (hkeep : ∀ id o, orders.get? id = some o → o.selling = true → keep o.security)
    (hsteady : LotsSteady keep a b) : Bound z at_ b orders := by
  intro id o ho
  have hold := h id o ho
  unfold ClaimBound at hold ⊢
  split
  · next hs =>
      rw [if_pos hs] at hold
      refine ⟨hold.total, fun e he => ?_⟩
      obtain ⟨l, hl, hd⟩ := hold.lots e he
      have hsec : l.security = o.security := by
        simp only [disposable, Bool.and_eq_true, decide_eq_true_eq] at hd
        exact hd.1
      obtain ⟨l', hl', -, hd'⟩ := hsteady e.1 l hl (hsec ▸ hkeep id o ho hs)
      exact ⟨l', hl', by rw [hd', hd]⟩
  · next hs => rwa [if_neg hs] at hold

/-! ## Reservations -/

variable {s : AccountState} {acc acc' : AccountState × List Entry}

theorem reserveOne_bound {r : Reservation} (h : reserveOne spec at_ acc r = .ok acc')
    (hb : Bound spec.zone at_ acc.1.stockLots acc.1.orders) :
    Bound spec.zone at_ acc'.1.stockLots acc'.1.orders := by
  obtain ⟨s, es⟩ := acc
  obtain ⟨s', es'⟩ := acc'
  obtain ⟨fees, -, -, ⟨hside, -, rfl, -⟩ | ⟨hside, hleft, rfl, -⟩⟩ := reserveOne_ok h
  · refine hb.set (ClaimBound.of_none rfl ?_)
    simp [Order.selling, storedOrder, hside]
  · refine hb.set (ClaimBound.of_sale ⟨?_, fun e he => ?_⟩ ?_)
    · rw [claimed, takeFifo_sum, hleft, sub_zero]
      exact (sub_zero _).symm
    · obtain ⟨l, hl, hu⟩ := takeFifo_mem he
      exact ⟨l, mem_fifoLots.mp hl, hu⟩
    · simp [Order.selling, storedOrder, hside, OrderStatus.held]

theorem reserveBatch_bound {orders : List Reservation} {o : Outcome}
    (h : reserveBatch spec orders at_ s = .ok o) (hb : Bound spec.zone at_ s.stockLots s.orders) :
    Bound spec.zone at_ o.state.stockLots o.state.orders := by
  simp only [reserveBatch, bind_ok] at h
  obtain ⟨acc, hwalk, h⟩ := h
  cases pure_ok.mp h
  exact walk_induction (P := fun acc : AccountState × List Entry =>
    Bound spec.zone at_ acc.1.stockLots acc.1.orders) hwalk hb
    fun _ _ _ _ ha hone => reserveOne_bound hone ha

/-! ## Reassignment -/

variable {s' : AccountState}

theorem clearStock_other {ids : List String} {j : String} (h : j ∉ ids) :
    (ids.foldl clearStock orders).get? j = orders.get? j := by
  induction ids generalizing orders with
  | nil => rfl
  | cons id ids ih =>
      rw [List.mem_cons, not_or] at h
      rw [List.foldl_cons, ih h.2, clearStock]
      split
      · rfl
      · exact Dict.get?_set_of_ne h.1

theorem reassignAll_ok {ids : List String} {a b : Dict String Order} (hnodup : ids.Nodup)
    (h : walk (reassign z at_ (fifoLots lots)) a ids = .ok b) :
    (∀ j, j ∉ ids → b.get? j = a.get? j) ∧
      ∀ j ∈ ids, ∃ o, b.get? j = some o ∧ SaleBound z at_ lots o := by
  induction ids generalizing a with
  | nil =>
      cases h
      exact ⟨fun _ _ => rfl, by simp⟩
  | cons id ids ih =>
      obtain ⟨mid, hone, hrest⟩ := walk_cons_ok.mp h
      rw [List.nodup_cons] at hnodup
      obtain ⟨hother, hall⟩ := ih hnodup.2 hrest
      obtain ⟨order, horder, hleft, rfl⟩ := reassign_ok hone
      refine ⟨fun j hj => ?_, fun j hj => ?_⟩
      · rw [List.mem_cons, not_or] at hj
        rw [hother j hj.2, Dict.get?_set_of_ne hj.1]
      · rcases List.mem_cons.mp hj with rfl | hj
        · refine ⟨_, by rw [hother j hnodup.1, Dict.get?_set_self], ?_, fun e he => ?_⟩
          · rw [claimed_filter, claimed, takeFifo_sum, hleft, sub_zero]
            rfl
          · obtain ⟨l, hl, hu⟩ := takeFifo_mem (List.mem_filter.mp he).1
            exact ⟨l, mem_fifoLots.mp hl, hu⟩
        · exact hall j hj

variable {executing : Order}

theorem mem_reallocated {j : String}
    (hexec : orders.get? id = some executing) (hselling : executing.selling = true) :
    j ∈ reallocated orders executing id ↔ ∃ o, orders.get? j = some o ∧
      o.security = executing.security ∧ o.selling = true := by
  simp only [reallocated, List.mem_cons, List.mem_map, List.mem_filter,
    Bool.and_eq_true, decide_eq_true_eq, Prod.exists, exists_and_right,
    exists_eq_right]
  constructor
  · rintro (rfl | ⟨o, hmem, ⟨⟨hsec, hside⟩, hheld⟩, -⟩)
    · exact ⟨executing, hexec, rfl, hselling⟩
    · exact ⟨o, Dict.mem_entries.mp hmem, hsec, Order.selling_iff.mpr ⟨hside, hheld⟩⟩
  · rintro ⟨o, ho, hsec, hs⟩
    by_cases hj : j = id
    · exact Or.inl hj
    · obtain ⟨hside, hheld⟩ := Order.selling_iff.mp hs
      exact Or.inr ⟨o, Dict.mem_entries.mpr ho, ⟨⟨hsec, hside⟩, hheld⟩, hj⟩

theorem reallocated_nodup : (reallocated orders executing id).Nodup := by
  rw [reallocated, List.nodup_cons]
  refine ⟨fun hmem => ?_, ?_⟩
  · obtain ⟨e, he, heq⟩ := List.mem_map.mp hmem
    have := (List.mem_filter.mp he).2
    simp [heq] at this
  · exact orders.keys_nodup.sublist (List.Sublist.map _ List.filter_sublist)

theorem reallocateSellFifo_bound (h : reallocateSellFifo z s id at_ = .ok s')
    (hexec : s.orders.get? id = some executing) (hselling : executing.selling = true)
    (hb : Bound z at_ s.stockLots s.orders) : Bound z at_ s'.stockLots s'.orders := by
  obtain ⟨hcore, -⟩ := reallocateSellFifo_core h
  obtain ⟨executing', orders, hexec', hwalk, rfl⟩ := reallocateSellFifo_ok h
  cases hexec.symm.trans hexec'
  obtain ⟨hother, hall⟩ := reassignAll_ok reallocated_nodup hwalk
  intro j o ho
  by_cases hj : j ∈ reallocated s.orders executing id
  · obtain ⟨o', ho', hbound⟩ := hall j hj
    cases ho.symm.trans ho'
    obtain ⟨old, hold, -, hs⟩ := (mem_reallocated hexec hselling).mp hj
    obtain ⟨new, hnew, hc⟩ := hcore.get hold
    cases ho.symm.trans hnew
    obtain ⟨hres, hstatus, -⟩ := Order.core_eq hc
    refine ClaimBound.of_sale hbound ?_
    rw [Order.selling, hres, hstatus]
    exact hs
  · have hsame : orders.get? j = s.orders.get? j := by
      rw [hother j hj, clearStock_other hj]
    exact hb j o (hsame ▸ ho)

/-! ## Fills -/

variable {es : List Entry}

theorem disposeLots_claims {pending : ℤ} {claims : List (String × ℤ)} {d : Disposal}
    (h : disposeLots z at_ pending claims s = .ok d) :
    d.stockReserved.map Prod.fst = claims.map Prod.fst ∧
      claimed d.stockReserved = claimed claims - (pending - d.pending) ∧
      ∀ keep, LotsSteady keep s.stockLots d.state.stockLots := by
  induction claims generalizing pending s d with
  | nil =>
      cases pure_ok.mp h
      exact ⟨rfl, by simp, fun keep => LotsSteady.refl keep _⟩
  | cons x rest ih =>
      obtain ⟨k, reserved⟩ := x
      simp only [disposeLots, bind_ok, need_ok] at h
      obtain ⟨⟨s1, tax, es⟩, hassess, lot, hlot, h⟩ := h
      obtain ⟨-, -, hlots⟩ := assessDisposal_writes hassess
      have hcut : ∀ keep, LotsSteady keep s.stockLots (s1.stockLots.set k
          { lot with quantity := lot.quantity - min pending reserved }) := by
        intro keep
        have hlots' : s1.stockLots = s.stockLots := hlots
        rw [hlots'] at hlot ⊢
        exact LotsSteady.set_old hlot rfl rfl rfl
      split at h
      · next hdone =>
          cases pure_ok.mp h
          refine ⟨rfl, ?_, hcut⟩
          simp only [claimed, List.map_cons, List.sum_cons]
          omega
      · simp only [bind_ok, pure_ok] at h
        obtain ⟨d', hrest, rfl⟩ := h
        obtain ⟨hkeys, hsum, hsteady⟩ := ih hrest
        refine ⟨by rw [List.map_cons, List.map_cons, hkeys], ?_,
          fun keep => (hcut keep).trans (hsteady keep)⟩
        simp only [claimed, List.map_cons, List.sum_cons] at hsum ⊢
        omega

/-- What the branch of a fill leaves for `bookFill`: every other order as it
should be, and the filled one with the claims of what will remain. -/
structure FilledBound (z : Zone) (t : FillTerms) (s : AccountState) : Prop where
  others : ∀ j o, s.orders.get? j = some o → j ≠ t.orderId →
    ClaimBound z t.at_ s.stockLots o
  filled : ∀ o, s.orders.get? t.orderId = some o →
    o.toReservation = t.order.toReservation ∧
      o.filledQuantity = t.order.filledQuantity ∧ o.status = t.order.status ∧
      claimed o.stockReserved
        = (if t.order.side = .sell then t.remaining else 0) ∧
      (t.order.side = .sell → ∀ e ∈ o.stockReserved, ∃ l,
        s.stockLots.get? e.1 = some l ∧ disposable z t.at_ o.security l = true)

theorem fillBuy_bound {t : FillTerms} (horder : s.orders.get? t.orderId = some t.order)
    (hside : t.order.side = .buy) (hfresh : s.stockLots.get? t.actionId = none)
    (h : fillBuy spec t s = .ok (s', es)) (hb : Bound spec.zone t.at_ s.stockLots s.orders) :
    FilledBound spec.zone t s' := by
  simp only [fillBuy, bind_ok, refuse_ok, pure_ok, Prod.mk.injEq] at h
  obtain ⟨-, -, lots, -, sellable, -, rfl, -⟩ := h
  have hlots := hb.steady (fun _ => True) (fun _ _ _ _ => trivial)
    (LotsSteady.set_new (l := {
      security := t.order.security
      quantity := t.quantity
      acquiredOn := spec.zone.date t.at_
      sellableOn := sellable
      availableAt := t.receipt
      costBasis := (t.gross + t.charge) / t.quantity
      acquiredSequence := s.nextLotSequence }) hfresh)
  refine ⟨fun j o ho hj => ?_, fun o ho => ?_⟩
  · simp only [Dict.get?_set_of_ne hj] at ho
    exact hlots j o ho
  · simp only [Dict.get?_set_self, Option.some.injEq] at ho
    subst ho
    have hnone : t.order.selling = false := by simp [Order.selling, hside]
    have hzero := hb t.orderId t.order horder
    rw [ClaimBound, if_neg (by rw [hnone]; simp)] at hzero
    refine ⟨rfl, rfl, rfl, ?_, fun hsell => ?_⟩
    · rw [if_neg (by rw [hside]; simp)]
      exact hzero
    · rw [hside] at hsell
      cases hsell

theorem settleProceeds_stock {t : FillTerms} {net : ℚ}
    (h : settleProceeds spec t net s = .ok (s', es)) :
    s'.stockLots = s.stockLots ∧ s'.orders = s.orders := by
  rcases settleProceeds_ok h with ⟨-, paid, lots, -, -, rfl, -⟩ | ⟨-, rfl, -⟩ |
    ⟨-, lot, -, rfl, -⟩
  · exact ⟨rfl, rfl⟩
  · exact ⟨rfl, rfl⟩
  · exact ⟨rfl, rfl⟩

theorem fillSell_bound {t : FillTerms} (horder : s.orders.get? t.orderId = some t.order)
    (hselling : t.order.selling = true) (h : fillSell spec t s = .ok (s', es))
    (hb : Bound spec.zone t.at_ s.stockLots s.orders) : FilledBound spec.zone t s' := by
  obtain ⟨s1, order, d, es2, hrealloc, hget, hdispose, hpending, hsettle, -⟩ :=
    fillSell_ok h
  have hb1 := reallocateSellFifo_bound hrealloc horder hselling hb
  obtain ⟨hcore, -⟩ := reallocateSellFifo_core hrealloc
  obtain ⟨order', hget', hoc⟩ := hcore.get horder
  cases hget.symm.trans hget'
  obtain ⟨hres, hstatus, hfilled, -⟩ := Order.core_eq hoc
  have hsale : SaleBound spec.zone t.at_ s1.stockLots order := by
    refine (hb1 _ _ hget).sale ?_
    rw [Order.selling, hres, hstatus]
    exact hselling
  obtain ⟨hkeys, hsum, hsteady⟩ := disposeLots_claims hdispose
  have horders := disposeLots_orders hdispose
  obtain ⟨hlots', horders'⟩ := settleProceeds_stock hsettle
  have hb2 : Bound spec.zone t.at_ d.state.stockLots d.state.orders := by
    rw [horders]
    exact hb1.steady (fun _ => True) (fun _ _ _ _ => trivial) (hsteady _)
  refine ⟨fun j o ho hj => ?_, fun o ho => ?_⟩
  · rw [horders', AccountState.setOrder_orders, Dict.get?_set_of_ne hj] at ho
    rw [hlots']
    exact hb2 j o ho
  · rw [horders', AccountState.setOrder_orders, Dict.get?_set_self] at ho
    cases ho
    refine ⟨hres, hfilled, hstatus, ?_, fun _ e he => ?_⟩
    · have hside := (Order.selling_iff.mp hselling).1
      have htotal := hsale.total
      rw [hpending] at hsum
      rw [if_pos hside, FillTerms.remaining]
      rw [Order.remaining, hres, hfilled] at htotal
      show claimed d.stockReserved = _
      omega
    · have hkey : e.1 ∈ order.stockReserved.map Prod.fst := by
        rw [← hkeys]
        exact List.mem_map_of_mem he
      obtain ⟨f, hf, heq⟩ := List.mem_map.mp hkey
      obtain ⟨l, hl, hd⟩ := hsale.lots f hf
      obtain ⟨l', hl', -, hd'⟩ := hsteady (fun _ => True) f.1 l hl trivial
      rw [hlots', ← heq]
      exact ⟨l', hl', by rw [hd']; exact hd⟩

variable {aid : String}

theorem fill_bound {quantity : ℤ} {price : ℚ} {o : Outcome}
    (h : fill spec aid id quantity price at_ s = .ok o)
    (hfresh : FreshKeys s ((AccountRequest.fill id quantity price at_).lotKeys aid s))
    (hb : Bound spec.zone at_ s.stockLots s.orders) :
    Bound spec.zone at_ o.state.stockLots o.state.orders := by
  obtain ⟨t, s1, es, order, hterms, hbranch, hget, rfl⟩ := fill_ok h
  obtain ⟨horder, hexec, -, hle, -, haid, hid, hq, hat, -⟩ := fillTerms_ok hterms
  have hheld := OrderStatus.held_of_executable hexec
  rw [← hid] at hget
  rw [← hat] at hb ⊢
  have hbranched : FilledBound spec.zone t s1 := by
    simp only [fillSide] at hbranch
    split at hbranch
    · next hside =>
        refine fillBuy_bound (hid ▸ horder) hside ?_ hbranch hb
        rw [haid]
        simp only [AccountRequest.lotKeys, horder, hside, if_true] at hfresh
        exact hfresh.2 aid List.mem_cons_self
    · next hside =>
        exact fillSell_bound (hid ▸ horder)
          (Order.selling_iff.mpr ⟨hside, hheld⟩) hbranch hb
  obtain ⟨hres, hfilled, hstatus, hclaimed, hlots⟩ := hbranched.filled order hget
  intro j p hp
  simp only [bookFill, Dict.get?_set] at hp ⊢
  split at hp
  · next hj =>
      cases hp
      by_cases hside : t.order.side = .sell
      · rw [if_pos hside] at hclaimed
        by_cases h0 : t.remaining = 0
        · refine ClaimBound.of_none (hclaimed.trans h0) ?_
          simp [Order.selling, h0, OrderStatus.held]
        · refine ClaimBound.of_sale ⟨?_, hlots hside⟩ ?_
          · have hleft : t.remaining
                = order.quantity - (order.filledQuantity + t.quantity) := by
              rw [FillTerms.remaining, hres, hfilled]
              omega
            exact hclaimed.trans hleft
          · have hside' : order.side = .sell := hres ▸ hside
            simp only [Order.selling, hside', if_neg h0]
            split <;> rfl
      · rw [if_neg hside] at hclaimed
        refine ClaimBound.of_none hclaimed ?_
        have hside' : order.side ≠ .sell := hres ▸ hside
        simp [Order.selling, hside']
  · next hj => exact hbranched.others j p hp hj

/-! ## Corporate actions and settlements -/

theorem splits_steady {terms : CorporateTerms} {ratio : ℚ} {tradable : Stamp}
    {es : List Entitlement} (h : walk (splitOne spec terms ratio tradable at_) acc es = .ok acc')
    (hin : EntitledIn terms.security acc.1 es) :
    LotsSteady (fun sec => sec ≠ terms.security) acc.1.stockLots acc'.1.stockLots := by
  induction es generalizing acc with
  | nil =>
      cases h
      exact LotsSteady.refl _ _
  | cons e es ih =>
      obtain ⟨mid, hone, hrest⟩ := walk_cons_ok.mp h
      obtain ⟨lot, quantity, obligations, hlot, -, -, -, rfl⟩ := splitOne_ok hone
      obtain ⟨lot', hlot', hsec⟩ := hin e List.mem_cons_self
      cases hlot.symm.trans hlot'
      refine LotsSteady.trans (LotsSteady.set_other hlot (not_not.mpr hsec)) (ih hrest ?_)
      have hnew : (splitLot spec terms at_ tradable quantity e.quantity lot).security
          = terms.security := hsec
      exact EntitledIn.set (fun f hf => hin f (List.mem_cons_of_mem _ hf)) hnew rfl

theorem bonuses_steady {terms : CorporateTerms} {ratio : ℚ} {tradable : Stamp}
    {es : List Entitlement} (h : walk (bonusOne spec id terms ratio tradable at_) acc es = .ok acc')
    (hfresh : FreshKeys acc.1 (es.map fun e => bonusLotId id e.lotId)) :
    LotsSteady (fun _ => True) acc.1.stockLots acc'.1.stockLots := by
  induction es generalizing acc with
  | nil =>
      cases h
      exact LotsSteady.refl _ _
  | cons e es ih =>
      obtain ⟨mid, hone, hrest⟩ := walk_cons_ok.mp h
      rw [List.map_cons, ← List.singleton_append] at hfresh
      obtain ⟨hnew, hlater⟩ := hfresh.split (bonusOne_keeps hone).lots
      refine LotsSteady.trans ?_ (ih hrest hlater)
      obtain ⟨lot, bonus, basis, rfl, hlot, -⟩ := bonusOne_ok hone
      have hfree := hnew.2 _ List.mem_cons_self
      have hne : bonusLotId id e.lotId ≠ e.lotId := fun heq => by
        rw [heq, hlot] at hfree
        cases hfree
      have hold : LotsSteady (fun _ => True) acc.1.stockLots
          (acc.1.stockLots.set e.lotId { lot with costBasis := basis }) :=
        LotsSteady.set_old hlot rfl rfl rfl
      refine hold.trans (LotsSteady.set_new ?_)
      rw [Dict.get?_set_of_ne hne, hfree]

theorem corporateApply_bound {t : Instant} {o : Outcome}
    (h : corporateApply spec id t s = .ok o) (hs : Sound s) (hent : Entitled s)
    (hfresh : FreshKeys s ((AccountRequest.corporateApply id t).lotKeys aid s))
    (hb : Bound z at_ s.stockLots s.orders) : Bound z at_ o.state.stockLots o.state.orders := by
  rw [(corporateApply_sound h hs).2.orders]
  obtain ⟨item, s1, es, item', rfl, hitem, -, -, hheld, hkind, -⟩ :=
    corporateApply_ok h
  have hin : EntitledIn item.terms.security s item.entitlements :=
    hent id item hitem
  simp only [applyKind] at hkind
  split at hkind
  · simp only [bind_ok, need_ok, pure_ok, Prod.mk.injEq] at hkind
    obtain ⟨receivable, -, rfl, -⟩ := hkind
    exact hb
  · simp only [bind_ok, need_ok] at hkind
    obtain ⟨ratio, -, tradable, -, hwalk⟩ := hkind
    refine hb.steady _ (fun j p hp hs hsec => ?_) (splits_steady hwalk hin)
    have hlive := (Order.selling_iff.mp hs).2
    rw [hheld j p hp hsec] at hlive
    cases hlive
  · next hbonus =>
      simp only [bind_ok, need_ok, refuse_ok] at hkind
      obtain ⟨-, -, ratio, -, tradable, -, hwalk⟩ := hkind
      simp only [AccountRequest.lotKeys, hitem, hbonus, if_true] at hfresh
      exact hb.steady (fun _ => True) (fun _ _ _ _ => trivial)
        (bonuses_steady hwalk hfresh)
  · cases hkind

theorem conversions_steady {terms : SettlementTerms} {acc acc' : Conversion}
    {as : List LotConsideration} (h : walk (convertOne spec terms at_) acc as = .ok acc')
    (hfresh : FreshKeys acc.state (as.flatMap fun a => a.newKeys terms.settlementId)) :
    LotsSteady (fun _ => True) acc.state.stockLots acc'.state.stockLots := by
  induction as generalizing acc with
  | nil =>
      cases h
      exact LotsSteady.refl _ _
  | cons a as ih =>
      obtain ⟨mid, hone, hrest⟩ := walk_cons_ok.mp h
      rw [List.flatMap_cons] at hfresh
      obtain ⟨hnew, hlater⟩ := hfresh.split (convertOne_keeps hone).lots
      refine LotsSteady.trans ?_ (ih hrest hlater)
      obtain ⟨lot, s1, tax, es1, s2, es2, created, retired, rfl, -, htax, hreplace,
        hretired⟩ := convertOne_ok hone
      obtain ⟨-, hlots1, -⟩ := treatTax_writes htax
      have hadded : LotsSteady (fun _ => True) acc.state.stockLots s2.stockLots := by
        rcases replaceLot_ok hreplace with ⟨-, rfl, -⟩ | ⟨h0, new, next, rfl, -⟩
        · rw [hlots1]
          exact LotsSteady.refl _ _
        · rw [hlots1]
          refine LotsSteady.set_new (hnew.2 _ ?_)
          rw [LotConsideration.newKeys, if_pos h0]
          exact List.mem_cons_self
      exact hadded.trans (LotsSteady.set_old hretired rfl rfl rfl)

theorem specialSettlement_bound {terms : SettlementTerms} {t : Instant} {o : Outcome}
    (h : specialSettlement spec terms t s = .ok o) (hs : Sound s)
    (hfresh : FreshKeys s terms.newKeys) (hb : Bound z at_ s.stockLots s.orders) :
    Bound z at_ o.state.stockLots o.state.orders := by
  rw [(specialSettlement_sound h hs).2.orders]
  obtain ⟨-, c, receivables, item, claim, hwalk, -, -, -, rfl⟩ := specialSettlement_ok h
  exact hb.steady (fun _ => True) (fun _ _ _ _ => trivial)
    (conversions_steady hwalk hfresh)

/-! ## Every operation -/

theorem perform_bound {r : AccountRequest} {o : Outcome}
    (hcheck : r.check = .ok ()) (h : perform spec aid r s = .ok o) (hs : Sound s)
    (hent : Entitled s) (hfresh : FreshKeys s (r.lotKeys aid s))
    (hb : Bound spec.zone o.at_ s.stockLots s.orders) :
    Bound spec.zone o.at_ o.state.stockLots o.state.orders := by
  cases r with
  | reserveBatch orders at_ =>
      obtain ⟨-, -, hat, -⟩ := reserveBatch_ok h
      rw [hat] at hb ⊢
      exact reserveBatch_bound h hb
  | fill id quantity price at_ =>
      obtain ⟨t, s1, es, order, -, -, -, ho⟩ := fill_ok h
      have hat : o.at_ = at_ := congrArg Outcome.at_ ho
      rw [hat] at hb ⊢
      exact fill_bound h hfresh hb
  | cancelRequest id at_ =>
      obtain ⟨order, horder, hstatus, rfl⟩ := cancelRequest_ok h
      refine hb.set ((hb id order horder).moved .cancelPending
        order.cancelEffectiveAt fun _ => ?_)
      rcases hstatus with hstatus | hstatus <;> rw [hstatus] <;> rfl
  | release id reason at_ =>
      obtain ⟨order, horder, -, -, rfl⟩ := release_ok h
      refine hb.set (ClaimBound.of_none rfl ?_)
      have hterminal : reason.held = false := by
        simp only [AccountRequest.check, releasable, refuse_ok] at hcheck
        cases reason <;> simp_all [OrderStatus.held]
      simp [Order.selling, hterminal]
  | checkpoint at_ =>
      cases h
      exact hb
  | settlePayables at_ =>
      obtain ⟨lots, -, rfl⟩ := settlePayables_ok h
      exact hb
  | corporateRegister terms at_ =>
      simp only [perform, bind_ok] at h
      obtain ⟨_, -, h⟩ := h
      obtain ⟨-, item, receivables, obligations, entries, rfl, -⟩ :=
        corporateRegister_ok h
      exact hb
  | corporateApply id at_ => exact corporateApply_bound h hs hent hfresh hb
  | corporatePay id at_ =>
      obtain ⟨item, receivable, item', receivable', rfl, -⟩ := corporatePay_ok h
      exact hb
  | specialSettlement terms at_ =>
      simp only [perform, bind_ok] at h
      obtain ⟨_, -, h⟩ := h
      have hkeys : (AccountRequest.specialSettlement terms at_).lotKeys aid s
          = terms.newKeys := filter_map_flatMap _ _ _
      rw [hkeys] at hfresh
      exact specialSettlement_bound h hs hfresh hb
  | specialSettlementPay id at_ =>
      obtain ⟨item, rid, receivable, receivable', item', rfl, -⟩ :=
        specialSettlementPay_ok h
      exact hb

/-! ## Runs -/

structure ShareSound (spec : AccountSpec) (s : AccountState) : Prop where
  funded : Funded spec.zone s
  entitled : Entitled s
  bound : ∃ last, s.lastEventAt = some last ∧
    Bound spec.zone last s.stockLots s.orders

theorem ShareSound.boundAt (h : ShareSound spec s) (hat : ∀ last ∈ s.lastEventAt, last ≤ at_) :
    Bound spec.zone at_ s.stockLots s.orders := by
  obtain ⟨last, hlast, hb⟩ := h.bound
  exact hb.later (hat last hlast)

theorem SealedAs.shareSound {operation : Operation} {o o' : Outcome}
    (h : SealedAs operation o o') (hf : Funded spec.zone o'.state) (hent : Entitled o'.state)
    (hb : Bound spec.zone o.at_ o.state.stockLots o.state.orders) : ShareSound spec o'.state := by
  refine ⟨hf, hent, o.at_, h.cash.2.2.2, ?_⟩
  obtain ⟨_, _, -, -, hstate⟩ := h.state
  rw [hstate]
  exact hb

theorem ShareSound.setStatus (h : ShareSound spec s) (ho : s.orders.get? id = some o)
    {status : OrderStatus} (t : Option Instant)
    (hheld : o.side = .sell → status.held = o.status.held) :
    ShareSound spec
      (s.setOrder id { o with status := status, cancelEffectiveAt := t }) := by
  obtain ⟨last, hlast, hb⟩ := h.bound
  exact ⟨h.funded.setStatus ho status t, h.entitled, last, hlast,
    hb.set ((hb id o ho).moved status t hheld)⟩

theorem perform_fresh {r : AccountRequest} {o o' : Outcome} {operation : Operation}
    (hrun : perform spec aid r s = .ok o) (hseal : prepareState spec operation o = .ok o')
    (hfresh : FreshKeys s
      ([(aid, StageRequest.account r)].flatMap fun a => a.2.lotKeys a.1 o'.state)) :
    FreshKeys s (r.lotKeys aid s) := by
  obtain ⟨ks, hperform, hks⟩ := perform_writes hrun
  have hafter := (prepareState_ok hseal).writes hperform
  have hboth : r.lotKeys aid s = r.lotKeys aid o'.state := by
    rw [hks s (OrdersKept.refl _) (ActionsKept.refl _),
      hks o'.state hafter.orders hafter.actions]
  simpa [StageRequest.lotKeys, hboth] using hfresh

variable {t : AccountState} {as : List Act}

theorem LedgerRun.fresh_invariant {d : Discipline} {P : AccountState → Prop}
    (h : LedgerRun spec d s as es t)
    (hfresh : FreshKeys s (as.flatMap fun a => a.2.lotKeys a.1 t)) (hs : P s)
    (hstep : ∀ a b acts entries, P a → LedgerStep spec d a acts entries b →
      FreshKeys a (acts.flatMap fun x => x.2.lotKeys x.1 b) → P b) : P t := by
  induction h with
  | refl => exact hs
  | @tail as bs es fs t u hrun hlast ih =>
      obtain ⟨ks, hw, hk⟩ := hrun.writes
      obtain ⟨js, hw', -⟩ := hlast.writes
      rw [List.flatMap_append, hk u hw'.orders hw'.actions] at hfresh
      obtain ⟨hfirst, hlater⟩ := hfresh.split hw.lots
      refine hstep _ _ _ _ (ih ?_) hlast hlater
      rwa [hk t (OrdersKept.refl _) (ActionsKept.refl _)]

theorem LedgerStep.shareSound (h : LedgerStep spec .strict s as es t)
    (hfresh : FreshKeys s (as.flatMap fun a => a.2.lotKeys a.1 t)) (hs : ShareSound spec s) :
    ShareSound spec t := by
  have hfunded := h.funded hs.funded
  obtain ⟨keys, hw, hkeys⟩ := h.writes
  have hent : Entitled t := by
    rw [hkeys t (OrdersKept.refl _) (ActionsKept.refl _)] at hfresh
    exact (hw.effect hfresh hs.entitled).1
  cases h with
  | @account aid r s o o' hcheck hrun hseal =>
      have hsealed := prepareState_ok hseal
      have hlast := perform_lastEventAt hcheck hrun hs.funded.sound hs.funded.valid
      exact hsealed.shareSound hfunded hent (perform_bound hcheck hrun
        hs.funded.sound hs.entitled (perform_fresh hrun hseal hfresh)
        (hs.boundAt (hlast ▸ hsealed.ordered)))
  | @moved aid id reason status at_ vis s order o o' horder hheld hmove hrun hseal =>
      obtain ⟨order', horder', rfl⟩ := orderMarketState_ok hrun
      cases horder.symm.trans horder'
      have hsealed := prepareState_ok hseal
      refine hsealed.shareSound hfunded hent ((hs.boundAt hsealed.ordered).set
        ((hs.boundAt hsealed.ordered id order horder).moved status
          order.cancelEffectiveAt fun hside => ?_))
      rw [hheld, hmove hside]
  | @marked id s order status t horder hstatus =>
      refine hs.setStatus horder t fun _ => ?_
      rcases hstatus with rfl | ⟨rfl, hsend⟩
      · rfl
      · have hreserved : order.status = .reserved := hsend
        rw [hreserved]
        rfl
  | resealed hseal =>
      have hsealed := prepareState_ok hseal
      exact hsealed.shareSound hfunded hent (hs.boundAt hsealed.ordered)

theorem LedgerRun.shareSound (h : LedgerRun spec .strict s as es t)
    (hfresh : FreshKeys s (as.flatMap fun a => a.2.lotKeys a.1 t)) (hs : ShareSound spec s) :
    ShareSound spec t :=
  h.fresh_invariant hfresh hs fun _ _ _ _ ha hstep hkeys =>
    hstep.shareSound hkeys ha

theorem opening_shareSound {o o' : Outcome} (hinit : initializeAccount spec = .ok o)
    (hseal : prepareState spec .opening o = .ok o') : ShareSound spec o'.state := by
  refine (prepareState_ok hseal).shareSound (opening_funded hinit hseal)
    (opening_balanced hinit hseal).2 ?_
  simp only [initializeAccount, bind_ok, refuse_ok, pure_ok] at hinit
  obtain ⟨-, -, rfl⟩ := hinit
  exact fun id p hp => by simp [initialState] at hp

end Ahunter.Sim
