import Ahunter.Proofs.Claims
import Ahunter.Proofs.Entitlements

/-!
# What every state of the ledger satisfies

`Sound` collects the facts about orders, tax obligations and deferred tax that
no operation breaks and no check repeats; `Valid` is what the validation at
every seal establishes again. Together they are what the later arguments about
cash and shares start from. An obligation's tax is always the rounded value of
its exact tax, so an assessment never gives money back, and tax is deferred on
dividends only.
-/

namespace Ahunter.Sim

open Ahunter.Lib

variable {spec : AccountSpec} {z : Zone} {at_ : Instant}

/-! ## The facts -/

variable {s s' : AccountState} {id : String}

structure OrderSound (o : Order) : Prop where
  turnover : 0 ≤ o.turnover
  filled : 0 ≤ o.filledQuantity
  within : o.filledQuantity ≤ o.quantity
  claims : ∀ e ∈ o.stockReserved, 0 ≤ e.2

structure ObligationSound (actions : Dict String CorporateItem)
    (o : Obligation) : Prop where
  basis : 0 ≤ o.basisRemaining
  assessed : o.assessed = rounded o.taxExact
  dividend : ∃ i, actions.get? o.actionId = some i ∧
    i.terms.action.kind = .dividend

def deferredOver (actions : Dict String CorporateItem) : ℚ :=
  actions.sum fun _ i => if i.distributed then 0 else i.deferredTax

structure Sound (s : AccountState) : Prop where
  orders : ∀ id o, s.orders.get? id = some o → OrderSound o
  obligations : ∀ k o, s.dividendObligations.get? k = some o →
    ObligationSound s.corporateActions o
  items : ∀ id i, s.corporateActions.get? id = some i →
    i.terms.action.kind ≠ .dividend → i.deferredTax = 0
  holds : ∀ h ∈ s.cashHolds, 0 ≤ h.amount
  deferred : s.deferredDividendTax = deferredOver s.corporateActions
  deferred_le : s.deferredDividendTax ≤ s.payables

/-- What `validate` establishes. -/
structure Valid (s : AccountState) : Prop where
  lots : ∀ l ∈ s.cashLots, 0 ≤ l.amount
  payables : 0 ≤ s.payables
  liabilities : 0 ≤ s.liabilities
  within : ClaimsWithin s.orders s.stockLots
  reserves : ∀ id o, s.orders.get? id = some o → 0 ≤ o.cashReserved

theorem validate_ok (h : validate s at_ = .ok ()) : Valid s := by
  simp only [validate, bind_ok, refuse_ok] at h
  obtain ⟨-, hcash, -, hstock, -, -, hreserve⟩ := h
  push Not at hcash hstock hreserve
  exact {
    lots := hcash.1
    payables := hcash.2.1
    liabilities := hcash.2.2
    within := fun k l hl => hstock (k, l) (Dict.mem_entries.mpr hl)
    reserves := fun id o ho => hreserve o (Dict.mem_values.mpr ⟨id, ho⟩) }

theorem Sound.claims (h : Sound s) : ClaimsNonneg s.orders :=
  fun id o ho => (h.orders id o ho).claims

theorem OrderSound.remaining {o : Order} (h : OrderSound o) : 0 ≤ o.remaining :=
  sub_nonneg.mpr h.within

theorem ObligationSound.kept {a b : Dict String CorporateItem} {o : Obligation}
    (h : ObligationSound a o) (hk : ActionsKept a b) : ObligationSound b o where
  basis := h.basis
  assessed := h.assessed
  dividend := by
    obtain ⟨i, hi, hkind⟩ := h.dividend
    obtain ⟨i', hi', ht, -⟩ := hk _ i hi
    exact ⟨i', hi', by rw [ht, hkind]⟩

theorem Sound.of_same (h : Sound s) (horders : ∀ id o, s'.orders.get? id = some o → OrderSound o)
    (hobligations : s'.dividendObligations = s.dividendObligations)
    (hactions : s'.corporateActions = s.corporateActions) (hholds : s'.cashHolds = s.cashHolds)
    (hdeferred : s'.deferredDividendTax = s.deferredDividendTax)
    (hpayables : s.deferredDividendTax ≤ s'.payables) : Sound s' where
  orders := horders
  obligations := by rw [hobligations, hactions]; exact h.obligations
  items := by rw [hactions]; exact h.items
  holds := by rw [hholds]; exact h.holds
  deferred := by rw [hdeferred, hactions, h.deferred]
  deferred_le := by rw [hdeferred]; exact hpayables

theorem Sound.setOrder (h : Sound s) {o : Order} (ho : OrderSound o) : Sound (s.setOrder id o) := by
  refine h.of_same (fun j p hp => ?_) rfl rfl rfl rfl h.deferred_le
  rw [AccountState.setOrder_orders, Dict.get?_set] at hp
  split at hp
  · cases hp
    exact ho
  · exact h.orders j p hp

/-! ## Sealing -/

variable {o : Outcome}

theorem SealedAs.sound {operation : Operation} {o' : Outcome} (h : SealedAs operation o o')
    (hs : Sound o.state) : Sound o'.state ∧ Valid o'.state := by
  refine ⟨?_, validate_ok h.valid⟩
  obtain ⟨obligations, total, hrenewed, -, hstate⟩ := h.state
  rw [hstate]
  refine ⟨hs.orders, fun k ob hob => ?_, hs.items, hs.holds, hs.deferred,
    hs.deferred_le⟩
  -- A renewed obligation differs from the old one in its reserve only.
  have hsame := hrenewed.same k
  rw [hob, Option.map_some] at hsame
  obtain ⟨old, hold, hcore⟩ := Option.map_eq_some_iff.mp hsame.symm
  have hsound := hs.obligations k old hold
  simp only [Obligation.core, Obligation.mk.injEq] at hcore
  obtain ⟨haction, -, -, -, hbasis, hexact, hassessed, -, -⟩ := hcore
  exact {
    basis := hbasis ▸ hsound.basis
    assessed := by rw [← hassessed, ← hexact]; exact hsound.assessed
    dividend := haction ▸ hsound.dividend }

/-! ## Assessments -/

variable {quantity : ℤ} {es : List Entry}

structure Assessed (s s' : AccountState) : Prop where
  orders : s'.orders = s.orders
  cashLots : s'.cashLots = s.cashLots
  cashHolds : s'.cashHolds = s.cashHolds
  liabilities : s'.liabilities = s.liabilities
  lastEventAt : s'.lastEventAt = s.lastEventAt
  payables : s.payables ≤ s'.payables

theorem Assessed.refl (s : AccountState) : Assessed s s :=
  ⟨rfl, rfl, rfl, rfl, rfl, le_rfl⟩

theorem Assessed.trans {t u : AccountState} (h : Assessed s t) (h' : Assessed t u) : Assessed s u :=
  ⟨h'.orders.trans h.orders, h'.cashLots.trans h.cashLots,
    h'.cashHolds.trans h.cashHolds, h'.liabilities.trans h.liabilities,
    h'.lastEventAt.trans h.lastEventAt, h.payables.trans h'.payables⟩

theorem assessOne_sound {lotId : String} {acc acc' : Assessment} {key : String} {o : Obligation}
    (h : assessOne z lotId quantity at_ acc (key, o) = .ok acc') (hq : 0 ≤ quantity)
    (hs : Sound acc.state) (ho : ObligationSound acc.state.corporateActions o) :
    Sound acc'.state ∧ Assessed acc.state acc'.state ∧
      ActionsSame acc.state.corporateActions acc'.state.corporateActions := by
  rcases assessOne_ok h with rfl | ⟨rate, action, hrate, -, hshares, hle, haction,
    hcase⟩
  · exact ⟨hs, Assessed.refl _, ActionsSame.refl _⟩
  have hsharesQ : (0 : ℚ) < o.sharesRemaining := by exact_mod_cast hshares
  have hqQ : (0 : ℚ) ≤ quantity := by exact_mod_cast hq
  have hleQ : (quantity : ℚ) ≤ o.sharesRemaining := by exact_mod_cast hle
  set basis := o.basisRemaining * quantity / o.sharesRemaining with hbasis
  have hbasis0 : 0 ≤ basis :=
    div_nonneg (mul_nonneg ho.basis hqQ) hsharesQ.le
  have hbasisle : basis ≤ o.basisRemaining := by
    rw [hbasis, div_le_iff₀ hsharesQ]
    exact mul_le_mul_of_nonneg_left hleQ ho.basis
  have hincrement : 0 ≤ rounded (o.taxExact + basis * rate) - o.assessed := by
    rw [ho.assessed]
    exact sub_nonneg.mpr (rounded_mono
      (le_add_of_nonneg_right (mul_nonneg hbasis0 hrate)))
  set o' : Obligation := { o with
    basisRemaining := o.basisRemaining - basis
    sharesRemaining := o.sharesRemaining - quantity
    taxExact := o.taxExact + basis * rate
    assessed := rounded (o.taxExact + basis * rate) } with ho'
  have hob : ∀ actions, ActionsKept acc.state.corporateActions actions →
      ∀ k p, (acc.state.dividendObligations.set key o').get? k = some p →
        ObligationSound actions p := by
    intro actions hkept k p hp
    rw [Dict.get?_set] at hp
    split at hp
    · cases hp
      exact ⟨sub_nonneg.mpr hbasisle, rfl, (ho.kept hkept).dividend⟩
    · exact (hs.obligations k p hp).kept hkept
  rcases hcase with ⟨-, rfl⟩ | ⟨hopen, rfl⟩
  · exact ⟨⟨hs.orders, hob _ (ActionsKept.refl _), hs.items, hs.holds, hs.deferred,
      hs.deferred_le⟩, ⟨rfl, rfl, rfl, rfl, rfl, le_rfl⟩, ActionsSame.refl _⟩
  · set increment := rounded (o.taxExact + basis * rate) - o.assessed
    set action' : CorporateItem :=
      { action with deferredTax := action.deferredTax + increment } with haction'
    have hsame : ActionsSame acc.state.corporateActions
        (acc.state.corporateActions.set o.actionId action') :=
      ActionsSame.set haction rfl rfl
    refine ⟨⟨hs.orders, hob _ hsame.1, fun id i hi hkind => ?_, hs.holds, ?_,
      add_le_add_left hs.deferred_le _⟩,
      ⟨rfl, rfl, rfl, rfl, rfl, le_add_of_nonneg_right hincrement⟩, hsame⟩
    · simp only [Dict.get?_set] at hi
      split at hi
      · cases hi
        obtain ⟨i, hi, hk⟩ := ho.dividend
        cases haction.symm.trans hi
        exact absurd hk hkind
      · exact hs.items id i hi hkind
    · change acc.state.deferredDividendTax + increment
        = deferredOver (acc.state.corporateActions.set o.actionId action')
      rw [hs.deferred, deferredOver, deferredOver, Dict.sum_set_old haction]
      simp [haction', hopen]

theorem assessDisposal_sound {lotId : String} {tax : ℚ}
    (h : assessDisposal z s lotId quantity at_ = .ok (s', tax, es)) (hq : 0 ≤ quantity)
    (hs : Sound s) : Sound s' ∧ Assessed s s' := by
  obtain ⟨a, fees, hwalk, rfl, -, -⟩ := assessDisposal_ok h
  have hkeep := walk_induction (P := fun a : Assessment => Sound a.state ∧
      Assessed s a.state ∧
        ActionsSame s.corporateActions a.state.corporateActions) hwalk
    ⟨hs, Assessed.refl s, ActionsSame.refl _⟩
    fun acc e acc' he ⟨hsound, hass, hact⟩ hone => ?_
  · obtain ⟨hsound, hass, -⟩ := hkeep
    exact ⟨hsound.of_same hsound.orders rfl rfl rfl rfl hsound.deferred_le,
      ⟨hass.orders, hass.cashLots, hass.cashHolds, hass.liabilities,
        hass.lastEventAt, hass.payables⟩⟩
  · have ho := (hs.obligations e.1 e.2 (Dict.mem_entries.mp he)).kept hact.1
    obtain ⟨h1, h2, h3⟩ := assessOne_sound hone hq hsound ho
    refine ⟨h1, hass.trans h2, ?_, ?_⟩
    · exact hact.1.trans h3.1
    · exact h3.2.trans hact.2

theorem disposeLots_sound {pending : ℤ} {claims : List (String × ℤ)} {d : Disposal}
    (h : disposeLots z at_ pending claims s = .ok d) (hp : 0 ≤ pending)
    (hclaims : ∀ e ∈ claims, 0 ≤ e.2) (hs : Sound s) :
    Sound d.state ∧ Assessed s d.state ∧ ∀ e ∈ d.stockReserved, 0 ≤ e.2 := by
  induction claims generalizing pending s d with
  | nil =>
      cases pure_ok.mp h
      exact ⟨hs, Assessed.refl s, by simp⟩
  | cons x rest ih =>
      obtain ⟨k, reserved⟩ := x
      simp only [disposeLots, bind_ok, need_ok] at h
      obtain ⟨⟨s1, tax, es⟩, hassess, lot, -, h⟩ := h
      have hreserved : 0 ≤ reserved := hclaims (k, reserved) List.mem_cons_self
      have hrest : ∀ e ∈ rest, 0 ≤ e.2 := fun e he =>
        hclaims e (List.mem_cons_of_mem _ he)
      have hused : 0 ≤ min pending reserved := le_min hp hreserved
      have hkept : 0 ≤ reserved - min pending reserved :=
        sub_nonneg.mpr (min_le_right _ _)
      obtain ⟨hs1, hass1⟩ := assessDisposal_sound hassess hused hs
      have hcut : ∀ lots, Sound { s1 with stockLots := lots } ∧
          Assessed s { s1 with stockLots := lots } := fun lots =>
        ⟨hs1.of_same hs1.orders rfl rfl rfl rfl hs1.deferred_le,
          ⟨hass1.orders, hass1.cashLots, hass1.cashHolds, hass1.liabilities,
            hass1.lastEventAt, hass1.payables⟩⟩
      split at h
      · cases pure_ok.mp h
        refine ⟨(hcut _).1, (hcut _).2, fun e he => ?_⟩
        rcases List.mem_cons.mp he with rfl | he
        · exact hkept
        · exact hrest e he
      · simp only [bind_ok, pure_ok] at h
        obtain ⟨d', hd', rfl⟩ := h
        obtain ⟨hsd, hassd, hcd⟩ := ih hd'
          (sub_nonneg.mpr (min_le_left _ _)) hrest (hcut _).1
        refine ⟨hsd, (hcut _).2.trans hassd, fun e he => ?_⟩
        rcases List.mem_cons.mp he with rfl | he
        · exact hkept
        · exact hcd e he

/-! ## Reservations -/

theorem storedOrder_sound {r : Reservation} {cash : ℚ}
    {claims : List (String × ℤ)} (h : ∀ e ∈ claims, 0 ≤ e.2) :
    OrderSound { storedOrder spec r at_ with
      cashReserved := cash
      stockReserved := claims } where
  turnover := le_rfl
  filled := le_rfl
  within := r.quantity_pos.le
  claims := h

variable {acc acc' : AccountState × List Entry}

theorem reserveOne_sound {r : Reservation}
    (h : reserveOne spec at_ acc r = .ok acc') (hs : Sound acc.1)
    (hw : ClaimsWithin acc.1.orders acc.1.stockLots) :
    Sound acc'.1 ∧ ClaimsWithin acc'.1.orders acc'.1.stockLots := by
  obtain ⟨s, es⟩ := acc
  obtain ⟨s', es'⟩ := acc'
  obtain ⟨fees, -, hnew, ⟨-, -, rfl, -⟩ | ⟨-, -, rfl, -⟩⟩ := reserveOne_ok h
  · refine ⟨hs.setOrder (storedOrder_sound (by simp [storedOrder])), fun k l hl => ?_⟩
    rw [AccountState.setOrder_orders, stockFrozen_set_new hnew]
    simpa [Order.frozenOn, storedOrder] using hw k l hl
  · have htaken : Taken (disposable spec.zone at_ r.security) s.orders s.stockLots
        r.quantity _ := taken_of_takeFifo r.quantity_pos.le hw
    exact ⟨hs.setOrder (storedOrder_sound htaken.nonneg),
      ClaimsWithin.take hs.claims htaken⟩

theorem reserveBatch_sound {orders : List Reservation}
    (h : reserveBatch spec orders at_ s = .ok o) (hs : Sound s) (hv : Valid s) : Sound o.state := by
  simp only [reserveBatch, bind_ok] at h
  obtain ⟨acc, hwalk, h⟩ := h
  cases pure_ok.mp h
  exact (walk_induction (P := fun acc : AccountState × List Entry =>
    Sound acc.1 ∧ ClaimsWithin acc.1.orders acc.1.stockLots) hwalk ⟨hs, hv.within⟩
    fun _ _ _ _ hacc hone => reserveOne_sound hone hacc.1 hacc.2).1

/-! ## Fills -/

variable {lots : Dict String StockLot}

structure OrdersWithin (lots : Dict String StockLot)
    (orders : Dict String Order) : Prop where
  sound : ∀ id o, orders.get? id = some o → OrderSound o
  within : ClaimsWithin orders lots

variable {orders : Dict String Order}

theorem OrdersWithin.claims (h : OrdersWithin lots orders) :
    ClaimsNonneg orders := fun id o ho => (h.sound id o ho).claims

theorem OrdersWithin.set (h : OrdersWithin lots orders) {o : Order}
    (ho : OrderSound o) (hw : ClaimsWithin (orders.set id o) lots) :
    OrdersWithin lots (orders.set id o) := by
  refine ⟨fun j p hp => ?_, hw⟩
  rw [Dict.get?_set] at hp
  split at hp
  · cases hp
    exact ho
  · exact h.sound j p hp

theorem clearStock_within (h : OrdersWithin lots orders) (id : String) :
    OrdersWithin lots (clearStock orders id) := by
  unfold clearStock
  split
  · exact h
  · next o ho =>
      have hsound := h.sound id o ho
      refine h.set ⟨hsound.turnover, hsound.filled, hsound.within, by simp⟩
        fun k l hl => ?_
      have hold : 0 ≤ o.frozenOn k := claimOn_nonneg hsound.claims k
      have hle := h.within k l hl
      rw [stockFrozen_set ho]
      simp only [Order.frozenOn_eq, claimOn_nil] at hold ⊢
      omega

theorem reassign_within {a b : Dict String Order}
    (h : reassign z at_ (fifoLots lots) a id = .ok b) (ha : OrdersWithin lots a) :
    OrdersWithin lots b := by
  obtain ⟨order, horder, -, rfl⟩ := reassign_ok h
  have hsound := ha.sound id order horder
  have htaken : Taken (disposable z at_ order.security) a lots order.remaining _ :=
    (taken_of_takeFifo hsound.remaining ha.within).filter
  exact ha.set ⟨hsound.turnover, hsound.filled, hsound.within, htaken.nonneg⟩
    (ClaimsWithin.take ha.claims htaken)

theorem reallocateSellFifo_within (h : reallocateSellFifo z s id at_ = .ok s')
    (hs : OrdersWithin s.stockLots s.orders) : OrdersWithin s.stockLots s'.orders := by
  obtain ⟨executing, orders, -, hwalk, rfl⟩ := reallocateSellFifo_ok h
  have hclear : ∀ (ids : List String) (d : Dict String Order),
      OrdersWithin s.stockLots d →
        OrdersWithin s.stockLots (ids.foldl clearStock d) := by
    intro ids
    induction ids with
    | nil => exact fun d hd => hd
    | cons j js ih => exact fun d hd => ih _ (clearStock_within hd j)
  exact walk_induction (P := OrdersWithin s.stockLots) hwalk (hclear _ _ hs)
    fun _ _ _ _ ha hb => reassign_within hb ha

structure FillSound (t : FillTerms) : Prop where
  quantity : 0 < t.quantity
  remaining : 0 ≤ t.remaining
  gross : 0 ≤ t.gross
  charge : 0 ≤ t.charge
  after : 0 ≤ t.after
  reserve : 0 ≤ t.newReserve
  order : OrderSound t.order

variable {t : FillTerms}

theorem fillTerms_sound {aid : String} {price : ℚ}
    (h : fillTerms spec aid id quantity price at_ s = .ok t) (hq : 0 < quantity) (hp : 0 < price)
    (hs : Sound s) : FillSound t := by
  obtain ⟨horder, -, -, hle, -, -, -, htq, -, hgross, hcharges, -⟩ := fillTerms_ok h
  have hsound := hs.orders id t.order horder
  have hqQ : (0 : ℚ) < quantity := by exact_mod_cast hq
  have hgross0 : 0 ≤ t.gross := by
    rw [hgross]
    exact rounded_nonneg (mul_pos hp hqQ).le
  have hafter : 0 ≤ t.after := add_nonneg hsound.turnover hgross0
  have hremaining : 0 ≤ t.remaining := by
    have : quantity ≤ t.order.quantity - t.order.filledQuantity := hle
    rw [FillTerms.remaining, htq]
    omega
  refine ⟨htq ▸ hq, hremaining, hgross0, ?_, hafter, ?_, hsound⟩
  · rw [FillTerms.charge, hcharges, OrderFees.incremental_sum]
    exact sub_nonneg.mpr (t.fees.total_mono _ hsound.turnover
      (le_add_of_nonneg_right hgross0))
  · rw [FillTerms.newReserve]
    split
    · exact le_rfl
    · have hlimit : 0 ≤ t.order.limitPrice * t.remaining :=
        mul_nonneg t.order.limitPrice_pos.le (by exact_mod_cast hremaining)
      have hmono := t.fees.total_mono .buy hafter
        (le_add_of_nonneg_right hlimit)
      have hround := rounded_nonneg hlimit
      linarith

structure FilledFrom (t : FillTerms) (s : AccountState) : Prop where
  sound : Sound s
  order : ∀ order, s.orders.get? t.orderId = some order →
    OrderSound order ∧ order.quantity = t.order.quantity ∧
      order.filledQuantity = t.order.filledQuantity

theorem fillBuy_sound (h : fillBuy spec t s = .ok (s', es)) (ht : FillSound t) (hs : Sound s) :
    FilledFrom t s' := by
  simp only [fillBuy, bind_ok, refuse_ok, pure_ok, Prod.mk.injEq, not_lt] at h
  obtain ⟨-, hreleased, lots, -, sellable, -, rfl, -⟩ := h
  have ho : OrderSound { t.order with cashReserved := t.newReserve } :=
    ⟨ht.order.turnover, ht.order.filled, ht.order.within, ht.order.claims⟩
  refine ⟨⟨fun id o hget => ?_, hs.obligations, hs.items, fun hold hmem => ?_,
    hs.deferred, hs.deferred_le⟩, fun order hget => ?_⟩
  · simp only [Dict.get?_set] at hget
    split at hget
    · cases hget
      exact ho
    · exact hs.orders id o hget
  · rcases List.mem_append.mp hmem with hmem | hmem
    · exact hs.holds hold hmem
    · cases List.mem_singleton.mp hmem
      exact hreleased
  · simp only [Dict.get?_set_self, Option.some.injEq] at hget
    subst hget
    exact ⟨ho, rfl, rfl⟩

theorem settleProceeds_sound {net : ℚ}
    (h : settleProceeds spec t net s = .ok (s', es)) (hs : Sound s) :
    Sound s' ∧ s'.orders = s.orders := by
  rcases settleProceeds_ok h with ⟨hneg, paid, lots, hpaid, -, rfl, -⟩ |
    ⟨-, rfl, -⟩ | ⟨-, lot, -, rfl, -⟩
  · have hle : paid ≤ -net := hpaid ▸ min_le_left _ _
    refine ⟨hs.of_same hs.orders rfl rfl rfl rfl ?_, rfl⟩
    have := hs.deferred_le
    simp only
    linarith
  · exact ⟨hs, rfl⟩
  · exact ⟨hs.of_same hs.orders rfl rfl rfl rfl hs.deferred_le, rfl⟩

theorem fillSell_sound (horder : s.orders.get? t.orderId = some t.order)
    (h : fillSell spec t s = .ok (s', es)) (ht : FillSound t) (hs : Sound s) (hv : Valid s) :
    FilledFrom t s' := by
  obtain ⟨s1, order, d, es2, hrealloc, hget, hdispose, -, hsettle, -⟩ :=
    fillSell_ok h
  obtain ⟨hcore, heq⟩ := reallocateSellFifo_core hrealloc
  have hwithin := reallocateSellFifo_within hrealloc ⟨hs.orders, hv.within⟩
  have hs1 : Sound s1 := by
    rw [heq]
    exact hs.of_same hwithin.sound rfl rfl rfl rfl hs.deferred_le
  have hsound := hwithin.sound _ _ hget
  obtain ⟨hsd, hassd, hclaims⟩ :=
    disposeLots_sound hdispose ht.quantity.le hsound.claims hs1
  have hnew : OrderSound { order with stockReserved := d.stockReserved } :=
    ⟨hsound.turnover, hsound.filled, hsound.within, hclaims⟩
  obtain ⟨hs', horders'⟩ := settleProceeds_sound hsettle (hsd.setOrder hnew)
  refine ⟨hs', fun o ho => ?_⟩
  rw [horders', AccountState.setOrder_orders, Dict.get?_set_self] at ho
  cases ho
  obtain ⟨order', hget', hoc⟩ := hcore.get horder
  cases hget.symm.trans hget'
  obtain ⟨hr, -, hfilled, -⟩ := Order.core_eq hoc
  exact ⟨hnew, congrArg Reservation.quantity hr, hfilled⟩

theorem fill_sound {aid : String} {price : ℚ} (h : fill spec aid id quantity price at_ s = .ok o)
    (hq : 0 < quantity) (hp : 0 < price) (hs : Sound s) (hv : Valid s) : Sound o.state := by
  obtain ⟨t, s1, es, order, hterms, hbranch, hget, rfl⟩ := fill_ok h
  have ht := fillTerms_sound hterms hq hp hs
  obtain ⟨horder, -, -, -, -, -, hid, -⟩ := fillTerms_ok hterms
  rw [← hid] at horder hget
  have hfilled : FilledFrom t s1 := by
    simp only [fillSide] at hbranch
    split at hbranch
    · exact fillBuy_sound hbranch ht hs
    · exact fillSell_sound horder hbranch ht hs hv
  obtain ⟨hsound, hquantity, hprogress⟩ := hfilled.order order hget
  refine hfilled.sound.of_same (fun j p hp => ?_) rfl rfl rfl rfl
    hfilled.sound.deferred_le
  simp only [bookFill, Dict.get?_set] at hp
  split at hp
  · cases hp
    have hle := ht.remaining
    have hpos := ht.quantity
    have hfilled0 := hsound.filled
    simp only [FillTerms.remaining] at hle
    refine ⟨ht.after, ?_, ?_, hsound.claims⟩
    · simp only
      omega
    · simp only
      omega
  · exact hfilled.sound.orders j p hp

/-! ## Corporate entitlements and settlements -/

variable {terms : CorporateTerms}

theorem registrable_ok (h : registrable spec terms at_ = .ok ())
    (htax : terms.taxablePerOldShare ≠ 0) (hkind : terms.action.kind ≠ .rights) :
    terms.action.kind = .dividend := by
  simp only [registrable, bind_ok, refuse_ok] at h
  obtain ⟨-, hshares, -, hspecial, -⟩ := h
  push Not at hshares hspecial
  cases hk : terms.action.kind with
  | dividend => rfl
  | bonus => exact absurd (hshares (Or.inl hk)) htax
  | split => exact absurd (hshares (Or.inr hk)) htax
  | rights => exact absurd hk hkind
  | delisting => exact absurd hk hspecial.1
  | merger => exact absurd hk hspecial.2

theorem obligationsWith_get {d : Dict String Obligation} {policy : DividendTaxPolicy}
    {es : List Entitlement} {k : String} {o : Obligation}
    (h : (obligationsWith d terms policy es).get? k = some o) :
    d.get? k = some o ∨ ∃ e ∈ es, o = newObligation terms policy e := by
  induction es generalizing d with
  | nil => exact Or.inl h
  | cons e es ih =>
      rcases ih h with hd | ⟨e', he', rfl⟩
      · rw [Dict.get?_set] at hd
        split at hd
        · cases hd
          exact Or.inr ⟨e, List.mem_cons_self, rfl⟩
        · exact Or.inl hd
      · exact Or.inr ⟨e', List.mem_cons_of_mem _ he', rfl⟩

theorem corporateRegister_sound (hr : registrable spec terms at_ = .ok ())
    (h : corporateRegister spec terms at_ s = .ok o) (hs : Sound s) (hv : Valid s) :
    Sound o.state := by
  obtain ⟨hnew, item, receivables, obligations, entries, rfl,
    ⟨hterms, -, hdeferred, -⟩, -, hobligations, -⟩ := corporateRegister_ok h
  have hkept : ActionsKept s.corporateActions
      (s.corporateActions.set terms.action.actionId item) :=
    ActionsKept.set_new hnew
  refine ⟨hs.orders, fun k ob hob => ?_, fun id i hi hkind => ?_, hs.holds, ?_,
    hs.deferred_le⟩
  · rcases hobligations with rfl | ⟨hkind, htax, policy, rfl⟩
    · exact (hs.obligations k ob hob).kept hkept
    · rcases obligationsWith_get hob with hold | ⟨e, he, rfl⟩
      · exact (hs.obligations k ob hold).kept hkept
      · simp only [entitlementsOf, List.mem_map, List.mem_filter] at he
        obtain ⟨⟨j, l⟩, ⟨hmem, -⟩, rfl⟩ := he
        have hq : 0 ≤ l.quantity :=
          hv.within.lot_nonneg hs.claims (Dict.mem_entries.mp hmem)
        exact {
          basis := mul_nonneg (by exact_mod_cast hq) terms.taxable_nonneg
          assessed := rounded_zero.symm
          dividend := ⟨item, Dict.get?_set_self _ _ _, by
            rw [hterms]
            exact registrable_ok hr htax hkind⟩ }
  · simp only [Dict.get?_set] at hi
    split at hi
    · cases hi
      exact hdeferred
    · exact hs.items id i hi hkind
  · change s.deferredDividendTax
      = deferredOver (s.corporateActions.set terms.action.actionId item)
    rw [hs.deferred, deferredOver, deferredOver, Dict.sum_set_new hnew, hdeferred]
    simp

theorem splitObligation_sound {lotId : String} {factor : ℚ}
    {actions : Dict String CorporateItem} {a b : Dict String Obligation}
    {e : String × Obligation} (h : splitObligation lotId factor a e = .ok b)
    (he : ObligationSound actions e.2) (ha : ∀ k o, a.get? k = some o → ObligationSound actions o) :
    ∀ k o, b.get? k = some o → ObligationSound actions o := by
  simp only [splitObligation] at h
  split at h
  · cases pure_ok.mp h
    exact ha
  · simp only [bind_ok, refuse_ok, pure_ok] at h
    obtain ⟨-, -, rfl⟩ := h
    intro k o ho
    rw [Dict.get?_set] at ho
    split at ho
    · cases ho
      exact ⟨he.basis, he.assessed, he.dividend⟩
    · exact ha k o ho

theorem splitOne_sound {ratio : ℚ} {tradable : Stamp}
    {e : Entitlement} (h : splitOne spec terms ratio tradable at_ acc e = .ok acc')
    (hs : Sound acc.1) :
    Sound acc'.1 ∧ Assessed acc.1 acc'.1 ∧ acc'.1.corporateActions = acc.1.corporateActions := by
  obtain ⟨lot, quantity, obligations, -, -, -, hwalk, rfl⟩ := splitOne_ok h
  have hob := walk_induction (P := fun d : Dict String Obligation =>
    ∀ k o, d.get? k = some o → ObligationSound acc.1.corporateActions o) hwalk
    hs.obligations fun _ x _ hx ha hone => splitObligation_sound hone
      (hs.obligations x.1 x.2 (Dict.mem_entries.mp hx)) ha
  exact ⟨⟨hs.orders, hob, hs.items, hs.holds, hs.deferred, hs.deferred_le⟩,
    ⟨rfl, rfl, rfl, rfl, rfl, le_rfl⟩, rfl⟩

theorem bonusOne_sound {ratio : ℚ} {tradable : Stamp}
    {e : Entitlement} (h : bonusOne spec id terms ratio tradable at_ acc e = .ok acc')
    (hs : Sound acc.1) :
    Sound acc'.1 ∧ Assessed acc.1 acc'.1 ∧ acc'.1.corporateActions = acc.1.corporateActions := by
  obtain ⟨lot, bonus, basis, rfl, -⟩ := bonusOne_ok h
  exact ⟨hs.of_same hs.orders rfl rfl rfl rfl hs.deferred_le,
    ⟨rfl, rfl, rfl, rfl, rfl, le_rfl⟩, rfl⟩

theorem applyKind_sound {item : CorporateItem} (h : applyKind spec id item at_ s = .ok (s', es))
    (hs : Sound s) : Sound s' ∧ Assessed s s' ∧ s'.corporateActions = s.corporateActions := by
  let P : AccountState × List Entry → Prop := fun acc =>
    Sound acc.1 ∧ Assessed s acc.1 ∧ acc.1.corporateActions = s.corporateActions
  have hstart : P (s, []) := ⟨hs, Assessed.refl s, rfl⟩
  simp only [applyKind] at h
  split at h
  · simp only [bind_ok, need_ok, pure_ok, Prod.mk.injEq] at h
    obtain ⟨receivable, -, rfl, rfl⟩ := h
    exact ⟨hs.of_same hs.orders rfl rfl rfl rfl hs.deferred_le,
      ⟨rfl, rfl, rfl, rfl, rfl, le_rfl⟩, rfl⟩
  · simp only [bind_ok, need_ok] at h
    obtain ⟨ratio, -, tradable, -, hwalk⟩ := h
    exact walk_induction (P := P) hwalk hstart fun a e b _ ha hone => by
      obtain ⟨h1, h2, h3⟩ := splitOne_sound hone ha.1
      exact ⟨h1, ha.2.1.trans h2, h3.trans ha.2.2⟩
  · simp only [bind_ok, need_ok, refuse_ok] at h
    obtain ⟨-, -, ratio, -, tradable, -, hwalk⟩ := h
    exact walk_induction (P := P) hwalk hstart fun a e b _ ha hone => by
      obtain ⟨h1, h2, h3⟩ := bonusOne_sound hone ha.1
      exact ⟨h1, ha.2.1.trans h2, h3.trans ha.2.2⟩
  · cases h

theorem Sound.setItem (h : Sound s) {i i' : CorporateItem}
    (hi : s.corporateActions.get? id = some i) (hterms : i'.terms = i.terms)
    (hents : i'.entitlements = i.entitlements)
    (hitem : i'.terms.action.kind ≠ .dividend → i'.deferredTax = 0) {deferred payables : ℚ}
    (hdeferred : deferred = s.deferredDividendTax
      + ((if i'.distributed then 0 else i'.deferredTax)
        - (if i.distributed then 0 else i.deferredTax))) (hle : deferred ≤ payables)
    (hs' : s' = { s with
      corporateActions := s.corporateActions.set id i'
      deferredDividendTax := deferred
      payables := payables
      cashLots := s'.cashLots
      receivables := s'.receivables }) : Sound s' := by
  rw [hs']
  have hsame : ActionsSame s.corporateActions (s.corporateActions.set id i') :=
    ActionsSame.set hi hterms hents
  refine ⟨h.orders, fun k o ho => (h.obligations k o ho).kept hsame.1,
    fun j p hp hkind => ?_, h.holds, ?_, hle⟩
  · simp only [Dict.get?_set] at hp
    split at hp
    · cases hp
      exact hitem hkind
    · exact h.items j p hp hkind
  · change deferred = deferredOver (s.corporateActions.set id i')
    rw [hdeferred, h.deferred, deferredOver, deferredOver, Dict.sum_set_old hi]

theorem corporateApply_sound (h : corporateApply spec id at_ s = .ok o) (hs : Sound s) :
    Sound o.state ∧ Assessed s o.state := by
  obtain ⟨item, s1, es, item', rfl, hitem, -, -, -, hkind, hterms, hents,
    hdeferred, hdistributed⟩ := corporateApply_ok h
  obtain ⟨hs1, hass, hact⟩ := applyKind_sound hkind hs
  have hitem1 : s1.corporateActions.get? id = some item := hact ▸ hitem
  refine ⟨hs1.setItem hitem1 hterms hents (fun hk => ?_) ?_ hs1.deferred_le rfl,
    ⟨hass.orders, hass.cashLots, hass.cashHolds, hass.liabilities, hass.lastEventAt, hass.payables⟩⟩
  · rw [hdeferred]
    exact hs.items id item hitem (hterms ▸ hk)
  · by_cases hk : item.terms.action.kind = .dividend
    · simp [hdistributed, hdeferred, hk]
    · have h0 := hs.items id item hitem hk
      simp [hdeferred, h0]

theorem corporatePay_sound (h : corporatePay spec id at_ s = .ok o) (hs : Sound s) :
    Sound o.state := by
  obtain ⟨item, receivable, item', receivable', rfl, hitem, hopen, -, -, hterms,
    hents, hdeferred, hdistributed, -⟩ := corporatePay_ok h
  refine hs.setItem hitem hterms hents (fun _ => hdeferred) ?_
    (sub_le_sub_right hs.deferred_le _) rfl
  simp [hdistributed, hopen]
  ring

variable {a : LotConsideration}

theorem carryOne_sound {replacementId : String}
    {actions : Dict String CorporateItem} {d d' : Dict String Obligation}
    {e : String × Obligation} (h : carryOne replacementId a d e = .ok d')
    (he : ObligationSound actions e.2) (hd : ∀ k o, d.get? k = some o → ObligationSound actions o) :
    ∀ k o, d'.get? k = some o → ObligationSound actions o := by
  simp only [carryOne, bind_ok, refuse_ok, pure_ok] at h
  obtain ⟨-, -, rfl⟩ := h
  intro k o ho
  rw [Dict.get?_set] at ho
  split at ho
  · cases ho
    exact ⟨he.basis, he.assessed, he.dividend⟩
  · exact hd k o ho

theorem treatTax_sound {terms : SettlementTerms} {tax : ℚ}
    (h : treatTax spec terms at_ a s = .ok (s', tax, es)) (hs : Sound s) :
    Sound s' ∧ Assessed s s' := by
  simp only [treatTax] at h
  split at h
  · simp only [bind_ok, refuse_ok, pure_ok, Prod.mk.injEq] at h
    obtain ⟨-, -, rfl, -, -⟩ := h
    exact ⟨hs, Assessed.refl s⟩
  · exact assessDisposal_sound h a.oldQuantity_pos.le hs
  · simp only [bind_ok, refuse_ok, pure_ok, Prod.mk.injEq] at h
    obtain ⟨-, -, obligations, hwalk, rfl, -, -⟩ := h
    have hob := walk_induction (P := fun d : Dict String Obligation =>
      ∀ k o, d.get? k = some o → ObligationSound s.corporateActions o) hwalk
      hs.obligations fun _ x _ hx hd hone => by
        have hmem := (List.mem_filter.mp hx).1
        exact carryOne_sound hone
          (hs.obligations x.1 x.2 (Dict.mem_entries.mp hmem)) hd
    exact ⟨⟨hs.orders, hob, hs.items, hs.holds, hs.deferred, hs.deferred_le⟩,
      ⟨rfl, rfl, rfl, rfl, rfl, le_rfl⟩⟩

theorem convertOne_sound {terms : SettlementTerms} {acc acc' : Conversion}
    (h : convertOne spec terms at_ acc a = .ok acc')
    (hs : Sound acc.state) : Sound acc'.state ∧ Assessed acc.state acc'.state := by
  obtain ⟨lot, s1, tax, es1, s2, es2, created, retired, rfl, -, htax, hreplace,
    -⟩ := convertOne_ok h
  obtain ⟨hs1, hass1⟩ := treatTax_sound htax hs
  rcases replaceLot_ok hreplace with ⟨-, rfl, -⟩ | ⟨-, new, next, rfl, -⟩
  · exact ⟨hs1.of_same hs1.orders rfl rfl rfl rfl hs1.deferred_le,
      ⟨hass1.orders, hass1.cashLots, hass1.cashHolds, hass1.liabilities,
        hass1.lastEventAt, hass1.payables⟩⟩
  · exact ⟨hs1.of_same hs1.orders rfl rfl rfl rfl hs1.deferred_le,
      ⟨hass1.orders, hass1.cashLots, hass1.cashHolds, hass1.liabilities,
        hass1.lastEventAt, hass1.payables⟩⟩

theorem specialSettlement_sound {terms : SettlementTerms}
    (h : specialSettlement spec terms at_ s = .ok o) (hs : Sound s) :
    Sound o.state ∧ Assessed s o.state := by
  obtain ⟨-, c, receivables, item, claim, hwalk, -, -, -, rfl⟩ :=
    specialSettlement_ok h
  obtain ⟨hsc, hass⟩ := walk_induction (P := fun c : Conversion =>
    Sound c.state ∧ Assessed s c.state) hwalk ⟨hs, Assessed.refl s⟩
    fun _ _ _ _ hc hone => by
      obtain ⟨h1, h2⟩ := convertOne_sound hone hc.1
      exact ⟨h1, hc.2.trans h2⟩
  exact ⟨hsc.of_same hsc.orders rfl rfl rfl rfl hsc.deferred_le,
    ⟨hass.orders, hass.cashLots, hass.cashHolds, hass.liabilities,
      hass.lastEventAt, hass.payables⟩⟩

/-! ## Every operation -/

theorem settleable_le (s : AccountState) :
    settleable z s at_ ≤ s.payables - s.deferredDividendTax := min_le_left _ _

/-- The facts hold of whatever an operation leaves. -/
theorem perform_sound {aid : String} {r : AccountRequest} (hcheck : r.check = .ok ())
    (h : perform spec aid r s = .ok o) (hs : Sound s) (hv : Valid s) : Sound o.state := by
  cases r with
  | reserveBatch orders at_ => exact reserveBatch_sound h hs hv
  | fill id quantity price at_ =>
      simp only [AccountRequest.check, refuse_ok, not_or, not_le] at hcheck
      exact fill_sound h hcheck.1 hcheck.2 hs hv
  | cancelRequest id at_ =>
      obtain ⟨order, horder, -, rfl⟩ := cancelRequest_ok h
      have ho := hs.orders id order horder
      exact hs.setOrder ⟨ho.turnover, ho.filled, ho.within, ho.claims⟩
  | release id reason at_ =>
      obtain ⟨order, horder, -, -, rfl⟩ := release_ok h
      have ho := hs.orders id order horder
      exact hs.setOrder ⟨ho.turnover, ho.filled, ho.within, by simp⟩
  | checkpoint at_ =>
      cases h
      exact hs
  | settlePayables at_ =>
      obtain ⟨lots, -, rfl⟩ := settlePayables_ok h
      refine hs.of_same hs.orders rfl rfl rfl rfl ?_
      have hle : settleable spec.zone s at_ ≤ _ := settleable_le s
      simp only
      linarith
  | corporateRegister terms at_ =>
      simp only [perform, bind_ok] at h
      obtain ⟨_, hr, h⟩ := h
      exact corporateRegister_sound hr h hs hv
  | corporateApply id at_ => exact (corporateApply_sound h hs).1
  | corporatePay id at_ => exact corporatePay_sound h hs
  | specialSettlement terms at_ =>
      simp only [perform, bind_ok] at h
      obtain ⟨_, -, h⟩ := h
      exact (specialSettlement_sound h hs).1
  | specialSettlementPay id at_ =>
      obtain ⟨item, rid, receivable, receivable', item', rfl, -⟩ :=
        specialSettlementPay_ok h
      exact hs.of_same hs.orders rfl rfl rfl rfl hs.deferred_le

end Ahunter.Sim
