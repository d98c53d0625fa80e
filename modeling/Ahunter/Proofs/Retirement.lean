import Ahunter.Proofs.Clock
import Ahunter.Proofs.LotOrigins
import Ahunter.Proofs.SellOrders
import Ahunter.Proofs.TaxUnits

/-!
# Retired securities

A special settlement empties every lot of its security, and from then on the
security has no shares and no live order: purchases and live orders of it
would need a reservation, which is refused, a corporate action has no shares
of it to work on, and another settlement may not replace anything by it. What
its lots had outstanding in dividend tax is carried over or assessed, each
obligation once.

As in the previous modules no lot key may be used twice and no advance may
take up an order that was released behind its workflow's back: such an order
would be live again although its security is retired.
-/

namespace Ahunter.Sim

open Ahunter.Lib

variable {spec : AccountSpec} {at_ : Instant}

/-! ## The invariant -/

variable {s t : AccountState} {as : List Act} {es : List Entry}

/-- Only orders that hold their resources are moved. -/
def Discipline.careful : Discipline where
  act := fun _ => True
  move := fun o _ => o.status.held = true
  send := fun o => o.status = .reserved

theorem Discipline.careful_open : careful.Open := ⟨fun _ => trivial, fun _ h => h⟩

structure RetiredIn (security : String) (s : AccountState) : Prop where
  lots : AllLots (fun l => l.security = security → l.quantity = 0) s.stockLots
  orders : ∀ id o, s.orders.get? id = some o → o.security = security →
    o.status.held = false

structure SettledSound (spec : AccountSpec) (s : AccountState) : Prop where
  shares : ShareSound spec s
  units : s.Units
  priced : AllLots StockLot.Priced s.stockLots
  retired : ∀ id item, s.specialSettlements.get? id = some item →
    RetiredIn item.terms.security s

theorem LedgerStep.strict (h : LedgerStep spec .careful s as es t) :
    LedgerStep spec .strict s as es t := by
  cases h with
  | account hcheck hrun hseal hact => exact .account hcheck hrun hseal trivial
  | moved horder hheld hmove hrun hseal =>
      exact .moved horder hheld (fun _ => hmove) hrun hseal
  | marked horder hstatus => exact .marked horder hstatus
  | resealed hseal => exact .resealed hseal

/-! ## Orders of a retired security -/

variable {id : String} {o : Outcome} {r : AccountRequest}

theorem Evolves.unheld {o o' : Order} (h : Evolves .careful id o o') (ho : o.status.held = false) :
    o'.status.held = false := by
  cases h.move with
  | kept hstatus hfilled => rwa [hstatus]
  | filled hact hexec hstatus =>
      rw [OrderStatus.held_of_executable hexec] at ho
      cases ho
  | requested hact hopen hstatus hfilled =>
      rcases hopen with h | h <;> rw [h] at ho <;> cases ho
  | released hact hheld hreason hstatus hfilled =>
      rw [hstatus]
      exact hreason
  | moved hmove hheld hfilled =>
      have hwas : o.status.held = true := hmove
      rw [hwas] at ho
      cases ho
  | sent hsend hstatus hfilled =>
      have hreserved : o.status = .reserved := hsend
      rw [hreserved] at ho
      cases ho

theorem reserveBatch_open {orders : List Reservation} (h : reserveBatch spec orders at_ s = .ok o) :
    ∀ r ∈ orders, ∀ item ∈ s.specialSettlements.values, item.terms.security ≠ r.security := by
  simp only [reserveBatch, bind_ok] at h
  obtain ⟨acc, hwalk, -⟩ := h
  have hloop : ∀ (rs : List Reservation) (a b : AccountState × List Entry),
      walk (reserveOne spec at_) a rs = .ok b →
      ∀ r ∈ rs, ∀ item ∈ a.1.specialSettlements.values,
        item.terms.security ≠ r.security := by
    intro rs
    induction rs with
    | nil => simp
    | cons q rs ih =>
        rintro ⟨s, es⟩ b hb r hr item hitem heq
        obtain ⟨⟨s', es'⟩, hone, hrest⟩ := walk_cons_ok.mp hb
        obtain ⟨fees, hfees, -, hcases⟩ := reserveOne_ok hone
        rcases List.mem_cons.mp hr with rfl | hr
        · simp only [reservable, bind_ok, refuse_ok] at hfees
          obtain ⟨-, hopen, -⟩ := hfees
          exact hopen ⟨item, hitem, heq⟩
        · refine ih _ _ hrest r hr item ?_ heq
          rcases hcases with ⟨-, -, rfl, -⟩ | ⟨-, -, rfl, -⟩
          · exact hitem
          · exact hitem
  exact hloop _ _ _ hwalk

variable {aid : String}

theorem perform_order (hcheck : r.check = .ok ())
    (h : perform spec aid r s = .ok o) (hs : Sound s) {j : String} {p : Order}
    (hp : o.state.orders.get? j = some p) :
    (∃ q, s.orders.get? j = some q ∧ Evolves .careful j q p) ∨
      ∀ item ∈ s.specialSettlements.values, item.terms.security ≠ p.security := by
  cases hq : s.orders.get? j with
  | some q =>
      obtain ⟨p', hp', he⟩ := perform_evolves (d := .careful) hcheck trivial h hs hq
      cases hp.symm.trans hp'
      exact Or.inl ⟨q, rfl, he⟩
  | none =>
      have hreserves : j ∈ r.reserves := by
        by_contra hnot
        rw [perform_absent h hs hq hnot] at hp
        cases hp
      cases r with
      | reserveBatch orders t =>
          obtain ⟨r, hr, rfl⟩ := List.mem_map.mp hreserves
          obtain ⟨hres, -⟩ := reserveBatch_ok h
          obtain ⟨cash, stock, hstored⟩ := hres.stored r hr
          cases hstored.symm.trans hp
          exact Or.inr (reserveBatch_open h r hr)
      | _ => cases hreserves

/-! ## Operations -/

variable {security : String} {terms : SettlementTerms}

theorem RetiredIn.lotFrom {l l' : StockLot} (hs : RetiredIn security s)
    (hitem : ∃ item ∈ s.specialSettlements.values, item.terms.security = security)
    (h : LotFrom spec s r l l') (hl : l.security = security → l.quantity = 0) :
    l'.security = security → l'.quantity = 0 := by
  intro hsec
  cases h with
  | sold horder hexec hlot hn =>
      have hnone := hs.orders _ _ horder (hlot.symm.trans hsec)
      rw [OrderStatus.held_of_executable hexec] at hnone
      cases hnone
  | divided hold hq => exact absurd (hl hsec) hold
  | rebased hbasis => exact hl hsec
  | bonus hsame hnone hnonneg => exact hnone (hl (hsame.symm.trans hsec))
  | retired => rfl
  | replaced hmatch hnew =>
      obtain ⟨item, hmem, hretired⟩ := hitem
      simp only [settlementMatches, bind_ok, refuse_ok] at hmatch
      obtain ⟨-, -, -, hopen, -⟩ := hmatch
      refine absurd ⟨item, hmem, Or.inr ?_⟩ hopen
      rw [hnew.security, hsec, hretired]

theorem RetiredIn.perform (h : RetiredIn security s)
    (hitem : ∃ item ∈ s.specialSettlements.values, item.terms.security = security)
    (hcheck : r.check = .ok ()) (hrun : Sim.perform spec aid r s = .ok o) (hs : ShareSound spec s)
    (hb : Bound spec.zone o.at_ s.stockLots s.orders)
    (hnonneg : AllLots (fun l => 0 ≤ l.quantity) o.state.stockLots) :
    RetiredIn security o.state := by
  refine ⟨?_, fun j p hp hsec => ?_⟩
  · refine perform_lots hcheck hrun hs.funded.sound hs.funded.valid hs.entitled hb
      hnonneg (fun _ _ hl hfrom => h.lotFrom hitem hfrom hl) ?_ h.lots
    intro id l hbought hsec
    obtain ⟨p, hp, hexec, hlot⟩ := hbought.order
    have hnone := h.orders id p hp (hlot.symm.trans hsec)
    rw [OrderStatus.held_of_executable hexec] at hnone
    cases hnone
  · rcases perform_order hcheck hrun hs.funded.sound hp with ⟨q, hq, he⟩ | hopen
    · exact he.unheld (h.orders j q hq ((congrArg Reservation.security
        he.reservation).symm.trans hsec))
    · obtain ⟨item, hmem, hretired⟩ := hitem
      exact absurd (hretired.trans hsec.symm) (hopen item hmem)

theorem conversions_empty {acc acc' : Conversion} {as : List LotConsideration}
    (h : walk (convertOne spec terms at_) acc as = .ok acc')
    (hlots : ∀ k l, acc.state.stockLots.get? k = some l →
      l.security = terms.security → l.quantity ≠ 0 → k ∈ as.map LotConsideration.lotId) :
    AllLots (fun l => l.security = terms.security → l.quantity = 0) acc'.state.stockLots := by
  induction as generalizing acc with
  | nil =>
      cases h
      intro k l hl hsec
      by_contra hne
      exact absurd (hlots k l hl hsec hne) List.not_mem_nil
  | cons a as ih =>
      obtain ⟨mid, hone, hrest⟩ := walk_cons_ok.mp h
      refine ih hrest fun k l hl hsec hne => ?_
      obtain ⟨lot, s1, tax, es1, s2, es2, created, retired, rfl, -, htax, hreplace, -⟩ :=
        convertOne_ok hone
      obtain ⟨-, hlots1, -⟩ := treatTax_writes htax
      rw [Dict.get?_set] at hl
      split at hl
      · cases hl
        exact absurd rfl hne
      · next hk =>
          -- A replacement is of another security.
          have hold : acc.state.stockLots.get? k = some l := by
            rcases replaceLot_ok hreplace with ⟨-, rfl, -⟩ | ⟨-, new, next, rfl, -, hnew⟩
            · rwa [hlots1] at hl
            · rw [Dict.get?_set] at hl
              split at hl
              · cases hl
                exact absurd (hsec ▸ hnew.security) terms.retires
              · rwa [hlots1] at hl
          rcases List.mem_cons.mp (hlots k l hold hsec hne) with hk' | hmem
          · exact absurd hk' hk
          · exact hmem

theorem settlementMatches_covers (h : settlementMatches terms s = .ok ()) {k : String}
    {l : StockLot} (hl : s.stockLots.get? k = some l) (hsec : l.security = terms.security)
    (hne : l.quantity ≠ 0) : k ∈ terms.allocations.map LotConsideration.lotId := by
  simp only [settlementMatches, bind_ok, refuse_ok] at h
  obtain ⟨-, -, -, -, -, hlots, -⟩ := h
  push Not at hlots
  refine hlots.2.1 k (Dict.mem_keys.mpr (Dict.mem_keys_ofList.mpr ?_))
  refine List.mem_map.mpr ⟨_, List.mem_map.mpr ⟨(k, l), List.mem_filter.mpr
    ⟨Dict.mem_entries.mpr hl, ?_⟩, rfl⟩, rfl⟩
  simpa using ⟨hsec, hne⟩

theorem specialSettlement_retires (h : specialSettlement spec terms at_ s = .ok o) (hs : Sound s) :
    RetiredIn terms.security o.state := by
  have horders := (specialSettlement_sound h hs).2.orders
  obtain ⟨hmatch, c, receivables, item, claim, hwalk, -, -, -, rfl⟩ :=
    specialSettlement_ok h
  refine ⟨conversions_empty hwalk fun k l hl hsec hne =>
    settlementMatches_covers hmatch hl hsec hne, fun id p hp hsec => ?_⟩
  rw [horders] at hp
  exact (settlementMatches_ok hmatch).2.1 id p hp hsec

theorem specialSettlement_items (h : specialSettlement spec terms at_ s = .ok o) :
    ∃ item : SettlementItem, item.terms = terms ∧
      o.state.specialSettlements = s.specialSettlements.set terms.settlementId item := by
  simp only [specialSettlement, bind_ok, refuse_ok, pure_ok] at h
  obtain ⟨_, -, c, hwalk, -, -, rfl⟩ := h
  have hframe := conversions_frame hwalk
  simp only [AccountState.frame, Prod.mk.injEq] at hframe
  refine ⟨_, ?_, congrArg (Dict.set · terms.settlementId _) hframe.2.2.2⟩
  rfl

theorem perform_settlements (h : perform spec aid r s = .ok o)
    {item' : SettlementItem} (hitem' : o.state.specialSettlements.get? id = some item') :
    (∃ item, s.specialSettlements.get? id = some item ∧ item'.terms = item.terms) ∨
      ∃ t, r = .specialSettlement item'.terms t := by
  cases hsettles : r.settles with
  | false =>
      rw [(perform_frame h).2.2.2 hsettles] at hitem'
      exact Or.inl ⟨item', hitem', rfl⟩
  | true =>
      cases r with
      | specialSettlement terms t =>
          simp only [perform, bind_ok] at h
          obtain ⟨_, -, h⟩ := h
          obtain ⟨item, hnew, hset⟩ := specialSettlement_items h
          rw [hset, Dict.get?_set] at hitem'
          split at hitem'
          · cases hitem'
            exact Or.inr ⟨t, by rw [hnew]⟩
          · exact Or.inl ⟨item', hitem', rfl⟩
      | specialSettlementPay pid t =>
          obtain ⟨item, rid, receivable, receivable', new, rfl, hitem, -, -, hterms⟩ :=
            specialSettlementPay_ok h
          rw [Dict.get?_set] at hitem'
          split at hitem'
          · next hid =>
              cases hitem'
              exact Or.inl ⟨item, hid ▸ hitem, hterms⟩
          · exact Or.inl ⟨item', hitem', rfl⟩
      | _ => cases hsettles

/-! ## Steps and runs -/

theorem RetiredIn.same (h : RetiredIn security s) (hlots : t.stockLots = s.stockLots)
    (horders : t.orders = s.orders) : RetiredIn security t :=
  ⟨hlots ▸ h.lots, horders ▸ h.orders⟩

theorem RetiredIn.setOrder {o o' : Order} (h : RetiredIn security s)
    (ho : s.orders.get? id = some o) (hres : o'.toReservation = o.toReservation)
    (hheld : o'.status.held = true → o.status.held = true) :
    RetiredIn security (s.setOrder id o') := by
  refine ⟨h.lots, fun j p hp hsec => ?_⟩
  rw [AccountState.setOrder_orders, Dict.get?_set] at hp
  split at hp
  · cases hp
    rw [hres] at hsec
    exact Bool.eq_false_iff.mpr fun hp => by
      rw [h.orders id o ho hsec] at hheld
      exact absurd (hheld hp) (by simp)
  · exact h.orders j p hp hsec

variable {operation : Operation} {o' : Outcome}

theorem SealedAs.units (h : SealedAs operation o o') (hu : o.state.Units) : o'.state.Units := by
  obtain ⟨obligations, total, hrenewed, -, hstate⟩ := h.state
  rw [hstate]
  exact UnitsMatch.renewed hu hrenewed

theorem SealedAs.settledSound (h : SealedAs operation o o')
    (hshares : ShareSound spec o'.state) (hu : o.state.Units)
    (hp : AllLots StockLot.Priced o.state.stockLots)
    (hr : ∀ id item, o.state.specialSettlements.get? id = some item →
      RetiredIn item.terms.security o.state) : SettledSound spec o'.state := by
  refine ⟨hshares, h.units hu, ?_, ?_⟩
  · obtain ⟨obligations, total, -, -, hstate⟩ := h.state
    rw [hstate]
    exact hp
  · obtain ⟨obligations, total, -, -, hstate⟩ := h.state
    rw [hstate]
    exact fun id item hitem => (hr id item hitem).same rfl rfl

theorem LedgerStep.settledSound (h : LedgerStep spec .careful s as es t)
    (hfresh : FreshKeys s (as.flatMap fun a => a.2.lotKeys a.1 t)) (hs : SettledSound spec s) :
    SettledSound spec t := by
  have hshares := h.strict.shareSound hfresh hs.shares
  have hsound := hs.shares.funded.sound
  have hvalid := hs.shares.funded.valid
  cases h with
  | @account aid r s o o' hcheck hrun hseal hact =>
      have hsealed := prepareState_ok hseal
      have hlast := perform_lastEventAt hcheck hrun hsound hvalid
      have hbound := hs.shares.boundAt (hlast ▸ hsealed.ordered)
      have hnonneg : AllLots (fun l => 0 ≤ l.quantity) o.state.stockLots := by
        intro k l hl
        have hl' : o'.state.stockLots.get? k = some l := by
          obtain ⟨_, _, -, -, hstate⟩ := hsealed.state
          rw [hstate]
          exact hl
        exact hshares.funded.valid.within.lot_nonneg hshares.funded.sound.claims hl'
      refine hsealed.settledSound hshares
        (perform_units hrun hsound hvalid (perform_fresh hrun hseal hfresh) hs.units)
        (perform_lots hcheck hrun hsound hvalid hs.shares.entitled hbound hnonneg
          (fun _ _ hl hfrom => hfrom.priced hl)
          (fun _ _ hb => ⟨hb.quantity, hb.costBasis⟩) hs.priced)
        fun id item hitem => ?_
      rcases perform_settlements hrun hitem with ⟨old, hold, hterms⟩ | ⟨t, rfl⟩
      · rw [hterms]
        exact (hs.retired id old hold).perform
          ⟨old, Dict.mem_values.mpr ⟨id, hold⟩, rfl⟩ hcheck hrun hs.shares hbound hnonneg
      · simp only [perform, bind_ok] at hrun
        obtain ⟨_, -, hrun⟩ := hrun
        exact specialSettlement_retires hrun hsound
  | @moved aid id reason status at_ vis s order o o' horder hheld hmove hrun hseal =>
      obtain ⟨order', horder', rfl⟩ := orderMarketState_ok hrun
      cases horder.symm.trans horder'
      exact (prepareState_ok hseal).settledSound hshares hs.units hs.priced
        fun k item hitem => (hs.retired k item hitem).setOrder horder rfl fun _ => hmove
  | @marked id s order status t horder hstatus =>
      refine ⟨hshares, hs.units, hs.priced, fun k item hitem =>
        (hs.retired k item hitem).setOrder horder rfl fun hheld => ?_⟩
      rcases hstatus with rfl | ⟨-, hsend⟩
      · exact hheld
      · have hreserved : order.status = .reserved := hsend
        rw [hreserved]
        rfl
  | resealed hseal =>
      exact (prepareState_ok hseal).settledSound hshares hs.units hs.priced hs.retired

theorem LedgerRun.settledSound (h : LedgerRun spec .careful s as es t)
    (hfresh : FreshKeys s (as.flatMap fun a => a.2.lotKeys a.1 t)) (hs : SettledSound spec s) :
    SettledSound spec t :=
  h.fresh_invariant hfresh hs fun _ _ _ _ ha hstep hkeys =>
    hstep.settledSound hkeys ha

theorem opening_settledSound (hinit : initializeAccount spec = .ok o)
    (hseal : prepareState spec .opening o = .ok o') : SettledSound spec o'.state := by
  refine (prepareState_ok hseal).settledSound (opening_shareSound hinit hseal) ?_ ?_ ?_
  · simp only [initializeAccount, bind_ok, refuse_ok, pure_ok] at hinit
    obtain ⟨-, -, rfl⟩ := hinit
    intro k ob hob
    simp [initialState] at hob
  · simp only [initializeAccount, bind_ok, refuse_ok, pure_ok] at hinit
    obtain ⟨-, -, rfl⟩ := hinit
    intro k l hl
    have hmem := Dict.get?_ofList hl
    obtain ⟨⟨p, i⟩, -, heq⟩ := List.mem_map.mp hmem
    cases heq
    exact ⟨p.quantity_pos.le, p.costBasis_nonneg⟩
  · simp only [initializeAccount, bind_ok, refuse_ok, pure_ok] at hinit
    obtain ⟨-, -, rfl⟩ := hinit
    intro id item hitem
    simp [initialState] at hitem

/-! ## Settlements stay -/

theorem perform_settlements_kept (h : perform spec aid r s = .ok o)
    {item : SettlementItem} (hitem : s.specialSettlements.get? id = some item) :
    ∃ item', o.state.specialSettlements.get? id = some item' ∧ item'.terms = item.terms := by
  cases hsettles : r.settles with
  | false =>
      rw [(perform_frame h).2.2.2 hsettles]
      exact ⟨item, hitem, rfl⟩
  | true =>
      cases r with
      | specialSettlement terms t =>
          simp only [perform, bind_ok] at h
          obtain ⟨_, -, h⟩ := h
          obtain ⟨new, -, hset⟩ := specialSettlement_items h
          have hmatch := (specialSettlement_ok h).1
          simp only [settlementMatches, bind_ok, refuse_ok, Dict.contains_iff] at hmatch
          obtain ⟨-, hnew, -⟩ := hmatch
          have hne : id ≠ terms.settlementId := fun heq =>
            hnew ⟨item, heq ▸ hitem⟩
          exact ⟨item, by rw [hset, Dict.get?_set_of_ne hne, hitem], rfl⟩
      | specialSettlementPay pid t =>
          obtain ⟨old, rid, receivable, receivable', new, rfl, hold, -, -, hterms⟩ :=
            specialSettlementPay_ok h
          rw [Dict.get?_set]
          split
          · next hid =>
              subst hid
              cases hitem.symm.trans hold
              exact ⟨new, rfl, hterms⟩
          · exact ⟨item, hitem, rfl⟩
      | _ => cases hsettles

theorem prepareState_settlements (h : prepareState spec operation o = .ok o') :
    o'.state.specialSettlements = o.state.specialSettlements := by
  obtain ⟨_, _, -, -, hstate⟩ := (prepareState_ok h).state
  rw [hstate]

def SettlementsKept (s t : AccountState) : Prop :=
  ∀ id item, s.specialSettlements.get? id = some item →
    ∃ item', t.specialSettlements.get? id = some item' ∧ item'.terms = item.terms

theorem SettlementsKept.refl (s : AccountState) : SettlementsKept s s :=
  fun _ item hitem => ⟨item, hitem, rfl⟩

theorem SettlementsKept.trans {u : AccountState} (h : SettlementsKept s t)
    (h' : SettlementsKept t u) : SettlementsKept s u := by
  intro id item hitem
  obtain ⟨item1, hitem1, hterms1⟩ := h id item hitem
  obtain ⟨item2, hitem2, hterms2⟩ := h' id item1 hitem1
  exact ⟨item2, hitem2, hterms2.trans hterms1⟩

theorem LedgerStep.settlementsKept {d : Discipline} (h : LedgerStep spec d s as es t) :
    SettlementsKept s t := by
  intro id item hitem
  cases h with
  | account hcheck hrun hseal hact =>
      rw [prepareState_settlements hseal]
      exact perform_settlements_kept hrun hitem
  | moved horder hheld hmove hrun hseal =>
      obtain ⟨order, -, rfl⟩ := orderMarketState_ok hrun
      rw [prepareState_settlements hseal]
      exact ⟨item, hitem, rfl⟩
  | marked horder hstatus => exact ⟨item, hitem, rfl⟩
  | resealed hseal =>
      rw [prepareState_settlements hseal]
      exact ⟨item, hitem, rfl⟩

theorem LedgerRun.settlementsKept {d : Discipline} (h : LedgerRun spec d s as es t) :
    SettlementsKept s t :=
  h.invariant (P := SettlementsKept s) (SettlementsKept.refl s) fun _ _ _ _ ha hone =>
    ha.trans hone.settlementsKept

/-! ## Careful runs -/

/-- The orders an advance takes up still hold their resources. A cancellation
whose order is filled takes up nothing. -/
def OrdersHeld (w : World) (at_ : Instant) : Prop :=
  ∀ s, w.account = some s → ∀ f ∈ dueFlows w.plans.workflows at_,
    f.state = .waitingMarket → ∀ o, s.orders.get? f.orderId = some o →
      (f.operation = .cancel ∧ o.status = .filled) ∨ o.status.held = true

instance (w : World) (at_ : Instant) : Decidable (OrdersHeld w at_) :=
  inferInstanceAs (Decidable (∀ s ∈ w.account,
    ∀ f ∈ dueFlows w.plans.workflows at_, f.state = .waitingMarket →
      ∀ o ∈ s.orders.get? f.orderId, _))

/-- What a step must meet for retired securities to stay retired. -/
def Careful (w : World) (c : Command) (w' : World) : Prop :=
  FreshLots w c w' ∧
    match c with
    | .advance _ at_ _ => OrdersHeld w at_
    | _ => True

instance (w : World) (c : Command) (w' : World) : Decidable (Careful w c w') :=
  c.casesOn (fun _ _ => @instDecidableAnd _ True _ _) (fun _ _ => @instDecidableAnd _ True _ _)
    (fun _ _ _ _ => @instDecidableAnd _ True _ _) (fun _ _ => @instDecidableAnd _ True _ _)
    (fun _ _ _ _ => @instDecidableAnd _ True _ _) (fun _ _ _ _ => @instDecidableAnd _ True _ _)
    (fun _ at_ _ => @instDecidableAnd _ (OrdersHeld w at_) _ _)
    (fun _ _ _ _ _ => @instDecidableAnd _ True _ _)

theorem step_careful {w w' : World} {c : Command} (hr : Reachable spec w)
    (h : step spec w c = .ok w') (hok : Careful w c w') : AccountChange spec .careful w w' := by
  refine step_change h Discipline.careful_open fun aid at_ proofs hc => ?_
  subst hc
  refine advanceRuns_of_held (C := fun _ => True) (reachable_plansSound hr)
    Discipline.careful_open (fun _ _ h => h trivial) fun s hs f hf _ hstate o ho => ?_
  rcases hok.2 s hs f hf hstate o ho with hfilled | hheld
  · exact Or.inl hfilled
  · exact Or.inr fun _ => hheld

theorem step_settledSound {w w' : World} {c : Command} (hr : Reachable spec w)
    (h : step spec w c = .ok w') (hok : Careful w c w')
    (hw : ∀ s, w.account = some s → SettledSound spec s) :
    ∀ s, w'.account = some s → SettledSound spec s := by
  intro t ht
  cases step_careful hr h hok with
  | none haccount => exact hw t (haccount ▸ ht)
  | opened hnone hinit hseal haccount hevents hstate =>
      cases haccount.symm.trans ht
      rw [hstate]
      exact opening_settledSound hinit hseal
  | @event s ev acts hs haccount hevents hkeys hrun =>
      cases haccount.symm.trans ht
      refine hrun.settledSound ?_ (hw s hs)
      rw [← hkeys]
      refine hok.1 s hs ev ?_
      rw [hevents, List.drop_left]
      exact List.mem_singleton.mpr rfl

theorem reachable_settledSound {w : World} (h : ReachableIf spec Careful w)
    (hs : w.account = some s) : SettledSound spec s :=
  h.invariant (P := fun w => ∀ s, w.account = some s → SettledSound spec s)
    (by simp [World.start]) (fun _ _ _ hr hw hstep hok =>
      step_settledSound hr.reachable hstep hok hw) s hs

/-- A state of a run, or further on within a stage that starts there, both
careful and writing no lot key twice. -/
def Onward (spec : AccountSpec) (w : World) (u : AccountState) : Prop :=
  ∃ v t acts es, Relation.ReflTransGen (StepIf spec Careful) w v ∧
    v.account = some t ∧ LedgerRun spec .careful t acts es u ∧
    FreshKeys t (acts.flatMap fun a => a.2.lotKeys a.1 u)

theorem run_settlementsKept {ok : World → Command → World → Prop} {w v : World}
    (h : Relation.ReflTransGen (StepIf spec ok) w v) (hs : w.account = some s) :
    ∃ t, v.account = some t ∧ SettlementsKept s t := by
  induction h with
  | refl => exact ⟨s, hs, SettlementsKept.refl s⟩
  | tail _ hstep ih =>
      obtain ⟨t, ht, hkept⟩ := ih
      obtain ⟨c, hc, -⟩ := hstep
      cases step_account hc with
      | none haccount => exact ⟨t, haccount ▸ ht, hkept⟩
      | opened hnone =>
          rw [hnone] at ht
          cases ht
      | event ht' haccount hevents hkeys hrun =>
          cases ht'.symm.trans ht
          exact ⟨_, haccount, hkept.trans hrun.settlementsKept⟩

theorem Onward.retired {w : World} {u : AccountState} (h : Onward spec w u)
    (hw : ReachableIf spec Careful w) (hs : w.account = some s) {item : SettlementItem}
    (hitem : s.specialSettlements.get? id = some item) :
    RetiredIn item.terms.security u ∧
      ∃ item', u.specialSettlements.get? id = some item' ∧ item'.terms = item.terms := by
  obtain ⟨v, t, acts, es, hrun, ht, hstage, hfresh⟩ := h
  obtain ⟨t', ht', hkept⟩ := run_settlementsKept hrun hs
  cases ht.symm.trans ht'
  obtain ⟨item', hitem', hterms⟩ := (hkept.trans hstage.settlementsKept) id item hitem
  have hsound := hstage.settledSound hfresh (reachable_settledSound (hw.trans hrun) ht)
  exact ⟨hterms ▸ hsound.retired id item' hitem', item', hitem', hterms⟩

end Ahunter.Sim
